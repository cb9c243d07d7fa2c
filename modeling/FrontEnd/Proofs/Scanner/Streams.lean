import FrontEnd.Proofs.Scanner.Requests

/-!
# One stream of answers

Where a scanner stands, one list of answers is ahead of it: those that it gives to requests for the
next token, up to the first closing token or diagnostic. Reading all tokens and pulling the stream
give that list as well, and so does every mixture of requests.
-/

namespace FrontEnd

namespace Scanner

/-- The answers ahead of a scanner, up to and including the first closing token or diagnostic. -/
def answers (s : Scanner) : List (Except Diagnostic Token) :=
  if more : isLast s.next.1 = false then
    have := next_unread_lt_of_isLast more
    s.next.1 :: answers s.next.2
  else [s.next.1]
termination_by s.cursor.unread.length

theorem answers_of_more {s : Scanner} (h : isLast s.next.1 = false) :
    s.answers = s.next.1 :: s.next.2.answers := by
  rw [answers, dif_pos h]

theorem answers_of_last {s : Scanner} (h : ¬ isLast s.next.1 = false) :
    s.answers = [s.next.1] := by
  rw [answers, dif_neg h]

/-- The next answer is the first one ahead. -/
theorem head?_answers (s : Scanner) : s.answers.head? = some s.next.1 := by
  by_cases h : isLast s.next.1 = false
  · rw [answers_of_more h, List.head?_cons]
  · rw [answers_of_last h, List.head?_cons]

/-- A scanner with more than one answer ahead does not give the last one next. -/
theorem isLast_of_one_lt {s : Scanner} (h : 1 < s.answers.length) : isLast s.next.1 = false := by
  by_contra hl
  rw [answers_of_last hl] at h
  exact absurd h (by simp)

/-- Ahead of a scanner are tokens other than the closing one, and then a last answer. -/
theorem exists_answers (s : Scanner) :
    ∃ (front : List (Except Diagnostic Token)) (last : Except Diagnostic Token),
      s.answers = front ++ [last] ∧ (∀ r ∈ front, isLast r = false) ∧ isLast last = true := by
  induction s using answers.induct with
  | case1 s more _ ih =>
      obtain ⟨front, last, hanswers, hfront, hlast⟩ := ih
      refine ⟨s.next.1 :: front, last, ?_, ?_, hlast⟩
      · rw [answers_of_more more, hanswers, List.cons_append]
      · intro r hr
        rcases List.mem_cons.mp hr with rfl | hr
        · exact more
        · exact hfront r hr
  | case2 s last => exact ⟨[], s.next.1, answers_of_last last, by simp, by simpa using last⟩

/-! ## Reading everything -/

/-- The tokens of answers, or the first diagnostic among them. -/
def gather (answers : List (Except Diagnostic Token)) : Except Diagnostic (List Token) :=
  answers.mapM id

theorem gather_ok (token : Token) (rest : List (Except Diagnostic Token)) :
    gather (.ok token :: rest) = (gather rest).map (token :: ·) := by
  rw [gather, List.mapM_cons, ← gather]
  cases gather rest <;> rfl

/-- An answer that is not the last one is a token other than the closing one. -/
theorem exists_token_of_more {s : Scanner} (h : isLast s.next.1 = false) :
    ∃ token : Token, s.next = (.ok token, s.next.2) ∧ token.isEnd = false := by
  cases hnext : s.next with
  | mk result t =>
      rw [hnext] at h
      cases result with
      | error d => cases h
      | ok token => exact ⟨token, rfl, h⟩

/-- The last answer is a diagnostic or the closing token. -/
theorem exists_of_last {s : Scanner} (h : ¬ isLast s.next.1 = false) :
    (∃ d, s.next.1 = .error d) ∨
      ∃ token : Token, s.next = (.ok token, s.next.2) ∧ token.isEnd = true := by
  cases hnext : s.next with
  | mk result t =>
      rw [hnext] at h
      cases result with
      | error d => exact Or.inl ⟨d, rfl⟩
      | ok token => exact Or.inr ⟨token, rfl, by simpa [isLast] using h⟩

/-- Reading all tokens gathers the answers ahead, behind the tokens already read. -/
theorem readAll_eq_gather (s : Scanner) (tokens : List Token) :
    (s.readAll tokens).1 = (gather s.answers).map (tokens.reverse ++ ·) := by
  induction s using answers.induct generalizing tokens with
  | case1 s more _ ih =>
      obtain ⟨token, hnext, hend⟩ := exists_token_of_more more
      rw [readAll_more hnext hend, ih, answers_of_more more, hnext, gather_ok]
      cases gather s.next.2.answers <;> simp [Except.map]
  | case2 s last =>
      rw [answers_of_last last]
      obtain ⟨d, hd⟩ | ⟨token, hnext, hend⟩ := exists_of_last last
      · rw [readAll_error hd, hd]
        rfl
      · rw [readAll_end hnext hend, List.reverse_cons, hnext]
        rfl

/-- Pulling a token off the stream goes on behind it. -/
theorem collectAll_more {s t : Scanner} {token : Token} (h : s.pull = (some (.ok token), t))
    (tokens : List Token) : s.collectAll tokens = t.collectAll (token :: tokens) := by
  rw [collectAll]
  split <;> rename_i heq <;> rw [h] at heq <;> cases heq
  rfl

theorem collectAll_end {s t : Scanner} (h : s.pull = (none, t)) (tokens : List Token) :
    s.collectAll tokens = (.ok tokens.reverse, t) := by
  rw [collectAll]
  split <;> rename_i heq <;> rw [h] at heq <;> cases heq
  rfl

theorem collectAll_error {s t : Scanner} {d : Diagnostic} (h : s.pull = (some (.error d), t))
    (tokens : List Token) : s.collectAll tokens = (.error d, t) := by
  rw [collectAll]
  split <;> rename_i heq <;> rw [h] at heq <;> cases heq
  rfl

/-- The stream shows all of an answer that is not the last one. -/
theorem item?_of_more {r : Except Diagnostic Token} (h : isLast r = false) : item? r = some r := by
  cases r with
  | error d => cases h
  | ok token =>
      have hend : token.isEnd = false := h
      simp [item?, hend]

/-- A stream that has not ended shows an answer that is not the last one, and stands behind it as
behind a request for the next token. -/
theorem pull_of_more {s : Scanner} (hf : s.finished = false) (h : isLast s.next.1 = false) :
    s.pull = (some s.next.1, s.next.2) := by
  have hfinished := next_finished s
  rw [hf] at hfinished
  rw [pull_of_not_finished hf, item?_of_more h, h, ← hfinished]

/-- Pulling a stream to its end, where it has not ended yet, gathers what the stream shows of the
answers ahead, behind the tokens already pulled. -/
theorem collectAll_eq_gather {s : Scanner} (hf : s.finished = false) (tokens : List Token) :
    (s.collectAll tokens).1 = (gather (s.answers.filterMap item?)).map (tokens.reverse ++ ·) := by
  induction s using answers.induct generalizing tokens with
  | case1 s more _ ih =>
      have hfinished := next_finished s
      rw [hf] at hfinished
      have hpull := pull_of_more hf more
      have hitem := item?_of_more more
      obtain ⟨token, hnext, -⟩ := exists_token_of_more more
      rw [answers_of_more more, List.filterMap_cons_some hitem]
      rw [hnext] at hpull ⊢
      rw [collectAll_more hpull, ih hfinished, gather_ok]
      cases gather (s.next.2.answers.filterMap item?) <;> simp [Except.map]
  | case2 s last =>
      have hpull := pull_of_not_finished hf
      rw [answers_of_last last]
      obtain ⟨d, hd⟩ | ⟨token, hnext, hend⟩ := exists_of_last last
      · rw [hd] at hpull
        rw [collectAll_error hpull, hd]
        rfl
      · have hitem : item? (.ok token) = none := by simp [item?, hend]
        rw [hnext, hitem] at hpull
        rw [collectAll_end hpull, hnext, List.filterMap_cons_none hitem]
        exact congrArg Except.ok (List.append_nil _).symm

/-! ## Mixtures of requests -/

/-- How many answers requests for tokens and items take. A stream that has ended takes none. -/
def taken (s : Scanner) (requests : List Request) : Nat :=
  if s.finished then requests.count .next else requests.length

/-- A request for a token or an item takes the next answer, or it takes none from a stream that has
ended. -/
theorem perform_cases {r : Request} (hr : r ∈ [.next, .pull]) (s : Scanner) :
    (s.perform r = s ∧ ∀ requests, s.taken (r :: requests) = s.taken requests) ∨
      ((isLast s.next.1 = false → s.perform r = s.next.2) ∧
        ∀ requests, s.taken (r :: requests) = s.next.2.taken requests + 1) := by
  have hfinished := next_finished s
  cases r with
  | next =>
      refine Or.inr ⟨fun _ => rfl, fun requests => ?_⟩
      simp only [taken, hfinished, List.count_cons_self, List.length_cons]
      split <;> rfl
  | pull =>
      cases hf : s.finished with
      | true =>
          refine Or.inl ⟨by rw [perform, pull_of_finished hf], fun requests => ?_⟩
          simp [taken, hf]
      | false =>
          refine Or.inr ⟨fun more => by rw [perform, pull_of_more hf more], fun requests => ?_⟩
          simp [taken, hf, hfinished]
  | tokens => simp at hr
  | reset => simp at hr

/-- Requests for tokens and items that do not take the last answer leave ahead what they did not
take, and leave the stream as it is. -/
theorem performAll_answers {requests : List Request} (hr : requests ⊆ [.next, .pull]) {s : Scanner}
    (hk : s.taken requests < s.answers.length) :
    (s.performAll requests).answers = s.answers.drop (s.taken requests) ∧
      (s.performAll requests).finished = s.finished := by
  induction requests generalizing s with
  | nil => simp [taken]
  | cons r requests ih =>
      obtain ⟨hr, hrs⟩ := List.cons_subset.mp hr
      rw [performAll_cons]
      obtain ⟨hsame, htaken⟩ | ⟨hnext, htaken⟩ := perform_cases hr s
      · rw [htaken] at hk ⊢
        rw [hsame]
        exact ih hrs hk
      · rw [htaken] at hk ⊢
        -- Not all answers are taken, so this one is not the last one and either request goes on
        -- behind it.
        have more := isLast_of_one_lt (s := s) (by omega)
        rw [answers_of_more more, List.length_cons] at hk
        rw [hnext more, answers_of_more more, List.drop_succ_cons, ← next_finished s]
        exact ih hrs (by omega)

/-- The stream ends with the first request that does not show a token. -/
theorem finished_of_pull {s : Scanner} (h : ∀ token, s.pull.1 ≠ some (.ok token)) :
    s.pull.2.finished = true := by
  cases hf : s.finished with
  | true =>
      rw [pull_of_finished hf]
      exact hf
  | false =>
      by_contra hlast
      rw [pull_of_not_finished hf] at hlast h
      have more : isLast s.next.1 = false := by simpa using hlast
      obtain ⟨token, hnext, -⟩ := exists_token_of_more more
      refine h token ?_
      rw [item?_of_more more, hnext]

/-- Only moving back to the front opens a stream that has ended. -/
theorem finished_performAll {requests : List Request} (hr : .reset ∉ requests) {s : Scanner}
    (hf : s.finished = true) : (s.performAll requests).finished = true := by
  refine performAll_keeps (P := (·.finished = true)) ?_ ?_ ?_ hf
  · intro t ht
    exact (next_finished t).trans ht
  · intro t ht
    rw [pull_of_finished ht]
    exact ht
  · exact fun h => absurd h hr

/-- All ways of reading agree. Whatever was asked of a scanner before, a list of answers is ahead of
it: tokens, and then the closing token or a diagnostic.

- Reading all tokens gathers the answers, and pulling a stream that has not ended to its end gathers
  them without the closing token.
- Requests for tokens and items, in any mixture, take the answers one after another: the next one
  taken is the first one that is left, which a stream that has ended does not show, and reading all
  tokens gathers all that are left.
- A stream that has shown its end or a diagnostic shows nothing more until the scanner is moved
  back.
- Moved back to the front, the scanner is a new one. -/
theorem streams_agree (source : String) (requests : List Request) :
    let s := (ofString source).performAll requests
    (∃ (front : List (Except Diagnostic Token)) (last : Except Diagnostic Token),
      s.answers = front ++ [last] ∧ (∀ r ∈ front, isLast r = false) ∧ isLast last = true) ∧
    s.tokens.1 = gather s.answers ∧
    (s.finished = false → s.collect.1 = gather (s.answers.filterMap item?)) ∧
    (∀ mixture ⊆ [Request.next, .pull], ∀ answer, s.answers[s.taken mixture]? = some answer →
      (s.performAll mixture).next.1 = answer ∧
      (s.performAll mixture).pull.1 = (if s.finished then none else item? answer) ∧
      (s.performAll mixture).tokens.1 = gather (s.answers.drop (s.taken mixture))) ∧
    ((∀ token, s.pull.1 ≠ some (.ok token)) →
      ∀ later : List Request, .reset ∉ later → (s.pull.2.performAll later).pull.1 = none) ∧
    s.reset = ofString source := by
  intro s
  have htokens : ∀ t : Scanner, t.tokens.1 = gather t.answers := by
    intro t
    rw [tokens, readAll_eq_gather]
    cases gather t.answers <;> rfl
  refine ⟨exists_answers s, htokens s, fun hf => ?_, fun mixture hm answer hanswer => ?_,
    fun hend later hl => ?_, (reads_performAll source requests).reset⟩
  · rw [collect, collectAll_eq_gather hf]
    cases gather (s.answers.filterMap item?) <;> rfl
  · obtain ⟨hk, -⟩ := List.getElem?_eq_some_iff.mp hanswer
    obtain ⟨hdrop, hfinished⟩ := performAll_answers hm hk
    have hnext : (s.performAll mixture).next.1 = answer := by
      have h := head?_answers (s.performAll mixture)
      rw [hdrop, List.head?_drop, hanswer] at h
      exact (Option.some.inj h).symm
    refine ⟨hnext, ?_, by rw [htokens, hdrop]⟩
    cases hf : s.finished with
    | true => rw [pull_of_finished (hfinished.trans hf), if_pos rfl]
    | false => rw [pull_of_not_finished (hfinished.trans hf), hnext, if_neg Bool.false_ne_true]
  · rw [pull_of_finished (finished_performAll hl (finished_of_pull hend))]

/-- Behind the first word of `a&b` a lone ampersand is ahead, which reading all tokens reports. Once
the stream has shown it, it shows nothing more, though the second word can still be asked for. -/
theorem streams_agree_ampersand :
    let s := ofString "a&b"
    let report : Diagnostic := ⟨.undoubledCharacter, some '&', some "UNKNOWN", 1, 2⟩
    (s.performAll [.pull]).tokens.1 = .error report ∧
      (s.performAll [.pull]).pull.1 = some (.error report) ∧
      (∀ later : List Request, .reset ∉ later →
        ((s.performAll [.pull]).pull.2.performAll later).pull.1 = none) ∧
      (s.performAll [.pull, .pull]).next.1 = .ok ⟨.ident, "b", 1, 3⟩ := by
  intro s report
  have hanswer : s.answers[s.taken [.pull]]? = some (.error report) := by decide +kernel
  have hgather : gather (s.answers.drop (s.taken [.pull])) = .error report := by decide +kernel
  obtain ⟨-, -, -, hmixture, -⟩ := streams_agree "a&b" []
  obtain ⟨-, hpull, htokens⟩ := hmixture [.pull] (by decide) _ hanswer
  have hend : ∀ token, (s.performAll [.pull]).pull.1 ≠ some (.ok token) := by
    intro token h
    cases hpull.symm.trans h
  obtain ⟨-, -, -, -, hsilent, -⟩ := streams_agree "a&b" [.pull]
  exact ⟨htokens.trans hgather, hpull, hsilent hend, by decide +kernel⟩

end Scanner

end FrontEnd
