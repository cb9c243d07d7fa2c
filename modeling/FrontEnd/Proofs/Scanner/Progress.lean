import FrontEnd.Proofs.Scanner.Streams
import FrontEnd.Proofs.Text.Moves

/-!
# Progress of a scanner

Every request for the next token takes a scanner further, save two: at the end of the text and in
front of a character that starts no token it rests, and gives the same answer until it is moved back
to the front. So a scanner that is asked often enough comes to rest.
-/

namespace FrontEnd

namespace Scanner

/-- Whether an answer is one that the scanner rests on: the closing token, or the diagnostic of a
character that starts no token. -/
def isResting : Except Diagnostic Token → Bool
  | .ok token => token.isEnd
  | .error d => d.cause == .unexpectedCharacter

/-! ## Where a token starts -/

/-- The token read last starts behind a part of what the scanner has passed. -/
def Begun (s : Scanner) : Prop :=
  ∃ front part, s.before = front ++ part ∧ s.start = Place.start.afterAll front

/-- What the scanner has passed behind an answer. -/
theorem next_before {s : Scanner} (hs : s.cursor.Placed) :
    s.next.2.before = s.before ++ s.cursor.unread.take (answer s.before s.cursor.unread).2 := by
  rw [before, (next_eq_answer hs).2, Cursor.passed_pass, List.reverse_append,
    List.reverse_reverse, before]

theorem Begun.next {s : Scanner} (h : s.Begun) (hs : s.cursor.Placed) : s.next.2.Begun := by
  have hbefore := next_before hs
  cases hw : Gap.width? 0 s.cursor.unread with
  | none =>
      obtain ⟨front, part, hpassed, hfront⟩ := h
      exact ⟨front, part ++ _, by rw [hbefore, hpassed, List.append_assoc],
        (next_start_open hw).trans hfront⟩
  | some gap =>
      obtain ⟨m, hm⟩ := Nat.le.dest (le_answer s.before hw)
      refine ⟨s.before ++ s.cursor.unread.take gap, (s.cursor.unread.drop gap).take m, ?_, ?_⟩
      · rw [hbefore, ← hm, List.take_add, List.append_assoc]
      · exact (next_start hw).trans (hs.place_pass gap)

/-- Whatever has been asked of a scanner in front of a text, its token starts behind a part of what
it has passed. -/
theorem begun_performAll (source : String) (requests : List Request) :
    ((ofString source).performAll requests).Begun := by
  let P : Scanner → Prop := fun s => s.cursor.Placed ∧ s.Begun
  have hnext : ∀ s, P s → P s.next.2 := by
    rintro s ⟨hs, hb⟩
    exact ⟨next_placed hs, hb.next hs⟩
  have hpull : ∀ s, P s → P s.pull.2 := fun s => pull_keeps hnext (fun _ _ h => h)
  have hreset : ∀ s : Scanner, P s.reset := fun s => ⟨Cursor.placed_ofList _, [], [], rfl, rfl⟩
  have hfresh : P (ofString source) := ⟨Cursor.placed_ofList _, [], [], rfl, rfl⟩
  exact (performAll_keeps hnext hpull (fun _ s _ => hreset s) hfresh).2

/-- The slice from the start of a token is the part behind it that is passed. -/
theorem sliceFrom?_start {s : Scanner} (hs : s.cursor.Placed) {front part : List Char}
    (hb : s.before = front ++ part) (hstart : s.start = Place.start.afterAll front) :
    s.cursor.sliceFrom? s.start.offset = some (String.ofList part) := by
  have hpassed : s.cursor.passed.reverse = front ++ part := hb
  rw [hstart, Place.start_afterAll_offset]
  apply Cursor.sliceFrom?_append
  · rw [hpassed, ← String.ofList_append, String.toList_ofList]
  · rw [hs, hpassed, Place.start_afterAll_offset, String.ofList_append]

/-- Behind a token that is no literal, the slice from its start is its text. -/
theorem sliceFrom?_next {s : Scanner} (hs : s.cursor.Placed) {token : Token}
    (h : s.next.1 = .ok token) (hk : token.kind ∉ [Kind.string, Kind.char]) :
    s.next.2.cursor.sliceFrom? s.next.2.start.offset = some token.text := by
  have hplaced := next_placed hs
  rcases next_cases hs with ⟨gap, hu, hg⟩ | ⟨c, after, hu, hc⟩ | ⟨_, _, _, _, _, _, _, _, herror⟩
  · have hnext := next_end hs hu hg
    rw [hnext] at h hplaced ⊢
    cases h
    exact sliceFrom?_start hplaced (List.append_nil _).symm hplaced
  · have hnext := next_cell hs hu hc
    rw [hnext] at h hplaced ⊢
    cases h
    have htext : c.spelling.text = String.ofList c.spelling.chars := by
      cases hspelling : c.spelling with
      | symbol | word | number => rfl
      | string | char => simp [hspelling, Spelling.tokenBehind, Spelling.kind] at hk
    have hstart : (s.beyond c).start = Place.start.afterAll (s.before ++ gapChars c.gap) := by
      have hplace := hs.place_pass (gapChars c.gap).length
      rw [hu, Cell.chars, List.append_assoc, List.take_left] at hplace
      exact hplace
    have hbefore : (s.beyond c).before = s.before ++ gapChars c.gap ++ c.spelling.chars := by
      rw [beyond_before hu, Cell.chars, List.append_assoc]
    exact (sliceFrom?_start hplaced hbefore hstart).trans (congrArg some htext.symm)
  · rw [herror] at h
    cases h

/-! ## Rest -/

/-- Where a scanner rests, it passes the gap in front of it and no more, and gives the same answer
there. -/
theorem answer_of_isResting {before unread : List Char}
    (h : isResting (answer before unread).1 = true) :
    answer (before ++ unread.take (answer before unread).2)
        (unread.drop (answer before unread).2) = ((answer before unread).1, 0) := by
  obtain ⟨gap, after, rfl, hg, ho | ⟨body, rfl, hb⟩⟩ := Gap.exists_gap unread
  · have hw := Gap.width?_chars hg ho
    have hrest : Gap.width? 0 after = some 0 := Gap.width?_stop ho 0
    have hdrop : (gapChars gap ++ after).drop (gapChars gap).length = after := List.drop_left
    cases after with
    | nil =>
        have hend := answer_end before hw hdrop
        rw [hend, hdrop, answer_end _ hrest List.drop_nil, List.take_nil, List.append_nil]
    | cons c rest =>
        cases hscan : Lexeme.scan c rest with
        | ok l =>
            have hread := Lexeme.scan_reads ho
            rw [hscan] at hread
            obtain ⟨sp, -, hv, -, -, rfl⟩ := hread
            have hend := Spelling.isEnd_tokenBehind hv
            rw [answer_lexeme before hw hdrop hscan] at h
            exact absurd h (Bool.eq_false_iff.mp (hend _))
        | error f =>
            have hf := Lexeme.scan_within hscan
            have hfault := answer_fault before hw hdrop hscan
            have hcause : f.cause = .unexpectedCharacter := by
              rw [hfault] at h
              exact eq_of_beq h
            have hpassed : f.passed = 0 := hf.passed_eq_zero_iff.mpr hcause
            have hreported : f.reported = 0 := Nat.le_zero.mp (hpassed ▸ hf.reported_le)
            rw [hpassed, hreported, Nat.add_zero] at hfault
            rw [hfault, hdrop, answer_fault _ hrest List.drop_zero hscan, hpassed, hreported,
              List.take_zero, List.append_nil]
  · have hw : Gap.width? 0 (gapChars gap ++ '/' :: '*' :: body) = none := by
      rw [Gap.width?_gap hg, Gap.width?_open hb]
    rw [answer_open before hw] at h
    cases h

/-- Where a scanner does not rest, text is left and some of it is passed. -/
theorem pos_of_not_isResting {before unread : List Char}
    (h : isResting (answer before unread).1 = false) :
    unread ≠ [] ∧ 0 < (answer before unread).2 := by
  cases hw : Gap.width? 0 unread with
  | none =>
      have hne : unread ≠ [] := by
        rintro rfl
        rw [Gap.width?_stop rfl 0] at hw
        cases hw
      rw [answer_open before hw]
      exact ⟨hne, List.length_pos_iff.mpr hne⟩
  | some gap =>
      cases hd : unread.drop gap with
      | nil =>
          rw [answer_end before hw hd] at h
          cases h
      | cons c rest =>
          have hne : unread ≠ [] := by
            rintro rfl
            rw [List.drop_nil] at hd
            cases hd
          refine ⟨hne, ?_⟩
          rw [answer_reach before hw hd]
          cases hscan : Lexeme.scan c rest with
          | ok l => exact Nat.add_pos_right _ l.width_pos
          | error f =>
              rw [answer_fault before hw hd hscan] at h
              have hcause : f.cause ≠ .unexpectedCharacter := ne_of_beq_false h
              have hpassed : f.passed ≠ 0 :=
                fun hz => hcause ((Lexeme.scan_within hscan).passed_eq_zero_iff.mp hz)
              exact Nat.add_pos_right _ (Nat.pos_of_ne_zero hpassed)

/-- Where a scanner rests on its answer, every other scanner there gives that answer and stays. -/
theorem next_of_isResting {s t : Scanner} (hs : s.cursor.Placed) (h : isResting s.next.1 = true)
    (ht : t.cursor = s.next.2.cursor) : t.next.1 = s.next.1 ∧ t.next.2.cursor = t.cursor := by
  obtain ⟨hanswer, hcursor⟩ := next_eq_answer hs
  have hplaced : t.cursor.Placed := ht ▸ next_placed hs
  have hbefore : t.before = s.next.2.before := congrArg (fun c => c.passed.reverse) ht
  have hunread : t.cursor.unread =
      s.cursor.unread.drop (answer s.before s.cursor.unread).2 := by
    rw [ht, hcursor, Cursor.unread_pass]
  rw [hanswer] at h
  obtain ⟨hanswer', hcursor'⟩ := next_eq_answer hplaced
  rw [hbefore, next_before hs, hunread, answer_of_isResting h] at hanswer' hcursor'
  exact ⟨hanswer'.trans hanswer.symm, hcursor'⟩

/-- Once a scanner rests, it gives the same answer and stays until it is moved back to the front. -/
theorem performAll_of_isResting {s : Scanner} (hs : s.cursor.Placed)
    (h : isResting s.next.1 = true) {later : List Request} (hl : .reset ∉ later) :
    (s.next.2.performAll later).next.1 = s.next.1 ∧
      (s.next.2.performAll later).cursor = s.next.2.cursor := by
  let P : Scanner → Prop := fun t => t.cursor = s.next.2.cursor
  have hnext : ∀ t, P t → P t.next.2 := fun t ht => (next_of_isResting hs h ht).2.trans ht
  have hpull : ∀ t, P t → P t.pull.2 := fun t => pull_keeps hnext (fun _ _ ht => ht)
  have hkept : P (s.next.2.performAll later) :=
    performAll_keeps hnext hpull (fun h => absurd h hl) rfl
  exact ⟨(next_of_isResting hs h hkept).1, hkept⟩

/-! ## Progress -/

/-- An answer that the scanner does not rest on uses up text. -/
theorem next_unread_lt_of_not_isResting {s : Scanner} (hs : s.cursor.Placed)
    (h : isResting s.next.1 = false) :
    s.next.2.cursor.unread.length < s.cursor.unread.length := by
  obtain ⟨hanswer, hcursor⟩ := next_eq_answer hs
  rw [hanswer] at h
  obtain ⟨hne, hpos⟩ := pos_of_not_isResting h
  have hlength := List.length_pos_iff.mpr hne
  rw [hcursor, Cursor.unread_pass, List.length_drop]
  omega

/-- The scanner comes to rest within as many answers as characters are left, and one more. -/
theorem exists_isResting {s : Scanner} (hs : s.cursor.Placed) :
    ∃ k ≤ s.cursor.unread.length,
      isResting (s.performAll (List.replicate k .next)).next.1 = true := by
  induction hn : s.cursor.unread.length using Nat.strongRecOn generalizing s with
  | ind n ih =>
      cases hr : isResting s.next.1 with
      | true => exact ⟨0, Nat.zero_le _, hr⟩
      | false =>
          have hlt := next_unread_lt_of_not_isResting hs hr
          obtain ⟨k, hk, hrest⟩ := ih _ (hn ▸ hlt) (next_placed hs) rfl
          refine ⟨k + 1, by omega, ?_⟩
          rw [List.replicate_succ, performAll_cons]
          exact hrest

/-- Reading all tokens adds no more than one token for each character that is left, and the closing
token. -/
theorem readAll_length_le {s : Scanner} {tokens ts : List Token}
    (h : (s.readAll tokens).1 = .ok ts) :
    ts.length ≤ tokens.length + s.cursor.unread.length + 1 := by
  induction s using answers.induct generalizing tokens with
  | case1 s more hlt ih =>
      obtain ⟨token, hnext, hend⟩ := exists_token_of_more more
      rw [readAll_more hnext hend] at h
      have hle := ih h
      rw [List.length_cons] at hle
      omega
  | case2 s last =>
      obtain ⟨d, hd⟩ | ⟨token, hnext, hend⟩ := exists_of_last last
      · rw [readAll_error hd] at h
        cases h
      · rw [readAll_end hnext hend] at h
        cases h
        simp

/-- The closing token is given exactly where only blanks and complete comments are left. -/
theorem isEnd_next_iff {s : Scanner} (hs : s.cursor.Placed) :
    (∃ token, s.next.1 = .ok token ∧ token.isEnd = true) ↔
      ∃ gap, s.cursor.unread = gapChars gap ∧ GapFits gap [] := by
  constructor
  · rintro ⟨token, hnext, hend⟩
    rcases next_cases hs with hgap | ⟨c, after, hu, hc⟩ | ⟨_, _, _, _, _, _, _, _, herror⟩
    · exact hgap
    · rw [next_cell hs hu hc] at hnext
      cases hnext
      rw [Spelling.isEnd_tokenBehind hc.2.1] at hend
      cases hend
    · rw [herror] at hnext
      cases hnext
  · rintro ⟨gap, hu, hg⟩
    rw [next_end hs hu hg]
    exact ⟨_, rfl, rfl⟩

/-- How a scanner goes on in a text.

- The token read last starts at a boundary of the text that is not behind the cursor, and the slice
  from there to the cursor is the text in between. Behind a token that is no literal, that slice is
  the text of the token.
- An answer never moves the cursor back, and moves it on unless the scanner rests on the answer.
- The closing token is given exactly where only blanks and complete comments are left.
- Once the scanner rests, it gives the same answer and stays, whatever it is asked, until it is
  moved back to the front.
- Reading all tokens gives no more than one for each character that is left, and the closing token.
- Asked for the next token again and again, also behind diagnostics, the scanner comes to rest
  within as many answers as characters are left, and one more. -/
structure Progresses (source : String) (s : Scanner) : Prop where
  slice : ∃ front part rest : String, source = front ++ part ++ rest ∧
    s.start.offset = front.utf8ByteSize ∧
    s.cursor.place.offset = (front ++ part).utf8ByteSize ∧
    s.cursor.sliceFrom? s.start.offset = some part
  verbatim : ∀ token, s.next.1 = .ok token → token.kind ∉ [Kind.string, Kind.char] →
    s.next.2.cursor.sliceFrom? s.next.2.start.offset = some token.text
  forward : s.cursor.place.offset ≤ s.next.2.cursor.place.offset
  further : isResting s.next.1 = false → s.cursor.place.offset < s.next.2.cursor.place.offset
  ended : (∃ token, s.next.1 = .ok token ∧ token.isEnd = true) ↔
    ∃ gap, s.cursor.unread = gapChars gap ∧ GapFits gap []
  rests : isResting s.next.1 = true → ∀ later : List Request, .reset ∉ later →
    (s.next.2.performAll later).next.1 = s.next.1 ∧
      (s.next.2.performAll later).cursor = s.next.2.cursor
  tokens_length_le : ∀ ts, s.tokens.1 = .ok ts → ts.length ≤ s.cursor.unread.length + 1
  reaches : ∃ k ≤ s.cursor.unread.length,
    isResting (s.performAll (List.replicate k .next)).next.1 = true

/-- Whatever has been asked of a scanner in front of a text, it goes on in that text. -/
theorem progresses_performAll (source : String) (requests : List Request) :
    Progresses source ((ofString source).performAll requests) := by
  let s := (ofString source).performAll requests
  have hs : Reads source.toList s := reads_performAll source requests
  have hoffset : s.next.2.cursor.place.offset = s.cursor.place.offset +
      (String.ofList (s.cursor.unread.take
        (answer s.before s.cursor.unread).2)).utf8ByteSize := by
    rw [(next_eq_answer hs.placed).2, Cursor.place_pass, Place.afterAll_offset]
  refine ⟨?_, fun token => sliceFrom?_next hs.placed, ?_, ?_, isEnd_next_iff hs.placed,
    fun h later => performAll_of_isResting hs.placed h, fun ts h => ?_, exists_isResting hs.placed⟩
  · obtain ⟨front, part, hb, hstart⟩ := begun_performAll source requests
    refine ⟨.ofList front, .ofList part, .ofList s.cursor.unread, ?_, ?_, ?_,
      sliceFrom?_start hs.placed hb hstart⟩
    · rw [← String.ofList_append, ← hb, ← String.ofList_append, hs.before_append_unread,
        String.ofList_toList]
    · rw [hstart, Place.start_afterAll_offset]
    · rw [← String.ofList_append, ← hb, hs.placed, Place.start_afterAll_offset]
      rfl
  · change s.cursor.place.offset ≤ s.next.2.cursor.place.offset
    omega
  · intro h
    change s.cursor.place.offset < s.next.2.cursor.place.offset
    rw [(next_eq_answer hs.placed).1] at h
    obtain ⟨hne, hpos⟩ := pos_of_not_isResting h
    have hsize : (String.ofList (s.cursor.unread.take
        (answer s.before s.cursor.unread).2)).utf8ByteSize ≠ 0 := by
      rw [Ne, String.utf8ByteSize_eq_zero_iff, String.ofList_eq_empty_iff, List.take_eq_nil_iff]
      exact not_or.mpr ⟨Nat.ne_of_gt hpos, hne⟩
    omega
  · have hle := readAll_length_le h
    rw [List.length_nil, Nat.zero_add] at hle
    exact hle

end Scanner

end FrontEnd
