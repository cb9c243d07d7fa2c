import FrontEnd.Proofs.Scanner.Answer

/-!
# Requests to a scanner

A scanner is asked for the next token, for all tokens or for an item of its stream, or is moved back
to the front, in any order and also behind diagnostics. Whatever it is asked, it stands in its text
and knows its place.
-/

namespace FrontEnd

namespace Scanner

/-- What a scanner can be asked. -/
inductive Request where
  | next
  | tokens
  | pull
  | reset
deriving DecidableEq, Repr

/-- The scanner behind a request. -/
def perform (s : Scanner) : Request → Scanner
  | .next => s.next.2
  | .tokens => s.tokens.2
  | .pull => s.pull.2
  | .reset => s.reset

/-- The scanner behind requests that are made one after another. -/
def performAll (s : Scanner) (requests : List Request) : Scanner := requests.foldl perform s

@[simp] theorem performAll_nil (s : Scanner) : s.performAll [] = s := rfl

@[simp] theorem performAll_cons (s : Scanner) (r : Request) (requests : List Request) :
    s.performAll (r :: requests) = (s.perform r).performAll requests := rfl

/-- Whether an answer is the last one of a run: the closing token or a diagnostic. -/
def isLast : Except Diagnostic Token → Bool
  | .ok token => token.isEnd
  | .error _ => true

/-- What the stream shows of an answer: nothing of the closing token, and all of any other one. -/
def item? : Except Diagnostic Token → Option (Except Diagnostic Token)
  | .ok token => if token.isEnd then none else some (.ok token)
  | .error d => some (.error d)

/-- The next token never starts or ends the stream. -/
theorem next_finished (s : Scanner) : s.next.2.finished = s.finished := by
  unfold next
  split
  · rfl
  · unfold readToken
    split
    · rfl
    · unfold readLexeme
      split <;> rfl

/-- An answer that is not the last one uses up text. -/
theorem next_unread_lt_of_isLast {s : Scanner} (more : isLast s.next.1 = false) :
    s.next.2.cursor.unread.length < s.cursor.unread.length := by
  cases h : s.next with
  | mk result t =>
      cases result with
      | error d =>
          rw [h] at more
          cases more
      | ok token =>
          rw [h] at more
          exact next_unread_lt h more

/-- A stream that has ended shows nothing more and stays where it is. -/
theorem pull_of_finished {s : Scanner} (h : s.finished = true) : s.pull = (none, s) := by
  simp [pull, h]

/-- A stream that has not ended shows the next answer, and ends with the last one. -/
theorem pull_of_not_finished {s : Scanner} (h : s.finished = false) :
    s.pull = (item? s.next.1, { s.next.2 with finished := isLast s.next.1 }) := by
  have hfinished := next_finished s
  rw [h] at hfinished
  rw [pull, h, if_neg Bool.false_ne_true]
  cases hnext : s.next with
  | mk result t =>
      rw [hnext] at hfinished
      have ht : t = { t with finished := false } := by rw [← hfinished]
      cases result with
      | error d => rfl
      | ok token =>
          cases hend : token.isEnd with
          | true => simp [item?, isLast, hend]
          | false =>
              simp only [item?, isLast, hend, Bool.false_eq_true, if_false]
              exact congrArg _ ht

/-- What every answer keeps, reading all tokens keeps. -/
theorem readAll_keeps {P : Scanner → Prop} (hnext : ∀ s, P s → P s.next.2) {s : Scanner}
    (hs : P s) (tokens : List Token) : P (s.readAll tokens).2 := by
  induction hn : s.cursor.unread.length using Nat.strongRecOn generalizing s tokens with
  | ind n ih =>
      have ht := hnext s hs
      rw [readAll]
      split
      · rename_i h
        rwa [h] at ht
      · rename_i h
        rw [h] at ht
        split
        · rename_i more
          exact ih _ (hn ▸ next_unread_lt h more) ht _ rfl
        · exact ht

/-- What every answer keeps, whether or not the stream has ended, every item of the stream keeps. -/
theorem pull_keeps {P : Scanner → Prop} (hnext : ∀ s, P s → P s.next.2)
    (hfinished : ∀ s b, P s → P { s with finished := b }) {s : Scanner} (hs : P s) :
    P s.pull.2 := by
  cases hf : s.finished with
  | true =>
      rw [pull_of_finished hf]
      exact hs
  | false =>
      rw [pull_of_not_finished hf]
      exact hfinished _ _ (hnext s hs)

/-- What every answer, every item of the stream and the way back to the front keep, all requests
keep. -/
theorem performAll_keeps {P : Scanner → Prop} {requests : List Request}
    (hnext : ∀ s, P s → P s.next.2) (hpull : ∀ s, P s → P s.pull.2)
    (hreset : .reset ∈ requests → ∀ s, P s → P s.reset) {s : Scanner} (hs : P s) :
    P (s.performAll requests) := by
  induction requests generalizing s with
  | nil => exact hs
  | cons r requests ih =>
      refine ih (fun h => hreset (List.mem_cons_of_mem _ h)) ?_
      cases r with
      | next => exact hnext s hs
      | tokens => exact readAll_keeps hnext hs []
      | pull => exact hpull s hs
      | reset => exact hreset (by simp) s hs

/-- The scanner reads a text: its cursor stands in that text. -/
def Reads (cs : List Char) (s : Scanner) : Prop := s.cursor.StandsIn cs

namespace Reads

variable {cs : List Char} {s : Scanner}

theorem ofList (cs : List Char) : Reads cs (.ofList cs) := Cursor.StandsIn.ofList cs

/-- What a scanner has passed and what is left make up its text. -/
theorem before_append_unread (h : Reads cs s) : s.before ++ s.cursor.unread = cs := h.text

theorem next (h : Reads cs s) : Reads cs s.next.2 := by
  rw [Reads, (next_eq_answer h.placed).2]
  exact h.pass _

theorem pull (h : Reads cs s) : Reads cs s.pull.2 :=
  pull_keeps (fun _ => Reads.next) (fun _ _ ht => ht) h

theorem reset (h : Reads cs s) : s.reset = Scanner.ofList cs := by rw [Scanner.reset, h.text]

/-- Whatever a scanner is asked, it reads the same text. -/
theorem performAll (h : Reads cs s) (requests : List Request) :
    Reads cs (s.performAll requests) :=
  performAll_keeps (fun _ => Reads.next) (fun _ => Reads.pull)
    (fun _ t (ht : Reads cs t) => ht.reset ▸ .ofList cs) h

end Reads

/-- Whatever has been asked of a scanner in front of a text, it reads that text. -/
theorem reads_performAll (source : String) (requests : List Request) :
    Reads source.toList ((ofString source).performAll requests) :=
  (Reads.ofList source.toList).performAll requests

end Scanner

end FrontEnd
