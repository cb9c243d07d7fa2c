import FrontEnd.Proofs.Lexeme.Reach
import FrontEnd.Proofs.Scanner.Reading

/-!
# Answers of a scanner

What a scanner answers is settled by the text that it has passed and the text that is left: the
passed text only counts for lines and columns. How far the scanner goes depends on the text that is
left alone.
-/

namespace FrontEnd

/-- The token of a lexeme with a given text in front of it. -/
def Lexeme.tokenBehind (before : List Char) (l : Lexeme) : Token :=
  ⟨l.kind, l.text, UInt32.ofNat (lineAfter before), UInt32.ofNat (columnAfter before)⟩

namespace Scanner

/-- What a scanner answers behind the text `before` and in front of the text `unread`, with the
number of characters that it passes. -/
def answer (before unread : List Char) : Except Diagnostic Token × Nat :=
  match Gap.width? 0 unread with
  | none =>
    (.error (diagnosticBehind .openComment (some '*') (before ++ unread)), unread.length)
  | some gap =>
    match unread.drop gap with
    | [] => (.ok (endBehind (before ++ unread.take gap)), gap)
    | c :: rest =>
      match Lexeme.scan c rest with
      | .ok l => (.ok (l.tokenBehind (before ++ unread.take gap)), gap + l.width)
      | .error f =>
        (.error (diagnosticBehind f.cause f.character
          (before ++ unread.take (gap + f.reported))), gap + f.passed)

section Cases

variable (before : List Char) {unread rest : List Char} {gap : Nat} {c : Char}

/-- Where a block comment stays open, everything is passed. -/
theorem answer_open (hw : Gap.width? 0 unread = none) :
    answer before unread =
      (.error (diagnosticBehind .openComment (some '*') (before ++ unread)), unread.length) := by
  rw [answer, hw]

/-- Where nothing stands behind the gap, the gap is passed. -/
theorem answer_end (hw : Gap.width? 0 unread = some gap) (hd : unread.drop gap = []) :
    answer before unread = (.ok (endBehind (before ++ unread.take gap)), gap) := by
  simp only [answer, hw, hd]

/-- Where a lexeme stands behind the gap, it is passed. -/
theorem answer_lexeme (hw : Gap.width? 0 unread = some gap) (hd : unread.drop gap = c :: rest)
    {l : Lexeme} (hs : Lexeme.scan c rest = .ok l) :
    answer before unread =
      (.ok (l.tokenBehind (before ++ unread.take gap)), gap + l.width) := by
  simp only [answer, hw, hd, hs]

/-- Where a lexeme is at fault behind the gap, as much is passed as belongs to the fault. -/
theorem answer_fault (hw : Gap.width? 0 unread = some gap) (hd : unread.drop gap = c :: rest)
    {f : Lexeme.Fault} (hs : Lexeme.scan c rest = .error f) :
    answer before unread =
      (.error (diagnosticBehind f.cause f.character
        (before ++ unread.take (gap + f.reported))), gap + f.passed) := by
  simp only [answer, hw, hd, hs]

/-- Behind a gap an answer passes what the scan of the lexeme passes. -/
theorem answer_reach (hw : Gap.width? 0 unread = some gap) (hd : unread.drop gap = c :: rest) :
    (answer before unread).2 = gap + Lexeme.reach (Lexeme.scan c rest) := by
  cases hs : Lexeme.scan c rest with
  | ok l =>
      rw [answer_lexeme before hw hd hs]
      rfl
  | error f =>
      rw [answer_fault before hw hd hs]
      rfl

/-- The gap is among what an answer passes. -/
theorem le_answer (hw : Gap.width? 0 unread = some gap) : gap ≤ (answer before unread).2 := by
  cases hd : unread.drop gap with
  | nil => exact Nat.le_of_eq (congrArg Prod.snd (answer_end before hw hd)).symm
  | cons c rest =>
      rw [answer_reach before hw hd]
      exact Nat.le_add_right _ _

end Cases

/-- How far a scanner goes does not depend on the text that it has passed. -/
theorem answer_passed (before other unread : List Char) :
    (answer before unread).2 = (answer other unread).2 := by
  unfold answer
  split
  · rfl
  · split
    · rfl
    · split <;> rfl

/-- A scanner gives its answer, and passes as much text as belongs to it. -/
theorem next_eq_answer {s : Scanner} (hs : s.cursor.Placed) :
    s.next.1 = (answer s.before s.cursor.unread).1 ∧
      s.next.2.cursor = s.cursor.pass (answer s.before s.cursor.unread).2 := by
  have hplace : ∀ n, (s.cursor.pass n).place =
      Place.start.afterAll (s.before ++ s.cursor.unread.take n) := hs.place_pass
  unfold next answer
  cases Gap.width? 0 s.cursor.unread with
  | none =>
      have h := hplace s.cursor.unread.length
      rw [List.take_length] at h
      simp only [openComment, h, diagnosticBehind, Place.afterAll_start_line,
        Place.afterAll_start_column, and_self]
  | some gap =>
      have hunread : (s.enter gap).cursor.unread = s.cursor.unread.drop gap := by simp [enter]
      simp only [readToken, hunread]
      cases s.cursor.unread.drop gap with
      | nil =>
          simp only [enter, hplace, endBehind, Place.afterAll_start_line,
            Place.afterAll_start_column, and_self]
      | cons c rest =>
          simp only [readLexeme]
          cases Lexeme.scan c rest with
          | ok l =>
              simp only [enter, hplace, Lexeme.tokenBehind, Place.afterAll_start_line,
                Place.afterAll_start_column, Cursor.pass_add, and_self]
          | error f =>
              simp only [enter, ← Cursor.pass_add, hplace, diagnosticBehind,
                Place.afterAll_start_line, Place.afterAll_start_column, and_self]

theorem next_placed {s : Scanner} (hs : s.cursor.Placed) : s.next.2.cursor.Placed := by
  rw [(next_eq_answer hs).2]
  exact hs.pass _

/-- Reading a token leaves its start. -/
theorem readToken_start (s : Scanner) : s.readToken.2.start = s.start := by
  unfold readToken
  split
  · rfl
  · unfold readLexeme
    split <;> rfl

/-- The next token starts behind the gap. -/
theorem next_start {s : Scanner} {gap : Nat} (hw : Gap.width? 0 s.cursor.unread = some gap) :
    s.next.2.start = (s.cursor.pass gap).place := by
  rw [next, hw]
  exact readToken_start (s.enter gap)

/-- In front of a comment that stays open no token starts. -/
theorem next_start_open {s : Scanner} (hw : Gap.width? 0 s.cursor.unread = none) :
    s.next.2.start = s.start := by
  rw [next, hw]
  rfl

/-- Two scanners with the same text left, of which the second one has passed a text in front of what
the first one has passed. -/
structure Below (front : List Char) (s t : Scanner) : Prop where
  placed : s.cursor.Placed
  placed_below : t.cursor.Placed
  unread : t.cursor.unread = s.cursor.unread
  before : t.before = front ++ s.before

/-- Two such scanners answer from the same text that is left, and stay such scanners. -/
theorem Below.step {front : List Char} {s t : Scanner} (h : Below front s t) :
    s.next.1 = (answer s.before s.cursor.unread).1 ∧
      t.next.1 = (answer (front ++ s.before) s.cursor.unread).1 ∧
      Below front s.next.2 t.next.2 := by
  obtain ⟨hs, hcs⟩ := next_eq_answer h.placed
  obtain ⟨ht, hct⟩ := next_eq_answer h.placed_below
  rw [h.before, h.unread] at ht
  rw [h.before, h.unread, answer_passed _ s.before] at hct
  refine ⟨hs, ht, ?_, ?_, ?_, ?_⟩
  · rw [hcs]
    exact h.placed.pass _
  · rw [hct]
    exact h.placed_below.pass _
  · rw [hcs, hct, Cursor.unread_pass, Cursor.unread_pass, h.unread]
  · have hbefore : t.cursor.passed.reverse = front ++ s.cursor.passed.reverse := h.before
    simp only [Scanner.before, hcs, hct, Cursor.passed_pass, List.reverse_append, h.unread, hbefore,
      List.append_assoc]

end Scanner

end FrontEnd
