import FrontEnd.Proofs.Layout.Spelling

/-!
# Blanks and comments

A gap is a list of blanks and comments. Each piece says how it is written and where it ends: a
line comment runs to a newline or to the end of the text, a block comment to its first end mark.
-/

namespace FrontEnd

/-- One blank or comment of a gap. -/
inductive Trivia where
  | blank (c : Char)
  | lineComment (body : List Char)
  | blockComment (body : List Char)
deriving DecidableEq, Repr

namespace Trivia

/-- The characters that a blank or a comment is written with. -/
def chars : Trivia → List Char
  | blank c => [c]
  | lineComment body => '/' :: '/' :: body
  | blockComment body => '/' :: '*' :: body ++ ['*', '/']

theorem chars_length_pos (t : Trivia) : 0 < t.chars.length := by
  cases t <;> simp [chars]

/-- Whether the parts of a blank or a comment are proper ones. -/
def Valid : Trivia → Prop
  | blank c => c ∈ [' ', '\t', '\r']
  | lineComment body => '\n' ∉ body
  | blockComment body => ¬ ['*', '/'] <:+: body

/-- Whether a blank or a comment ends where the text behind it starts. -/
def Apart : Trivia → List Char → Prop
  | lineComment _, after => startsWith (· != '\n') after = false
  | _, _ => True

instance : (t : Trivia) → Decidable t.Valid
  | blank c => inferInstanceAs (Decidable (c ∈ _))
  | lineComment body => inferInstanceAs (Decidable ('\n' ∉ body))
  | blockComment body => inferInstanceAs (Decidable (¬ ['*', '/'] <:+: body))

instance : (t : Trivia) → (after : List Char) → Decidable (t.Apart after)
  | lineComment _, _ => inferInstanceAs (Decidable (_ = _))
  | blank _, _ => inferInstanceAs (Decidable True)
  | blockComment _, _ => inferInstanceAs (Decidable True)

end Trivia

/-- The characters of a gap. -/
def gapChars (gap : List Trivia) : List Char := gap.flatMap Trivia.chars

@[simp] theorem gapChars_nil : gapChars [] = [] := rfl

@[simp] theorem gapChars_cons (t : Trivia) (gap : List Trivia) :
    gapChars (t :: gap) = t.chars ++ gapChars gap := rfl

/-- Whether all pieces of a gap are proper and end where the text behind each of them starts. -/
def GapFits : List Trivia → List Char → Prop
  | [], _ => True
  | t :: gap, after => t.Valid ∧ t.Apart (gapChars gap ++ after) ∧ GapFits gap after

instance decidableGapFits :
    (gap : List Trivia) → (after : List Char) → Decidable (GapFits gap after)
  | [], _ => inferInstanceAs (Decidable True)
  | t :: gap, after =>
    have := decidableGapFits gap after
    inferInstanceAs (Decidable (t.Valid ∧ t.Apart (gapChars gap ++ after) ∧ GapFits gap after))

/-- Whether a character opens a blank or a comment together with the text behind it. -/
def opensTrivia : List Char → Bool
  | c :: rest =>
    [' ', '\t', '\r'].contains c || (c == '/' && startsWith (['/', '*'].contains ·) rest)
  | [] => false

end FrontEnd
