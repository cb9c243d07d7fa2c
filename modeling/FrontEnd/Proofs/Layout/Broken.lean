import FrontEnd.Proofs.Layout.Basic

/-!
# Broken constructs

What can be wrong with a text where a lexeme or a comment is expected: for every cause, how much
of the text belongs to the broken construct and which character is blamed. A broken layout is a
text cut into gaps and lexemes up to its first broken construct.
-/

namespace FrontEnd

/-- No lexeme, blank or comment is written with this character in front. -/
def StartsNothing (c : Char) : Prop :=
  (∀ s : Spelling, s.Valid → s.chars.head? ≠ some c) ∧
    ∀ t : Trivia, t.Valid → t.chars.head? ≠ some c

/-- The letters that may follow a backslash. -/
def escapeLetters : List Char := escapes.map Prod.fst

/-- A literal up to a place where a character may stand: its opening quote and, in a string, proper
characters behind it. -/
inductive Opened : List Char → Prop
  | string {glyphs : List Glyph} (h : ∀ g ∈ glyphs, g.InString) :
      Opened ('"' :: glyphs.flatMap Glyph.chars)
  | char : Opened ['\'']

/-- `Broken cause character part after`: the text `part ++ after` starts with a construct that goes
wrong behind `part` for the given cause, and the character is blamed. -/
inductive Broken : Cause → Option Char → List Char → List Char → Prop
  | unexpectedCharacter {c : Char} {after : List Char} (h : StartsNothing c) :
      Broken .unexpectedCharacter (some c) [] (c :: after)
  | undoubledCharacter {c : Char} {after : List Char} (hc : c ∈ ['&', '|'])
      (ha : startsWith (· == c) after = false) :
      Broken .undoubledCharacter (some c) [] (c :: after)
  | openString {glyphs : List Glyph} (h : ∀ g ∈ glyphs, g.InString) :
      Broken .openString (some '"') ('"' :: glyphs.flatMap Glyph.chars) []
  | openCharacterAtEnd : Broken .openCharacter (some '\'') ['\''] []
  | openCharacter {glyph : Glyph} {after : List Char} (h : glyph.InChar)
      (ha : startsWith (· == '\'') after = false) :
      Broken .openCharacter (some '\'') ('\'' :: glyph.chars) after
  | openComment {body : List Char} (h : ¬ ['*', '/'] <:+: body) :
      Broken .openComment (some '*') ('/' :: '*' :: body) []
  | escapeAtEnd {opening : List Char} (h : Opened opening) :
      Broken .unknownEscape (some '\\') (opening ++ ['\\']) []
  | unknownEscape {opening after : List Char} {c : Char} (h : Opened opening)
      (hc : c ∉ escapeLetters) :
      Broken .unknownEscape (some c) (opening ++ ['\\']) (c :: after)
  | missingExponent {whole after : List Char} {fraction : Option (List Char)} {e : Exponent}
      (hw : IsDigits whole) (hf : ∀ digits ∈ fraction, IsDigits digits) (he : e.Marked)
      (hd : e.digits = []) (ha : startsWith Char.isDigit after = false)
      (hs : e.sign = none → startsWith (['+', '-'].contains ·) after = false) :
      Broken .missingExponent after.head? (whole ++ fractionChars fraction ++ e.chars) after

/-- A construct never breaks for a cause stated in words. -/
theorem Broken.cause_ne_stated {cause : Cause} {character : Option Char} {part after : List Char}
    (h : Broken cause character part after) (text : String) : cause ≠ .stated text := by
  cases h <;> simp

/-- A text cut into gaps and lexemes up to a construct that goes wrong: the lexemes with the gaps
in front of them, the gap in front of the construct, the part of the construct up to where it goes
wrong, and the text behind that. -/
structure BrokenLayout where
  cells : List Cell
  gap : List Trivia
  part : List Char
  after : List Char
  cause : Cause
  character : Option Char
  cellsFit : CellsFit cells (gapChars gap ++ (part ++ after))
  gapFits : GapFits gap (part ++ after)
  broken : Broken cause character part after

namespace BrokenLayout

/-- The text up to the place where the construct goes wrong. -/
def front (b : BrokenLayout) : List Char :=
  cellsChars b.cells ++ (gapChars b.gap ++ b.part)

/-- The diagnostic of a broken layout. -/
def diagnostic (b : BrokenLayout) : Diagnostic := diagnosticBehind b.cause b.character b.front

end BrokenLayout

end FrontEnd
