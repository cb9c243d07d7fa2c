import FrontEnd.Lexeme.Basic
import FrontEnd.Token.Basic
import FrontEnd.Proofs.Text.Position
import FrontEnd.Proofs.Text.Run
import FrontEnd.Proofs.Token.Vocabulary

/-!
# Spellings of lexemes

A spelling says how a lexeme is written, apart from any scan: which symbol it is, the characters
of a word, the parts of a number, or the characters between two quotes. It determines the kind and
the text of the token, and what may not stand directly behind it.
-/

namespace FrontEnd

/-- A symbol: a kind that is always written in the same way, its characters, and the characters
that may not follow directly. -/
structure Symbol where
  kind : Kind
  chars : List Char
  barred : List Char
deriving DecidableEq, Repr

/-- All symbols. A newline is one of them. -/
def symbols : List Symbol :=
  [⟨.linebreak, ['\n'], []⟩,
    ⟨.assign, ['='], ['=']⟩, ⟨.equal, ['=', '='], []⟩,
    ⟨.logicalNot, ['!'], ['=']⟩, ⟨.notEqual, ['!', '='], []⟩,
    ⟨.less, ['<'], ['=']⟩, ⟨.lessEqual, ['<', '='], []⟩,
    ⟨.greater, ['>'], ['=']⟩, ⟨.greaterEqual, ['>', '='], []⟩,
    ⟨.mult, ['*'], ['*']⟩, ⟨.power, ['*', '*'], []⟩,
    ⟨.logicalAnd, ['&', '&'], []⟩, ⟨.logicalOr, ['|', '|'], []⟩,
    ⟨.plus, ['+'], []⟩, ⟨.minus, ['-'], []⟩, ⟨.divide, ['/'], ['/', '*']⟩, ⟨.modulo, ['%'], []⟩,
    ⟨.dot, ['.'], []⟩, ⟨.comma, [','], []⟩, ⟨.colon, [':'], []⟩, ⟨.semicolon, [';'], []⟩,
    ⟨.leftParen, ['('], []⟩, ⟨.rightParen, [')'], []⟩,
    ⟨.leftBracket, ['['], []⟩, ⟨.rightBracket, [']'], []⟩,
    ⟨.leftBrace, ['\x7b'], []⟩, ⟨.rightBrace, ['\x7d'], []⟩]

/-- Whether a character is an ASCII letter or the underscore. A word starts with one. -/
def isLetter (c : Char) : Bool := ('a' ≤ c && c ≤ 'z') || ('A' ≤ c && c ≤ 'Z') || c == '_'

/-- Whether a character is one of those or an ASCII digit, as the others of a word are. -/
def isLetterOrDigit (c : Char) : Bool := isLetter c || ('0' ≤ c && c ≤ '9')

/-- The nine escapes: the letter behind the backslash and the character it stands for. -/
def escapes : List (Char × Char) :=
  [('n', '\n'), ('t', '\t'), ('r', '\r'), ('b', '\x08'), ('f', '\x0c'), ('\\', '\\'),
    ('\'', '\''), ('"', '"'), ('0', '\x00')]

/-- A character between quotes, as it is or as an escape. -/
inductive Glyph where
  | plain (c : Char)
  | escape (letter value : Char)
deriving DecidableEq, Repr

namespace Glyph

/-- The characters that a glyph is written with. -/
def chars : Glyph → List Char
  | plain c => [c]
  | escape letter _ => ['\\', letter]

theorem chars_length_pos (g : Glyph) : 0 < g.chars.length := by
  cases g <;> simp [chars]

/-- The character that a glyph stands for. -/
def value : Glyph → Char
  | plain c => c
  | escape _ value => value

/-- Whether a glyph may stand in a literal that needs escapes for some characters. -/
def Allowed (escaped : List Char) : Glyph → Prop
  | plain c => c ∉ escaped
  | escape letter value => (letter, value) ∈ escapes

instance (escaped : List Char) : (g : Glyph) → Decidable (g.Allowed escaped)
  | plain c => inferInstanceAs (Decidable (c ∉ escaped))
  | escape letter value => inferInstanceAs (Decidable ((letter, value) ∈ escapes))

/-- Whether a glyph may stand in a string literal. -/
def InString (g : Glyph) : Prop := g.Allowed ['"', '\\']

/-- Whether a glyph may stand in a character literal, where a quote needs no escape. -/
def InChar (g : Glyph) : Prop := g.Allowed ['\\']

instance (g : Glyph) : Decidable g.InString := inferInstanceAs (Decidable (g.Allowed _))

instance (g : Glyph) : Decidable g.InChar := inferInstanceAs (Decidable (g.Allowed _))

end Glyph

/-- The exponent of a number: its mark, its sign if it has one, and its digits. -/
structure Exponent where
  mark : Char
  sign : Option Char
  digits : List Char
deriving DecidableEq, Repr

/-- Whether a text is a run of digits, at least one. -/
def IsDigits (cs : List Char) : Prop := cs ≠ [] ∧ ∀ c ∈ cs, c.isDigit = true

instance (cs : List Char) : Decidable (IsDigits cs) :=
  decidable_of_iff (cs ≠ [] ∧ cs.all Char.isDigit = true) (by simp [IsDigits])

/-- Whether a text starts with a dot and a digit. -/
def startsFraction : List Char → Bool
  | '.' :: rest => startsWith Char.isDigit rest
  | _ => false

/-- The dot and the digits of a fraction. -/
def fractionChars : Option (List Char) → List Char
  | none => []
  | some digits => '.' :: digits

namespace Exponent

/-- The mark and the sign of an exponent. -/
def lead (e : Exponent) : List Char := e.mark :: e.sign.toList

/-- The characters that an exponent is written with. -/
def chars (e : Exponent) : List Char := e.lead ++ e.digits

/-- Whether the mark and the sign of an exponent are proper ones. -/
def Marked (e : Exponent) : Prop :=
  e.mark ∈ ['e', 'E'] ∧ e.sign ∈ [none, some '+', some '-']

instance (e : Exponent) : Decidable e.Marked := inferInstanceAs (Decidable (_ ∧ _))

end Exponent

/-- The characters of an exponent, if there is one. -/
def exponentChars : Option Exponent → List Char
  | none => []
  | some e => e.chars

/-- How a lexeme is written. -/
inductive Spelling where
  | symbol (s : Symbol)
  | word (first : Char) (rest : List Char)
  | number (whole : List Char) (fraction : Option (List Char)) (exponent : Option Exponent)
  | string (glyphs : List Glyph)
  | char (glyph : Glyph)
deriving DecidableEq, Repr

namespace Spelling

/-- The characters that a lexeme is written with. -/
def chars : Spelling → List Char
  | symbol s => s.chars
  | word first rest => first :: rest
  | number whole fraction exponent => whole ++ fractionChars fraction ++ exponentChars exponent
  | string glyphs => '"' :: glyphs.flatMap Glyph.chars ++ ['"']
  | char glyph => '\'' :: glyph.chars ++ ['\'']

/-- The kind of the token; a word is judged as a whole. -/
def kind : Spelling → Kind
  | symbol s => s.kind
  | word first rest => Vocabulary.kindOf (String.ofList (first :: rest))
  | number .. => .number
  | string _ => .string
  | char _ => .char

/-- The text of the token: the lexeme itself, or what stands between its quotes with escapes
decoded. -/
def text : Spelling → String
  | string glyphs => String.ofList (glyphs.map Glyph.value)
  | char glyph => String.singleton glyph.value
  | s => String.ofList s.chars

/-- Whether the parts of a spelling are proper ones. -/
def Valid : Spelling → Prop
  | symbol s => s ∈ symbols
  | word first rest => isLetter first = true ∧ ∀ c ∈ rest, isLetterOrDigit c = true
  | number whole fraction exponent =>
    IsDigits whole ∧ (∀ digits ∈ fraction, IsDigits digits) ∧
      ∀ e ∈ exponent, e.Marked ∧ IsDigits e.digits
  | string glyphs => ∀ g ∈ glyphs, g.InString
  | char glyph => glyph.InChar

/-- A validly spelled lexeme has at least one character. -/
theorem chars_ne_nil {s : Spelling} (hv : s.Valid) : s.chars ≠ [] := by
  cases s with
  | symbol s =>
      have hs : ∀ s ∈ symbols, s.chars ≠ [] := by decide
      exact hs s hv
  | number whole fraction exponent => simp [chars, hv.1.1]
  | word | string | char => simp [chars]

/-- Whether a lexeme ends where the text behind it starts: nothing there would make the lexeme
longer. -/
def Apart : Spelling → List Char → Prop
  | symbol s, after => startsWith (s.barred.contains ·) after = false
  | word .., after => startsWith isLetterOrDigit after = false
  | number _ fraction exponent, after =>
    startsWith Char.isDigit after = false ∧
      (exponent = none → startsWith (['e', 'E'].contains ·) after = false) ∧
      (fraction = none → exponent = none → startsFraction after = false)
  | string _, _ => True
  | char _, _ => True

instance : (s : Spelling) → Decidable s.Valid
  | symbol s => inferInstanceAs (Decidable (s ∈ symbols))
  | word first rest =>
    decidable_of_iff (isLetter first = true ∧ rest.all isLetterOrDigit = true) (by simp [Valid])
  | number .. => inferInstanceAs (Decidable (_ ∧ _ ∧ _))
  | string glyphs => inferInstanceAs (Decidable (∀ g ∈ glyphs, g.InString))
  | char glyph => inferInstanceAs (Decidable glyph.InChar)

instance : (s : Spelling) → (after : List Char) → Decidable (s.Apart after)
  | symbol _, _ => inferInstanceAs (Decidable (_ = _))
  | word .., _ => inferInstanceAs (Decidable (_ = _))
  | number .., _ => inferInstanceAs (Decidable (_ ∧ _ ∧ _))
  | string _, _ => inferInstanceAs (Decidable True)
  | char _, _ => inferInstanceAs (Decidable True)

/-- The lexeme that a spelling spells. -/
def lexeme (s : Spelling) : Lexeme := ⟨s.kind, s.text, s.chars.length - 1⟩

/-- The token of a lexeme with a given text in front of it. -/
def tokenBehind (before : List Char) (s : Spelling) : Token :=
  ⟨s.kind, s.text, UInt32.ofNat (lineAfter before), UInt32.ofNat (columnAfter before)⟩

end Spelling

end FrontEnd
