import FrontEnd.Json.Reading

/-!
# Spellings of JSON values

A value can be spelled in many ways: white space may stand around every mark, and the characters of
a string may stand for themselves or be escaped. The grammar of these spellings is given here apart
from how texts are read.
-/

namespace FrontEnd.Json

/-- White space: spaces, tabs, line feeds and carriage returns. -/
def IsSpaces (cs : List Char) : Prop := ∀ c ∈ cs, isSpace c = true

/-! ### Strings -/

/-- The letters of escapes, with the characters that they stand for. -/
def escapeLetters : List (Char × Char) :=
  [('"', '"'), ('\\', '\\'), ('/', '/'), ('b', '\x08'), ('f', '\x0c'), ('n', '\n'), ('r', '\r'),
    ('t', '\t')]

/-- The spellings of an element of a string: a character itself unless it is a quote, a backslash or
a control, an escape with a letter, or an escape with four digits of base sixteen. -/
inductive CodePoint.Spelled : CodePoint → List Char → Prop
  | plain {c : Char} (hquote : c ≠ '"') (hbackslash : c ≠ '\\') (hcontrol : ¬ c < ' ') :
      Spelled (.scalar c) [c]
  | letter {letter c : Char} (h : (letter, c) ∈ escapeLetters) : Spelled (.scalar c) ['\\', letter]
  | code {a b c d : Char} {code : Nat} (h : Digits.number? 16 [a, b, c, d] = some code) :
      Spelled (.ofCode code) ['\\', 'u', a, b, c, d]

/-- The spellings of the elements of a string, one behind the other. -/
inductive PointsSpelled : List CodePoint → List Char → Prop
  | nil : PointsSpelled [] []
  | cons {p : CodePoint} {points : List CodePoint} {run rest : List Char} (hp : p.Spelled run)
      (hrest : PointsSpelled points rest) : PointsSpelled (p :: points) (run ++ rest)

/-- The spellings of a string: those of its elements between quotes. -/
inductive StringSpelled : List CodePoint → List Char → Prop
  | intro {points : List CodePoint} {body : List Char} (h : PointsSpelled points body) :
      StringSpelled points ('"' :: (body ++ ['"']))

/-! ### Numbers -/

/-- The digits in front of a decimal point: no zero stands in front of other digits. -/
def WholeSpelled (cs : List Char) : Prop := isDigits cs = true ∧ (cs.head? = some '0' → cs = ['0'])

/-- Nothing, or a decimal point and digits. -/
inductive FractionSpelled : List Char → Prop
  | none : FractionSpelled []
  | some {digits : List Char} (h : isDigits digits = true) : FractionSpelled ('.' :: digits)

/-- Nothing, or an exponent mark, a sign or none, and digits. -/
inductive ExponentSpelled : List Char → Prop
  | none : ExponentSpelled []
  | some {mark : Char} {sign digits : List Char} (hmark : mark ∈ ['e', 'E'])
      (hsign : sign ∈ [[], ['+'], ['-']]) (h : isDigits digits = true) :
      ExponentSpelled (mark :: (sign ++ digits))

/-- The texts that are numbers. -/
inductive NumberSpelled : List Char → Prop
  | intro {sign whole fraction exponent : List Char} (hsign : sign ∈ [[], ['-']])
      (hwhole : WholeSpelled whole) (hfraction : FractionSpelled fraction)
      (hexponent : ExponentSpelled exponent) :
      NumberSpelled (sign ++ (whole ++ (fraction ++ exponent)))

/-! ### Values -/

/-- What is spelled: a value, the items of an array, or the members of an object. -/
inductive Content where
  | value (v : Value)
  | items (vs : List Value)
  | members (ms : List (List CodePoint × Value))

/-- The spellings of a key: those of a string, with any white space around them. -/
inductive KeySpelled : List CodePoint → List Char → Prop
  | intro {key : List CodePoint} {front run back : List Char} (hfront : IsSpaces front)
      (h : StringSpelled key run) (hback : IsSpaces back) : KeySpelled key (front ++ (run ++ back))

/-- The spellings of a value, with any white space around them, and of one or more items or members
with commas between them. -/
inductive Spelled : Content → List Char → Prop
  | spaced {v : Value} {front cs back : List Char} (hfront : IsSpaces front)
      (h : Spelled (.value v) cs) (hback : IsSpaces back) :
      Spelled (.value v) (front ++ (cs ++ back))
  | null : Spelled (.value .null) ['n', 'u', 'l', 'l']
  | true : Spelled (.value (.boolean true)) ['t', 'r', 'u', 'e']
  | false : Spelled (.value (.boolean false)) ['f', 'a', 'l', 's', 'e']
  | number {cs : List Char} (h : NumberSpelled cs) : Spelled (.value (.number cs)) cs
  | string {points : List CodePoint} {cs : List Char} (h : StringSpelled points cs) :
      Spelled (.value (.string points)) cs
  | emptyArray {space : List Char} (h : IsSpaces space) :
      Spelled (.value (.array [])) ('[' :: (space ++ [']']))
  | array {items : List Value} {cs : List Char} (h : Spelled (.items items) cs) :
      Spelled (.value (.array items)) ('[' :: (cs ++ [']']))
  | emptyObject {space : List Char} (h : IsSpaces space) :
      Spelled (.value (.object [])) ('\x7b' :: (space ++ ['\x7d']))
  | object {members : List (List CodePoint × Value)} {cs : List Char}
      (h : Spelled (.members members) cs) :
      Spelled (.value (.object members)) ('\x7b' :: (cs ++ ['\x7d']))
  | lastItem {v : Value} {cs : List Char} (h : Spelled (.value v) cs) : Spelled (.items [v]) cs
  | item {v : Value} {vs : List Value} {cs rest : List Char} (h : Spelled (.value v) cs)
      (hrest : Spelled (.items vs) rest) : Spelled (.items (v :: vs)) (cs ++ ',' :: rest)
  | lastMember {key : List CodePoint} {v : Value} {ks cs : List Char} (hkey : KeySpelled key ks)
      (h : Spelled (.value v) cs) : Spelled (.members [(key, v)]) (ks ++ ':' :: cs)
  | member {key : List CodePoint} {v : Value} {ms : List (List CodePoint × Value)}
      {ks cs rest : List Char} (hkey : KeySpelled key ks) (h : Spelled (.value v) cs)
      (hrest : Spelled (.members ms) rest) :
      Spelled (.members ((key, v) :: ms)) (ks ++ ':' :: (cs ++ ',' :: rest))

end FrontEnd.Json
