/-!
# Characters

White space is what has the Unicode property White_Space. Diagnostics quote characters of the
source: control characters are shown escaped, all others as they are, so that a diagnostic stays on
one line. Numbers are written in base ten without leading zeros, and code points in base sixteen
with a fixed number of digits.
-/

namespace FrontEnd

/-! ### White space and control characters -/

/-- The Unicode property White_Space. -/
def isWhiteSpace (c : Char) : Bool :=
  ('\x09' ≤ c && c ≤ '\x0d') || c == ' ' || c == '\u0085' || c == '\u00a0' || c == '\u1680' ||
    ('\u2000' ≤ c && c ≤ '\u200a') || c == '\u2028' || c == '\u2029' || c == '\u202f' ||
    c == '\u205f' || c == '\u3000'

/-- Whether a text has nothing but white space. -/
def isBlankText (s : String) : Bool := s.toList.all isWhiteSpace

/-- A text is blank exactly if all its characters are white space. -/
theorem isBlankText_iff (s : String) :
    isBlankText s = true ↔ ∀ c ∈ s.toList, isWhiteSpace c = true := by
  simp [isBlankText]

/-- The control characters: U+0000 to U+001F and U+007F to U+009F. -/
def isControl (c : Char) : Bool :=
  c.val < 0x20 || (0x7f ≤ c.val && c.val < 0xa0)

/-- A control character is written as an escape, any other character as itself. -/
def visible (c : Char) : String :=
  if isControl c then
    match c with
    | '\t' => "\\t"
    | '\n' => "\\n"
    | '\r' => "\\r"
    | c => String.ofList (['\\', 'u', '\x7b'] ++ Nat.toDigits 16 c.toNat ++ ['\x7d'])
  else String.singleton c

/-! ### Digits -/

namespace Digits

/-- The decimal digits of a number. -/
def decimal (n : Nat) : List Char := Nat.toDigits 10 n

/-- The value of a digit of a base up to sixteen, in either case. -/
def value? (c : Char) : Option Nat :=
  if '0' ≤ c ∧ c ≤ '9' then some (c.toNat - 48)
  else if 'a' ≤ c ∧ c ≤ 'f' then some (c.toNat - 87)
  else if 'A' ≤ c ∧ c ≤ 'F' then some (c.toNat - 55)
  else none

/-- Whether a character is a digit of the base. -/
def isDigitOf (base : Nat) (c : Char) : Bool :=
  match value? c with
  | some d => d < base
  | none => false

/-- The number with one more digit of the base behind it. -/
def append? (base n : Nat) (c : Char) : Option Nat :=
  (value? c).bind fun d => if d < base then some (n * base + d) else none

/-- The number that a run of digits of the base stands for. -/
def number? (base : Nat) (cs : List Char) : Option Nat :=
  if cs.isEmpty then none else cs.foldlM (append? base) 0

/-- The last `width` digits of a number in base sixteen, with small letters. -/
def hex (width n : Nat) : List Char :=
  match width with
  | 0 => []
  | width + 1 => hex width (n / 16) ++ [Nat.digitChar (n % 16)]

/-- The last `width` digits of a number in base sixteen, with capital letters. -/
def hexUpper (width n : Nat) : List Char := (hex width n).map Char.toUpper

end Digits

end FrontEnd
