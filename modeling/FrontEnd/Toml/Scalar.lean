import FrontEnd.Text.Characters

/-!
# TOML numbers, dates and words

Every value other than a string, array or inline table is one run of letters, digits, signs, dots,
colons and underscores, except that a space may stand between a date and a time. The whole run
decides what the value is.
-/

namespace FrontEnd.Toml

/-- The characters of a run. -/
def isRunChar (c : Char) : Bool :=
  c.isAlphanum || c == '+' || c == '-' || c == '.' || c == ':' || c == '_'

/-- Takes the underscores out of a run of digits of the base: each must stand between two digits. -/
def ungroup? (base : Nat) : List Char → Option (List Char)
  | [] => none
  | [c] => if Digits.isDigitOf base c then some [c] else none
  | c :: '_' :: rest =>
    if Digits.isDigitOf base c then (ungroup? base rest).map (c :: ·) else none
  | c :: rest => if Digits.isDigitOf base c then (ungroup? base rest).map (c :: ·) else none

/-- Decimal digits without a zero in front of others. -/
def whole? (cs : List Char) : Option (List Char) :=
  if cs.head? = some '0' ∧ cs ≠ ['0'] then none else ungroup? 10 cs

/-- A sign in front of an unsigned text, and whether it is a minus. -/
def signed : List Char → Bool × List Char
  | '+' :: rest => (false, rest)
  | '-' :: rest => (true, rest)
  | cs => (false, cs)

/-- The integer with a magnitude, which may be negative. -/
def withSign (negative : Bool) (n : Nat) : Int := if negative then -Int.ofNat n else Int.ofNat n

/-- The integers that fit 64 bits. -/
def fits (n : Int) : Bool := Int64.minValue.toInt ≤ n && n ≤ Int64.maxValue.toInt

/-- An integer that fits 64 bits: decimal with an optional sign, or hexadecimal, octal or binary
behind its mark. -/
def integer? (run : List Char) : Option Int := do
  let n : Int ← match run with
    | '0' :: 'x' :: rest => ((ungroup? 16 rest).bind (Digits.number? 16)).map Int.ofNat
    | '0' :: 'o' :: rest => ((ungroup? 8 rest).bind (Digits.number? 8)).map Int.ofNat
    | '0' :: 'b' :: rest => ((ungroup? 2 rest).bind (Digits.number? 2)).map Int.ofNat
    | run =>
      let (negative, rest) := signed run
      ((whole? rest).bind (Digits.number? 10)).map (withSign negative)
  if fits n then some n else none

/-- Whether `mantissa` times ten to the `exponent` is too large for a 64-bit floating-point
number. Only numbers with exactly 309 digits before the point need to be compared exactly. -/
def overflows (mantissa : Nat) (exponent : Int) : Bool :=
  if mantissa = 0 then false
  else
    let size := (Digits.decimal mantissa).length + exponent
    if size < 309 then false
    else if 309 < size then true
    else
      mantissa * Nat.pow 10 exponent.toNat ≥
        (Nat.pow 2 1024 - Nat.pow 2 970) * Nat.pow 10 (-exponent).toNat

/-- A decimal fraction or exponent part as digits: the digits behind the point and the value of
the exponent. At least one of the two parts is there. -/
def fractional? (cs : List Char) : Option (List Char × Int) :=
  let exponent? (cs : List Char) : Option Int :=
    let (negative, rest) := signed cs
    ((ungroup? 10 rest).bind (Digits.number? 10)).map (withSign negative)
  match cs with
  | [] => none
  | '.' :: rest =>
    let isMark (c : Char) := c == 'e' || c == 'E'
    match ungroup? 10 (rest.takeWhile (!isMark ·)), rest.dropWhile (!isMark ·) with
    | some digits, [] => some (digits, 0)
    | some digits, _ :: power => (exponent? power).map (digits, ·)
    | none, _ => none
  | mark :: power => if mark == 'e' || mark == 'E' then (exponent? power).map ([], ·) else none

/-- A floating-point number: not a number, an infinity, or a decimal with a fraction or an
exponent. A positive one must not be too large. -/
def isFloat (run : List Char) : Bool :=
  let (negative, rest) := signed run
  if rest = ['i', 'n', 'f'] ∨ rest = ['n', 'a', 'n'] then true
  else
    let isWhole (c : Char) := c.isDigit || c == '_'
    match whole? (rest.takeWhile isWhole), fractional? (rest.dropWhile isWhole) with
    | some whole, some (digits, exponent) =>
      negative || !overflows (Nat.ofDigitChars 10 (whole ++ digits) 0) (exponent - digits.length)
    | _, _ => false

/-- Two digits that make a number from `lo` to `hi`. -/
def pair? (lo hi : Nat) (a b : Char) : Option Nat :=
  match Digits.number? 10 [a, b] with
  | some n => if lo ≤ n ∧ n ≤ hi then some n else none
  | none => none

/-- The number of days of a month. -/
def daysIn (year month : Nat) : Nat :=
  if month = 2 then (if year % 4 = 0 ∧ (year % 100 ≠ 0 ∨ year % 400 = 0) then 29 else 28)
  else if month = 4 ∨ month = 6 ∨ month = 9 ∨ month = 11 then 30
  else 31

/-- Whether ten characters are a date of the calendar. -/
def isDate : List Char → Bool
  | [y₁, y₂, y₃, y₄, '-', m₁, m₂, '-', d₁, d₂] =>
    match Digits.number? 10 [y₁, y₂, y₃, y₄], pair? 1 12 m₁ m₂, pair? 1 31 d₁ d₂ with
    | some year, some month, some day => day ≤ daysIn year month
    | _, _, _ => false
  | _ => false

/-- An offset from universal time, or nothing. -/
def isOffset : List Char → Bool
  | [] => true
  | ['Z'] => true
  | ['z'] => true
  | [sign, h₁, h₂, ':', m₁, m₂] =>
    (sign == '+' || sign == '-') && (pair? 0 23 h₁ h₂).isSome && (pair? 0 59 m₁ m₂).isSome
  | _ => false

/-- A time of day, followed by what `zone` accepts. -/
def isTime (zone : List Char → Bool) : List Char → Bool
  | h₁ :: h₂ :: ':' :: m₁ :: m₂ :: ':' :: s₁ :: s₂ :: rest =>
    (pair? 0 23 h₁ h₂).isSome && (pair? 0 59 m₁ m₂).isSome && (pair? 0 60 s₁ s₂).isSome &&
      match rest with
      | '.' :: rest => !(rest.takeWhile Char.isDigit).isEmpty && zone (rest.dropWhile Char.isDigit)
      | rest => zone rest
  | _ => false

/-- A date, a time, or a date and a time joined in one run. -/
def isMoment (run : List Char) : Bool :=
  isTime List.isEmpty run || isDate run ||
    (isDate (run.take 10) && match run.drop 10 with
      | mark :: rest => (mark == 'T' || mark == 't') && isTime isOffset rest
      | [] => false)

/-- A boolean. -/
def isBoolean (run : List Char) : Bool :=
  run = ['t', 'r', 'u', 'e'] ∨ run = ['f', 'a', 'l', 's', 'e']

end FrontEnd.Toml
