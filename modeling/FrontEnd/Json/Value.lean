/-!
# JSON values

Numbers keep the text they are written with, and strings keep surrogate code points that were
escaped: whether these pair up only matters where the string is used.
-/

namespace FrontEnd.Json

/-- One element of a string: a character, or a surrogate code point given by an escape. -/
inductive CodePoint where
  | scalar (c : Char)
  | surrogate (code : Nat)
deriving DecidableEq, Repr

namespace CodePoint

/-- The element that a four-digit escape stands for. -/
def ofCode (code : Nat) : CodePoint :=
  if 0xd800 ≤ code ∧ code < 0xe000 then surrogate code else scalar (Char.ofNat code)

/-- The character made of a high and a low surrogate. -/
def pair? (high low : Nat) : Option Char :=
  if high < 0xdc00 ∧ 0xdc00 ≤ low then
    some (Char.ofNat (0x10000 + (high - 0xd800) * 0x400 + (low - 0xdc00)))
  else none

/-- The characters of a string, if every surrogate in it belongs to a pair. -/
def chars? : List CodePoint → Option (List Char)
  | [] => some []
  | scalar c :: rest => (chars? rest).map (c :: ·)
  | surrogate high :: surrogate low :: rest =>
    (pair? high low).bind fun c => (chars? rest).map (c :: ·)
  | surrogate _ :: _ => none

/-- The text of a string, if every surrogate in it belongs to a pair. -/
def text? (points : List CodePoint) : Option String := (chars? points).map String.ofList

end CodePoint

/-- A JSON value as it is written. -/
inductive Value where
  | null
  | boolean (b : Bool)
  | number (text : List Char)
  | string (points : List CodePoint)
  | array (items : List Value)
  | object (members : List (List CodePoint × Value))
deriving Inhabited

namespace Value

/-- The text of a string value. -/
def text? : Value → Option String
  | string points => CodePoint.text? points
  | _ => none

/-- The truth value of a boolean. -/
def boolean? : Value → Option Bool
  | boolean b => some b
  | _ => none

/-- The number written as plain digits: no sign, fraction or exponent. -/
def natural? : Value → Option Nat
  | number text =>
    if text.all Char.isDigit then some (Nat.ofDigitChars 10 text 0) else none
  | _ => none

/-- The values given for named fields: an object gives them by key, an array by position. Keys
that name no field are passed over; a field given twice, a key that is no text and an array with
more values than fields are refused. -/
def fields? (names : List String) : Value → Option (List (Option Value))
  | array items =>
    if items.length ≤ names.length then some (names.mapIdx fun i _ => items[i]?) else none
  | object members => do
    let keyed ← members.mapM fun m => (CodePoint.text? m.1).map (·, m.2)
    names.mapM fun name =>
      match keyed.filter (·.1 == name) with
      | [] => some none
      | [member] => some (some member.2)
      | _ => none
  | _ => none

end Value

end FrontEnd.Json
