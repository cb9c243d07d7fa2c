import FrontEnd.Json.Value
import FrontEnd.Text.Reader
import FrontEnd.Text.Characters

/-!
# Reading JSON

The strict grammar: no comments, no trailing commas, no text behind the value. A text is first
split into marks, and the marks are then put together with a stack of the arrays and objects that
are open, so values may be nested to any depth.
-/

namespace FrontEnd.Json

/-- One mark of a JSON text. -/
inductive Mark where
  | openArray
  | closeArray
  | openObject
  | closeObject
  | comma
  | colon
  | null
  | boolean (b : Bool)
  | number (text : List Char)
  | string (points : List CodePoint)
deriving DecidableEq, Repr

/-- Space, tab, line feed and carriage return. -/
def isSpace (c : Char) : Bool := c == ' ' || c == '\t' || c == '\n' || c == '\r'

/-- The character that a one-letter escape stands for. -/
def unescape? : Char → Option Char
  | '"' => some '"'
  | '\\' => some '\\'
  | '/' => some '/'
  | 'b' => some '\x08'
  | 'f' => some '\x0c'
  | 'n' => some '\n'
  | 'r' => some '\r'
  | 't' => some '\t'
  | _ => none

/-- Reads a string from behind its opening quote, after the elements read so far (last first) and
the characters they took. -/
def stringFrom (done : List CodePoint) (taken : Nat) : Reader (List CodePoint)
  | [] => none
  | '"' :: _ => some (done.reverse, taken + 1)
  | '\\' :: 'u' :: a :: b :: c :: d :: rest =>
    match Digits.number? 16 [a, b, c, d] with
    | some code => stringFrom (.ofCode code :: done) (taken + 6) rest
    | none => none
  | '\\' :: letter :: rest =>
    match unescape? letter with
    | some c => stringFrom (.scalar c :: done) (taken + 2) rest
    | none => none
  | c :: rest => if c < ' ' then none else stringFrom (.scalar c :: done) (taken + 1) rest

/-- The characters a number is made of. -/
def isNumberChar (c : Char) : Bool :=
  c.isDigit || c == '+' || c == '-' || c == '.' || c == 'e' || c == 'E'

/-- Digits, at least one. -/
def isDigits (cs : List Char) : Bool := !cs.isEmpty && cs.all Char.isDigit

/-- Nothing, or an exponent mark with an optional sign and digits. -/
def isExponent : List Char → Bool
  | [] => true
  | mark :: '+' :: rest => (mark == 'e' || mark == 'E') && isDigits rest
  | mark :: '-' :: rest => (mark == 'e' || mark == 'E') && isDigits rest
  | mark :: rest => (mark == 'e' || mark == 'E') && isDigits rest

/-- An optional fraction and an optional exponent. -/
def isFraction : List Char → Bool
  | '.' :: rest =>
    !(rest.takeWhile Char.isDigit).isEmpty && isExponent (rest.dropWhile Char.isDigit)
  | rest => isExponent rest

/-- An unsigned number: no zero in front of other digits. -/
def isUnsigned (cs : List Char) : Bool :=
  let whole := cs.takeWhile Char.isDigit
  (whole == ['0'] || (!whole.isEmpty && whole.head? != some '0')) &&
    isFraction (cs.dropWhile Char.isDigit)

/-- A number, with a minus sign or none. -/
def isNumber : List Char → Bool
  | '-' :: rest => isUnsigned rest
  | cs => isUnsigned cs

/-- Reads one mark. -/
def mark : Reader Mark
  | '[' :: _ => some (.openArray, 1)
  | ']' :: _ => some (.closeArray, 1)
  | '\x7b' :: _ => some (.openObject, 1)
  | '\x7d' :: _ => some (.closeObject, 1)
  | ',' :: _ => some (.comma, 1)
  | ':' :: _ => some (.colon, 1)
  | '"' :: rest => (stringFrom [] 1 rest).map fun r => (.string r.1, r.2)
  | 'n' :: 'u' :: 'l' :: 'l' :: _ => some (.null, 4)
  | 't' :: 'r' :: 'u' :: 'e' :: _ => some (.boolean true, 4)
  | 'f' :: 'a' :: 'l' :: 's' :: 'e' :: _ => some (.boolean false, 5)
  | cs =>
    let run := cs.takeWhile isNumberChar
    if isNumber run then some (.number run, run.length) else none

/-- Reads white space. -/
def space : Reader (List Char) := .takeWhile isSpace

/-- Splits a text into its marks. -/
def marks? (cs : List Char) : Option (List Mark) :=
  Reader.all? (do
    let _ ← space
    Reader.many (do
      let m ← mark
      let _ ← space
      return m)) cs

/-- What is open around the value being read: an array with its items so far, or an object with
its members so far and the key of the value, both last first. -/
inductive Frame where
  | array (items : List Value)
  | object (members : List (List CodePoint × Value)) (key : List CodePoint)

/-- Puts marks together. With no value in hand it reads one; a value in hand goes into the
innermost open array or object. -/
def assemble (stack : List Frame) : Option Value → List Mark → Option Value
  | none, .null :: ms => assemble stack (some .null) ms
  | none, .boolean b :: ms => assemble stack (some (.boolean b)) ms
  | none, .number text :: ms => assemble stack (some (.number text)) ms
  | none, .string points :: ms => assemble stack (some (.string points)) ms
  | none, .openArray :: .closeArray :: ms => assemble stack (some (.array [])) ms
  | none, .openArray :: ms => assemble (.array [] :: stack) none ms
  | none, .openObject :: .closeObject :: ms => assemble stack (some (.object [])) ms
  | none, .openObject :: .string key :: .colon :: ms => assemble (.object [] key :: stack) none ms
  | none, _ => none
  | some v, ms =>
    match stack, ms with
    | [], [] => some v
    | .array items :: stack, .comma :: ms => assemble (.array (v :: items) :: stack) none ms
    | .array items :: stack, .closeArray :: ms =>
      assemble stack (some (.array (v :: items).reverse)) ms
    | .object members key :: stack, .comma :: .string next :: .colon :: ms =>
      assemble (.object ((key, v) :: members) next :: stack) none ms
    | .object members key :: stack, .closeObject :: ms =>
      assemble stack (some (.object ((key, v) :: members).reverse)) ms
    | _, _ => none

/-- Reads a text that holds exactly one value. -/
def read? (text : String) : Option Value := (marks? text.toList).bind (assemble [] none)

end FrontEnd.Json
