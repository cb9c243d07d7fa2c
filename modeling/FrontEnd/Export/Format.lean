import FrontEnd.Json.Reading
import FrontEnd.Json.Writing
import FrontEnd.Token.Basic
import FrontEnd.Toml.Reading
import FrontEnd.Toml.Writing

/-!
# Exported documents

A token list is exported as a document of records, and read back from it. A record keeps the line,
the kind and the text of a token, in that order; columns are not exported. In JSON that is an array
of objects with the members `line`, `type` and `value`, indented by four spaces. In TOML it is an
array of tables named `tokens` with these keys, one empty line between two tables.
-/

namespace FrontEnd

/-- What an exported file says of one token. -/
structure Record where
  line : UInt32
  kind : Kind
  text : String
deriving DecidableEq, Repr

namespace Record

/-- The record of a token. -/
def ofToken (t : Token) : Record := ⟨t.line, t.kind, t.text⟩

/-- A line number that fits its word. -/
def line? (n : Nat) : Option UInt32 := if n < UInt32.size then some (UInt32.ofNat n) else none

theorem line?_toNat (n : UInt32) : line? n.toNat = some n := by
  rw [line?, if_pos n.toNat_lt_size, UInt32.ofNat_toNat]

/-! ### JSON -/

open Json (Value)

/-- A record as an object. -/
def writeJson (r : Record) : List Char :=
  Json.object 4 1
    [("line", Digits.decimal r.line.toNat), ("type", Json.quoted r.kind.name.toList),
      ("value", Json.quoted r.text.toList)]

/-- Records as a document without a final newline. -/
def jsonDocument (records : List Record) : String :=
  String.ofList (Json.array 4 0 (records.map writeJson))

/-- A kind is given by its name, or by an object with the name as its only key and `null` as the
value. -/
def kindOfJson? : Value → Option Kind
  | .string points => (Json.CodePoint.text? points).bind Kind.ofName?
  | .object [(key, .null)] => (Json.CodePoint.text? key).bind Kind.ofName?
  | _ => none

/-- A record is given by an object or by the array of its fields. -/
def ofJson? (v : Value) : Option Record := do
  match ← v.fields? ["line", "type", "value"] with
  | [some line, some kind, some text] =>
    return ⟨← line? (← line.natural?), ← kindOfJson? kind, ← text.text?⟩
  | _ => none

/-- Reads a document of records. -/
def ofJsonDocument? (text : String) : Option (List Record) := do
  match ← Json.read? text with
  | .array items => items.mapM ofJson?
  | _ => none

/-! ### TOML -/

open Toml (Node)

/-- A record as a table of the array. -/
def writeToml (r : Record) : List Char :=
  "[[tokens]]\nline = ".toList ++ Digits.decimal r.line.toNat ++
    "\ntype = ".toList ++ Toml.quoted r.kind.name.toList ++
    "\nvalue = ".toList ++ Toml.quoted r.text.toList ++ ['\n']

/-- Records as a document. -/
def tomlDocument (records : List Record) : String :=
  if records.isEmpty then "tokens = []\n"
  else String.ofList (List.intercalate ['\n'] (records.map writeToml))

/-- A kind is given by its name, or by a table with the name as its only key and something empty
as the value. -/
def kindOfToml? : Node → Option Kind
  | .string name => Kind.ofName? name
  | .inline [(name, value)] => if value.isEmpty then Kind.ofName? name else none
  | .table _ [(name, value)] => if value.isEmpty then Kind.ofName? name else none
  | _ => none

/-- A line number is an integer that fits its word. -/
def lineOfToml? : Node → Option UInt32
  | .integer n => if 0 ≤ n then line? n.toNat else none
  | _ => none

/-- The text of a token is a string. -/
def textOfToml? : Node → Option String
  | .string text => some text
  | _ => none

/-- A record from the nodes of its fields. -/
def ofFields? (line kind text : Node) : Option Record := do
  return ⟨← lineOfToml? line, ← kindOfToml? kind, ← textOfToml? text⟩

/-- A record is given by a table, or by an array that starts with its fields in order. -/
def ofToml? (n : Node) : Option Record :=
  match n with
  | .array (line :: kind :: text :: _) => ofFields? line kind text
  | n => do
    let members ← n.members?
    ofFields? (← members.lookup "line") (← members.lookup "type") (← members.lookup "value")

/-- Reads a document of records; keys other than `tokens` are passed over. -/
def ofTomlDocument? (text : String) : Option (List Record) := do
  let members ← Toml.read? text
  let items ← (← members.lookup "tokens").items?
  items.mapM ofToml?

end Record

/-! ### Formats -/

/-- The formats of exported documents. -/
inductive Format where
  | json
  | toml
deriving DecidableEq, Repr

namespace Format

/-- The name of a format. -/
def name : Format → String
  | json => "json"
  | toml => "toml"

/-- Reads the name of a format; the case of ASCII letters does not count. -/
def ofName? (s : String) : Option Format :=
  match String.ofList (s.toList.map Char.toLower) with
  | "json" => some json
  | "toml" => some toml
  | _ => none

/-- The text shown for a name that no format has. -/
def unknownMessage (s : String) : String :=
  "unknown export format '" ++ s ++ "' (expected json or toml)"

/-- Writes records as a document. -/
def write (f : Format) (records : List Record) : String :=
  match f with
  | json => Record.jsonDocument records
  | toml => Record.tomlDocument records

/-- Reads the records of a document. -/
def read? (f : Format) (text : String) : Option (List Record) :=
  match f with
  | json => Record.ofJsonDocument? text
  | toml => Record.ofTomlDocument? text

/-- Writes the records of tokens as a document. -/
def document (f : Format) (tokens : List Token) : String := f.write (tokens.map .ofToken)

end Format

end FrontEnd
