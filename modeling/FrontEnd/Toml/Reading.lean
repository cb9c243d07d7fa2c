import FrontEnd.Toml.Node
import FrontEnd.Toml.Quoted
import FrontEnd.Toml.Scalar

/-!
# Reading TOML

A document is a list of statements, each of which ends its line: a value given to a key, or the
header of a table or of an element of an array of tables. The statements are then carried out in
order on an empty document.
-/

namespace FrontEnd.Toml

/-- One statement of a document: the keys before the last one, and the last one. -/
inductive Statement where
  | assign (parents : List String) (key : String) (value : Node)
  | openTable (parents : List String) (key : String)
  | openElement (parents : List String) (key : String)

/-- The number of levels to which arrays and inline tables may be nested. -/
def maxNesting : Nat := 79

/-- The number of parts that a dotted key may have. -/
def maxKeyParts : Nat := 79

/-- Reads spaces and tabs. -/
def blanks : Reader (List Char) := .takeWhile isBlank

/-- Reads a line break. -/
def newline : Reader Unit := fun cs => if lineBreak cs = 0 then none else some ((), lineBreak cs)

/-- Reads a comment up to the end of its line. -/
def comment : Reader Unit := do
  Reader.char '#'
  let _ ← Reader.takeWhile isPrintable

/-- Reads the end of a line, which the end of the text may take the place of. -/
def lineEnd : Reader Unit := fun cs => if cs.isEmpty then some ((), 0) else newline cs

/-- Reads what may stand behind a statement. -/
def trailing : Reader Unit := do
  let _ ← blanks
  let _ ← Reader.optional comment
  lineEnd

/-- Reads blanks, comments and line breaks. A comment needs its line break. -/
def layout : Reader Unit := do
  let _ ← blanks
  let _ ← Reader.many (do
    let _ ← Reader.optional comment
    newline
    blanks)

/-- The characters of a key without quotes. -/
def isKeyChar (c : Char) : Bool := c.isAlphanum || c == '_' || c == '-'

/-- Reads a key without quotes. -/
def bareKey : Reader (List Char) := fun cs =>
  let run := cs.takeWhile isKeyChar
  if run.isEmpty then none else some (run, run.length)

/-- Reads one part of a key and the blanks around it. -/
def keyPart : Reader String := do
  let _ ← blanks
  let part ← Reader.orElse lineString bareKey
  let _ ← blanks
  return String.ofList part

/-- Reads a key: the parts before the last one, and the last one. -/
def key : Reader (List String × String) := do
  let first ← keyPart
  let more ← Reader.many (do Reader.char '.'; keyPart)
  let parts := first :: more
  if parts.length ≤ maxKeyParts then
    Reader.ofOption (parts.getLast?.map (parts.dropLast, ·))
  else Reader.fail

/-- Reads a number, a boolean or a date. A time may follow a date behind one space. -/
def scalar : Reader Node := fun cs =>
  let run := cs.takeWhile isRunChar
  let node := Node.other (String.ofList run)
  if isDate run then
    match cs.drop run.length with
    | ' ' :: c :: rest =>
      if c.isDigit then
        let time := (c :: rest).takeWhile isRunChar
        if isTime isOffset time then
          some (.other (String.ofList (run ++ ' ' :: time)), run.length + 1 + time.length)
        else none
      else some (node, run.length)
    | _ => some (node, run.length)
  else if isMoment run || isFloat run || isBoolean run then some (node, run.length)
  else (integer? run).map fun n => (.integer n, run.length)

/-- Reads the items of an array up to its closing bracket. -/
def arrayItems (item : Reader Node) : Reader (List Node) := do
  layout
  match ← Reader.optional item with
  | none =>
    Reader.char ']'
    return []
  | some first =>
    let more ← Reader.many (do layout; Reader.char ','; layout; item)
    layout
    let _ ← Reader.optional (Reader.char ',')
    layout
    Reader.char ']'
    return first :: more

/-- Reads a key and its value in an inline table. -/
def inlineMember (item : Reader Node) : Reader ((List String × String) × Node) := do
  let path ← key
  Reader.char '='
  let _ ← blanks
  let value ← item
  let _ ← blanks
  return (path, value)

/-- Reads the members of an inline table up to its closing brace. -/
def inlineMembers (item : Reader Node) : Reader (List (String × Node)) := do
  let members ← match ← Reader.optional (inlineMember item) with
    | none => pure []
    | some first =>
      let more ← Reader.many (do Reader.char ','; inlineMember item)
      pure (first :: more)
  let _ ← blanks
  Reader.char '\x7d'
  let table ← Reader.ofOption
    (members.foldlM (fun t (member : (List String × String) × Node) =>
      t.assign member.1.1 member.1.2 member.2) Table.root)
  return table.members

/-- Reads a value in which arrays and inline tables are nested at most `depth` levels. -/
def value (depth : Nat) : Reader Node := fun cs =>
  match cs, depth with
  | '"' :: _, _ => (string cs).map fun r => (.string (String.ofList r.1), r.2)
  | '\'' :: _, _ => (string cs).map fun r => (.string (String.ofList r.1), r.2)
  | '[' :: rest, depth + 1 => (arrayItems (value depth) rest).map fun r => (.array r.1, r.2 + 1)
  | '\x7b' :: rest, depth + 1 =>
    (inlineMembers (value depth) rest).map fun r => (.inline r.1, r.2 + 1)
  | cs, _ => scalar cs

/-- Reads the header of a table. -/
def tableHeader : Reader Statement := do
  Reader.char '['
  let (parents, name) ← key
  Reader.char ']'
  trailing
  return .openTable parents name

/-- Reads the header of an element of an array of tables. -/
def elementHeader : Reader Statement := do
  Reader.char '['
  Reader.char '['
  let (parents, name) ← key
  Reader.char ']'
  Reader.char ']'
  trailing
  return .openElement parents name

/-- Reads a value given to a key. -/
def assignment : Reader Statement := do
  let (parents, name) ← key
  Reader.char '='
  let _ ← blanks
  let node ← value maxNesting
  trailing
  return .assign parents name node

/-- Reads a line: a statement, or a comment or nothing. -/
def line : Reader (Option Statement) := fun cs =>
  match cs with
  | '#' :: _ => (do comment; lineEnd; return none : Reader (Option Statement)) cs
  | '\n' :: _ => (do newline; return none : Reader (Option Statement)) cs
  | '\r' :: _ => (do newline; return none : Reader (Option Statement)) cs
  | '[' :: '[' :: _ => (do return some (← elementHeader) : Reader (Option Statement)) cs
  | '[' :: _ => (do return some (← tableHeader) : Reader (Option Statement)) cs
  | _ => (do return some (← assignment) : Reader (Option Statement)) cs

/-- Reads the statements of a document. -/
def statements : Reader (List Statement) := do
  let _ ← blanks
  let lines ← Reader.many (do
    let l ← line
    let _ ← blanks
    return l)
  return lines.filterMap id

/-- A document under construction: the whole of it, and the path of the table opened last. -/
structure Draft where
  document : Table
  path : List String

/-- Carries out one statement. -/
def Draft.run (d : Draft) : Statement → Option Draft
  | .assign parents name node =>
    (d.document.reach false (fun t => t.assign parents name node) d.path).map (⟨·, d.path⟩)
  | .openTable parents name => (d.document.openTable parents name).map (⟨·, parents ++ [name]⟩)
  | .openElement parents name => (d.document.openElement parents name).map (⟨·, parents ++ [name]⟩)

/-- Drops a byte order mark at the front of a text. -/
def dropMark : List Char → List Char
  | '\ufeff' :: rest => rest
  | cs => cs

/-- Reads a document: the members of its outermost table. -/
def read? (text : String) : Option (List (String × Node)) := do
  let stmts ← statements.all? (dropMark text.toList)
  let draft ← stmts.foldlM Draft.run ⟨.root, []⟩
  return draft.document.members

end FrontEnd.Toml
