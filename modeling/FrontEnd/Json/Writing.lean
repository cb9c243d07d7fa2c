import FrontEnd.Text.Characters

/-!
# Writing JSON

The spread layout: one item or member a line, indented by its depth, and nothing but brackets for
what is empty. Strings escape quotes, backslashes and the controls below U+0020, and nothing else.
-/

namespace FrontEnd.Json

/-- A character as it stands in a string. -/
def escaped (c : Char) : List Char :=
  match c with
  | '"' => ['\\', '"']
  | '\\' => ['\\', '\\']
  | '\x08' => ['\\', 'b']
  | '\x0c' => ['\\', 'f']
  | '\n' => ['\\', 'n']
  | '\r' => ['\\', 'r']
  | '\t' => ['\\', 't']
  | c => if c < ' ' then '\\' :: 'u' :: Digits.hex 4 c.toNat else [c]

/-- A text as a string. -/
def quoted (cs : List Char) : List Char := '"' :: cs.flatMap escaped ++ ['"']

/-- A truth value. -/
def boolean (b : Bool) : List Char := (if b then "true" else "false").toList

/-- The start of a line at a depth. -/
def newline (indent depth : Nat) : List Char := '\n' :: List.replicate (indent * depth) ' '

/-- Parts written one a line between brackets that stand at `depth`. -/
def spread (indent depth : Nat) (opening closing : Char) (parts : List (List Char)) : List Char :=
  if parts.isEmpty then [opening, closing]
  else
    opening :: newline indent (depth + 1) ++
      List.intercalate (',' :: newline indent (depth + 1)) parts ++
      newline indent depth ++ [closing]

/-- An array of written items whose brackets stand at `depth`. -/
def array (indent depth : Nat) (items : List (List Char)) : List Char :=
  spread indent depth '[' ']' items

/-- An object of named written members whose braces stand at `depth`. -/
def object (indent depth : Nat) (members : List (String × List Char)) : List Char :=
  spread indent depth '\x7b' '\x7d'
    (members.map fun m => quoted m.1.toList ++ ':' :: ' ' :: m.2)

end FrontEnd.Json
