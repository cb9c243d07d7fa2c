import FrontEnd.Text.Characters

/-!
# Writing TOML strings

A string is written in the plainest form that can hold it: a basic string if nothing needs an
escape, a literal string if that avoids escapes, the forms on several lines for line breaks or
awkward quotes, and a basic form with escapes for the rest.
-/

namespace FrontEnd.Toml

/-- The forms of a string. -/
inductive Form where
  | basic
  | literal
  | basicLines
  | literalLines
deriving DecidableEq, Repr

/-- The length of the longest run of `q`, given the length of the run that ends here. -/
def longestRunFrom (q : Char) (run : Nat) : List Char → Nat
  | [] => run
  | c :: rest =>
    if c = q then longestRunFrom q (run + 1) rest else max run (longestRunFrom q 0 rest)

/-- The length of the longest run of `q`. -/
def longestRun (q : Char) (cs : List Char) : Nat := longestRunFrom q 0 cs

/-- The controls that no literal form can hold: all but tab and line feed. -/
def needsEscape (c : Char) : Bool := (c < ' ' && c != '\t' && c != '\n') || c == '\x7f'

/-- The form in which a text is written. -/
def formOf (cs : List Char) : Form :=
  let control := cs.any needsEscape
  let backslash := cs.contains '\\'
  let newline := cs.contains '\n'
  let double := longestRun '"' cs
  let single := longestRun '\'' cs
  if !control && !backslash && double = 0 && !newline then .basic
  else if !control && single = 0 && !newline then .literal
  else if !control && !backslash && double ≤ 2 then .basicLines
  else if !control && single ≤ 2 then .literalLines
  else if newline then .basicLines
  else .basic

/-- A character other than a quote or a line feed as it stands in the basic forms. -/
def escaped (c : Char) : List Char :=
  match c with
  | '\x08' => ['\\', 'b']
  | '\t' => ['\\', 't']
  | '\x0c' => ['\\', 'f']
  | '\r' => ['\\', 'r']
  | '\\' => ['\\', '\\']
  | c => if c < ' ' ∨ c = '\x7f' then '\\' :: 'u' :: Digits.hexUpper 4 c.toNat else [c]

/-- A character as it stands in a basic string on one line. -/
def escapedInLine (c : Char) : List Char :=
  match c with
  | '"' => ['\\', '"']
  | '\n' => ['\\', 'n']
  | c => escaped c

/-- A text as it stands in a basic string on several lines, with the number of quotes that stand
directly in front of it: the third quote in a row is escaped. -/
def escapedInLines (quotes : Nat) : List Char → List Char
  | [] => []
  | '"' :: rest =>
    if quotes = 2 then '\\' :: '"' :: escapedInLines 0 rest
    else '"' :: escapedInLines (quotes + 1) rest
  | '\n' :: rest => '\n' :: escapedInLines 0 rest
  | c :: rest => escaped c ++ escapedInLines 0 rest

/-- The line break behind opening quotes that a text with line breaks gets. -/
def leadingBreak (cs : List Char) : List Char := if cs.contains '\n' then ['\n'] else []

/-- A text as a string of a given form. -/
def quotedAs (form : Form) (cs : List Char) : List Char :=
  match form with
  | .basic => '"' :: cs.flatMap escapedInLine ++ ['"']
  | .literal => '\'' :: cs ++ ['\'']
  | .basicLines => ['"', '"', '"'] ++ leadingBreak cs ++ escapedInLines 0 cs ++ ['"', '"', '"']
  | .literalLines => ['\'', '\'', '\''] ++ leadingBreak cs ++ cs ++ ['\'', '\'', '\'']

/-- A text as a string of the form that suits it. -/
def quoted (cs : List Char) : List Char := quotedAs (formOf cs) cs

end FrontEnd.Toml
