import FrontEnd.Text.Reader
import FrontEnd.Text.Characters

/-!
# TOML strings

Four forms: basic strings have escapes, literal strings have none, and both come on one line or on
several. A form on several lines drops a line break right behind its opening quotes, may hold one
or two of its quotes in a row, also in front of the closing ones, and reads a carriage return and
line feed as one line feed.
-/

namespace FrontEnd.Toml

/-- The characters that may stand in a comment: all but the controls, and the tab. -/
def isPrintable (c : Char) : Bool := c == '\t' || (' ' ≤ c && c != '\x7f')

/-- The character that a one-letter escape stands for. -/
def unescape? : Char → Option Char
  | 'b' => some '\x08'
  | 't' => some '\t'
  | 'n' => some '\n'
  | 'f' => some '\x0c'
  | 'r' => some '\r'
  | '"' => some '"'
  | '\\' => some '\\'
  | _ => none

/-- The character with a code point; surrogates are not characters. -/
def ofCode? (code : Nat) : Option Char :=
  if h : code.isValidChar then some (Char.ofNatAux code h) else none

/-- Reads an escape from behind its backslash. -/
def escape? : List Char → Option (Char × Nat)
  | 'u' :: a :: b :: c :: d :: _ =>
    ((Digits.number? 16 [a, b, c, d]).bind ofCode?).map (·, 5)
  | 'U' :: a :: b :: c :: d :: e :: f :: g :: h :: _ =>
    ((Digits.number? 16 [a, b, c, d, e, f, g, h]).bind ofCode?).map (·, 9)
  | letter :: _ => (unescape? letter).map (·, 1)
  | [] => none

/-- Reads a basic string from behind its opening quote, after the text read so far (last first)
and the characters it took. -/
def basicFrom (done : List Char) (taken : Nat) (cs : List Char) : Option (List Char × Nat) :=
  match cs with
  | [] => none
  | '"' :: _ => some (done.reverse, taken + 1)
  | '\\' :: rest =>
    match escape? rest with
    | some (c, width) => basicFrom (c :: done) (taken + 1 + width) (rest.drop width)
    | none => none
  | c :: rest => if isPrintable c then basicFrom (c :: done) (taken + 1) rest else none
termination_by cs.length
decreasing_by all_goals simp only [List.length_cons, List.length_drop]; omega

/-- Reads a literal string from behind its opening quote. -/
def literalFrom (done : List Char) (taken : Nat) : List Char → Option (List Char × Nat)
  | [] => none
  | '\'' :: _ => some (done.reverse, taken + 1)
  | c :: rest => if isPrintable c then literalFrom (c :: done) (taken + 1) rest else none

/-- Spaces and tabs. -/
def isBlank (c : Char) : Bool := c == ' ' || c == '\t'

/-- The length of the line break at the front, zero if there is none. -/
def lineBreak : List Char → Nat
  | '\n' :: _ => 1
  | '\r' :: '\n' :: _ => 2
  | _ => 0

/-- The number of blanks and line breaks at the front, counted on from `n`. -/
def spaceFrom (n : Nat) : List Char → Nat
  | '\n' :: rest => spaceFrom (n + 1) rest
  | '\r' :: '\n' :: rest => spaceFrom (n + 2) rest
  | c :: rest => if isBlank c then spaceFrom (n + 1) rest else n
  | [] => n

/-- Whether only blanks come before a line break. -/
def endsLine (cs : List Char) : Bool := lineBreak (cs.dropWhile isBlank) != 0

/-- Reads a basic string on several lines. A backslash at the end of a line leaves out all blanks
and line breaks up to the next other character. -/
def basicLinesFrom (done : List Char) (taken : Nat) (cs : List Char) :
    Option (List Char × Nat) :=
  match cs with
  | [] => none
  | '"' :: '"' :: '"' :: '"' :: '"' :: _ => some (('"' :: '"' :: done).reverse, taken + 5)
  | '"' :: '"' :: '"' :: '"' :: _ => some (('"' :: done).reverse, taken + 4)
  | '"' :: '"' :: '"' :: _ => some (done.reverse, taken + 3)
  | '"' :: rest => basicLinesFrom ('"' :: done) (taken + 1) rest
  | '\\' :: rest =>
    if endsLine rest then
      let space := spaceFrom 0 rest
      basicLinesFrom done (taken + 1 + space) (rest.drop space)
    else
      match escape? rest with
      | some (c, width) => basicLinesFrom (c :: done) (taken + 1 + width) (rest.drop width)
      | none => none
  | '\n' :: rest => basicLinesFrom ('\n' :: done) (taken + 1) rest
  | '\r' :: '\n' :: rest => basicLinesFrom ('\n' :: done) (taken + 2) rest
  | c :: rest => if isPrintable c then basicLinesFrom (c :: done) (taken + 1) rest else none
termination_by cs.length
decreasing_by all_goals simp only [List.length_cons, List.length_drop]; omega

/-- Reads a literal string on several lines. -/
def literalLinesFrom (done : List Char) (taken : Nat) : List Char → Option (List Char × Nat)
  | [] => none
  | '\'' :: '\'' :: '\'' :: '\'' :: '\'' :: _ => some (('\'' :: '\'' :: done).reverse, taken + 5)
  | '\'' :: '\'' :: '\'' :: '\'' :: _ => some (('\'' :: done).reverse, taken + 4)
  | '\'' :: '\'' :: '\'' :: _ => some (done.reverse, taken + 3)
  | '\'' :: rest => literalLinesFrom ('\'' :: done) (taken + 1) rest
  | '\n' :: rest => literalLinesFrom ('\n' :: done) (taken + 1) rest
  | '\r' :: '\n' :: rest => literalLinesFrom ('\n' :: done) (taken + 2) rest
  | c :: rest => if isPrintable c then literalLinesFrom (c :: done) (taken + 1) rest else none

/-- Reads a string on one line, as keys are quoted. -/
def lineString : Reader (List Char)
  | '"' :: rest => basicFrom [] 1 rest
  | '\'' :: rest => literalFrom [] 1 rest
  | _ => none

/-- Reads a string of any form. -/
def string : Reader (List Char)
  | '"' :: '"' :: '"' :: rest =>
    basicLinesFrom [] (3 + lineBreak rest) (rest.drop (lineBreak rest))
  | '\'' :: '\'' :: '\'' :: rest =>
    literalLinesFrom [] (3 + lineBreak rest) (rest.drop (lineBreak rest))
  | cs => lineString cs

end FrontEnd.Toml
