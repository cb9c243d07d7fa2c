import FrontEnd.Lexeme.Literal
import FrontEnd.Token.Vocabulary

/-!
# Reading gaps and lexemes

Blanks and comments stand between lexemes and make no token. Blanks are spaces, tabs and carriage
returns; a line comment ends before its newline; a block comment ends at the first end mark, so
block comments do not nest. Behind such a gap the first character decides which form a lexeme has.
Operators take the longest form that matches with one character of look-ahead; an ampersand or a bar
stands only doubled.
-/

namespace FrontEnd

/-! ### Gaps -/

namespace Gap

/-- Spaces, tabs and carriage returns. Newlines are lexemes. -/
def isBlank (c : Char) : Bool := c == ' ' || c == '\t' || c == '\r'

/-- The number of characters up to and including the first end mark of a block comment, counted
on from `n`. There is none if the comment stays open. -/
def closeComment? (n : Nat) : List Char → Option Nat
  | [] => none
  | '*' :: '/' :: _ => some (n + 2)
  | _ :: rest => closeComment? (n + 1) rest

/-- The number of characters before the next lexeme or the end, counted on from `n`. There is
none if a block comment stays open. -/
def width? (n : Nat) (cs : List Char) : Option Nat :=
  match cs with
  | '/' :: '/' :: rest =>
    let comment := (rest.takeWhile (· != '\n')).length
    width? (n + 2 + comment) (rest.drop comment)
  | '/' :: '*' :: rest =>
    match closeComment? 0 rest with
    | none => none
    | some comment => width? (n + 2 + comment) (rest.drop comment)
  | c :: rest => if isBlank c then width? (n + 1) rest else some n
  | [] => some n
termination_by cs.length
decreasing_by all_goals simp only [List.length_cons, List.length_drop]; omega

end Gap

/-! ### Lexemes -/

namespace Lexeme

/-- The characters that can start a word: ASCII letters and the underscore. -/
def isWordStart (c : Char) : Bool := c.isAlpha || c == '_'

/-- The characters that can continue a word: ASCII letters, digits and the underscore. -/
def isWordPart (c : Char) : Bool := c.isAlphanum || c == '_'

/-- Reads the word that starts with `c`. -/
def word (c : Char) (rest : List Char) : Lexeme :=
  let tail := (rest.takeWhile isWordPart).length
  .verbatim (Vocabulary.classify (String.ofList (c :: rest.take tail))) c rest tail

/-- The kind of the characters that are operators or punctuation on their own and start no longer
form. -/
def single? : Char → Option Kind
  | '+' => some .plus
  | '-' => some .minus
  | '/' => some .divide
  | '%' => some .modulo
  | '.' => some .dot
  | ',' => some .comma
  | ':' => some .colon
  | ';' => some .semicolon
  | '(' => some .leftParen
  | ')' => some .rightParen
  | '[' => some .leftBracket
  | ']' => some .rightBracket
  | '\x7b' => some .leftBrace
  | '\x7d' => some .rightBrace
  | _ => none

/-- The operator `c` in its long form if `second` follows, else in its short form. -/
def extended (c second : Char) (long short : Kind) (rest : List Char) : Lexeme :=
  if rest.head? = some second then .verbatim long c rest 1 else .verbatim short c rest 0

/-- The operator made of `c` twice. A single `c` is a fault reported where it stands. -/
def doubled (c : Char) (kind : Kind) (rest : List Char) : Except Fault Lexeme :=
  if rest.head? = some c then .ok (.verbatim kind c rest 1)
  else .error ⟨.undoubledCharacter, some c, 0, 1⟩

/-- Reads the operator or punctuation mark that starts with `c`. -/
def operator (c : Char) (rest : List Char) : Except Fault Lexeme :=
  match c with
  | '=' => .ok (extended c '=' .equal .assign rest)
  | '!' => .ok (extended c '=' .notEqual .logicalNot rest)
  | '<' => .ok (extended c '=' .lessEqual .less rest)
  | '>' => .ok (extended c '=' .greaterEqual .greater rest)
  | '*' => .ok (extended c '*' .power .mult rest)
  | '&' => doubled c .logicalAnd rest
  | '|' => doubled c .logicalOr rest
  | c =>
    match single? c with
    | some kind => .ok (.verbatim kind c rest 0)
    | none => .error (.here .unexpectedCharacter (some c) 0)

/-- Reads the lexeme that starts with `c`. -/
def scan (c : Char) (rest : List Char) : Except Fault Lexeme :=
  if c = '\n' then .ok (.verbatim .linebreak c rest 0)
  else if c = '"' then Quoted.stringBody 1 [] rest
  else if c = '\'' then Quoted.charBody rest
  else if c.isDigit then Number.scan c rest
  else if isWordStart c then .ok (word c rest)
  else operator c rest

end Lexeme

end FrontEnd
