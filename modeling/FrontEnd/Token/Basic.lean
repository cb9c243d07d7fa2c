/-!
# Tokens

A token is a kind, the text it stands for, and the line and column of its first character. The kinds
are a closed list in a fixed order, with the name each has in exported files.
-/

namespace FrontEnd

/-- What a token is. The order of the constructors is the order of the kinds. -/
inductive Kind where
  | illegal
  | ident
  | nullLiteral
  | number
  | boolTrue
  | boolFalse
  | string
  | char
  | singleComment
  | multiComment
  | keyword
  | assign
  | plus
  | minus
  | mult
  | divide
  | modulo
  | power
  | equal
  | notEqual
  | greater
  | less
  | greaterEqual
  | lessEqual
  | logicalAnd
  | logicalOr
  | logicalNot
  | linebreak
  | dot
  | comma
  | colon
  | semicolon
  | leftParen
  | rightParen
  | leftBracket
  | rightBracket
  | leftBrace
  | rightBrace
  | endOfText
deriving DecidableEq, Repr

namespace Kind

/-- Every kind, in order. -/
def all : List Kind :=
  [illegal, ident, nullLiteral, number, boolTrue, boolFalse, string, char, singleComment,
    multiComment, keyword, assign, plus, minus, mult, divide, modulo, power, equal, notEqual,
    greater, less, greaterEqual, lessEqual, logicalAnd, logicalOr, logicalNot, linebreak, dot,
    comma, colon, semicolon, leftParen, rightParen, leftBracket, rightBracket, leftBrace,
    rightBrace, endOfText]

/-- The position of a kind in the order, from zero. -/
def index (k : Kind) : Nat := k.ctorIdx

/-- The name of a kind in exported files and listings. -/
def name : Kind → String
  | illegal => "ILLEGAL"
  | ident => "IDENT"
  | nullLiteral => "NULL_LITERAL"
  | number => "NUMBER"
  | boolTrue => "BOOL_TRUE"
  | boolFalse => "BOOL_FALSE"
  | string => "STRING"
  | char => "CHAR"
  | singleComment => "SINGLE_COMMENT"
  | multiComment => "MULTI_COMMENT"
  | keyword => "KEYWORD"
  | assign => "ASSIGN"
  | plus => "PLUS"
  | minus => "MINUS"
  | mult => "MULT"
  | divide => "DIVIDE"
  | modulo => "MODULO"
  | power => "POWER"
  | equal => "EQUAL"
  | notEqual => "NOT_EQUAL"
  | greater => "GREATER"
  | less => "LESS"
  | greaterEqual => "GREATER_EQUAL"
  | lessEqual => "LESS_EQUAL"
  | logicalAnd => "LOGICAL_AND"
  | logicalOr => "LOGICAL_OR"
  | logicalNot => "LOGICAL_NOT"
  | linebreak => "LINEBREAK"
  | dot => "DOT"
  | comma => "COMMA"
  | colon => "COLON"
  | semicolon => "SEMICOLON"
  | leftParen => "LEFT_PAREN"
  | rightParen => "RIGHT_PAREN"
  | leftBracket => "LEFT_BRACKET"
  | rightBracket => "RIGHT_BRACKET"
  | leftBrace => "LEFT_BRACE"
  | rightBrace => "RIGHT_BRACE"
  | endOfText => "EOF_TOKEN"

/-- Reads the name of a kind; only the exact spelling counts. -/
def ofName? (s : String) : Option Kind := all.find? fun k => k.name == s

/-- The text shown for a name that no kind has. -/
def unknownMessage (s : String) : String := "unknown token kind '" ++ s ++ "'"

/-- The kinds of arithmetic, comparison, logical and assignment operators. -/
def isOperator : Kind → Bool
  | assign | plus | minus | mult | divide | modulo | power | equal | notEqual | greater | less
  | greaterEqual | lessEqual | logicalAnd | logicalOr | logicalNot => true
  | _ => false

/-- The kinds of literals. -/
def isLiteral : Kind → Bool
  | nullLiteral | number | boolTrue | boolFalse | string | char => true
  | _ => false

/-- Kinds are compared by their position. -/
def order (a b : Kind) : Ordering := compare a.index b.index

/-- The list of kinds has every kind at its position. -/
theorem all_get_index (k : Kind) : all[k.index]? = some k := by
  cases k <;> rfl

/-- A kind is read back from its name. -/
theorem ofName?_name (k : Kind) : ofName? k.name = some k := by
  cases k <;> decide

end Kind

/-- One token of a source text. -/
structure Token where
  kind : Kind
  text : String
  line : UInt32
  column : UInt32
deriving DecidableEq, Repr

namespace Token

/-- The token that closes every token list: it has no text. -/
def endOfText (line column : UInt32) : Token := ⟨.endOfText, "", line, column⟩

/-- Whether a token closes the list. -/
def isEnd (t : Token) : Bool := t.kind == .endOfText

/-- Whether a token is a reserved word other than a literal. -/
def isKeyword (t : Token) : Bool := t.kind == .keyword

/-- The line that a listing shows for a token. The text is shown as it is. -/
def listing (t : Token) : String :=
  "Token\x7btype=" ++ t.kind.name ++ ", value=\"" ++ t.text ++ "\", line=" ++
    t.line.toNat.repr ++ ", column=" ++ t.column.toNat.repr ++ "\x7d"

end Token

end FrontEnd
