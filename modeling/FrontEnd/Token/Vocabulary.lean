import FrontEnd.Token.Basic

/-!
# Reserved words

The reserved words form a sorted table that is searched by halving. Words of the table become
keywords, except the three that spell literals; every other word is an identifier.
-/

namespace FrontEnd.Vocabulary

/-- The reserved words in ascending order. -/
def words : Array String :=
  #["abstract", "array", "available", "bool", "break", "case", "char", "class", "continue",
    "default", "else", "false", "for", "fun", "function", "if", "import", "in", "interface",
    "null", "number", "object", "package", "ref", "reference", "return", "string", "super",
    "switch", "this", "true", "val", "var", "while"]

/-- Halves the window from `lo` up to `hi` of an ascending table until its middle is the word or
nothing is left of it. -/
def search (table : Array String) (word : String) (lo hi : Nat) (bound : hi ≤ table.size) : Bool :=
  if window : lo < hi then
    let middle := lo + (hi - lo) / 2
    have inside : middle < table.size := by omega
    match compare word table[middle] with
    | .lt => search table word lo middle (by omega)
    | .eq => true
    | .gt => search table word (middle + 1) hi bound
  else false
termination_by hi - lo

/-- Whether a word is reserved. -/
def isReserved (word : String) : Bool := search words word 0 words.size (Nat.le_refl _)

/-- The kind of a word, judged by the whole word. -/
def classify (word : String) : Kind :=
  match word with
  | "null" => .nullLiteral
  | "true" => .boolTrue
  | "false" => .boolFalse
  | word => if isReserved word then .keyword else .ident

end FrontEnd.Vocabulary
