/-!
# Messages

A translator maps message keys to text, and picks between the singular and the plural of a pair of
keys by a count. The texts carry placeholders, `%d` and `%s`, that are filled from left to right. A
doubled percent sign stands for one; any other percent sign is ordinary text. Filled-in text is
never read again.
-/

namespace FrontEnd

/-- How message keys become text. The plural rule, unless given, translates the singular key for
a count of one and the plural key for every other count. -/
structure Translator where
  translate : String → String
  translatePlural : String → String → Nat → String :=
    fun singular plural n => if n = 1 then translate singular else translate plural

namespace Translator

/-- Every key is its own text. -/
def untranslated : Translator where
  translate key := key

/-- Keys of the table become the text listed first for them; other keys are their own text. -/
def ofTable (table : List (String × String)) : Translator where
  translate key := (table.lookup key).getD key

end Translator

namespace Template

/-- Whether a character after a percent sign makes it a placeholder. -/
def isConversion (c : Char) : Bool := c == 'd' || c == 's'

/-- Fills the placeholders of a template in order. Placeholders beyond the last argument stay as
they are written. -/
def fillChars (args : List String) : List Char → List Char
  | [] => []
  | ['%'] => ['%']
  | '%' :: '%' :: rest => '%' :: fillChars args rest
  | '%' :: 'd' :: rest =>
    match args with
    | [] => '%' :: 'd' :: fillChars [] rest
    | arg :: args => arg.toList ++ fillChars args rest
  | '%' :: 's' :: rest =>
    match args with
    | [] => '%' :: 's' :: fillChars [] rest
    | arg :: args => arg.toList ++ fillChars args rest
  | c :: rest => c :: fillChars args rest

/-- Fills the placeholders of a template in order. -/
def fill (template : String) (args : List String) : String :=
  String.ofList (fillChars args template.toList)

end Template

end FrontEnd
