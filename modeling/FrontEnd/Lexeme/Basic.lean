import FrontEnd.Token.Basic
import FrontEnd.Diagnostic

/-!
# Lexemes and faults

A lexeme is the stretch of source text that makes up one token. Scanning starts at the first
character of a lexeme and ends in the lexeme or in a fault. Both are measured in characters from
that first character, so a scan does not depend on where in a text it happens.
-/

namespace FrontEnd

/-- One token as it is written: its kind, its text, and how many characters follow its first. -/
structure Lexeme where
  kind : Kind
  text : String
  tail : Nat
deriving DecidableEq, Repr

namespace Lexeme

/-- The number of characters of a lexeme, which is never zero. -/
def width (l : Lexeme) : Nat := l.tail + 1

theorem width_pos (l : Lexeme) : 0 < l.width := Nat.succ_pos _

/-- The lexeme whose text is exactly what is written: `c` and the `tail` characters after it. -/
def verbatim (kind : Kind) (c : Char) (rest : List Char) (tail : Nat) : Lexeme :=
  ⟨kind, String.ofList (c :: rest.take tail), tail⟩

/-- Of the text behind `c`, a verbatim lexeme keeps as much as its tail. -/
theorem verbatim_append (kind : Kind) (c : Char) (tail after : List Char) :
    verbatim kind c (tail ++ after) tail.length =
      ⟨kind, String.ofList (c :: tail), tail.length⟩ := by
  rw [verbatim, List.take_left]

/-- Why no lexeme can be read: the cause and its character, the distance to the place it is
reported at, and the number of characters passed before it was noticed. -/
structure Fault where
  cause : Cause
  character : Option Char
  reported : Nat
  passed : Nat
deriving DecidableEq, Repr

/-- A fault reported at the character where it was noticed. -/
def Fault.here (cause : Cause) (character : Option Char) (passed : Nat) : Fault :=
  ⟨cause, character, passed, passed⟩

end Lexeme

end FrontEnd
