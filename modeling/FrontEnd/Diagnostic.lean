import FrontEnd.Text.Place
import FrontEnd.Text.Characters
import FrontEnd.Message

/-!
# Lexical diagnostics

A diagnostic says what is wrong with a source text, at which character and where. It can be
written in plain English or through a translator; either way the offending character is shown in
its visible form.
-/

namespace FrontEnd

/-- What is wrong with a source text. -/
inductive Cause where
  /-- A character that starts no token. -/
  | unexpectedCharacter
  /-- An ampersand or a bar that is not doubled. -/
  | undoubledCharacter
  /-- A string literal without its closing quote. -/
  | openString
  /-- A character literal without its closing quote. -/
  | openCharacter
  /-- A block comment without its end. -/
  | openComment
  /-- A backslash followed by no known escape letter. -/
  | unknownEscape
  /-- An exponent without digits. -/
  | missingExponent
  /-- Anything else, in the words given. -/
  | stated (text : String)
deriving DecidableEq, Repr

namespace Cause

/-- The message key of a cause. -/
def message : Cause → String
  | unexpectedCharacter => "Unexpected character"
  | undoubledCharacter => "Invalid character"
  | openString => "Unterminated string"
  | openCharacter => "Unterminated character literal"
  | openComment => "Unterminated comment"
  | unknownEscape => "Invalid escape sequence"
  | missingExponent => "Invalid number format"
  | stated text => text

/-- The kind of text that a cause interrupts. -/
def context? : Cause → Option String
  | unexpectedCharacter | undoubledCharacter => some "UNKNOWN"
  | openString => some "STRING"
  | openCharacter => some "CHAR"
  | openComment => some "MULTI_COMMENT"
  | unknownEscape => some "ESCAPE"
  | missingExponent => some "NUMBER"
  | stated _ => none

end Cause

/-- A cause with the offending character, the kind of text it interrupts, and where it was met. -/
structure Diagnostic where
  cause : Cause
  character : Option Char
  context : Option String
  line : UInt32
  column : UInt32
deriving DecidableEq, Repr

namespace Diagnostic

/-- A cause met at a place, in the context that belongs to it. -/
def ofCause (cause : Cause) (character : Option Char) (line column : UInt32) : Diagnostic :=
  ⟨cause, character, cause.context?, line, column⟩

/-- A cause met at a place, in a context of its own. -/
def inContext (cause : Cause) (character : Option Char) (context : String)
    (line column : UInt32) : Diagnostic :=
  ⟨cause, character, some context, line, column⟩

/-- A diagnostic in words, without a character or a context. -/
def ofWords (text : String) (line column : UInt32) : Diagnostic :=
  ⟨.stated text, none, none, line, column⟩

/-- The message key of a diagnostic. -/
def message (d : Diagnostic) : String := d.cause.message

/-- The plain English line for a diagnostic. -/
def display (d : Diagnostic) : String :=
  d.message ++ " at line " ++ d.line.toNat.repr ++ ", column " ++ d.column.toNat.repr ++
    (match d.character with
      | some c => ": unexpected character '" ++ visible c ++ "'"
      | none => "") ++
    (match d.context with
      | some context => " (token type: " ++ context ++ ")"
      | none => "")

/-- The line for a diagnostic with every phrase translated. -/
def localized (t : Translator) (d : Diagnostic) : String :=
  Template.fill (t.translate "Lexical error at line %d, column %d")
      [d.line.toNat.repr, d.column.toNat.repr] ++
    (match d.character with
      | some c => ": " ++ t.translate "unexpected character" ++ " '" ++ visible c ++ "'"
      | none => "") ++
    (match d.context with
      | some context => " (" ++ t.translate "token type" ++ ": " ++ context ++ ")"
      | none => "") ++
    " - " ++ t.translate d.message

end Diagnostic

end FrontEnd
