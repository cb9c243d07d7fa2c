import FrontEnd.Lexeme.Basic

/-!
# Literals

A number is a run of digits with an optional fraction and an optional exponent. A dot belongs to
it only if a digit follows; an exponent mark always does, and then needs digits. Numbers keep the
text they are written with. Strings and characters share their escapes, and the text of the token is
the decoded content; a string literal may run over several lines, and a character literal holds
exactly one character.
-/

namespace FrontEnd

/-! ### Numbers -/

namespace Number

/-- The length of the run of digits at the front. -/
def digits (cs : List Char) : Nat := (cs.takeWhile Char.isDigit).length

/-- The length of the fraction at the front: a dot and at least one digit, or nothing. -/
def fraction : List Char → Nat
  | '.' :: rest => if digits rest = 0 then 0 else digits rest + 1
  | _ => 0

/-- Whether a character marks an exponent. -/
def isExponentMark (c : Char) : Bool := c == 'e' || c == 'E'

/-- The length of the sign at the front. -/
def sign : List Char → Nat
  | '+' :: _ => 1
  | '-' :: _ => 1
  | _ => 0

/-- The length of the exponent at the front, nothing if there is no mark. A mark without digits
gives the length up to where they are missing and the character found there. -/
def exponent : List Char → Except (Nat × Option Char) Nat
  | [] => .ok 0
  | mark :: rest =>
    if isExponentMark mark then
      let power := rest.drop (sign rest)
      if digits power = 0 then .error (sign rest + 1, power.head?)
      else .ok (sign rest + 1 + digits power)
    else .ok 0

/-- Reads the number that starts with the digit `c`. -/
def scan (c : Char) (rest : List Char) : Except Lexeme.Fault Lexeme :=
  let whole := digits rest
  let mantissa := whole + fraction (rest.drop whole)
  match exponent (rest.drop mantissa) with
  | .ok width => .ok (.verbatim .number c rest (mantissa + width))
  | .error (width, found) => .error (.here .missingExponent found (mantissa + width + 1))

end Number

/-! ### Strings and characters -/

namespace Quoted

/-- The character that an escape letter stands for. -/
def unescape? : Char → Option Char
  | 'n' => some '\n'
  | 't' => some '\t'
  | 'r' => some '\r'
  | 'b' => some '\x08'
  | 'f' => some '\x0c'
  | '\\' => some '\\'
  | '\'' => some '\''
  | '"' => some '"'
  | '0' => some '\x00'
  | _ => none

/-- Reads the rest of a string literal after `passed` of its characters, with the content read so
far last character first. -/
def stringBody (passed : Nat) (content : List Char) : List Char → Except Lexeme.Fault Lexeme
  | [] => .error (.here .openString (some '"') passed)
  | '"' :: _ => .ok ⟨.string, String.ofList content.reverse, passed⟩
  | ['\\'] => .error (.here .unknownEscape (some '\\') (passed + 1))
  | '\\' :: letter :: rest =>
    match unescape? letter with
    | some c => stringBody (passed + 2) (c :: content) rest
    | none => .error (.here .unknownEscape (some letter) (passed + 1))
  | c :: rest => stringBody (passed + 1) (c :: content) rest

/-- Closes a character literal that holds `c` and has `passed` characters so far. -/
def closeChar (c : Char) (passed : Nat) (rest : List Char) : Except Lexeme.Fault Lexeme :=
  if rest.head? = some '\'' then .ok ⟨.char, String.singleton c, passed⟩
  else .error (.here .openCharacter (some '\'') passed)

/-- Reads a character literal from behind its opening quote. A quote in the place of the character
is that character. -/
def charBody : List Char → Except Lexeme.Fault Lexeme
  | [] => .error (.here .openCharacter (some '\'') 1)
  | ['\\'] => .error (.here .unknownEscape (some '\\') 2)
  | '\\' :: letter :: rest =>
    match unescape? letter with
    | some c => closeChar c 3 rest
    | none => .error (.here .unknownEscape (some letter) 2)
  | c :: rest => closeChar c 2 rest

end Quoted

end FrontEnd
