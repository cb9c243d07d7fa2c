import FrontEnd.Failure
import FrontEnd.Scanner
import FrontEnd.Settings.Basic

/-!
# Compiling a source file

A source file may be named without its extension, and is then looked for with it first. A
compilation reads a source file, scans it, and reports what it found: as a listing of the tokens, as
an exported document, or as a summary. Nothing is written before the whole source has been scanned.
-/

namespace FrontEnd

namespace Source

/-- The extension of source files. -/
def fileExtension : String := "zv"

variable {m : Type → Type} [Monad m] [FileAccess m]

/-- The path of the source file with a given name: the name with the extension if it has none and
there is such a file, else the name as it is. -/
def locate (name : String) : m String := do
  match Path.fileName? name with
  | none => return name
  | some (path, file) =>
    if Path.hasExtension file then return name
    else
      let full := path ++ "." ++ fileExtension
      if ← FileAccess.isFile full then return full else return name

/-- The text of a source file. -/
def read (path : String) : m (Except Failure String) := do
  match ← FileAccess.readText path with
  | some text => return .ok text
  | none => return .error (.unreadable path)

end Source

/-- What is asked of a compilation. -/
structure Job where
  showTokens : Bool := false
  emit : Option Format := none
  output : Option String := none
deriving DecidableEq, Repr

/-- What a compilation wrote to standard output, and how it ended. -/
structure Outcome where
  output : String
  result : Except Failure Unit

/-- The settings and the localization of a compilation. -/
structure Compilation where
  settings : Settings
  localization : Localization
deriving DecidableEq, Repr

namespace Compilation

/-- The line above and below the tokens of a listing. -/
def rule : String := "==========================================="

/-- The listing of the tokens other than line breaks, and the number of all tokens. -/
def listing (c : Compilation) (tokens : List Token) : String :=
  c.localization.text "Tokenization result" ++ ":\n" ++ rule ++ "\n" ++
    String.join ((tokens.filter (·.kind != .linebreak)).map (·.listing ++ "\n")) ++ rule ++ "\n" ++
    c.localization.text "Total tokens" ++ ": " ++ tokens.length.repr ++ "\n"

/-- The summary for a number of tokens. -/
def summary (c : Compilation) (count : Nat) : String :=
  let noun := c.localization.pluralText "token" "tokens" count
  c.localization.text "Lexical analysis completed successfully" ++ ". " ++
    Template.fill (c.localization.text "Found" ++ " %d " ++ noun) [count.repr] ++ "."

/-- The line for a failure. -/
def describe (c : Compilation) (failure : Failure) : String := failure.describe c.localization

/-- A text whose last line is ended. -/
def endLine (text : String) : String :=
  if text.toList.getLast? = some '\n' then text else text ++ "\n"

variable {m : Type → Type} [Monad m] [FileAccess m]

/-- Writes a document to a file, in a directory that is made if it is not there. -/
def writeDocument (path document : String) : m (Except Failure Unit) := do
  let ready ← match Path.parent? path with
    | some parent => if parent.isEmpty then pure true else FileAccess.makeDirectories parent
    | none => pure true
  if ready then
    if ← FileAccess.write path document.toUTF8 then return .ok ()
    else return .error (.files "cannot write the token stream")
  else return .error (.files "cannot make the output directory")

/-- Reports the tokens of a source. -/
def report (c : Compilation) (job : Job) (tokens : List Token) : m Outcome := do
  let listed := if job.showTokens then c.listing tokens else ""
  let summed := if job.showTokens then "" else c.summary tokens.length ++ "\n"
  match job.emit, job.output with
  | none, _ => return ⟨listed ++ summed, .ok ()⟩
  | some format, none => return ⟨listed ++ endLine (format.document tokens), .ok ()⟩
  | some format, some path =>
    match ← writeDocument path (endLine (format.document tokens)) with
    | .ok () => return ⟨listed ++ summed, .ok ()⟩
    | .error failure => return ⟨listed, .error failure⟩

/-- Compiles the source file at a path. -/
def run (c : Compilation) (path : String) (job : Job) : m Outcome := do
  match ← Source.read path with
  | .error failure => return ⟨"", .error failure⟩
  | .ok source =>
    match tokenize source with
    | .error diagnostic => return ⟨"", .error (.lexical diagnostic)⟩
    | .ok tokens => c.report job tokens

end Compilation

end FrontEnd
