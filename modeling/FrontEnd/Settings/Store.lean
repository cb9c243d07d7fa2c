import FrontEnd.Failure
import FrontEnd.Settings.Json

/-!
# Stored settings

Settings are stored in a file of a fixed name: one that belongs to the working directory, which
comes first, and one that belongs to the executable, which is made with the defaults when it is
wanted and not there.
-/

namespace FrontEnd.Settings

/-- The settings file of a directory. -/
def pathIn (directory : String) : String := Path.join (Path.join directory ".config") "default.json"

/-- The settings file beside an executable. -/
def executablePath (exe : String) : String := pathIn ((Path.parent? exe).getD ".")

variable {m : Type → Type} [Monad m] [FileAccess m]

/-- Settings that keep every rule. -/
def checked (s : Settings) : Except Failure Settings :=
  match s.violation? with
  | some violation => .error (.invalid violation)
  | none => .ok s

/-- Loads valid settings from a file. -/
def load (path : String) : m (Except Failure Settings) := do
  if ← FileAccess.pathExists path then
    match ← FileAccess.readText path with
    | none => return .error (.files "cannot read the configuration")
    | some text =>
      match ofText? text with
      | none => return .error (.settings .malformed)
      | some s => return s.checked
  else return .error (.settings (.missing path))

/-- Makes the directory that a file stands in. -/
def makeParent (path : String) : m Bool :=
  match Path.parent? path with
  | some parent => FileAccess.makeDirectories parent
  | none => return true

/-- Saves settings to a file in a directory that is made if it is not there. -/
def save (s : Settings) (path : String) : m (Except Failure Unit) := do
  if ← makeParent path then
    if ← FileAccess.write path s.toText.toUTF8 then return .ok ()
    else return .error (.files "cannot write the configuration")
  else return .error (.files "cannot make the configuration directory")

/-- The settings that the program starts with: where they are from, and whether the file was made
just now. -/
structure Startup where
  settings : Settings
  path : String
  created : Bool
deriving DecidableEq, Repr

/-- Loads the settings of the working directory if it has a settings file, else those of the
executable. -/
def loadDefault (workingDirectory exe : String) : m (Except Failure Startup) := do
  let own := pathIn workingDirectory
  if ← FileAccess.isFile own then
    return (← load own).map (⟨·, own, false⟩)
  else
    let shared := executablePath exe
    if ← FileAccess.pathExists shared then
      return (← load shared).map (⟨·, shared, false⟩)
    else
      match ← save {} shared with
      | .error failure => return .error failure
      | .ok () => return (← load shared).map (⟨·, shared, true⟩)

/-- Makes a file of valid settings the settings file of the working directory. -/
def install (source workingDirectory : String) : m (Except Failure String) := do
  match ← load source with
  | .error failure => return .error failure
  | .ok _ =>
    let target := pathIn workingDirectory
    if ← makeParent target then
      if ← FileAccess.copy source target then return .ok target
      else return .error (.files "cannot copy the configuration")
    else return .error (.files "cannot make the configuration directory")

end FrontEnd.Settings
