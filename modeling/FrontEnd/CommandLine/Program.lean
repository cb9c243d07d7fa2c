import FrontEnd.CommandLine.Arguments
import FrontEnd.CommandLine.Usage
import FrontEnd.Compilation
import FrontEnd.Settings.Store

/-!
# The command

A run of the command loads the settings it starts with, chooses the locale, and then compiles a
source file, or without one makes a file of settings the default.
-/

namespace FrontEnd.CommandLine

/-- What a run of the command shows: its exit code and what it wrote to the two outputs. -/
structure Report where
  exitCode : UInt8
  output : String
  errors : String
deriving DecidableEq, Repr

variable {m : Type → Type} [Monad m] [FileAccess m]

/-- The localization and the settings of a compilation, after the settings file given for this
run, with the warning that it cannot be loaded. -/
def applyConfig (settings : Settings) (l : Localization) :
    Option String → m (Settings × Localization × String)
  | none => return (settings, l, "")
  | some path => do
    match ← Settings.load path with
    | .ok own => return (own, (← l.configure own.language).2, "")
    | .error _ =>
      return (settings, l,
        l.text "Warning" ++ ": " ++ l.text "Failed to load config file" ++ " '" ++ path ++ "'\n")

/-- The localization after the locale given for this run, with the warning that it is not
usable. -/
def applyLocale (l : Localization) : Option String → m (Localization × String)
  | none => return (l, "")
  | some locale => do
    let (done, l) ← l.select locale
    if done then return (l, "")
    else
      return (l,
        l.text "Warning" ++ ": " ++ l.text "Failed to set locale" ++ " '" ++ locale ++ "'\n")

/-- Compiles a source file. -/
def compile (args : Arguments) (source : String) (settings : Settings) (l : Localization) :
    m Report := do
  let (settings, l, configWarning) ← applyConfig settings l args.config
  let (l, localeWarning) ← applyLocale l args.locale
  let path ← Source.locate source
  let c : Compilation := ⟨settings, l⟩
  let outcome ← c.run path ⟨args.tokens, args.emit, args.output⟩
  let warnings := configWarning ++ localeWarning
  match outcome.result with
  | .ok () => return ⟨0, outcome.output, warnings⟩
  | .error failure => return ⟨1, outcome.output, warnings ++ c.describe failure ++ "\n"⟩

/-- Makes a file of settings the default of the working directory. -/
def installConfig (path : String) (l : Localization) : m Report := do
  match ← Settings.install path "." with
  | .ok _ =>
    return ⟨0, l.text "Default config set successfully" ++ ": " ++ path ++ "\n", ""⟩
  | .error _ =>
    return ⟨1, "",
      l.text "Error" ++ ": " ++ l.text "Failed to set default config" ++ " '" ++ path ++ "'\n"⟩

/-- Runs the command with arguments that are read. -/
def perform (exe : String) (env : Environment) (args : Arguments) : m Report := do
  let settings ← match ← Settings.loadDefault "." exe with
    | .ok startup => pure startup.settings
    | .error _ => pure {}
  let l ← Localization.startup (args.localeDir.getD (Localization.defaultDirectory exe)) env
    settings.language
  match args.source, args.config with
  | some source, _ => compile args source settings l
  | none, some path => installConfig path l
  | none, none =>
    return ⟨1, "", Failure.noSource.describe l ++ "\n" ++ "Run 'dreamc --help' for usage.\n"⟩

/-- Runs the command. What is said about the command line itself is styled text, and all else is
written as it is. -/
def run (exe : String) (env : Environment) (args : List String) : m Report :=
  match arguments env args with
  | .ok args => perform exe env args
  | .error .help => return ⟨0, Terminal.written env (helpText env), ""⟩
  | .error .version => return ⟨0, Terminal.written env versionText, ""⟩
  | .error (.rejected r) => return ⟨2, "", Terminal.written env (r.message ++ "\n")⟩

end FrontEnd.CommandLine
