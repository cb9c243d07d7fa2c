import FrontEnd.Localization
import FrontEnd.Text.Characters

/-!
# Settings

Settings come in three sections, each with its defaults. Settings are valid if the optimization
level is in range and both locale names have something visible in them. A run starts in the locale
of its environment, or in the default locale, and then takes the locale of its settings if there is
a catalog file for it.
-/

namespace FrontEnd

/-- How messages are translated. -/
structure LanguageSettings where
  defaultLocale : String := Locale.default
  fallbackLocale : String := Locale.default
  autoDetect : Bool := true
deriving DecidableEq, Repr

/-- How programs are compiled. -/
structure CompilerSettings where
  optimizationLevel : UInt8 := 2
  debugInfo : Bool := false
  warningsAsErrors : Bool := false
deriving DecidableEq, Repr

/-- How the program reports what it does. -/
structure OutputSettings where
  verbose : Bool := false
  showProgress : Bool := true
  coloredOutput : Bool := true
deriving DecidableEq, Repr

/-- The settings of the program. -/
structure Settings where
  language : LanguageSettings := {}
  compiler : CompilerSettings := {}
  output : OutputSettings := {}
deriving DecidableEq, Repr

namespace Settings

/-- The highest optimization level. -/
def maxLevel : UInt8 := 3

/-- A rule that settings break. -/
inductive Violation where
  | levelTooHigh (level : UInt8)
  | blankDefaultLocale
  | blankFallbackLocale
  /-- Another rule, in the words given. -/
  | stated (text : String)
deriving DecidableEq, Repr

/-- The words for a violation. -/
def Violation.message : Violation → String
  | levelTooHigh level =>
    "optimization_level must be between 0 and " ++ maxLevel.toNat.repr ++ ", got " ++
      level.toNat.repr
  | blankDefaultLocale => "default_locale must not be empty"
  | blankFallbackLocale => "fallback_locale must not be empty"
  | stated text => text

/-- The first rule that settings break, if any. -/
def violation? (s : Settings) : Option Violation :=
  if maxLevel < s.compiler.optimizationLevel then some (.levelTooHigh s.compiler.optimizationLevel)
  else if isBlankText s.language.defaultLocale then some .blankDefaultLocale
  else if isBlankText s.language.fallbackLocale then some .blankFallbackLocale
  else none

end Settings

/-! ### The locale of a run -/

namespace Localization

/-- The message domain of the program. -/
def domain : String := "dreamlang"

/-- Where catalog files are looked for when nothing else is said: beside the directory of the
executable. -/
def defaultDirectory (exe : String) : String :=
  Path.join (Path.join (Path.join ((Path.parent? exe).getD ".") "..") "share") "locale"

variable {m : Type → Type} [Monad m] [FileAccess m]

/-- Takes the locale of the settings, or their fallback, and says whether one of them is active
then. -/
def configure (l : Localization) (s : LanguageSettings) : m (Bool × Localization) := do
  let (done, l) ← l.select s.defaultLocale
  if done then return (true, l)
  else if s.fallbackLocale = s.defaultLocale then return (false, l)
  else l.select s.fallbackLocale

/-- The localization that a run with the given settings starts with. -/
def startup (directory : String) (env : Environment) (s : LanguageSettings) : m Localization := do
  let l ←
    if s.autoDetect then inEnvironment domain directory env
    else inLocale domain directory Locale.default
  return (← l.configure s).2

end Localization

end FrontEnd
