import FrontEnd.Catalog.Basic
import FrontEnd.Table
import FrontEnd.Message

/-!
# Localization

A localization translates the messages of the program, or leaves them as they are. Its locale
comes from the environment or from a setting, and falls back on a default locale.
-/

namespace FrontEnd

namespace Locale

/-- The locale used when nothing else is known or usable. -/
def default : String := "en_US"

/-- The variables that name a locale, the decisive one first. -/
def variableNames : List String := ["LC_ALL", "LC_MESSAGES", "LANG"]

/-- A locale name without its encoding: the part before the first dot. -/
def dropEncoding (locale : String) : String :=
  String.ofList (locale.toList.takeWhile (· != '.'))

/-- The locale that an environment asks for. Empty variables do not count. -/
def ofEnvironment (env : Environment) : String :=
  match (variableNames.filterMap env).find? (!·.isEmpty) with
  | some value => dropEncoding value
  | none => default

end Locale

/-- Catalogs to translate with, or none. -/
structure Localization where
  catalog : Option Catalog
deriving DecidableEq, Repr

namespace Localization

/-- Leaves every message as it is. -/
def disabled : Localization := ⟨none⟩

variable {m : Type → Type} [Monad m] [FileAccess m]

/-- Makes a locale active, and says whether it is. -/
def select (l : Localization) (locale : String) : m (Bool × Localization) :=
  match l.catalog with
  | none => return (false, l)
  | some c => do
    let (done, c) ← c.select locale
    return (done, ⟨some c⟩)

/-- Catalogs of a domain with a locale active, or the default locale if that one is not usable. -/
def inLocale (domain directory locale : String) : m Localization := do
  let (done, l) ← select ⟨some (.unloaded domain directory)⟩ locale
  if done || locale == Locale.default then return l
  else
    let (_, l) ← l.select Locale.default
    return l

/-- Catalogs of a domain with the locale that the environment asks for. -/
def inEnvironment (domain directory : String) (env : Environment) : m Localization :=
  inLocale domain directory (Locale.ofEnvironment env)

/-- The active locale, if a catalog file is loaded. -/
def locale? (l : Localization) : Option String :=
  (l.catalog.map (·.locale)).filter (· != Catalog.initialLocale)

/-- The text for a message key. -/
def text (l : Localization) (key : String) : String :=
  match l.catalog with
  | some c => c.text key
  | none => key

/-- The text for a pair of keys and a count. -/
def pluralText (l : Localization) (singular plural : String) (n : Nat) : String :=
  match l.catalog with
  | some c => c.pluralText singular plural n
  | none => if n = 1 then singular else plural

/-- The localization as a translator. -/
def translator (l : Localization) : Translator := ⟨l.text, l.pluralText⟩

end Localization

end FrontEnd
