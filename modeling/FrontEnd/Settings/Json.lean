import FrontEnd.Settings.Basic
import FrontEnd.Json.Reading
import FrontEnd.Json.Writing

/-!
# Settings in JSON

Settings are written as an object with a member for every field, indented by two spaces. When they
are read, sections and fields may be left out and then have their defaults.
-/

namespace FrontEnd.Settings

open Json (Value)

/-- A field that is left out has its default. -/
def orDefault {α : Type} (default : α) (read : Value → Option α) : Option Value → Option α
  | none => some default
  | some v => read v

/-- A number that fits a byte. -/
def byte? (v : Value) : Option UInt8 :=
  v.natural?.bind fun n => if n < UInt8.size then some (UInt8.ofNat n) else none

/-- Reads the language section. -/
def languageOfJson? (v : Value) : Option LanguageSettings := do
  let standard : LanguageSettings := {}
  match ← v.fields? ["default_locale", "fallback_locale", "auto_detect"] with
  | [defaultLocale, fallbackLocale, autoDetect] =>
    return {
      defaultLocale := ← orDefault standard.defaultLocale Value.text? defaultLocale
      fallbackLocale := ← orDefault standard.fallbackLocale Value.text? fallbackLocale
      autoDetect := ← orDefault standard.autoDetect Value.boolean? autoDetect }
  | _ => none

/-- Reads the compiler section. -/
def compilerOfJson? (v : Value) : Option CompilerSettings := do
  let standard : CompilerSettings := {}
  match ← v.fields? ["optimization_level", "debug_info", "warnings_as_errors"] with
  | [optimizationLevel, debugInfo, warningsAsErrors] =>
    return {
      optimizationLevel := ← orDefault standard.optimizationLevel byte? optimizationLevel
      debugInfo := ← orDefault standard.debugInfo Value.boolean? debugInfo
      warningsAsErrors := ← orDefault standard.warningsAsErrors Value.boolean? warningsAsErrors }
  | _ => none

/-- Reads the output section. -/
def outputOfJson? (v : Value) : Option OutputSettings := do
  let standard : OutputSettings := {}
  match ← v.fields? ["verbose", "show_progress", "colored_output"] with
  | [verbose, showProgress, coloredOutput] =>
    return {
      verbose := ← orDefault standard.verbose Value.boolean? verbose
      showProgress := ← orDefault standard.showProgress Value.boolean? showProgress
      coloredOutput := ← orDefault standard.coloredOutput Value.boolean? coloredOutput }
  | _ => none

/-- Reads settings from a value. -/
def ofJson? (v : Value) : Option Settings := do
  match ← v.fields? ["language", "compiler", "output"] with
  | [language, compiler, output] =>
    return {
      language := ← orDefault {} languageOfJson? language
      compiler := ← orDefault {} compilerOfJson? compiler
      output := ← orDefault {} outputOfJson? output }
  | _ => none

/-- Reads settings from a text. -/
def ofText? (text : String) : Option Settings := (Json.read? text).bind ofJson?

/-- Writes settings as a text that ends its last line. -/
def toText (s : Settings) : String :=
  String.ofList (Json.object 2 0
    [("language", Json.object 2 1
      [("default_locale", Json.quoted s.language.defaultLocale.toList),
        ("fallback_locale", Json.quoted s.language.fallbackLocale.toList),
        ("auto_detect", Json.boolean s.language.autoDetect)]),
    ("compiler", Json.object 2 1
      [("optimization_level", Digits.decimal s.compiler.optimizationLevel.toNat),
        ("debug_info", Json.boolean s.compiler.debugInfo),
        ("warnings_as_errors", Json.boolean s.compiler.warningsAsErrors)]),
    ("output", Json.object 2 1
      [("verbose", Json.boolean s.output.verbose),
        ("show_progress", Json.boolean s.output.showProgress),
        ("colored_output", Json.boolean s.output.coloredOutput)])] ++ ['\n'])

end FrontEnd.Settings
