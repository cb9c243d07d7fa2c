import FrontEnd.Proofs.Json.Rendering
import FrontEnd.Settings.Json

/-!
# Reading written settings back

Settings are written as a rendering with one object for every section. All their fields are in it,
so they are read back as they are, and no field takes its default.
-/

namespace FrontEnd

open Json (Rendering Value)

/-- The members of the language section. -/
def LanguageSettings.jsonMembers (s : LanguageSettings) : List (String × Rendering) :=
  [("default_locale", .quoted s.defaultLocale.toList),
    ("fallback_locale", .quoted s.fallbackLocale.toList), ("auto_detect", .boolean s.autoDetect)]

/-- The members of the compiler section. -/
def CompilerSettings.jsonMembers (s : CompilerSettings) : List (String × Rendering) :=
  [("optimization_level", .decimal s.optimizationLevel.toNat), ("debug_info", .boolean s.debugInfo),
    ("warnings_as_errors", .boolean s.warningsAsErrors)]

/-- The members of the output section. -/
def OutputSettings.jsonMembers (s : OutputSettings) : List (String × Rendering) :=
  [("verbose", .boolean s.verbose), ("show_progress", .boolean s.showProgress),
    ("colored_output", .boolean s.coloredOutput)]

namespace Settings

/-- The members of the object that settings are written as. -/
def jsonMembers (s : Settings) : List (String × Rendering) :=
  [("language", .object 2 1 s.language.jsonMembers),
    ("compiler", .object 2 1 s.compiler.jsonMembers),
    ("output", .object 2 1 s.output.jsonMembers)]

/-- The rendering of settings as an object. -/
def rendering (s : Settings) : Rendering := .object 2 0 s.jsonMembers

/-- Settings are written as the text of their rendering and the end of its last line. -/
theorem toText_eq (s : Settings) : s.toText = String.ofList (s.rendering.chars ++ ['\n']) := rfl

/-- A number that fits a byte is read from its decimal digits. -/
theorem byte?_decimal (level : UInt8) :
    byte? (.number (Digits.decimal level.toNat)) = some level := by
  rw [byte?, Json.natural?_decimal, Option.bind_some, if_pos level.toNat_lt, UInt8.ofNat_toNat]

theorem languageOfJson?_object (depth : Nat) (s : LanguageSettings) :
    languageOfJson? (Rendering.object 2 depth s.jsonMembers).value = some s := by
  have hf := Rendering.fields?_object 2 depth s.jsonMembers
    ["default_locale", "fallback_locale", "auto_detect"] rfl (by decide)
  simp only [languageOfJson?, hf, Option.bind_eq_bind, Option.bind_some]
  simp [LanguageSettings.jsonMembers, orDefault, Rendering.quoted, Rendering.boolean, Value.text?,
    Value.boolean?]

theorem compilerOfJson?_object (depth : Nat) (s : CompilerSettings) :
    compilerOfJson? (Rendering.object 2 depth s.jsonMembers).value = some s := by
  have hf := Rendering.fields?_object 2 depth s.jsonMembers
    ["optimization_level", "debug_info", "warnings_as_errors"] rfl (by decide)
  simp only [compilerOfJson?, hf, Option.bind_eq_bind, Option.bind_some]
  simp [CompilerSettings.jsonMembers, orDefault, Rendering.decimal, Rendering.boolean,
    byte?_decimal, Value.boolean?]

theorem outputOfJson?_object (depth : Nat) (s : OutputSettings) :
    outputOfJson? (Rendering.object 2 depth s.jsonMembers).value = some s := by
  have hf := Rendering.fields?_object 2 depth s.jsonMembers
    ["verbose", "show_progress", "colored_output"] rfl (by decide)
  simp only [outputOfJson?, hf, Option.bind_eq_bind, Option.bind_some]
  simp [OutputSettings.jsonMembers, orDefault, Rendering.boolean, Value.boolean?]

/-- Settings are read back from the object that they are written as. -/
theorem ofJson?_rendering (s : Settings) : ofJson? s.rendering.value = some s := by
  have hf := Rendering.fields?_object 2 0 s.jsonMembers ["language", "compiler", "output"] rfl
    (by decide)
  simp only [ofJson?, rendering, hf, Option.bind_eq_bind, Option.bind_some]
  simp [jsonMembers, orDefault, languageOfJson?_object, compilerOfJson?_object,
    outputOfJson?_object]

/-- Settings are read back from the text that they are written as. -/
theorem ofText?_toText (s : Settings) : ofText? s.toText = some s := by
  have hspace : ∀ c ∈ ['\n'], Json.isSpace c = true := List.forall_mem_singleton.mpr rfl
  rw [ofText?, toText_eq, Rendering.read?_append_space _ hspace, Option.bind_some,
    ofJson?_rendering]

end Settings

end FrontEnd
