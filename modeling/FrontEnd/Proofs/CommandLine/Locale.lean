import FrontEnd.Catalog.Encoding
import FrontEnd.CommandLine.Program
import FrontEnd.Proofs.Localization.Preference
import FrontEnd.Proofs.Settings.Loading
import Mathlib.Control.Monad.Basic

/-!
# The locale of a compilation

A run that compiles a source first settles what the compilation starts with: its settings and its
locale. The locale is the first usable one of all that the run was given, from the command line down
to the default locale.
-/

namespace FrontEnd

namespace CommandLine

variable {m : Type → Type} [Monad m] [FileAccess m]

/-- The settings that a run starts with: the defaults if none can be loaded. -/
def startSettings : Except Failure Settings.Startup → Settings
  | .ok startup => startup.settings
  | .error _ => {}

/-- The directory of the catalog files of a run. -/
def Arguments.catalogDirectory (args : Arguments) (exe : String) : String :=
  args.localeDir.getD (Localization.defaultDirectory exe)

/-- What a compilation starts with: its settings, its localization, and the warnings so far. -/
def prepare (exe : String) (env : Environment) (args : Arguments) : m (Compilation × String) := do
  let settings := startSettings (← Settings.loadDefault "." exe)
  let l ← Localization.startup (args.catalogDirectory exe) env settings.language
  let (settings, l, configWarning) ← applyConfig settings l args.config
  let (l, localeWarning) ← applyLocale l args.locale
  return (⟨settings, l⟩, configWarning ++ localeWarning)

/-- Compiles a source file with what is prepared. -/
def compilePrepared (args : Arguments) (source : String) : Compilation × String → m Report
  | (c, warnings) => do
    let path ← Source.locate source
    let outcome ← c.run path ⟨args.tokens, args.emit, args.output⟩
    match outcome.result with
    | .ok () => return ⟨0, outcome.output, warnings⟩
    | .error failure => return ⟨1, outcome.output, warnings ++ c.describe failure ++ "\n"⟩

/-- A run with a source compiles it with what is prepared first. -/
theorem run_eq_prepare_bind [LawfulMonad m] {env : Environment} {argv : List String}
    {args : Arguments} {source : String} (hargs : arguments env argv = .ok args)
    (hsource : args.source = some source) (exe : String) :
    (run exe env argv : m Report) = prepare exe env args >>= compilePrepared args source := by
  have hperform : (run exe env argv : m Report) = perform exe env args := by rw [run, hargs]
  rw [hperform, perform, prepare, bind_assoc]
  congr 1
  funext startup
  cases startup <;> simp only [pure_bind, bind_assoc, hsource, compile, compilePrepared] <;> rfl

/-- The locales of the settings file given for a run, if there is one that loads. -/
def configLocales (files : FileTree) : Option String → List String
  | none => []
  | some path =>
    match Settings.loaded files path with
    | .ok own => own.language.locales
    | .error _ => []

/-- The locales that a run is given, the preferred one first: that of the command line, those of the
settings file given for this run, and those that it starts with. -/
def preferredLocales (files : FileTree) (env : Environment) (args : Arguments)
    (startup : Settings) : List String :=
  args.locale.toList ++ configLocales files args.config ++
    Localization.startupLocales env startup.language

/-- The settings file given for a run puts its locales in front of the list. -/
theorem run_applyConfig {files : FileTree} {base : Catalog} {config : Option String}
    (hbase : base.locale = Catalog.initialLocale)
    (hconfig : Catalog.initialLocale ∉ configLocales files config) (locales : List String)
    (settings : Settings) :
    ∃ own warning,
      (applyConfig settings (.preferring files base locales) config :
          StateM FileTree (Settings × Localization × String)).run files =
        ((own, .preferring files base (configLocales files config ++ locales), warning),
          files) := by
  cases config with
  | none => exact ⟨settings, "", rfl⟩
  | some path =>
      rw [applyConfig, FileTree.run_bind (Settings.run_load files path)]
      rw [configLocales] at hconfig ⊢
      cases hload : Settings.loaded files path with
      | error failure => exact ⟨settings, _, rfl⟩
      | ok own =>
          rw [hload] at hconfig
          have hconfigure := Localization.run_configure files locales hbase hconfig
          exact ⟨own, "", FileTree.run_bind hconfigure _⟩

/-- The locale of the command line comes first. -/
theorem run_applyLocale {base : Catalog} {locale : Option String}
    (hbase : base.locale = Catalog.initialLocale)
    (hlocale : Catalog.initialLocale ∉ locale.toList) (files : FileTree) (locales : List String) :
    ∃ warning,
      (applyLocale (.preferring files base locales) locale :
          StateM FileTree (Localization × String)).run files =
        ((.preferring files base (locale.toList ++ locales), warning), files) := by
  cases locale with
  | none => exact ⟨"", rfl⟩
  | some locale =>
      have hne : locale ≠ Catalog.initialLocale := fun h => hlocale (by simp [h])
      rw [applyLocale,
        FileTree.run_bind (Localization.run_select_preferring files locales hbase hne)]
      cases base.usable files locale with
      | true => exact ⟨"", rfl⟩
      | false => exact ⟨_, rfl⟩

/-- What is prepared prefers the locales of the run. Beyond the settings that the run starts with,
nothing is done to the files. -/
theorem run_prepare {exe : String} {env : Environment} {args : Arguments} {files files' : FileTree}
    {startup : Except Failure Settings.Startup}
    (hstart : (Settings.loadDefault "." exe : StateM FileTree _).run files = (startup, files'))
    (h : Catalog.initialLocale ∉ preferredLocales files' env args (startSettings startup)) :
    ∃ own warnings,
      (prepare exe env args : StateM FileTree (Compilation × String)).run files =
        ((⟨own, .preferring files' (.unloaded Localization.domain (args.catalogDirectory exe))
          (preferredLocales files' env args (startSettings startup))⟩, warnings), files') := by
  simp only [preferredLocales, List.mem_append, not_or] at h
  obtain ⟨⟨hlocale, hconfig⟩, hstartup⟩ := h
  have hbase : (Catalog.unloaded Localization.domain (args.catalogDirectory exe)).locale =
    Catalog.initialLocale := rfl
  obtain ⟨own, configWarning, hown⟩ := run_applyConfig hbase hconfig
    (Localization.startupLocales env (startSettings startup).language) (startSettings startup)
  obtain ⟨localeWarning, hactive⟩ := run_applyLocale hbase hlocale files'
    (configLocales files' args.config ++
      Localization.startupLocales env (startSettings startup).language)
  refine ⟨own, configWarning ++ localeWarning, ?_⟩
  rw [prepare, FileTree.run_bind hstart,
    FileTree.run_bind (Localization.run_startup files' (args.catalogDirectory exe) hstartup),
    FileTree.run_bind hown, FileTree.run_bind hactive, preferredLocales, List.append_assoc]
  rfl

/-- The locale of a compilation. A run with a source compiles it with a localization that speaks in
the first usable locale of those that the run was given: that of the command line; the default and
the fallback locale of the settings file given for this run, if it loads, and then those of the
settings that the run starts with; the one of the environment, if these settings ask for it; and the
default locale. None of them may be the name of the locale without messages. -/
theorem run_prefers {env : Environment} {argv : List String} {args : Arguments} {source : String}
    (hargs : arguments env argv = .ok args) (hsource : args.source = some source) (exe : String)
    (files : FileTree) :
    let start := (Settings.loadDefault "." exe : StateM FileTree _).run files
    let prepared := (prepare exe env args : StateM FileTree (Compilation × String)).run files
    Catalog.initialLocale ∉ preferredLocales start.2 env args (startSettings start.1) →
      (run exe env argv : StateM FileTree Report).run files =
          (compilePrepared args source prepared.1 : StateM FileTree Report).run start.2 ∧
        prepared.1.1.localization.Prefers start.2 Localization.domain (args.catalogDirectory exe)
          (preferredLocales start.2 env args (startSettings start.1)) := by
  intro start prepared h
  obtain ⟨own, warnings, hprepared⟩ := run_prepare (show _ = (start.1, start.2) from rfl) h
  have heq : prepared = _ := hprepared
  constructor
  · rw [run_eq_prepare_bind hargs hsource, FileTree.run_bind hprepared, heq]
  · rw [heq]
    exact Localization.prefers_preferring start.2 _ _ h

/-- Without a settings file, and with no file for the locale of the command line, a run takes the
locale of the environment, here from the file of its bare language. -/
theorem run_prefers_language :
    let files : FileTree := ⟨[(["l"], .directory), (["l", "de"], .directory),
      (["l", "de", "LC_MESSAGES"], .directory), (["l", "de", "LC_MESSAGES", "dreamlang.mo"],
        .file (Catalog.encode [("Found", "Gefunden")]))], ["w"]⟩
    let env : Environment := fun name => if name = "LANG" then some "de_DE.UTF-8" else none
    let argv := ["a", "--locale", "it", "--locale-dir=/l"]
    let args : Arguments :=
      ⟨some "a", false, none, none, some "it", none, some "/l", false, false⟩
    let start := (Settings.loadDefault "." "dreamc" : StateM FileTree _).run files
    let prepared := (prepare "dreamc" env args : StateM FileTree (Compilation × String)).run files
    (run "dreamc" env argv : StateM FileTree Report).run files =
        (compilePrepared args "a" prepared.1 : StateM FileTree Report).run start.2 ∧
      prepared.1.1.localization.locale? = some "de_DE" := by
  intro files env argv args start prepared
  have hargs : arguments env argv = .ok args := by decide +kernel
  have hnames :
      Catalog.initialLocale ∉ preferredLocales start.2 env args (startSettings start.1) := by
    decide +kernel
  obtain ⟨hrun, hprefers⟩ := run_prefers hargs rfl "dreamc" files hnames
  exact ⟨hrun, hprefers.locale.trans (by decide +kernel)⟩

end CommandLine

end FrontEnd
