import FrontEnd.Proofs.Files.Requests
import FrontEnd.Settings.Basic

/-!
# Preferred locales

Locales are made active one after another, and one without a usable catalog file changes nothing. So
what is active in the end is the first usable locale of a list, with the preferred ones in front.
-/

namespace FrontEnd

namespace Catalog

/-- The messages of a file, if it is there and well formed. -/
def messagesAt? (files : FileTree) (path : String) : Option Messages :=
  match (files.read path).map parse with
  | some (.ok messages) => some messages
  | _ => none

/-- The messages for a locale: those of the file at its own path, if that one is there and well
formed, and otherwise those of the file at the path of its language. -/
def messages? (files : FileTree) (c : Catalog) (locale : String) : Option Messages :=
  (messagesAt? files (c.path locale)).or
    ((language? locale).bind fun language => messagesAt? files (c.path language))

/-- Whether one of the files of a locale is there and well formed. -/
def usable (files : FileTree) (c : Catalog) (locale : String) : Bool :=
  (c.messages? files locale).isSome

/-- The messages of a locale are those of its own file, if that one is there and well formed. -/
theorem messages?_of_read {files : FileTree} {c : Catalog} {locale : String}
    {content : ByteArray} {messages : Messages} (hread : files.read (c.path locale) = some content)
    (hparse : parse content = .ok messages) :
    c.messages? files locale = some messages := by
  have hat : messagesAt? files (c.path locale) = some messages := by
    rw [messagesAt?, hread, Option.map_some, hparse]
  rw [messages?, hat, Option.some_or]

/-- The candidates for a locale are tried in the order of its messages. -/
theorem findSome?_candidates (files : FileTree) (c : Catalog) (locale : String) :
    (c.candidates locale).findSome? (messagesAt? files) = c.messages? files locale := by
  rw [candidates, messages?, List.findSome?_cons]
  cases messagesAt? files (c.path locale) with
  | some messages => rfl
  | none => cases language? locale <;> simp

/-- Loading looks at one file after another and leaves all of them as they are. -/
theorem run_load (files : FileTree) (paths : List String) :
    (load paths : StateM FileTree (Option Messages)).run files =
      (paths.findSome? (messagesAt? files), files) := by
  induction paths with
  | nil => rfl
  | cons path rest ih =>
      rw [load, FileTree.run_bind (FileTree.run_read files path), List.findSome?_cons, messagesAt?]
      cases (files.read path).map parse with
      | none => exact ih
      | some parsed =>
          cases parsed with
          | ok messages => rfl
          | error e => exact ih

/-- The active locale stays active, and another one becomes so if there are messages for it. -/
theorem run_select (files : FileTree) (c : Catalog) (locale : String) :
    (c.select locale : StateM FileTree (Bool × Catalog)).run files =
      (if locale = c.locale then (true, c)
        else
          match c.messages? files locale with
          | some messages => (true, { c with locale := locale, messages := messages })
          | none => (false, c), files) := by
  rw [select]
  split
  · rfl
  · rw [FileTree.run_bind (run_load files _), findSome?_candidates]
    cases c.messages? files locale with
    | none => rfl
    | some messages => rfl

end Catalog

/-- The locales of settings, the preferred one first. -/
def LanguageSettings.locales (s : LanguageSettings) : List String :=
  [s.defaultLocale, s.fallbackLocale]

namespace Localization

variable {files : FileTree} {base : Catalog} {locales : List String} {locale : String}

/-- The first locale of a list that has messages, with these messages. -/
def preferred? (files : FileTree) (base : Catalog) (locales : List String) :
    Option (String × Messages) :=
  locales.findSome? fun locale => (base.messages? files locale).map (locale, ·)

/-- The localization with the first usable locale of a list active, if there is one. -/
def preferring (files : FileTree) (base : Catalog) (locales : List String) : Localization :=
  match preferred? files base locales with
  | some (locale, messages) => ⟨some { base with locale := locale, messages := messages }⟩
  | none => ⟨some base⟩

theorem preferred?_cons_of_usable {messages : Messages}
    (h : base.messages? files locale = some messages) (locales : List String) :
    preferred? files base (locale :: locales) = some (locale, messages) := by
  rw [preferred?, List.findSome?_cons, h]
  rfl

theorem preferred?_cons_of_not_usable (h : base.messages? files locale = none)
    (locales : List String) :
    preferred? files base (locale :: locales) = preferred? files base locales := by
  rw [preferred?, List.findSome?_cons, h]
  rfl

/-- The preferred locale is one of the list, and it has these messages. -/
theorem of_preferred?_eq_some {messages : Messages}
    (h : preferred? files base locales = some (locale, messages)) :
    locale ∈ locales ∧ base.messages? files locale = some messages := by
  obtain ⟨found, hmem, hfound⟩ := List.exists_of_findSome?_eq_some h
  obtain ⟨_, hmessages, heq⟩ := Option.map_eq_some_iff.mp hfound
  cases heq
  exact ⟨hmem, hmessages⟩

/-- The preferred locale is the first usable one. -/
theorem map_fst_preferred? (files : FileTree) (base : Catalog) (locales : List String) :
    (preferred? files base locales).map (·.1) = locales.find? (base.usable files) := by
  induction locales with
  | nil => rfl
  | cons locale locales ih =>
      cases h : base.messages? files locale with
      | none =>
          rw [preferred?_cons_of_not_usable h, ih,
            List.find?_cons_of_neg (by simp [Catalog.usable, h])]
      | some messages =>
          rw [preferred?_cons_of_usable h, List.find?_cons_of_pos (by simp [Catalog.usable, h])]
          rfl

/-- A localization makes a locale active as its catalogs do. -/
theorem run_select (files : FileTree) (c : Catalog) (locale : String) :
    ((⟨some c⟩ : Localization).select locale : StateM FileTree (Bool × Localization)).run files =
      (if locale = c.locale then (true, ⟨some c⟩)
        else
          match c.messages? files locale with
          | some messages => (true, ⟨some { c with locale := locale, messages := messages }⟩)
          | none => (false, ⟨some c⟩), files) := by
  rw [select, FileTree.run_bind (Catalog.run_select files c locale)]
  by_cases h : locale = c.locale
  · simp only [h, if_true]
    rfl
  · simp only [h, if_false]
    cases c.messages? files locale <;> rfl

/-- Making a locale active puts it in front of the list, and works if it is usable. -/
theorem run_select_preferring (files : FileTree) (locales : List String)
    (hbase : base.locale = Catalog.initialLocale) (hlocale : locale ≠ Catalog.initialLocale) :
    ((preferring files base locales).select locale : StateM FileTree (Bool × Localization)).run
        files =
      ((base.usable files locale, preferring files base (locale :: locales)), files) := by
  have hne : locale ≠ base.locale := hbase ▸ hlocale
  cases hp : preferred? files base locales with
  | none =>
      rw [preferring, hp, run_select, if_neg hne, Catalog.usable, preferring]
      cases hm : base.messages? files locale with
      | none => rw [preferred?_cons_of_not_usable hm, hp]; rfl
      | some messages => rw [preferred?_cons_of_usable hm]; rfl
  | some preferred =>
      obtain ⟨active, own⟩ := preferred
      obtain ⟨-, hown⟩ := of_preferred?_eq_some hp
      rw [preferring, hp, run_select, Catalog.usable, preferring]
      by_cases hactive : locale = active
      · -- The active locale is not loaded again, but loading it would give the messages in use.
        subst hactive
        rw [if_pos rfl, hown, preferred?_cons_of_usable hown]
        rfl
      · have hsame : ({ base with locale := active, messages := own } : Catalog).messages? files
            locale = base.messages? files locale := rfl
        rw [if_neg hactive, hsame]
        cases hm : base.messages? files locale with
        | none => rw [preferred?_cons_of_not_usable hm, hp]; rfl
        | some messages => rw [preferred?_cons_of_usable hm]; rfl

theorem usable_eq_false_iff :
    base.usable files locale = false ↔ base.messages? files locale = none := by
  rw [Catalog.usable, Option.isSome_eq_false_iff, Option.isNone_iff_eq_none]

/-- Behind a usable locale, nothing matters. -/
theorem preferring_cons_of_usable (h : base.usable files locale = true) (l₁ l₂ : List String) :
    preferring files base (locale :: l₁) = preferring files base (locale :: l₂) := by
  obtain ⟨messages, hm⟩ := Option.isSome_iff_exists.mp h
  rw [preferring, preferring, preferred?_cons_of_usable hm, preferred?_cons_of_usable hm]

/-- A locale that is not usable does not matter. -/
theorem preferring_cons_of_not_usable (h : base.usable files locale = false)
    (locales : List String) :
    preferring files base (locale :: locales) = preferring files base locales := by
  rw [preferring, preferring, preferred?_cons_of_not_usable (usable_eq_false_iff.mp h)]

/-- A locale that is not usable may change places with the one in front of it. -/
theorem preferring_swap (h : base.usable files locale = false) (first : String)
    (locales : List String) :
    preferring files base (first :: locale :: locales) =
      preferring files base (locale :: first :: locales) := by
  rw [preferring_cons_of_not_usable h]
  cases hf : base.usable files first with
  | true => exact preferring_cons_of_usable hf _ _
  | false =>
      rw [preferring_cons_of_not_usable hf, preferring_cons_of_not_usable hf,
        preferring_cons_of_not_usable h]

/-- Catalogs with a locale active prefer that one to the default locale. -/
theorem run_inLocale (domain directory : String) (files : FileTree)
    (hlocale : locale ≠ Catalog.initialLocale) :
    (inLocale domain directory locale : StateM FileTree Localization).run files =
      (preferring files (.unloaded domain directory) [locale, Locale.default], files) := by
  have hfirst : (select ⟨some (.unloaded domain directory)⟩ locale :
      StateM FileTree (Bool × Localization)).run files =
        ((Catalog.usable files (.unloaded domain directory) locale,
          preferring files (.unloaded domain directory) [locale]), files) :=
    run_select_preferring files [] rfl hlocale
  rw [inLocale, FileTree.run_bind hfirst]
  dsimp only
  cases husable : Catalog.usable files (.unloaded domain directory) locale with
  | true =>
      rw [preferring_cons_of_usable husable [Locale.default] []]
      rfl
  | false =>
      by_cases hdefault : locale = Locale.default
      · subst hdefault
        rw [preferring_cons_of_not_usable husable [Locale.default]]
        rfl
      · -- The default locale is taken last, so it stands in front of one that is not usable.
        have hne : (locale == Locale.default) = false := by simp [hdefault]
        rw [hne, ← preferring_swap husable]
        exact FileTree.run_bind (run_select_preferring files [locale] rfl (by decide)) _

theorem run_inLocale_default (domain directory : String) (files : FileTree) :
    (inLocale domain directory Locale.default : StateM FileTree Localization).run files =
      (preferring files (.unloaded domain directory) [Locale.default], files) := by
  rw [run_inLocale domain directory files (by decide)]
  cases h : Catalog.usable files (.unloaded domain directory) Locale.default with
  | true => rw [preferring_cons_of_usable h [Locale.default] []]
  | false => rw [preferring_cons_of_not_usable h [Locale.default]]

/-- Before any request for another locale, no locale is active. -/
theorem run_inLocale_initial (domain directory : String) (files : FileTree) :
    (inLocale domain directory Catalog.initialLocale : StateM FileTree Localization).run files =
      (preferring files (.unloaded domain directory) [], files) := by
  rw [inLocale, FileTree.run_bind (run_select files _ _), Catalog.unloaded, if_pos rfl]
  rfl

/-- Catalogs of a domain start out with the first usable one of some locales. -/
theorem exists_run_inLocale (domain directory locale : String) (files : FileTree) :
    ∃ locales, (inLocale domain directory locale : StateM FileTree Localization).run files =
      (preferring files (.unloaded domain directory) locales, files) := by
  by_cases h : locale = Catalog.initialLocale
  · exact ⟨_, h ▸ run_inLocale_initial domain directory files⟩
  · exact ⟨_, run_inLocale domain directory files h⟩

/-- Taking the locales of settings puts them in front of the list, and works if one is usable. -/
theorem run_configure (files : FileTree) (locales : List String)
    (hbase : base.locale = Catalog.initialLocale) {s : LanguageSettings}
    (hs : Catalog.initialLocale ∉ s.locales) :
    ((preferring files base locales).configure s : StateM FileTree (Bool × Localization)).run
        files =
      ((s.locales.any (base.usable files), preferring files base (s.locales ++ locales)),
        files) := by
  have hdefault : s.defaultLocale ≠ Catalog.initialLocale :=
    fun h => hs (by simp [LanguageSettings.locales, h])
  have hfallback : s.fallbackLocale ≠ Catalog.initialLocale :=
    fun h => hs (by simp [LanguageSettings.locales, h])
  have hany : s.locales.any (base.usable files) =
      (base.usable files s.defaultLocale || base.usable files s.fallbackLocale) := by
    simp [LanguageSettings.locales]
  have happend : s.locales ++ locales = s.defaultLocale :: s.fallbackLocale :: locales := rfl
  rw [configure, FileTree.run_bind (run_select_preferring files locales hbase hdefault), hany,
    happend]
  dsimp only
  cases husable : base.usable files s.defaultLocale with
  | true =>
      rw [preferring_cons_of_usable husable locales]
      rfl
  | false =>
      by_cases hsame : s.fallbackLocale = s.defaultLocale
      · -- The fallback locale is not tried, and would not be usable either.
        rw [if_neg Bool.false_ne_true, if_pos hsame, hsame, husable,
          preferring_cons_of_not_usable husable (s.defaultLocale :: locales)]
        rfl
      · rw [if_neg Bool.false_ne_true, if_neg hsame, run_select_preferring files _ hbase hfallback,
          preferring_swap husable, Bool.false_or]

/-- The locales that a run with the given settings starts with, the preferred one first. -/
def startupLocales (env : Environment) (s : LanguageSettings) : List String :=
  s.locales ++ (if s.autoDetect then [Locale.ofEnvironment env] else []) ++ [Locale.default]

/-- A run starts in the first usable one of its locales. -/
theorem run_startup (files : FileTree) (directory : String) {env : Environment}
    {s : LanguageSettings} (h : Catalog.initialLocale ∉ startupLocales env s) :
    (startup directory env s : StateM FileTree Localization).run files =
      (preferring files (.unloaded domain directory) (startupLocales env s), files) := by
  have hs : Catalog.initialLocale ∉ s.locales := fun hmem =>
    h (List.mem_append_left _ (List.mem_append_left _ hmem))
  rw [startup, startupLocales]
  cases hauto : s.autoDetect with
  | true =>
      have henv : Locale.ofEnvironment env ≠ Catalog.initialLocale := fun heq =>
        h (by simp [startupLocales, hauto, heq])
      rw [if_pos rfl, if_pos rfl, inEnvironment,
        FileTree.run_bind (run_inLocale domain directory files henv),
        FileTree.run_bind (run_configure files _ rfl hs), List.append_assoc]
      rfl
  | false =>
      rw [if_neg Bool.false_ne_true, if_neg Bool.false_ne_true, List.append_nil,
        FileTree.run_bind (run_inLocale_default domain directory files),
        FileTree.run_bind (run_configure files _ rfl hs)]
      rfl

/-- The localization speaks in the first usable locale of a list: that one is active, and the texts
are those of its messages. If none is usable, no locale is active, and every key is its own text. -/
structure Prefers (files : FileTree) (domain directory : String) (locales : List String)
    (l : Localization) : Prop where
  locale : l.locale? = locales.find? (Catalog.usable files (.unloaded domain directory))
  messages : ∀ active, l.locale? = some active → ∃ messages,
    Catalog.messages? files (.unloaded domain directory) active = some messages ∧
      l.catalog = some ⟨domain, directory, active, messages⟩ ∧
      ∀ key, l.text key = (messages.find? key).getD key
  untranslated : l.locale? = none → l.catalog = some (.unloaded domain directory) ∧
    (∀ key, l.text key = key) ∧
      ∀ singular plural n, l.pluralText singular plural n = if n = 1 then singular else plural

/-- Without messages, a count of one takes the singular key and any other count the plural key. -/
theorem pluralText_unloaded (domain directory singular plural : String) (n : Nat) :
    (⟨some (.unloaded domain directory)⟩ : Localization).pluralText singular plural n =
      if n = 1 then singular else plural := by
  have hform : Messages.empty.find? (singular ++ "\x00" ++ plural) = none := rfl
  have hsingular : (Catalog.unloaded domain directory).isSingular n = (n == 1) := by
    have hzh : ['z', 'h'].isPrefixOf Catalog.initialLocale.toList = false := by decide
    rw [Catalog.isSingular, Catalog.unloaded, hzh, Bool.or_false]
  change (Catalog.unloaded domain directory).pluralText singular plural n = _
  rw [Catalog.pluralText, hsingular]
  simp only [Catalog.unloaded, hform, Option.bind_none, beq_iff_eq]
  rfl

theorem prefers_preferring (files : FileTree) (domain directory : String)
    (h : Catalog.initialLocale ∉ locales) :
    (preferring files (.unloaded domain directory) locales).Prefers files domain directory
      locales := by
  have hfind := map_fst_preferred? files (.unloaded domain directory) locales
  cases hp : preferred? files (.unloaded domain directory) locales with
  | none =>
      have hl : preferring files (.unloaded domain directory) locales =
          ⟨some (.unloaded domain directory)⟩ := by rw [preferring, hp]
      have hlocale : (⟨some (.unloaded domain directory)⟩ : Localization).locale? = none := by
        simp [locale?, Catalog.unloaded]
      rw [hp] at hfind
      rw [hl]
      refine ⟨hlocale.trans hfind, fun active hactive => ?_, fun _ => ?_⟩
      · cases hlocale.symm.trans hactive
      · exact ⟨rfl, fun key => rfl, pluralText_unloaded domain directory⟩
  | some preferred =>
      obtain ⟨active, messages⟩ := preferred
      obtain ⟨hmem, hmessages⟩ := of_preferred?_eq_some hp
      have hne : active ≠ Catalog.initialLocale := fun heq => h (heq ▸ hmem)
      have hl : preferring files (.unloaded domain directory) locales =
          ⟨some ⟨domain, directory, active, messages⟩⟩ := by rw [preferring, hp]; rfl
      have hlocale : (⟨some ⟨domain, directory, active, messages⟩⟩ : Localization).locale? =
          some active := by simp [locale?, hne]
      rw [hp] at hfind
      rw [hl]
      refine ⟨hlocale.trans hfind, fun active' hactive => ?_, fun hnone => ?_⟩
      · cases hlocale.symm.trans hactive
        exact ⟨messages, hmessages, rfl, fun key => rfl⟩
      · cases hlocale.symm.trans hnone

end Localization

end FrontEnd
