import FrontEnd.Catalog.Encoding
import FrontEnd.Proofs.Localization.Preference
import FrontEnd.Proofs.Text.Run

/-!
# Catalogs over a run

A catalog is asked for one locale after another, and the files may change in between. Its messages
are at any time those that the active locale had when messages were last loaded: those of the file
at its own path, or of the file of its language if that one could not be used. A request that fails
leaves the catalog as it was, and it fails only if neither of the two files can be used.
-/

namespace FrontEnd.Catalog

/-- A request for a locale, with the files as they are when it is made. -/
structure Request where
  files : FileTree
  locale : String

/-- What a request gives: whether the locale is active then, and the catalog. -/
def respond (c : Catalog) (r : Request) : Bool × Catalog :=
  ((c.select r.locale : StateM FileTree (Bool × Catalog)).run r.files).1

/-- The catalog after some requests. -/
def afterAll (c : Catalog) (requests : List Request) : Catalog :=
  requests.foldl (fun c r => (c.respond r).2) c

/-- Whether a request loads messages: it is for another locale than the active one, and there are
messages for that one. -/
def loads (c : Catalog) (r : Request) : Bool := r.locale != c.locale && c.usable r.files r.locale

/-- The last one of some requests that loads messages, if any of them does. -/
def lastLoad? (c : Catalog) : List Request → Option Request
  | [] => none
  | r :: rest => (lastLoad? (c.respond r).2 rest).or (if c.loads r then some r else none)

/-- Whether a file can be read as a catalog file with the given messages. -/
def HasMessages (files : FileTree) (path : String) (messages : Messages) : Prop :=
  ∃ content, files.read path = some content ∧ parse content = .ok messages

/-- Whether a text is the language of a locale: the part before its first underscore. -/
def HasLanguage (locale language : String) : Prop :=
  '_' ∉ language.toList ∧ ∃ rest, locale = language ++ "_" ++ rest

/-- Whether messages are those that a locale has, given the path of the file of each locale: those
of the file at its own path, or, only if that one has none, those of the file at the path of its
language. -/
inductive Offers (files : FileTree) (path : String → String) (locale : String)
    (messages : Messages) : Prop
  | own (h : HasMessages files (path locale) messages)
  | language (language : String) (hlanguage : HasLanguage locale language)
      (hown : ∀ m, ¬ HasMessages files (path locale) m)
      (h : HasMessages files (path language) messages)

variable {files : FileTree} {c : Catalog} {locale language path : String} {messages : Messages}

theorem messagesAt?_eq_some_iff :
    messagesAt? files path = some messages ↔ HasMessages files path messages := by
  unfold messagesAt? HasMessages
  cases files.read path with
  | none => simp
  | some content => cases h : parse content <;> simp [h]

theorem messagesAt?_eq_none_iff :
    messagesAt? files path = none ↔ ∀ m, ¬ HasMessages files path m := by
  simp only [← messagesAt?_eq_some_iff, Option.eq_none_iff_forall_ne_some, ne_eq]

/-- The language of a locale is the part before its first underscore, and there is none without. -/
theorem language?_eq_some_iff : language? locale = some language ↔ HasLanguage locale language := by
  constructor
  · intro h
    obtain ⟨run, after, hsplit, hrun, hafter⟩ := exists_run (· != '_') locale.toList
    rw [language?, hsplit, takeWhile_append_stop hrun hafter] at h
    have hnot : '_' ∉ run := fun hmem => by simpa using hrun '_' hmem
    cases after with
    | nil => simp [hnot] at h
    | cons c rest =>
        have hc : c = '_' := by simpa using hafter
        obtain rfl : String.ofList run = language := by simpa [hc] using h
        refine ⟨by simpa using hnot, String.ofList rest, ?_⟩
        rw [← String.toList_inj, hsplit, hc]
        simp
  · rintro ⟨hnot, rest, rfl⟩
    have hrun : ∀ c ∈ language.toList, (c != '_') = true := fun c hc =>
      bne_iff_ne.mpr fun heq => hnot (heq ▸ hc)
    have hsplit : (language ++ "_" ++ rest).toList = language.toList ++ '_' :: rest.toList := by
      simp
    have hstop : startsWith (· != '_') ('_' :: rest.toList) = false := by simp
    rw [language?, hsplit, takeWhile_append_stop hrun hstop, String.ofList_toList]
    simp

/-- The messages for a locale are those that its own file or the file of its language offers. -/
theorem messages?_eq_some_iff :
    c.messages? files locale = some messages ↔ Offers files c.path locale messages := by
  rw [messages?, Option.or_eq_some_iff, Option.bind_eq_some_iff]
  simp only [language?_eq_some_iff, messagesAt?_eq_some_iff, messagesAt?_eq_none_iff]
  constructor
  · rintro (hown | ⟨hnone, language, hlanguage, h⟩)
    · exact .own hown
    · exact .language language hlanguage hnone h
  · rintro (hown | ⟨language, hlanguage, hnone, h⟩)
    · exact Or.inl hown
    · exact Or.inr ⟨hnone, language, hlanguage, h⟩

/-- A locale is usable if the file at its own path is, or the file at the path of its language. -/
theorem usable_eq_true_iff :
    c.usable files locale = true ↔
      (∃ m, HasMessages files (c.path locale) m) ∨
        ∃ language, HasLanguage locale language ∧ ∃ m, HasMessages files (c.path language) m := by
  rw [usable, Option.isSome_iff_exists]
  simp only [messages?_eq_some_iff]
  constructor
  · rintro ⟨m, hown | ⟨language, hlanguage, -, h⟩⟩
    · exact Or.inl ⟨m, hown⟩
    · exact Or.inr ⟨language, hlanguage, m, h⟩
  · intro h
    by_cases hown : ∃ m, HasMessages files (c.path locale) m
    · obtain ⟨m, hown⟩ := hown
      exact ⟨m, .own hown⟩
    · obtain ⟨language, hlanguage, m, h⟩ := h.resolve_left hown
      exact ⟨m, .language language hlanguage (not_exists.mp hown) h⟩

/-! ### One request -/

theorem respond_eq (c : Catalog) (r : Request) :
    c.respond r =
      if r.locale = c.locale then (true, c)
      else
        match c.messages? r.files r.locale with
        | some messages => (true, { c with locale := r.locale, messages := messages })
        | none => (false, c) :=
  congrArg Prod.fst (run_select r.files c r.locale)

/-- A request for the active locale changes nothing. -/
theorem respond_of_active {r : Request} (h : r.locale = c.locale) : c.respond r = (true, c) := by
  rw [respond_eq, if_pos h]

/-- A request for another locale works if there are messages for that one. -/
theorem respond_fst {r : Request} (h : r.locale ≠ c.locale) :
    (c.respond r).1 = c.usable r.files r.locale := by
  rw [respond_eq, if_neg h, usable]
  cases c.messages? r.files r.locale <;> rfl

/-- A request that does not load messages changes nothing. -/
theorem respond_of_not_loads {r : Request} (h : c.loads r = false) : (c.respond r).2 = c := by
  by_cases hlocale : r.locale = c.locale
  · rw [respond_of_active hlocale]
  · have hne : (r.locale != c.locale) = true := bne_iff_ne.mpr hlocale
    rw [loads, hne, Bool.true_and, usable, Option.isSome_eq_false_iff,
      Option.isNone_iff_eq_none] at h
    rw [respond_eq, if_neg hlocale, h]

/-- A request that loads messages makes the locale and its messages active together. -/
theorem respond_of_loads {r : Request} (h : c.loads r = true) :
    ∃ messages, Offers r.files c.path r.locale messages ∧
      (c.respond r).2 = { c with locale := r.locale, messages := messages } := by
  rw [loads, Bool.and_eq_true, bne_iff_ne, usable, Option.isSome_iff_exists] at h
  obtain ⟨hlocale, messages, hmessages⟩ := h
  refine ⟨messages, messages?_eq_some_iff.mp hmessages, ?_⟩
  rw [respond_eq, if_neg hlocale, hmessages]

/-- A request that fails changes nothing. -/
theorem respond_of_false {r : Request} (h : (c.respond r).1 = false) : (c.respond r).2 = c := by
  by_cases hlocale : r.locale = c.locale
  · rw [respond_of_active hlocale]
  · apply respond_of_not_loads
    rw [loads, ← respond_fst hlocale, h, Bool.and_false]

/-! ### A whole run -/

/-- After some requests, a catalog is as it was, or it has the locale of the last request that
loaded messages, with the messages that this locale had at that time. -/
theorem afterAll_cases (c : Catalog) (requests : List Request) :
    match c.lastLoad? requests with
    | none => c.afterAll requests = c
    | some r => ∃ messages, Offers r.files c.path r.locale messages ∧
        c.afterAll requests = { c with locale := r.locale, messages := messages } := by
  -- The rest of the requests starts at the catalog that the first one leaves.
  induction requests generalizing c with
  | nil => rfl
  | cons r rest ih =>
      have hrest := ih (c.respond r).2
      have hrun : c.afterAll (r :: rest) = (c.respond r).2.afterAll rest := rfl
      rw [lastLoad?, hrun]
      cases hloads : c.loads r with
      | false =>
          rw [respond_of_not_loads hloads] at hrest ⊢
          rwa [if_neg Bool.false_ne_true, Option.or_none]
      | true =>
          obtain ⟨messages, hmessages, hcatalog⟩ := respond_of_loads hloads
          rw [hcatalog] at hrest ⊢
          cases hlast : lastLoad? { c with locale := r.locale, messages := messages } rest with
          | none =>
              rw [hlast] at hrest
              exact ⟨messages, hmessages, hrest⟩
          | some later =>
              rw [hlast] at hrest
              exact hrest

/-- The state of a catalog after some requests, of which the given one was the last to load
messages: before any is loaded, the catalog is as at the start, and afterwards it has the locale of
that request, and the messages of the first usable one of the locale's files, as they were then. -/
structure Stands (domain directory : String) (last : Option Request) (c : Catalog) : Prop where
  unloaded : last = none → c.locale = initialLocale ∧ c.messages = .empty
  loaded : ∀ r, last = some r → c.locale = r.locale ∧ Offers r.files c.path c.locale c.messages
  place : c.domain = domain ∧ c.directory = directory

/-- Any run from the start ends in such a state. -/
theorem stands_afterAll (domain directory : String) (requests : List Request) :
    ((unloaded domain directory).afterAll requests).Stands domain directory
      ((unloaded domain directory).lastLoad? requests) := by
  have hcases := afterAll_cases (unloaded domain directory) requests
  cases hlast : (unloaded domain directory).lastLoad? requests with
  | none =>
      rw [hlast] at hcases
      have hc : (unloaded domain directory).afterAll requests = unloaded domain directory := hcases
      rw [hc]
      exact ⟨fun _ => ⟨rfl, rfl⟩, fun _ hr => (nomatch hr), ⟨rfl, rfl⟩⟩
  | some r =>
      rw [hlast] at hcases
      obtain ⟨messages, hmessages, hc⟩ := hcases
      rw [hc]
      refine ⟨fun hnone => (nomatch hnone), fun r' hr' => ?_, ⟨rfl, rfl⟩⟩
      cases hr'
      exact ⟨rfl, hmessages⟩

/-- A catalog in any state that it can reach, whatever happens to the files between the requests,
has no messages, or those that its locale had when messages were last loaded. From there, a request
that fails changes nothing, nor does one for the active locale, which works; and one for another
locale works exactly if one of its files is usable. -/
theorem afterAll_stands (domain directory : String) (requests : List Request) :
    let start := Catalog.unloaded domain directory
    let c := start.afterAll requests
    c.Stands domain directory (start.lastLoad? requests) ∧ ∀ r : Request,
      ((c.respond r).1 = false → (c.respond r).2 = c) ∧
      (r.locale = c.locale → c.respond r = (true, c)) ∧
      (r.locale ≠ c.locale → ((c.respond r).1 = true ↔
        (∃ m, HasMessages r.files (c.path r.locale) m) ∨
          ∃ language, HasLanguage r.locale language ∧
            ∃ m, HasMessages r.files (c.path language) m)) := by
  intro start c
  refine ⟨stands_afterAll domain directory requests, fun r => ?_⟩
  refine ⟨respond_of_false, respond_of_active, fun hlocale => ?_⟩
  rw [respond_fst hlocale, usable_eq_true_iff]

/-- The catalog files of some locales, in one directory. -/
def localeFiles (contents : List (String × ByteArray)) : FileTree where
  entries := (["l"], .directory) :: contents.flatMap fun (locale, content) =>
    [(["l", locale], .directory), (["l", locale, "LC_MESSAGES"], .directory),
      (["l", locale, "LC_MESSAGES", "d.mo"], .file content)]
  workingDirectory := []

/-- The file of the locale is cut off, so the one of its language is loaded. That one stays in use
when the files are gone, and also when a whole file for the locale is there later. -/
theorem afterAll_stands_language :
    let written := encode [("Found", "A")]
    let cut : Request := ⟨localeFiles [("zh_CN", written.extract 0 20), ("zh", written)], "zh_CN"⟩
    let gone : Request := ⟨localeFiles [], "de"⟩
    let whole : Request := ⟨localeFiles [("zh_CN", encode [("Found", "B")])], "zh_CN"⟩
    let c := (unloaded "d" "/l").afterAll [cut, gone, whole]
    cut.files.isFile "/l/zh_CN/LC_MESSAGES/d.mo" = true ∧
      c.Stands "d" "/l" (some cut) ∧ c.text "Found" = "A" ∧
      (c.respond gone).1 = false ∧ (c.respond gone).2 = c ∧ c.respond whole = (true, c) ∧
      (c.respond { cut with locale := "zh_TW" }).1 = true := by
  intro written cut gone whole c
  have hlast : (unloaded "d" "/l").lastLoad? [cut, gone, whole] = some cut := by
    have hcut : (unloaded "d" "/l").loads cut = true := by decide +kernel
    have hgone : ((unloaded "d" "/l").respond cut).2.loads gone = false := by decide +kernel
    have hwhole : ((unloaded "d" "/l").respond cut).2.loads whole = false := by decide +kernel
    rw [lastLoad?, lastLoad?, respond_of_not_loads hgone, lastLoad?, hwhole, hgone, hcut]
    rfl
  obtain ⟨hstands, hnext⟩ := afterAll_stands "d" "/l" [cut, gone, whole]
  rw [hlast] at hstands
  have hgone : (c.respond gone).1 = false := by decide +kernel
  have hlocale : c.locale = "zh_CN" := (hstands.loaded cut rfl).1
  have hlanguage : HasLanguage "zh_TW" "zh" := ⟨by decide, "TW", rfl⟩
  have hfile : ∃ m, HasMessages cut.files (c.path "zh") m := by
    have hsome : (messagesAt? cut.files (c.path "zh")).isSome = true := by decide +kernel
    obtain ⟨m, hm⟩ := Option.isSome_iff_exists.mp hsome
    exact ⟨m, messagesAt?_eq_some_iff.mp hm⟩
  refine ⟨by decide +kernel, hstands, by decide +kernel, hgone, (hnext gone).1 hgone,
    (hnext whole).2.1 hlocale.symm, ?_⟩
  exact ((hnext _).2.2 (by rw [hlocale]; decide)).mpr (Or.inr ⟨"zh", hlanguage, hfile⟩)

end FrontEnd.Catalog
