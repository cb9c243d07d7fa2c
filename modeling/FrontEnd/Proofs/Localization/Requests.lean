import Mathlib.Data.List.Induction
import FrontEnd.Catalog.Encoding
import FrontEnd.Proofs.Catalog.Selection

/-!
# Requests for locales

A localization is asked for one locale after another, while the files stay as they are. Every answer
should be true, and so should be the locale that is told in between. The name of the locale without
messages is the one case in which they are not: it is granted before anything is loaded, whether
there is a file for it or not, and when its file is loaded, no locale is told. The main statement is
the exact condition for a run in which everything is true.
-/

namespace FrontEnd.Localization

variable (files : FileTree) (domain directory : String)

/-- The catalogs of a domain before any file is loaded. -/
def unloaded : Localization := ⟨some (.unloaded domain directory)⟩

/-- What a request for a locale gives: whether it is granted, and the localization then. -/
def respond (l : Localization) (locale : String) : Bool × Localization :=
  ((l.select locale : StateM FileTree (Bool × Localization)).run files).1

/-- Whether a request loads a catalog file: it is for another locale than the active one, and that
one has a usable file. -/
def loads (l : Localization) (locale : String) : Bool := l.catalog.any (·.loads ⟨files, locale⟩)

/-- The localization after requests for some locales. -/
def afterAll (l : Localization) (locales : List String) : Localization :=
  locales.foldl (fun l locale => (l.respond files locale).2) l

/-- The localization after requests for some locales to catalogs of which no file is loaded. -/
def reached (locales : List String) : Localization :=
  afterAll files (unloaded domain directory) locales

/-- Those of some requested locales that are granted, one after the other. -/
def granted (l : Localization) : List String → List String
  | [] => []
  | locale :: rest =>
    (if (l.respond files locale).1 then [locale] else []) ++
      granted (l.respond files locale).2 rest

/-- Whether one of some requests loads a catalog file. -/
def HasLoaded (locales : List String) : Prop :=
  ∃ front locale, front ++ [locale] <+: locales ∧
    (reached files domain directory front).loads files locale = true

/-- What is to be true of a run of requests. -/
structure Truthful (locales : List String) : Prop where
  /-- A request is granted only if a file of the locale is usable, and its messages are active
  afterwards. -/
  answer : ∀ front locale, front ++ [locale] <+: locales →
    let answer := (reached files domain directory front).respond files locale
    answer.1 = true → ∃ messages,
      Catalog.messages? files (.unloaded domain directory) locale = some messages ∧
        answer.2 = ⟨some ⟨domain, directory, locale, messages⟩⟩
  /-- No locale is told exactly as long as no file is loaded. -/
  untold : ∀ front, front <+: locales →
    ((reached files domain directory front).locale? = none ↔
      ¬ HasLoaded files domain directory front)
  /-- Afterwards, the locale of the last request that was granted is told. -/
  told : ∀ front, front <+: locales → HasLoaded files domain directory front →
    (reached files domain directory front).locale? =
      (granted files (unloaded domain directory) front).getLast?

variable {files domain directory} {c : Catalog} {locale : String} {locales : List String}
  {messages : Messages}

/-! ### One request -/

theorem respond_eq (c : Catalog) (locale : String) :
    (⟨some c⟩ : Localization).respond files locale =
      if locale = c.locale then (true, ⟨some c⟩)
      else
        match c.messages? files locale with
        | some messages => (true, ⟨some { c with locale := locale, messages := messages }⟩)
        | none => (false, ⟨some c⟩) :=
  congrArg Prod.fst (run_select files c locale)

/-- The active locale is granted, and nothing is loaded. -/
theorem respond_of_active (files : FileTree) (c : Catalog) (h : locale = c.locale) :
    (⟨some c⟩ : Localization).respond files locale = (true, ⟨some c⟩) ∧
      (⟨some c⟩ : Localization).loads files locale = false := by
  refine ⟨by rw [respond_eq, if_pos h], ?_⟩
  change (locale != c.locale && c.usable files locale) = false
  rw [h, bne_self_eq_false, Bool.false_and]

/-- Another locale is granted by loading its messages. -/
theorem respond_of_usable (h : locale ≠ c.locale)
    (hmessages : c.messages? files locale = some messages) :
    (⟨some c⟩ : Localization).respond files locale =
        (true, ⟨some { c with locale := locale, messages := messages }⟩) ∧
      (⟨some c⟩ : Localization).loads files locale = true := by
  refine ⟨by rw [respond_eq, if_neg h, hmessages], ?_⟩
  change (locale != c.locale && c.usable files locale) = true
  rw [Catalog.usable, hmessages, bne_iff_ne.mpr h]
  rfl

/-- Another locale is not granted if it has no messages. -/
theorem respond_of_not_usable (h : locale ≠ c.locale)
    (hmessages : c.messages? files locale = none) :
    (⟨some c⟩ : Localization).respond files locale = (false, ⟨some c⟩) ∧
      (⟨some c⟩ : Localization).loads files locale = false := by
  refine ⟨by rw [respond_eq, if_neg h, hmessages], ?_⟩
  change (locale != c.locale && c.usable files locale) = false
  rw [Catalog.usable, hmessages]
  exact Bool.and_false _

/-- Another locale is granted only if it has messages, which are active then. -/
theorem exists_of_granted {active : String} {own : Messages} (h : locale ≠ active)
    (hdone : ((⟨some ⟨domain, directory, active, own⟩⟩ : Localization).respond files locale).1 =
      true) :
    ∃ messages, Catalog.messages? files (.unloaded domain directory) locale = some messages ∧
      ((⟨some ⟨domain, directory, active, own⟩⟩ : Localization).respond files locale).2 =
        ⟨some ⟨domain, directory, locale, messages⟩⟩ := by
  cases hmessages : Catalog.messages? files (.unloaded domain directory) locale with
  | none =>
      obtain ⟨hrespond, -⟩ :=
        respond_of_not_usable (c := ⟨domain, directory, active, own⟩) h hmessages
      rw [hrespond] at hdone
      cases hdone
  | some messages =>
      obtain ⟨hrespond, -⟩ :=
        respond_of_usable (c := ⟨domain, directory, active, own⟩) h hmessages
      exact ⟨messages, rfl, congrArg Prod.snd hrespond⟩

/-! ### A whole run -/

theorem reached_concat (front : List String) (locale : String) :
    reached files domain directory (front ++ [locale]) =
      ((reached files domain directory front).respond files locale).2 := by
  rw [reached, reached, afterAll, afterAll, List.foldl_append]
  rfl

theorem granted_concat (l : Localization) (front : List String) (locale : String) :
    granted files l (front ++ [locale]) =
      granted files l front ++
        if ((l.afterAll files front).respond files locale).1 then [locale] else [] := by
  induction front generalizing l with
  | nil => exact List.append_nil _
  | cons first front ih =>
      rw [List.cons_append, granted, granted, ih, List.append_assoc]
      rfl

theorem hasLoaded_concat (front : List String) (locale : String) :
    HasLoaded files domain directory (front ++ [locale]) ↔
      HasLoaded files domain directory front ∨
        (reached files domain directory front).loads files locale = true := by
  constructor
  · rintro ⟨earlier, other, hearlier, hloads⟩
    rcases List.prefix_concat_iff.mp hearlier with heq | hearlier
    · obtain ⟨rfl, hlast⟩ := List.append_inj' heq rfl
      cases hlast
      exact Or.inr hloads
    · exact Or.inl ⟨earlier, other, hearlier, hloads⟩
  · rintro (⟨earlier, other, hearlier, hloads⟩ | hloads)
    · exact ⟨earlier, other, hearlier.trans (List.prefix_append _ _), hloads⟩
    · exact ⟨front, locale, List.prefix_refl _, hloads⟩

/-- What one more request does to a run that has reached a localization, by what it is answered
there and whether it loads a file. -/
theorem concat_of_respond {front : List String} {l next : Localization} {done loaded : Bool}
    (hreached : reached files domain directory front = l)
    (hrespond : l.respond files locale = (done, next) ∧ l.loads files locale = loaded) :
    reached files domain directory (front ++ [locale]) = next ∧
      (HasLoaded files domain directory (front ++ [locale]) ↔
        HasLoaded files domain directory front ∨ loaded = true) ∧
      granted files (unloaded domain directory) (front ++ [locale]) =
        granted files (unloaded domain directory) front ++ if done then [locale] else [] := by
  subst hreached
  obtain ⟨hrespond, hloads⟩ := hrespond
  refine ⟨by rw [reached_concat, hrespond], by rw [hasLoaded_concat, hloads], ?_⟩
  rw [granted_concat]
  change _ ++ (if ((reached files domain directory front).respond files locale).1 then _ else _) = _
  rw [hrespond]

/-- How some requests to catalogs of which no file is loaded can go. -/
inductive Course (files : FileTree) (domain directory : String) (locales : List String) : Prop
  /-- No file is loaded, and the catalogs are as they were. -/
  | unloaded (hloaded : ¬ HasLoaded files domain directory locales)
      (hreached : reached files domain directory locales = unloaded domain directory)
  /-- The last locale that was granted is active with its messages. If that is the one that is
  active before anything is loaded, another one had been loaded before it. -/
  | loaded (locale : String) (messages : Messages)
      (hloaded : HasLoaded files domain directory locales)
      (hmessages : Catalog.messages? files (.unloaded domain directory) locale = some messages)
      (hreached : reached files domain directory locales =
        ⟨some ⟨domain, directory, locale, messages⟩⟩)
      (hgranted : (granted files (unloaded domain directory) locales).getLast? = some locale)
      (hinitial : locale = Catalog.initialLocale → ∃ front,
        front ++ [Catalog.initialLocale] <+: locales ∧ HasLoaded files domain directory front)

/-- One more request keeps a run on its course. -/
theorem Course.concat {front : List String} (h : Course files domain directory front)
    (locale : String) : Course files domain directory (front ++ [locale]) := by
  cases h with
  | unloaded hnot hreached =>
      by_cases hactive : locale = Catalog.initialLocale
      · obtain ⟨hnext, hloaded, -⟩ := concat_of_respond hreached (respond_of_active files _ hactive)
        exact .unloaded (by simpa [hloaded] using hnot) hnext
      · cases hmessages : Catalog.messages? files (.unloaded domain directory) locale with
        | none =>
            obtain ⟨hnext, hloaded, -⟩ :=
              concat_of_respond hreached (respond_of_not_usable hactive hmessages)
            exact .unloaded (by simpa [hloaded] using hnot) hnext
        | some messages =>
            obtain ⟨hnext, hloaded, hgranted⟩ :=
              concat_of_respond hreached (respond_of_usable hactive hmessages)
            refine .loaded locale messages (hloaded.mpr (Or.inr rfl)) hmessages hnext ?_ ?_
            · rw [hgranted]
              exact List.getLast?_concat
            · exact fun hinitial => absurd hinitial hactive
  | loaded active own hbefore hown hreached hlast hinitial =>
      have hkept : active = Catalog.initialLocale → ∃ earlier,
          earlier ++ [Catalog.initialLocale] <+: front ++ [locale] ∧
            HasLoaded files domain directory earlier := fun h => by
        obtain ⟨earlier, hearlier, hloaded⟩ := hinitial h
        exact ⟨earlier, hearlier.trans (List.prefix_append _ _), hloaded⟩
      by_cases hactive : locale = active
      · obtain ⟨hnext, hloaded, hgranted⟩ :=
          concat_of_respond hreached (respond_of_active files _ hactive)
        refine .loaded active own (hloaded.mpr (Or.inl hbefore)) hown hnext ?_ hkept
        rw [hgranted, hactive]
        exact List.getLast?_concat
      · cases hmessages : Catalog.messages? files (.unloaded domain directory) locale with
        | none =>
            obtain ⟨hnext, hloaded, hgranted⟩ :=
              concat_of_respond hreached (respond_of_not_usable hactive hmessages)
            refine .loaded active own (hloaded.mpr (Or.inl hbefore)) hown hnext ?_ hkept
            rw [hgranted, if_neg Bool.false_ne_true, List.append_nil, hlast]
        | some messages =>
            obtain ⟨hnext, hloaded, hgranted⟩ :=
              concat_of_respond hreached (respond_of_usable hactive hmessages)
            refine .loaded locale messages (hloaded.mpr (Or.inr rfl)) hmessages hnext ?_ ?_
            · rw [hgranted]
              exact List.getLast?_concat
            · exact fun hlocale => ⟨front, hlocale ▸ List.prefix_refl _, hbefore⟩

/-- Every run stays on one of these courses. -/
theorem course (files : FileTree) (domain directory : String) (locales : List String) :
    Course files domain directory locales := by
  induction locales using List.reverseRecOn with
  | nil =>
      refine .unloaded ?_ rfl
      rintro ⟨front, locale, hfront, -⟩
      exact List.append_ne_nil_of_right_ne_nil _ (List.cons_ne_nil _ _) (List.prefix_nil.mp hfront)
  | append_singleton front locale ih => exact ih.concat locale

/-- Behind a loaded file, a locale with messages becomes active, or stays so. -/
theorem exists_reached_of_usable {front : List String}
    (hloaded : HasLoaded files domain directory front)
    (hmessages : Catalog.messages? files (.unloaded domain directory) locale = some messages) :
    ∃ own, reached files domain directory (front ++ [locale]) =
        ⟨some ⟨domain, directory, locale, own⟩⟩ ∧
      HasLoaded files domain directory (front ++ [locale]) := by
  cases course files domain directory front with
  | unloaded hnot => exact absurd hloaded hnot
  | loaded active own _ _ hreached =>
      by_cases hactive : locale = active
      · obtain ⟨hnext, hstill, -⟩ := concat_of_respond hreached (respond_of_active files _ hactive)
        exact ⟨own, hactive ▸ hnext, hstill.mpr (Or.inl hloaded)⟩
      · obtain ⟨hnext, hstill, -⟩ :=
          concat_of_respond hreached (respond_of_usable hactive hmessages)
        exact ⟨messages, hnext, hstill.mpr (Or.inl hloaded)⟩

theorem locale?_eq (domain directory locale : String) (messages : Messages) :
    (⟨some ⟨domain, directory, locale, messages⟩⟩ : Localization).locale? =
      if locale = Catalog.initialLocale then none else some locale := by
  by_cases h : locale = Catalog.initialLocale <;> simp [locale?, h]

/-- A run in which the initial locale is asked for only where its name does no harm: before anything
is loaded it has a file without messages, so that nothing is left to be loaded, and afterwards it
has no usable file. -/
def SparesInitial (files : FileTree) (domain directory : String) (locales : List String) : Prop :=
  ∀ front, front ++ [Catalog.initialLocale] <+: locales →
    (HasLoaded files domain directory front →
      Catalog.messages? files (.unloaded domain directory) Catalog.initialLocale = none) ∧
    (¬ HasLoaded files domain directory front →
      Catalog.messages? files (.unloaded domain directory) Catalog.initialLocale = some .empty)

theorem Truthful.sparesInitial (h : Truthful files domain directory locales) :
    SparesInitial files domain directory locales := by
  intro front hfront
  refine ⟨fun hloaded => ?_, fun hnot => ?_⟩
  · -- A file of the initial locale is loaded, and no locale is told any more.
    by_contra hsome
    obtain ⟨messages, hmessages⟩ := Option.ne_none_iff_exists'.mp hsome
    obtain ⟨own, hreached, hstill⟩ := exists_reached_of_usable hloaded hmessages
    have htold := h.untold _ hfront
    rw [hreached, locale?_eq, if_pos rfl] at htold
    exact htold.mp rfl hstill
  · cases course files domain directory front with
    | loaded _ _ hloaded => exact absurd hloaded hnot
    | unloaded _ hreached =>
        have hanswer := h.answer front Catalog.initialLocale hfront
        rw [hreached] at hanswer
        have hrespond : (unloaded domain directory).respond files Catalog.initialLocale = _ :=
          (respond_of_active files (.unloaded domain directory) rfl).1
        rw [hrespond] at hanswer
        obtain ⟨messages, hmessages, heq⟩ := hanswer rfl
        cases heq
        exact hmessages

/-- In such a run, the initial locale is never active once a file is loaded. -/
theorem SparesInitial.exists_reached (h : SparesInitial files domain directory locales)
    {front : List String} (hfront : front <+: locales)
    (hloaded : HasLoaded files domain directory front) :
    ∃ locale messages, locale ≠ Catalog.initialLocale ∧
      reached files domain directory front = ⟨some ⟨domain, directory, locale, messages⟩⟩ ∧
      (granted files (unloaded domain directory) front).getLast? = some locale := by
  cases course files domain directory front with
  | unloaded hnot => exact absurd hloaded hnot
  | loaded locale messages _ hmessages hreached hlast hinitial =>
      refine ⟨locale, messages, fun hlocale => ?_, hreached, hlast⟩
      obtain ⟨earlier, hearlier, hbefore⟩ := hinitial hlocale
      have hnone := (h earlier (hearlier.trans hfront)).1 hbefore
      rw [← hlocale, hmessages] at hnone
      cases hnone

theorem SparesInitial.truthful (h : SparesInitial files domain directory locales) :
    Truthful files domain directory locales where
  answer front locale hfront := by
    intro answer hdone
    have hanswer : answer = (reached files domain directory front).respond files locale := rfl
    cases course files domain directory front with
    | unloaded hnot hreached =>
        rw [hreached] at hanswer
        rw [hanswer] at hdone ⊢
        by_cases hinitial : locale = Catalog.initialLocale
        · -- The initial locale is granted, and has the messages that are active already.
          subst hinitial
          have hrespond : (unloaded domain directory).respond files Catalog.initialLocale = _ :=
            (respond_of_active files (.unloaded domain directory) rfl).1
          exact ⟨.empty, (h front hfront).2 hnot, congrArg Prod.snd hrespond⟩
        · exact exists_of_granted hinitial hdone
    | loaded active own _ hown hreached =>
        rw [hreached] at hanswer
        rw [hanswer] at hdone ⊢
        by_cases hactive : locale = active
        · obtain ⟨hrespond, -⟩ := respond_of_active files ⟨domain, directory, active, own⟩ hactive
          exact ⟨own, hactive ▸ hown, hactive ▸ congrArg Prod.snd hrespond⟩
        · exact exists_of_granted hactive hdone
  untold front hfront := by
    cases course files domain directory front with
    | unloaded hnot hreached =>
        rw [hreached]
        exact iff_of_true (locale?_eq domain directory _ _) hnot
    | loaded _ _ hloaded =>
        obtain ⟨locale, messages, hne, hreached, -⟩ := h.exists_reached hfront hloaded
        rw [hreached, locale?_eq, if_neg hne]
        exact iff_of_false (Option.some_ne_none _) (not_not_intro hloaded)
  told front hfront hloaded := by
    obtain ⟨locale, messages, hne, hreached, hlast⟩ := h.exists_reached hfront hloaded
    rw [hreached, locale?_eq, if_neg hne, hlast]

/-! ### Fresh catalogs -/

theorem run_select_eq (c : Catalog) (locale : String) :
    ((⟨some c⟩ : Localization).select locale : StateM FileTree (Bool × Localization)).run files =
      ((⟨some c⟩ : Localization).respond files locale, files) :=
  Prod.ext rfl (by rw [run_select])

/-- Fresh catalogs have been asked for a locale, and for the default locale if that was not
granted. -/
theorem exists_run_inLocale_eq (files : FileTree) (domain directory first : String) :
    ∃ rest ∈ [[], [Locale.default]],
      (inLocale domain directory first : StateM FileTree Localization).run files =
        (reached files domain directory (first :: rest), files) := by
  rw [inLocale, FileTree.run_bind (run_select_eq _ first)]
  have hsome : ∃ c, ((unloaded domain directory).respond files first).2 = ⟨some c⟩ := by
    cases course files domain directory [first] with
    | unloaded _ hreached => exact ⟨_, hreached⟩
    | loaded _ _ _ _ hreached => exact ⟨_, hreached⟩
  obtain ⟨c, hc⟩ := hsome
  change ∃ rest ∈ [[], [Locale.default]],
    (if ((unloaded domain directory).respond files first).1 || first == Locale.default then
      pure ((unloaded domain directory).respond files first).2
    else do
      let answer ← ((unloaded domain directory).respond files first).2.select Locale.default
      return answer.2 : StateM FileTree Localization).run files = _
  split
  · exact ⟨[], by simp, rfl⟩
  · refine ⟨[Locale.default], by simp, ?_⟩
    rw [hc, FileTree.run_bind (run_select_eq c Locale.default)]
    change (((⟨some c⟩ : Localization).respond files Locale.default).2, files) = _
    rw [← hc]
    rfl

/-- Fresh catalogs have the default locale active in place of one that is not usable, unless that is
the initial locale. -/
theorem run_inLocale_of_not_usable {first : String}
    (hfirst : Catalog.messages? files (.unloaded domain directory) first = none)
    (hdefault : Catalog.messages? files (.unloaded domain directory) Locale.default =
      some messages) :
    ((inLocale domain directory first : StateM FileTree Localization).run files).1 =
        ⟨some ⟨domain, directory, Locale.default, messages⟩⟩ ↔
      first ≠ Catalog.initialLocale := by
  constructor
  · intro hrun hinitial
    rw [hinitial, run_inLocale_initial] at hrun
    have hlocale : some Catalog.initialLocale = some Locale.default :=
      congrArg (fun l : Localization => l.catalog.map Catalog.locale) hrun
    exact absurd hlocale (by decide)
  · intro hne
    rw [run_inLocale domain directory files hne, preferring,
      preferred?_cons_of_not_usable hfirst, preferred?_cons_of_usable hdefault]
    rfl

/-- Requests for locales. A run of requests to the catalogs of a domain is answered truly, and the
locale that is told in between is true, exactly if the run spares the initial locale. So it is if
that one is not asked for at all. The run may start with the requests by which fresh catalogs are
made: these ask for a first locale, and then for the default locale if that is necessary. When the
first one is not usable and the default locale is, then that one is active in fresh catalogs exactly
if the first one is not the initial locale. -/
theorem truthful_iff (files : FileTree) (domain directory : String) :
    (∀ locales, Truthful files domain directory locales ↔
      SparesInitial files domain directory locales) ∧
    ∀ first, ∃ rest ∈ [[], [Locale.default]],
      let fresh := (inLocale domain directory first : StateM FileTree Localization).run files
      fresh = (reached files domain directory (first :: rest), files) ∧
      ∀ messages, Catalog.messages? files (.unloaded domain directory) first = none →
        Catalog.messages? files (.unloaded domain directory) Locale.default = some messages →
        (fresh.1 = ⟨some ⟨domain, directory, Locale.default, messages⟩⟩ ↔
          first ≠ Catalog.initialLocale) := by
  refine ⟨fun locales => ⟨Truthful.sparesInitial, SparesInitial.truthful⟩, fun first => ?_⟩
  obtain ⟨rest, hrest, hrun⟩ := exists_run_inLocale_eq files domain directory first
  exact ⟨rest, hrest, hrun, fun _ hfirst hdefault => run_inLocale_of_not_usable hfirst hdefault⟩

/-- A file tree with a catalog file for the default locale. -/
def defaultTree : FileTree :=
  ⟨[(["l"], .directory), (["l", "en_US"], .directory), (["l", "en_US", "LC_MESSAGES"], .directory),
    (["l", "en_US", "LC_MESSAGES", "dreamlang.mo"],
      .file (Catalog.encode [("token type", "token kind")]))], ["w"]⟩

/-- The initial locale has no file, but it is granted, and the default locale is not asked for in its
place. -/
theorem not_truthful_initial :
    let fresh := ((inLocale "dreamlang" "/l" Catalog.initialLocale :
      StateM FileTree Localization).run defaultTree).1
    ¬ Truthful defaultTree "dreamlang" "/l" [Catalog.initialLocale] ∧
      Catalog.usable defaultTree (.unloaded "dreamlang" "/l") Catalog.initialLocale = false ∧
      Catalog.usable defaultTree (.unloaded "dreamlang" "/l") Locale.default = true ∧
      fresh.locale? = none := by
  intro fresh
  have hnone :
      Catalog.messages? defaultTree (.unloaded "dreamlang" "/l") Catalog.initialLocale = none := by
    decide +kernel
  refine ⟨fun h => ?_, by rw [Catalog.usable, hnone]; rfl, by decide +kernel, by decide +kernel⟩
  obtain ⟨messages, hmessages, -⟩ := h.answer [] _ (List.prefix_refl _) (by decide +kernel)
  rw [hnone] at hmessages
  cases hmessages

end FrontEnd.Localization
