import FrontEnd.Proofs.Catalog.RoundTrip
import FrontEnd.Proofs.Catalog.Translations
import FrontEnd.Proofs.Files.Changes
import FrontEnd.Proofs.Localization.Preference

/-!
# From a translator to a user

A translator writes a catalog file for a locale. A localization that is asked for this locale reads
the file, and then says what the translator wrote: the text of a key, the form of a pair of keys
that a count takes, and the keys themselves where there is no translation.
-/

namespace FrontEnd.Localization

open Catalog

variable {translations : List Translation}

/-- A localization says what translations say, in a locale. -/
structure Speaks (translations : List Translation) (locale : String) (l : Localization) : Prop where
  /-- A key has its text. -/
  simple : ∀ key text, .simple key text ∈ translations → l.text key.text = text
  /-- A pair has its first form for a count that takes it, and for all if there is no other. -/
  first : ∀ singular plural first others, .counted singular plural first others ∈ translations →
    ∀ n, TakesFirst locale n ∨ others = [] → l.pluralText singular.text plural.text n = first.text
  /-- A pair has its second form for all other counts. -/
  second : ∀ singular plural first second others,
    .counted singular plural first (second :: others) ∈ translations →
    ∀ n, ¬ TakesFirst locale n → l.pluralText singular.text plural.text n = second.text
  /-- A pair without forms has the text of one of its keys. -/
  pair : ∀ singular plural, '\x00' ∉ singular.toList → '\x00' ∉ plural.toList →
    (∀ s p first others, .counted s p first others ∈ translations →
      ¬ (s.text = singular ∧ p.text = plural)) →
    ∀ n, (TakesFirst locale n → l.pluralText singular plural n = l.text singular) ∧
      (¬ TakesFirst locale n → l.pluralText singular plural n = l.text plural)
  /-- A key without a text is its own text. -/
  other : ∀ key, '\x00' ∉ key.toList →
    (∀ phrase text, .simple phrase text ∈ translations → phrase.text ≠ key) → l.text key = key

/-- Catalogs that have the messages of some translations say what these say. -/
theorem speaks_of_keeps {c : Catalog} (h : c.Keeps translations) :
    Speaks translations c.locale ⟨some c⟩ where
  simple _ _ ht := h.text_simple ht
  first _ _ first _ ht _ hn := h.pluralText_counted ht (form?_first first hn)
  second _ _ first second others ht _ hn :=
    h.pluralText_counted ht (form?_second first second others hn)
  pair singular plural hs hp hpair n := by
    have htext : (⟨some c⟩ : Localization).pluralText singular plural n =
        if c.isSingular n then c.text singular else c.text plural :=
      h.pluralText_pair hs hp hpair
    rw [htext]
    exact ⟨fun hn => if_pos (isSingular_iff.mpr hn),
      fun hn => if_neg fun hc => hn (isSingular_iff.mp hc)⟩
  other _ hzero hkey := h.text_other hzero hkey

/-- What a translator wrote is what the user sees. Let translations for different keys be written to
the file of a locale. Catalogs that are fresh, whatever locale they start with, can be asked for
that locale with success, and then say what the translations say. -/
theorem speaks_of_write {domain directory locale : String} {files after : FileTree}
    (hdistinct : ((Translation.entries translations).map Prod.fst).Nodup)
    (hsize : (encode (Translation.entries translations)).size < UInt32.size)
    (hlocale : locale ≠ Catalog.initialLocale)
    (hwrite : files.write ((Catalog.unloaded domain directory).path locale)
      (encode (Translation.entries translations)) = (true, after)) (first : String) :
    ∃ l, (inLocale domain directory first >>= fun fresh => fresh.select locale :
        StateM FileTree (Bool × Localization)).run after = ((true, l), after) ∧
      Speaks translations locale l := by
  have hmessages := messages?_of_read (FileTree.read_of_write hwrite) (parse_encode_eq hsize)
  obtain ⟨locales, hfresh⟩ := exists_run_inLocale domain directory first after
  have hkeeps : Keeps ⟨domain, directory, locale, _⟩ translations :=
    ⟨hdistinct, holds_ofEntries_sortEntries _⟩
  refine ⟨_, ?_, speaks_of_keeps hkeeps⟩
  rw [FileTree.run_bind hfresh, run_select_preferring after locales rfl hlocale, usable, hmessages,
    preferring, preferred?_cons_of_usable hmessages]
  rfl

/-- A key with a text that is also the first key of a pair, with two forms for the pair. -/
def germanTranslations : List Translation :=
  [.counted ⟨"error", by decide, by decide⟩ ⟨"errors", by decide, by decide⟩
      ⟨"ein Fehler", by decide, by decide⟩ [⟨"mehrere Fehler", by decide, by decide⟩],
    .simple ⟨"error", by decide, by decide⟩ "Fehler"]

/-- The directories for German catalog files. -/
def germanDirectories : FileTree :=
  ⟨[(["l"], .directory), (["l", "de"], .directory), (["l", "de", "LC_MESSAGES"], .directory)], []⟩

theorem speaks_of_write_german :
    let entries := Translation.entries germanTranslations
    let written :=
      germanDirectories.write ((Catalog.unloaded "dreamc" "/l").path "de") (encode entries)
    (entries.map Prod.fst).Nodup ∧ (encode entries).size < UInt32.size ∧
      "de" ≠ Catalog.initialLocale ∧ written.1 = true ∧
      ∃ l, (inLocale "dreamc" "/l" "fr" >>= fun fresh => fresh.select "de" :
          StateM FileTree (Bool × Localization)).run written.2 = ((true, l), written.2) ∧
        Speaks germanTranslations "de" l ∧ l.text "error" = "Fehler" ∧
          l.pluralText "error" "errors" 2 = "mehrere Fehler" := by
  intro entries written
  have hdistinct : (entries.map Prod.fst).Nodup := by decide +kernel
  have hsize : (encode entries).size < UInt32.size := by
    rw [size_encode]
    decide +kernel
  have hlocale : "de" ≠ Catalog.initialLocale := by decide
  have hwrite : written.1 = true := by decide +kernel
  obtain ⟨l, hrun, hspeaks⟩ := speaks_of_write hdistinct hsize hlocale
    (Prod.ext hwrite rfl : written = (true, written.2)) "fr"
  refine ⟨hdistinct, hsize, hlocale, hwrite, l, hrun, hspeaks, ?_, ?_⟩
  · exact hspeaks.simple _ _ (List.mem_of_getElem? (i := 1) rfl)
  · exact hspeaks.second _ _ _ _ _ (List.mem_of_getElem? (i := 0) rfl) 2 (by decide)

end FrontEnd.Localization
