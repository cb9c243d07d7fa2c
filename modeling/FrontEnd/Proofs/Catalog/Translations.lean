import FrontEnd.Catalog.Basic
import FrontEnd.Proofs.Catalog.Messages
import FrontEnd.Proofs.Text.Run
import Mathlib.Data.List.Basic
import Mathlib.Data.List.Nodup

/-!
# Translations

A translator gives a text for a message key, or forms for a pair of keys. In a catalog the keys of a
pair, and the forms, are joined by zero characters. No key has a zero character in it, so that no
pair is taken for a single key or for another pair, and every form is found behind the ones in front
of it.
-/

namespace FrontEnd.Catalog

/-- A text that can be a key or a form: it is not empty and has no zero character. -/
structure Phrase where
  text : String
  ne_empty : text ≠ ""
  no_zero : '\x00' ∉ text.toList

/-- What a translator gives: a text for a key, or one or more forms for a pair of keys, of which a
count chooses one. -/
inductive Translation where
  | simple (key : Phrase) (text : String)
  | counted (singular plural first : Phrase) (others : List Phrase)

/-- Phrases in one text, joined by zero characters. -/
def joined (first : Phrase) : List Phrase → String
  | [] => first.text
  | next :: rest => first.text ++ "\x00" ++ joined next rest

/-- The entry of a catalog that a translation is stored as. -/
def Translation.entry : Translation → String × String
  | simple key text => (key.text, text)
  | counted singular plural first others =>
    (singular.text ++ "\x00" ++ plural.text, joined first others)

/-- Whether a count takes the first form in a locale. -/
def TakesFirst (locale : String) (n : Nat) : Prop := n = 1 ∨ ['z', 'h'] <+: locale.toList

instance (locale : String) (n : Nat) : Decidable (TakesFirst locale n) :=
  inferInstanceAs (Decidable (_ ∨ _))

theorem isSingular_iff {c : Catalog} {n : Nat} : c.isSingular n = true ↔ TakesFirst c.locale n := by
  rw [isSingular, TakesFirst, Bool.or_eq_true, beq_iff_eq, List.isPrefixOf_iff_prefix]

/-! ### Forms -/

/-- What stands in front of the first zero character. -/
theorem takeWhile_of_no_zero {cs rest : List Char} (h : '\x00' ∉ cs)
    (hrest : startsWith (· != '\x00') rest = false) :
    (cs ++ rest).takeWhile (· != '\x00') = cs := by
  apply takeWhile_append_stop _ hrest
  intro c hc
  exact bne_iff_ne.mpr fun heq => h (heq ▸ hc)

/-- What stands behind a text without zero characters. -/
theorem dropWhile_of_no_zero {cs rest : List Char} (h : '\x00' ∉ cs)
    (hrest : startsWith (· != '\x00') rest = false) :
    (cs ++ rest).dropWhile (· != '\x00') = rest := by
  apply dropWhile_append_stop _ hrest
  intro c hc
  exact bne_iff_ne.mpr fun heq => h (heq ▸ hc)

/-- The phrases behind the first one, each behind a zero character. -/
def joinedRest (others : List Phrase) : List Char :=
  others.flatMap fun form => '\x00' :: form.text.toList

theorem toList_joined (first : Phrase) (others : List Phrase) :
    (joined first others).toList = first.text.toList ++ joinedRest others := by
  induction others generalizing first with
  | nil => simp [joined, joinedRest]
  | cons next rest ih => simp [joined, ih, joinedRest]

theorem startsWith_joinedRest (others : List Phrase) :
    startsWith (· != '\x00') (joinedRest others) = false := by
  cases others <;> rfl

theorem firstForm_joined (first : Phrase) (others : List Phrase) :
    firstForm (joined first others) = first.text := by
  rw [firstForm, toList_joined, takeWhile_of_no_zero first.no_zero (startsWith_joinedRest others),
    String.ofList_toList]

theorem secondForm?_joined (first : Phrase) (others : List Phrase) :
    secondForm? (joined first others) = others.head?.map Phrase.text := by
  rw [secondForm?, toList_joined, dropWhile_of_no_zero first.no_zero (startsWith_joinedRest others)]
  cases others with
  | nil => rfl
  | cons second rest =>
      have hrest : joinedRest (second :: rest) =
          '\x00' :: (second.text.toList ++ joinedRest rest) := by simp [joinedRest]
      rw [hrest]
      dsimp only
      rw [takeWhile_of_no_zero second.no_zero (startsWith_joinedRest rest), String.ofList_toList]
      rfl

theorem form?_eq_some (c : Catalog) {forms form : String} {n : Nat} (hne : form ≠ "")
    (h : (if c.isSingular n then firstForm forms
      else (secondForm? forms).getD (firstForm forms)) = form) : c.form? forms n = some form := by
  unfold form?
  rw [h]
  exact if_neg (by simpa using hne)

/-- A count that takes the first form gets it, and so does any count if there is only one. -/
theorem form?_first {c : Catalog} {n : Nat} (first : Phrase) {others : List Phrase}
    (h : TakesFirst c.locale n ∨ others = []) :
    c.form? (joined first others) n = some first.text := by
  apply form?_eq_some c first.ne_empty
  rw [firstForm_joined, secondForm?_joined]
  rcases h with h | rfl
  · rw [if_pos (isSingular_iff.mpr h)]
  · exact ite_self _

/-- Any other count gets the second form. -/
theorem form?_second {c : Catalog} {n : Nat} (first second : Phrase) (others : List Phrase)
    (h : ¬ TakesFirst c.locale n) :
    c.form? (joined first (second :: others)) n = some second.text := by
  apply form?_eq_some c second.ne_empty
  rw [secondForm?_joined, if_neg (by rwa [isSingular_iff])]
  rfl

/-! ### Keys -/

theorem Translation.entry_key_ne_empty (t : Translation) : t.entry.1 ≠ "" := by
  cases t with
  | simple key text => exact key.ne_empty
  | counted singular plural first others => simp [entry]

/-- Only single keys are stored under a key without zero characters. -/
theorem Translation.eq_simple_of_key {t : Translation} {key : String} (hkey : '\x00' ∉ key.toList)
    (h : t.entry.1 = key) : ∃ phrase text, t = .simple phrase text ∧ phrase.text = key := by
  cases t with
  | simple phrase text => exact ⟨phrase, text, rfl, h⟩
  | counted singular plural first others => simp [← h, entry] at hkey

/-- Only the pair itself is stored under the key of a pair without zero characters. -/
theorem Translation.eq_counted_of_key {t : Translation} {singular plural : String}
    (hs : '\x00' ∉ singular.toList) (hp : '\x00' ∉ plural.toList)
    (h : t.entry.1 = singular ++ "\x00" ++ plural) :
    ∃ s p first others, t = .counted s p first others ∧ s.text = singular ∧ p.text = plural := by
  have hchars := congrArg String.toList h
  cases t with
  | simple phrase text =>
      have hno := phrase.no_zero
      simp [entry] at hchars
      simp [hchars] at hno
  | counted s p first others =>
      simp only [entry, String.toList_append] at hchars
      rw [List.append_assoc, List.append_assoc] at hchars
      -- In both keys the first part ends at the first zero character.
      obtain ⟨hs', -, hp'⟩ := (List.append_cons_inj_of_notMem hs hp).mp hchars.symm
      exact ⟨s, p, first, others, rfl, (String.toList_inj.mp hs').symm,
        (String.toList_inj.mp hp').symm⟩

/-! ### Lookups -/

/-- The entries of a catalog that translations are stored as. -/
def Translation.entries (translations : List Translation) : List (String × String) :=
  translations.map Translation.entry

/-- A catalog has the messages of some translations, and no two of these have one key. -/
structure Keeps (c : Catalog) (translations : List Translation) : Prop where
  distinct : ((Translation.entries translations).map Prod.fst).Nodup
  holds : c.messages.Holds (Translation.entries translations)

variable {c : Catalog} {translations : List Translation} {singular plural key : String} {n : Nat}

theorem Keeps.find?_entry (h : c.Keeps translations) {t : Translation} (ht : t ∈ translations) :
    c.messages.find? t.entry.1 = some t.entry.2 :=
  h.holds.find?_of_mem h.distinct (List.mem_map_of_mem ht) t.entry_key_ne_empty

theorem Keeps.find?_eq_none (h : c.Keeps translations)
    (hkey : ∀ t ∈ translations, t.entry.1 ≠ key) : c.messages.find? key = none := by
  apply h.holds.find?_eq_none
  intro entry hentry
  obtain ⟨t, ht, rfl⟩ := List.mem_map.mp hentry
  exact hkey t ht

/-- A key has the text that a translation gives it. -/
theorem Keeps.text_simple (h : c.Keeps translations) {phrase : Phrase} {text : String}
    (ht : .simple phrase text ∈ translations) : c.text phrase.text = text := by
  have hfind : c.messages.find? phrase.text = some text := h.find?_entry ht
  rw [Catalog.text, hfind, Option.getD_some]

/-- A key that no translation gives a text is its own text, even if it is a key of a pair. -/
theorem Keeps.text_other (h : c.Keeps translations) (hzero : '\x00' ∉ key.toList)
    (hkey : ∀ phrase text, .simple phrase text ∈ translations → phrase.text ≠ key) :
    c.text key = key := by
  have hfind : c.messages.find? key = none := by
    apply h.find?_eq_none
    intro t ht heq
    obtain ⟨phrase, text, rfl, hphrase⟩ := Translation.eq_simple_of_key hzero heq
    exact hkey phrase text ht hphrase
  rw [Catalog.text, hfind, Option.getD_none]

/-- A pair has the form that a count takes of those that a translation gives it. -/
theorem Keeps.pluralText_counted (h : c.Keeps translations) {s p first form : Phrase}
    {others : List Phrase} (ht : .counted s p first others ∈ translations)
    (hform : c.form? (joined first others) n = some form.text) :
    c.pluralText s.text p.text n = form.text := by
  have hfind : c.messages.find? (s.text ++ "\x00" ++ p.text) = some (joined first others) :=
    h.find?_entry ht
  rw [pluralText, hfind, Option.bind_some, hform]

/-- A pair that no translation gives forms has the text of one of its keys. -/
theorem Keeps.pluralText_pair (h : c.Keeps translations) (hs : '\x00' ∉ singular.toList)
    (hp : '\x00' ∉ plural.toList)
    (hpair : ∀ s p first others, .counted s p first others ∈ translations →
      ¬ (s.text = singular ∧ p.text = plural)) :
    c.pluralText singular plural n = if c.isSingular n then c.text singular else c.text plural := by
  have hfind : c.messages.find? (singular ++ "\x00" ++ plural) = none := by
    apply h.find?_eq_none
    intro t ht heq
    obtain ⟨s, p, first, others, rfl, hkeys⟩ := Translation.eq_counted_of_key hs hp heq
    exact hpair s p first others ht hkeys
  rw [pluralText, hfind, Option.bind_none]

end FrontEnd.Catalog
