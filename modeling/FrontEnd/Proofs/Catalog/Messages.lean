import FrontEnd.Table
import Mathlib.Data.List.Induction
import Mathlib.Data.List.Nodup

/-!
# Message tables of entries

Entries are put into a message table one after another. The table has every key of the entries but
the empty one, once, with the text of the last entry for it.
-/

namespace FrontEnd.Messages

/-- A table with one entry more; an entry for the empty key is left out. -/
def collect (m : Messages) (entry : String × String) : Messages :=
  if entry.1.isEmpty then m else m.insert entry.1 entry.2

/-- The table of some entries. -/
def ofEntries (entries : List (String × String)) : Messages := entries.foldl collect .empty

/-- The last one of some entries with a given key. -/
def latest? (entries : List (String × String)) (key : String) : Option (String × String) :=
  (entries.filter (·.1 == key)).getLast?

/-- What a table has to fulfil to hold some entries: it has all keys but the empty one, each of them
once, and for every key the text of the last entry with that key. -/
structure Holds (m : Messages) (entries : List (String × String)) : Prop where
  nodup : (m.entries.map Prod.fst).Nodup
  keys : ∀ key, key ∈ m.entries.map Prod.fst ↔ key ≠ "" ∧ key ∈ entries.map Prod.fst
  texts : ∀ key, key ≠ "" → m.find? key = (latest? entries key).map Prod.snd

theorem latest?_concat (entries : List (String × String)) (entry : String × String)
    (key : String) :
    latest? (entries ++ [entry]) key =
      if entry.1 = key then some entry else latest? entries key := by
  by_cases h : entry.1 = key <;> simp [latest?, List.filter_append, h]

theorem ofEntries_concat (entries : List (String × String)) (entry : String × String) :
    ofEntries (entries ++ [entry]) = (ofEntries entries).collect entry := by
  simp [ofEntries]

/-- The keys of a table with one entry more. -/
theorem mem_keys_insert (m : Messages) (key text other : String) :
    other ∈ (m.insert key text).entries.map Prod.fst ↔
      other = key ∨ other ∈ m.entries.map Prod.fst := by
  by_cases h : other = key
  · simp [insert, h]
  · simp [insert, h]

theorem nodup_insert {m : Messages} (h : (m.entries.map Prod.fst).Nodup) (key text : String) :
    ((m.insert key text).entries.map Prod.fst).Nodup := by
  have hfilter := List.filter_sublist (p := fun e => e.1 != key) (l := m.entries)
  rw [insert, List.map_cons, List.nodup_cons]
  refine ⟨?_, h.sublist (hfilter.map Prod.fst)⟩
  simp

/-- The table of some entries holds them. -/
theorem holds_ofEntries (entries : List (String × String)) : (ofEntries entries).Holds entries := by
  induction entries using List.reverseRecOn with
  | nil => exact ⟨List.nodup_nil, by simp [ofEntries, empty], fun key _ => rfl⟩
  | append_singleton entries entry ih =>
      obtain ⟨hn, hk, ht⟩ := ih
      rw [ofEntries_concat, collect]
      by_cases he : entry.1 = ""
      · rw [if_pos (by simp [he])]
        refine ⟨hn, fun key => ?_, fun key hkey => ?_⟩
        · rw [hk]
          simp only [List.map_append, List.mem_append, List.map_cons, List.map_nil,
            List.mem_singleton, he]
          grind
        · rw [latest?_concat, if_neg (by rw [he]; exact fun h => hkey h.symm)]
          exact ht key hkey
      · rw [if_neg (by simpa using he)]
        refine ⟨nodup_insert hn _ _, fun key => ?_, fun key hkey => ?_⟩
        · rw [mem_keys_insert, hk]
          simp only [List.map_append, List.mem_append, List.map_cons, List.map_nil,
            List.mem_singleton]
          grind
        · rw [find?_insert, latest?_concat]
          by_cases h : key = entry.1
          · rw [if_pos h, if_pos h.symm]
            rfl
          · rw [if_neg h, if_neg (Ne.symm h)]
            exact ht key hkey

/-! ### Distinct keys -/

variable {m : Messages} {entries : List (String × String)}

/-- If no key occurs twice, every entry is the last one for its key. -/
theorem latest?_of_mem (hn : (entries.map Prod.fst).Nodup) {entry : String × String}
    (hmem : entry ∈ entries) : latest? entries entry.1 = some entry := by
  have hsame : entry ∈ entries.filter (·.1 == entry.1) :=
    List.mem_filter.mpr ⟨hmem, beq_self_eq_true _⟩
  have hne := List.ne_nil_of_mem hsame
  have hlast := List.mem_filter.mp (List.getLast_mem hne)
  have heq := List.inj_on_of_nodup_map hn hlast.1 hmem (beq_iff_eq.mp hlast.2)
  rw [latest?, List.getLast?_eq_some_getLast hne, heq]

/-- Then the table has the text of every entry, unless that is for the empty key. -/
theorem Holds.find?_of_mem (hm : m.Holds entries) (hn : (entries.map Prod.fst).Nodup)
    {entry : String × String} (hmem : entry ∈ entries) (hne : entry.1 ≠ "") :
    m.find? entry.1 = some entry.2 := by
  rw [hm.texts _ hne, latest?_of_mem hn hmem, Option.map_some]

/-- The table has no text for a key that no entry has. -/
theorem Holds.find?_eq_none (hm : m.Holds entries) {key : String}
    (hkey : ∀ entry ∈ entries, entry.1 ≠ key) : m.find? key = none := by
  rw [find?, List.lookup_eq_none_iff]
  intro entry hentry
  have hold := (hm.keys entry.1).mp (List.mem_map_of_mem hentry)
  obtain ⟨given, hgiven, heq⟩ := List.mem_map.mp hold.2
  have hother := hkey given hgiven
  rw [heq] at hother
  exact bne_iff_ne.mpr hother.symm

end FrontEnd.Messages
