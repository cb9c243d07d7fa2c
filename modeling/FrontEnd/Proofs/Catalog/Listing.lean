import FrontEnd.Proofs.Catalog.RoundTrip
import FrontEnd.Proofs.Text.Order

/-!
# The order of the entries in a file

A file lists its entries by the bytes of their keys, and those with the same key as they were given.
There is only one such list. So the file is the same whenever the entries for every single key are,
in particular for entries in any order that all have different keys.
-/

namespace FrontEnd.Catalog

variable {sorted listed entries others : List (String × String)} {a b : String × String}

/-- Entries in ascending order of the bytes of their keys. -/
def Ascending (entries : List (String × String)) : Prop :=
  entries.Pairwise fun a b => textBytes a.1 ≤ textBytes b.1

/-- The entries in the order of a file: by their keys, and those with the same key in the order in
which they were given. -/
structure Lists (sorted entries : List (String × String)) : Prop where
  perm : sorted.Perm entries
  ascending : Ascending sorted
  stable : ∀ key, sorted.filter (·.1 == key) = entries.filter (·.1 == key)

theorem lists_sortEntries (entries : List (String × String)) :
    Lists (sortEntries entries) entries where
  perm := sortEntries_perm entries
  ascending := by
    apply (List.pairwise_mergeSort _ _ entries).imp
    · intro a b h
      exact textBytes_le_iff.mpr (of_decide_eq_true h)
    · intro a b c hab hbc
      exact decide_eq_true (String.le_trans (of_decide_eq_true hab) (of_decide_eq_true hbc))
    · intro a b
      simpa using String.le_total a.1 b.1
  stable := filter_sortEntries entries

theorem mem_iff_of_filter (h : ∀ key, entries.filter (·.1 == key) = others.filter (·.1 == key))
    (entry : String × String) : entry ∈ entries ↔ entry ∈ others := by
  have hmem (list : List (String × String)) :
      entry ∈ list ↔ entry ∈ list.filter (·.1 == entry.1) := by simp
  rw [hmem entries, hmem others, h]

/-- The first key is the least one. -/
theorem Ascending.first_le (h : Ascending (a :: sorted)) (hb : b ∈ a :: sorted) : a.1 ≤ b.1 := by
  rcases List.mem_cons.mp hb with rfl | hmem
  · exact String.le_refl _
  · exact textBytes_le_iff.mp ((List.pairwise_cons.mp h).1 b hmem)

/-- A list in ascending order is settled by what it has for every single key. -/
theorem Ascending.eq_of_filter (hsorted : Ascending sorted) (hlisted : Ascending listed)
    (h : ∀ key, sorted.filter (·.1 == key) = listed.filter (·.1 == key)) : sorted = listed := by
  induction sorted generalizing listed with
  | nil =>
      cases listed with
      | nil => rfl
      | cons b listed => exact absurd ((mem_iff_of_filter h b).mpr List.mem_cons_self) (by simp)
  | cons a sorted ih =>
      cases listed with
      | nil => exact absurd ((mem_iff_of_filter h a).mp List.mem_cons_self) (by simp)
      | cons b listed =>
          -- Each of the two first entries stands in the other list, so that they have one key.
          have hab := hsorted.first_le ((mem_iff_of_filter h b).mpr List.mem_cons_self)
          have hba := hlisted.first_le ((mem_iff_of_filter h a).mp List.mem_cons_self)
          have hkey : b.1 = a.1 := String.le_antisymm hba hab
          have hfirst := h a.1
          rw [List.filter_cons_of_pos (by simp), List.filter_cons_of_pos (by simp [hkey])] at hfirst
          obtain ⟨rfl, hrest⟩ := List.cons.inj hfirst
          congr 1
          apply ih (List.pairwise_cons.mp hsorted).2 (List.pairwise_cons.mp hlisted).2
          intro key
          by_cases heq : a.1 = key
          · exact heq ▸ hrest
          · have hother := h key
            rwa [List.filter_cons_of_neg (by simp [heq]),
              List.filter_cons_of_neg (by simp [heq])] at hother

/-- The order of a file is settled by the entries for every single key. -/
theorem sortEntries_eq (h : ∀ key, entries.filter (·.1 == key) = others.filter (·.1 == key)) :
    sortEntries entries = sortEntries others := by
  have hsorted := lists_sortEntries entries
  have hlisted := lists_sortEntries others
  apply hsorted.ascending.eq_of_filter hlisted.ascending
  intro key
  rw [hsorted.stable, hlisted.stable, h]

/-- Entries with different keys have at most one entry for a key, whatever their order. -/
theorem filter_eq_of_perm (h : entries.Perm others) (hn : (entries.map Prod.fst).Nodup)
    (key : String) : entries.filter (·.1 == key) = others.filter (·.1 == key) := by
  have hall (list : List (String × String)) : list.Pairwise fun _ _ => True :=
    List.pairwise_of_forall fun _ _ => trivial
  apply (h.filter _).eq_of_pairwise _ (hall _) (hall _)
  intro a b ha hb _ _
  obtain ⟨ha, hakey⟩ := List.mem_filter.mp ha
  obtain ⟨hb, hbkey⟩ := List.mem_filter.mp hb
  exact List.inj_on_of_nodup_map hn ha (h.mem_iff.mpr hb)
    ((beq_iff_eq.mp hakey).trans (beq_iff_eq.mp hbkey).symm)

/-- Writing is canonical: entries with different keys give the same file in any order. -/
theorem encode_eq_of_perm (h : entries.Perm others) (hn : (entries.map Prod.fst).Nodup) :
    encode entries = encode others := by
  rw [encode, sortEntries_eq (filter_eq_of_perm h hn), encode]

/-- Three entries, one of them for the empty key, in two orders. -/
theorem encode_eq_of_perm_reverse :
    let entries := [("b", "1"), ("", "h"), ("a\x00c", "")]
    entries.Perm entries.reverse ∧ (entries.map Prod.fst).Nodup ∧ entries ≠ entries.reverse ∧
      encode entries = encode entries.reverse := by
  intro entries
  have hperm : entries.Perm entries.reverse := (List.reverse_perm entries).symm
  have hn : (entries.map Prod.fst).Nodup := by decide
  exact ⟨hperm, hn, by decide, encode_eq_of_perm hperm hn⟩

end FrontEnd.Catalog
