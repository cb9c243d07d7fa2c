import FrontEnd.Proofs.Catalog.Accepted
import FrontEnd.Proofs.Catalog.Layout

/-!
# Written files are read back

Sorting the entries keeps those with the same key in their order, so that the last one of them
stays the last. The messages of a written file are therefore those of the entries as they were
given.
-/

namespace FrontEnd.Catalog

theorem sortEntries_perm (entries : List (String × String)) : (sortEntries entries).Perm entries :=
  List.mergeSort_perm _ _

/-- The length of a written file does not depend on the order of the entries. -/
theorem size_encode (entries : List (String × String)) :
    (encode entries).size = fileLength entries := by
  have hperm := sortEntries_perm entries
  have hpool : (pool (strings (sortEntries entries))).Perm (pool (strings entries)) :=
    ((hperm.map _).append (hperm.map _)).flatMap_right stored
  rw [size_of_fileBytes (data_encode entries), fileLength, hpool.length_eq, poolOffset,
    hperm.length_eq, fileLength, poolOffset]

/-- Sorting leaves the entries with one key in their order. -/
theorem filter_sortEntries (entries : List (String × String)) (key : String) :
    (sortEntries entries).filter (·.1 == key) = entries.filter (·.1 == key) := by
  have hsame : (entries.filter (·.1 == key)).Pairwise fun a b => decide (a.1 ≤ b.1) := by
    apply List.pairwise_iff_forall_sublist.mpr
    intro a b hab
    have ha := (List.mem_filter.mp (hab.subset (by simp : a ∈ [a, b]))).2
    have hb := (List.mem_filter.mp (hab.subset (by simp : b ∈ [a, b]))).2
    rw [beq_iff_eq] at ha hb
    rw [ha, hb]
    exact decide_eq_true (String.le_refl key)
  have hsub : (entries.filter (·.1 == key)).Sublist (sortEntries entries) := by
    apply List.sublist_mergeSort _ _ hsame List.filter_sublist
    · intro a b c hab hbc
      exact decide_eq_true (String.le_trans (of_decide_eq_true hab) (of_decide_eq_true hbc))
    · intro a b
      simpa using String.le_total a.1 b.1
  have hfilter := hsub.filter (·.1 == key)
  simp only [List.filter_filter, Bool.and_self] at hfilter
  exact (hfilter.eq_of_length ((sortEntries_perm entries).filter _).length_eq.symm).symm

theorem latest?_sortEntries (entries : List (String × String)) (key : String) :
    Messages.latest? (sortEntries entries) key = Messages.latest? entries key := by
  rw [Messages.latest?, filter_sortEntries, Messages.latest?]

/-- A table that holds the sorted entries holds the entries. -/
theorem holds_sortEntries {m : Messages} {entries : List (String × String)}
    (h : m.Holds (sortEntries entries)) : m.Holds entries where
  nodup := h.nodup
  keys key := by
    rw [h.keys, ((sortEntries_perm entries).map Prod.fst).mem_iff]
  texts key hkey := by
    rw [h.texts key hkey, latest?_sortEntries]

/-- A file that words can address has its entries in ascending order of their keys. -/
theorem written_encode {entries : List (String × String)}
    (h : (encode entries).size < UInt32.size) :
    Written (encode entries) .little (sortEntries entries) := ⟨data_encode entries, h⟩

/-- The messages of a written file are those of its sorted entries. -/
theorem parse_encode_eq {entries : List (String × String)}
    (h : (encode entries).size < UInt32.size) :
    parse (encode entries) = .ok (Messages.ofEntries (sortEntries entries)) :=
  (parseWithin_eq_ok_iff (Nat.lt_trans h (by decide))).mpr ⟨_, (written_encode h).stores, rfl⟩

theorem holds_ofEntries_sortEntries (entries : List (String × String)) :
    (Messages.ofEntries (sortEntries entries)).Holds entries :=
  holds_sortEntries (Messages.holds_ofEntries _)

/-- Entries that are written are read back: the file is read without fault, and its messages are
those of the entries, whatever their order, with the last text of every key. -/
theorem parse_encode {entries : List (String × String)} (h : (encode entries).size < UInt32.size) :
    ∃ m, parse (encode entries) = .ok m ∧ m.Holds entries :=
  ⟨_, parse_encode_eq h, holds_ofEntries_sortEntries entries⟩

/-- Entries out of order, with a key that occurs twice, the empty key and a zero character. -/
def repeatedKeys : List (String × String) := [("b", "1"), ("a\x00c", ""), ("", "h"), ("b", "2")]

theorem parse_encode_repeatedKeys :
    (encode repeatedKeys).size < UInt32.size ∧
      ∃ m, parse (encode repeatedKeys) = .ok m ∧ m.Holds repeatedKeys ∧
        m.find? "b" = some "2" := by
  have hsize : (encode repeatedKeys).size < UInt32.size := by
    rw [size_encode]
    decide +kernel
  obtain ⟨m, hm, hholds⟩ := parse_encode hsize
  exact ⟨hsize, m, hm, hholds, hholds.texts "b" (by decide)⟩

end FrontEnd.Catalog
