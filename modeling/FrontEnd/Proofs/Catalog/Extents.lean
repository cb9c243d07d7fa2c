import FrontEnd.Proofs.Catalog.Listing

/-!
# The places of the strings in a file

Every string of a written file stands at the place that its table names, with a zero byte behind
it. The places, those of the keys first and then those of the texts, stand one behind the other and
fill the file from the end of the tables to its last byte. So they do not overlap, and no byte of
the file is without a meaning.
-/

namespace FrontEnd.Catalog

/-- A place for a string in a file: the bytes from an offset on, and a zero byte behind them. -/
structure Extent where
  length : Nat
  offset : Nat
deriving DecidableEq, Repr

/-- Where the zero byte stands. -/
def Extent.finish (e : Extent) : Nat := e.offset + e.length

/-- A file has a string at an extent. -/
structure Extent.Holds (bytes : ByteArray) (e : Extent) (s : String) : Prop where
  text : slice? bytes e.offset e.length = some s.toUTF8
  zero : bytes.data.toList[e.finish]? = some 0

/-- A table of a file names strings at extents: every string has two words in the table, the length
and the offset of the extent that the string stands at. -/
inductive Names (order : ByteOrder) (bytes : ByteArray) : Nat → List Extent → List String → Prop
  | nil {table : Nat} : Names order bytes table [] []
  | cons {table : Nat} {e : Extent} {s : String} {places : List Extent} {strings : List String}
      (hlength : word? order bytes table = some e.length)
      (hoffset : word? order bytes (table + 4) = some e.offset) (hs : e.Holds bytes s)
      (hrest : Names order bytes (table + 8) places strings) :
      Names order bytes table (e :: places) (s :: strings)

/-- Extents stand one behind the other from one offset up to another. -/
def Fills (start : Nat) : List Extent → Nat → Prop
  | [], finish => start = finish
  | e :: rest, finish => e.offset = start ∧ Fills (e.finish + 1) rest finish

/-- The extents of strings that stand one behind the other from an offset on. -/
def extents (start : Nat) : List String → List Extent
  | [] => []
  | s :: rest => ⟨s.utf8ByteSize, start⟩ :: extents (start + s.utf8ByteSize + 1) rest

/-! ### Extents that fill a range -/

section Fills

variable {start finish : Nat} {places : List Extent}

theorem Fills.le (h : Fills start places finish) : start ≤ finish := by
  induction places generalizing start with
  | nil => exact Nat.le_of_eq h
  | cons e rest ih =>
      obtain ⟨hstart, hrest⟩ := h
      have hle := ih hrest
      rw [Extent.finish] at hle
      omega

/-- All of them stand within the range, zero bytes included. -/
theorem Fills.within (h : Fills start places finish) {e : Extent} (he : e ∈ places) :
    start ≤ e.offset ∧ e.finish < finish := by
  induction places generalizing start with
  | nil => cases he
  | cons first rest ih =>
      obtain ⟨hstart, hrest⟩ := h
      rcases List.mem_cons.mp he with rfl | he
      · exact ⟨Nat.le_of_eq hstart.symm, hrest.le⟩
      · obtain ⟨hle, hlt⟩ := ih hrest he
        rw [Extent.finish] at hle
        exact ⟨by omega, hlt⟩

/-- They do not overlap, zero bytes included. -/
theorem Fills.disjoint (h : Fills start places finish) :
    places.Pairwise fun a b => a.finish < b.offset := by
  induction places generalizing start with
  | nil => exact List.Pairwise.nil
  | cons e rest ih =>
      rw [List.pairwise_cons]
      exact ⟨fun other hother => (h.2.within hother).1, ih h.2⟩

/-- The pool is one byte longer than the string that is put in front of it. -/
theorem add_length_pool_cons (start : Nat) (s : String) (rest : List String) :
    start + (pool (s :: rest)).length = start + s.utf8ByteSize + 1 + (pool rest).length := by
  rw [pool_cons, List.length_append, length_toUTF8, List.length_cons]
  omega

theorem fills_extents (start : Nat) (strings : List String) :
    Fills start (extents start strings) (start + (pool strings).length) := by
  induction strings generalizing start with
  | nil => rfl
  | cons s rest ih =>
      rw [add_length_pool_cons]
      exact ⟨rfl, ih (start + s.utf8ByteSize + 1)⟩

/-- The extents of strings behind others go on where these end. -/
theorem extents_append (start : Nat) (front back : List String) :
    extents start (front ++ back) =
      extents start front ++ extents (start + (pool front).length) back := by
  induction front generalizing start with
  | nil => rfl
  | cons s front ih =>
      rw [List.cons_append, extents, extents, List.cons_append, ih, add_length_pool_cons]

end Fills

/-! ### The extents of a written file -/

variable {bytes : ByteArray} {order : ByteOrder} {sorted : List (String × String)}
  {front middle back : List String} {s : String}

namespace Written

/-- The bytes of a string stand behind those of the strings in front, and a zero byte behind
them. -/
theorem holds (hw : Written bytes order sorted) (hstrings : strings sorted = front ++ s :: back) :
    Extent.Holds bytes ⟨s.utf8ByteSize, poolOffset sorted + (pool front).length⟩ s where
  text := hw.slice?_of_strings hstrings
  zero := by
    have hfront : (wordBytes order (words sorted) ++ (pool front ++ s.toUTF8.data.toList)).length =
        poolOffset sorted + (pool front).length + s.utf8ByteSize := by
      rw [List.length_append, List.length_append, length_wordBytes_words, length_toUTF8,
        Nat.add_assoc]
    rw [hw.data, fileBytes, hstrings, pool_append, pool_cons, ← List.append_assoc (pool front),
      ← List.append_assoc, Extent.finish, ← hfront, List.getElem?_append_right (Nat.le_refl _),
      Nat.sub_self]
    rfl

/-- The tables name the strings at their extents, behind those of the strings in front. -/
theorem names (hw : Written bytes order sorted)
    (hstrings : strings sorted = front ++ (middle ++ back)) :
    Names order bytes (headerLength + 8 * front.length)
      (extents (poolOffset sorted + (pool front).length) middle) middle := by
  induction middle generalizing front with
  | nil => exact .nil
  | cons s middle ih =>
      obtain ⟨hlength, hoffset⟩ := hw.words?_of_strings hstrings
      have hrest := @ih (front ++ [s]) (by rw [hstrings, List.append_assoc]; rfl)
      have hpool : poolOffset sorted + (pool (front ++ [s])).length =
          poolOffset sorted + (pool front).length + s.utf8ByteSize + 1 := by
        rw [pool_append, List.length_append, ← Nat.add_assoc, add_length_pool_cons]
        rfl
      rw [hpool, List.length_append] at hrest
      exact .cons hlength hoffset (hw.holds hstrings) hrest

end Written

/-- What any reader finds in a file with some entries: the header gives their number and two tables
behind it, and no third table; the tables name the keys and the texts of the entries, index by
index; and the strings stand without gaps behind the tables, up to the end of the file. -/
structure LaidOut (bytes : ByteArray) (entries : List (String × String)) (keys texts : Nat)
    (keyPlaces textPlaces : List Extent) : Prop where
  header : HasHeader bytes .little entries.length keys texts
  noHashTable : word? .little bytes 20 = some 0
  tables : keys = headerLength ∧ texts = keys + 8 * entries.length
  keyNames : Names .little bytes keys keyPlaces (entries.map Prod.fst)
  textNames : Names .little bytes texts textPlaces (entries.map Prod.snd)
  inPool : ∀ e ∈ keyPlaces ++ textPlaces, texts + 8 * entries.length ≤ e.offset ∧
    e.finish < bytes.size
  filled : Fills (texts + 8 * entries.length) (keyPlaces ++ textPlaces) bytes.size
  disjoint : (keyPlaces ++ textPlaces).Pairwise fun a b => a.finish < b.offset

theorem Written.laidOut (hw : Written bytes .little sorted) :
    LaidOut bytes sorted headerLength (headerLength + 8 * sorted.length)
      (extents (poolOffset sorted) (sorted.map Prod.fst))
      (extents (poolOffset sorted + (pool (sorted.map Prod.fst)).length)
        (sorted.map Prod.snd)) := by
  have hend : headerLength + 8 * sorted.length + 8 * sorted.length = poolOffset sorted := by
    rw [poolOffset]
    omega
  have hfilled : Fills (poolOffset sorted) (extents (poolOffset sorted) (sorted.map Prod.fst) ++
      extents (poolOffset sorted + (pool (sorted.map Prod.fst)).length) (sorted.map Prod.snd))
      bytes.size := by
    rw [← extents_append, size_of_fileBytes hw.data]
    exact fills_extents (poolOffset sorted) (strings sorted)
  have hkeys : strings sorted = [] ++ (sorted.map Prod.fst ++ sorted.map Prod.snd) := rfl
  have htexts : strings sorted = sorted.map Prod.fst ++ (sorted.map Prod.snd ++ []) := by
    rw [List.append_nil]
    rfl
  have htextNames := hw.names htexts
  rw [List.length_map] at htextNames
  have hhash := word?_of_fileBytes
    [magic, 0, sorted.length, headerLength, headerLength + 8 * sorted.length] hw.data
    (words_eq sorted) (by decide)
  constructor
  · exact hw.hasHeader
  · exact hhash
  · exact ⟨rfl, rfl⟩
  · exact hw.names hkeys
  · exact htextNames
  · intro e he
    rw [hend]
    exact hfilled.within he
  · rw [hend]
    exact hfilled
  · exact hfilled.disjoint

/-- Written files are well laid out for any reader: the strings are named by two tables, in the
order of their keys, and stand without gaps behind the tables. -/
theorem encode_laidOut {entries : List (String × String)}
    (h : (encode entries).size < UInt32.size) :
    ∃ sorted keys texts keyPlaces textPlaces, Lists sorted entries ∧
      LaidOut (encode entries) sorted keys texts keyPlaces textPlaces :=
  ⟨_, _, _, _, _, lists_sortEntries entries, (written_encode h).laidOut⟩

/-- The file of entries that are given out of order, with a key that occurs twice. -/
theorem encode_laidOut_repeatedKeys :
    (encode repeatedKeys).size < UInt32.size ∧
      ∃ sorted keys texts keyPlaces textPlaces,
        LaidOut (encode repeatedKeys) sorted keys texts keyPlaces textPlaces ∧
          sorted.filter (·.1 == "b") = [("b", "1"), ("b", "2")] := by
  have hsize : (encode repeatedKeys).size < UInt32.size := by
    rw [size_encode]
    decide +kernel
  obtain ⟨sorted, keys, texts, keyPlaces, textPlaces, hlists, hlaidOut⟩ := encode_laidOut hsize
  refine ⟨hsize, sorted, keys, texts, keyPlaces, textPlaces, hlaidOut, ?_⟩
  rw [hlists.stable]
  decide

end FrontEnd.Catalog
