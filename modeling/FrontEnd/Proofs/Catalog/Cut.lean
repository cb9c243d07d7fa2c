import FrontEnd.Proofs.Catalog.Reading
import FrontEnd.Proofs.Catalog.RoundTrip

/-!
# Cut files

A file of which only the first bytes are left is read as far as these bytes reach. For a file that
was written this is a list of checks on the places where its words and its strings end. The places
are the same in both byte orders, and the last one is the place of the last byte, a zero byte that
is never read. So no byte but that one can be cut off unnoticed.
-/

namespace FrontEnd.Catalog

open Check

variable {bytes : ByteArray} {order : ByteOrder} {k offset length address n : Nat}

/-! ### Ranges and words of a cut file -/

theorem slice?_extract (bytes : ByteArray) (k offset length : Nat) :
    slice? (bytes.extract 0 k) offset length =
      if offset + length ≤ k then slice? bytes offset length else none := by
  have hsize : (bytes.extract 0 k).size = min k bytes.size := ByteArray.size_extract
  unfold slice?
  rw [hsize, ByteArray.extract_extract]
  by_cases hcut : offset + length ≤ k
  · rw [if_pos hcut, Nat.zero_add, Nat.zero_add, Nat.min_eq_left hcut]
    by_cases hend : offset + length ≤ bytes.size
    · rw [if_pos hend, if_pos (Nat.le_min.mpr ⟨hcut, hend⟩)]
    · rw [if_neg hend, if_neg (mt (fun h => (Nat.le_min.mp h).2) hend)]
  · rw [if_neg hcut, if_neg (mt (fun h => (Nat.le_min.mp h).1) hcut)]

theorem word?_extract (order : ByteOrder) (bytes : ByteArray) (k offset : Nat) :
    word? order (bytes.extract 0 k) offset =
      if offset + 4 ≤ k then word? order bytes offset else none := by
  rw [word?, slice?_extract]
  split <;> rfl

theorem add_le_of_slice? {raw : ByteArray} (h : slice? bytes offset length = some raw) :
    offset + length ≤ bytes.size := by
  by_contra hend
  rw [slice?_eq_none (Nat.lt_of_not_le hend)] at h
  cases h

/-- A part of a file has to end within the bytes that are left. -/
def upTo (k finish : Nat) (part : Part) : Check := ⟨decide (finish ≤ k), .truncated part⟩

theorem upTo_holds {finish : Nat} {part : Part} : (upTo k finish part).holds ↔ finish ≤ k :=
  decide_eq_true_iff

theorem examine_upTo (k finish : Nat) (part : Part) {α : Type} (a : α) :
    examine [upTo k finish part] a =
      if finish ≤ k then .ok a else .error (.truncated part) := by
  rw [examine_cons, examine_nil]
  exact if_congr upTo_holds rfl rfl

namespace Image

variable {image : Image} (hcut : image.bytes = bytes.extract 0 k)
  (hsize : bytes.size < image.addresses)

include hcut hsize

/-- A word of the file is read if it is left. -/
theorem word_cut (hword : word? image.order bytes address = some n) (part : Part) :
    image.word part address = examine [upTo k (address + 4) part] n := by
  have hend := add_four_le_of_word? hword
  have hsum : image.sum? address 4 = some (address + 4) := if_pos (by omega)
  rw [word, hsum, Option.bind_some, hcut, word?_extract, hword, examine_upTo]
  by_cases hleft : address + 4 ≤ k
  · rw [if_pos hleft, if_pos hleft]
  · rw [if_neg hleft, if_neg hleft]

/-- A string of the file is read if its bytes are left. -/
theorem rangeText_cut {s : String} (hslice : slice? bytes offset length = some s.toUTF8)
    (index : Nat) :
    image.rangeText offset length index = examine [upTo k (offset + length) .stringData] s := by
  have hend := add_le_of_slice? hslice
  have hsum : image.sum? offset length = some (offset + length) := if_pos (by omega)
  have htext : String.fromUTF8? s.toUTF8 = some s := dif_pos s.isValidUTF8
  rw [rangeText, hsum, Option.bind_some, hcut, slice?_extract, hslice, examine_upTo]
  by_cases hleft : offset + length ≤ k
  · rw [if_pos hleft, if_pos hleft]
    simp only [htext]
  · rw [if_neg hleft, if_neg hleft]

end Image

/-! ### The places where the parts of a written file end -/

/-- Where a string ends, by its place among all strings: in front of the zero byte that the pool up
to there ends with. -/
def stringEnd (sorted : List (String × String)) (place : Nat) : Nat :=
  poolOffset sorted + (pool ((strings sorted).take (place + 1))).length - 1

/-- The checks on a string of a written file of which `k` bytes are left: its length, its offset and
its bytes are there. -/
def stringCuts (k : Nat) (sorted : List (String × String)) (place : Nat) : List Check :=
  [upTo k (headerLength + 8 * place + 4) .stringTable,
    upTo k (headerLength + 8 * place + 8) .stringTable,
    upTo k (stringEnd sorted place) .stringData]

/-- The checks on an entry: those on its key, then those on its text. -/
def entryCuts (k : Nat) (sorted : List (String × String)) (index : Nat) : List Check :=
  stringCuts k sorted index ++ stringCuts k sorted (sorted.length + index)

/-- The checks on the header, word by word; the last two words are not read. -/
def headerCuts (k : Nat) : List Check := [4, 8, 12, 16, 20].map fun finish => upTo k finish .header

/-- The checks on a written file of which `k` bytes are left. -/
def cuts (k : Nat) (sorted : List (String × String)) : List Check :=
  headerCuts k ++ (List.range sorted.length).flatMap (entryCuts k sorted)

variable {sorted front back : List (String × String)} {s : String}

theorem stringEnd_eq {before behind : List String} (h : strings sorted = before ++ s :: behind) :
    stringEnd sorted before.length =
      poolOffset sorted + (pool before).length + s.utf8ByteSize := by
  have htake : (strings sorted).take (before.length + 1) = before ++ [s] := by
    rw [h, List.append_cons]
    exact List.take_left' (by rw [List.length_append, List.length_singleton])
  have hstored : (pool [s]).length = s.utf8ByteSize + 1 := by
    rw [pool, List.flatMap_singleton, length_stored]
  rw [stringEnd, htake, pool_append, List.length_append, hstored]
  omega

namespace Image

variable {image : Image} (hw : Written bytes image.order sorted)
  (hcut : image.bytes = bytes.extract 0 k) (hsize : bytes.size < image.addresses)

include hw hcut hsize

/-- The length and the offset of a string are read if they are left, and then the string if its
bytes are left. -/
theorem tableString_cut {before behind : List String}
    (hstrings : strings sorted = before ++ s :: behind) {table index : Nat}
    (htable : table + 8 * index = headerLength + 8 * before.length) :
    image.tableString table index = examine (stringCuts k sorted before.length) s := by
  obtain ⟨hlength, hoffset⟩ := hw.words?_of_strings hstrings
  have hend := add_four_le_of_word? hoffset
  have hslice := hw.slice?_of_strings hstrings
  rw [tableString, entryAddress_eq, htable, if_pos (by omega), stringCuts, stringEnd_eq hstrings]
  change image.string _ index = _
  rw [string_eq_rangeText, Nat.mod_eq_of_lt (by omega), word_cut hcut hsize hlength,
    word_cut hcut hsize hoffset]
  apply examine_bind
  intro _
  apply examine_bind
  intro _
  exact rangeText_cut hcut hsize hslice index

/-- The table of the keys names the key of an entry behind some others. -/
theorem key_cut {entry : String × String} (hsorted : sorted = front ++ entry :: back) :
    image.tableString headerLength front.length =
      examine (stringCuts k sorted front.length) entry.1 := by
  have hstrings := strings_eq_key front back entry
  rw [← hsorted] at hstrings
  have hplace : headerLength + 8 * front.length =
      headerLength + 8 * (front.map (·.1)).length := by
    rw [List.length_map]
  rw [tableString_cut hw hcut hsize hstrings hplace, List.length_map]

/-- The table of the texts goes on behind the one of the keys, and names the text of the entry. -/
theorem text_cut {entry : String × String} (hsorted : sorted = front ++ entry :: back) :
    image.tableString (headerLength + 8 * sorted.length) front.length =
      examine (stringCuts k sorted (sorted.length + front.length)) entry.2 := by
  have hstrings := strings_eq_text front back entry
  rw [← hsorted] at hstrings
  have hplace : (sorted.map (·.1) ++ front.map (·.2)).length = sorted.length + front.length := by
    rw [List.length_append, List.length_map, List.length_map]
  rw [tableString_cut hw hcut hsize hstrings (by rw [hplace]; omega), hplace]

/-- The entries behind some others are read one after another, as far as they are left. -/
theorem entries_cut (hsorted : sorted = front ++ back) (m : Messages) :
    image.entries headerLength (headerLength + 8 * sorted.length) front.length back.length m =
      examine ((List.range' front.length back.length).flatMap (entryCuts k sorted))
        (back.foldl Messages.collect m) := by
  induction back generalizing front m with
  | nil => rfl
  | cons entry back ih =>
      have hnext := @ih (front ++ [entry]) (by rw [hsorted, List.append_cons])
      rw [List.length_append, List.length_singleton] at hnext
      rw [List.length_cons, entries_succ, List.range'_succ, List.flatMap_cons, List.foldl_cons,
        entryCuts, List.append_assoc, key_cut hw hcut hsize hsorted,
        text_cut hw hcut hsize hsorted]
      apply examine_bind
      intro _
      apply examine_bind
      intro _
      exact hnext (m.collect entry)

end Image

/-- The magic number in a byte order, as it is read with the least significant byte first. -/
def firstWord : ByteOrder → Nat
  | .little => magic
  | .big => swappedMagic

theorem word?_firstWord (hw : Written bytes order sorted) :
    word? .little bytes 0 = some (firstWord order) := by
  have hmagic := hw.hasHeader.magic
  cases order with
  | little => exact hmagic
  | big =>
      obtain ⟨hend, hword⟩ := word?_eq_some_iff.mp hmagic
      rw [word?_eq_some hend, (wordAt_big_eq_magic hend).mp hword, firstWord]

/-- The byte order is told by the first word, if it is left. -/
theorem byteOrder_cut (hw : Written bytes order sorted) (k : Nat) :
    byteOrder (bytes.extract 0 k) = examine [upTo k 4 .header] order := by
  rw [byteOrder, word?_extract, word?_firstWord hw, examine_upTo]
  by_cases hleft : 4 ≤ k
  · rw [if_pos hleft, if_pos hleft]
    cases order <;> rfl
  · rw [if_neg hleft, if_neg hleft]

/-- A written file of which `k` bytes are left is read if its checks hold. They do not depend on the
byte order. -/
theorem parseWithin_cut {addresses : Nat} (hw : Written bytes order sorted)
    (hsize : bytes.size < addresses) (k : Nat) :
    parseWithin addresses (bytes.extract 0 k) =
      examine (cuts k sorted) (Messages.ofEntries sorted) := by
  obtain ⟨_, hrevision, hcount, hkeys, htexts⟩ := hw.hasHeader
  let image : Image := ⟨bytes.extract 0 k, order, addresses⟩
  have hword {address n : Nat} (h : word? order bytes address = some n) :
      image.word .header address = examine [upTo k (address + 4) .header] n :=
    Image.word_cut rfl hsize h .header
  have hentries : image.entries headerLength (headerLength + 8 * sorted.length) 0 sorted.length
      .empty = examine ((List.range' 0 sorted.length).flatMap (entryCuts k sorted))
        (Messages.ofEntries sorted) :=
    Image.entries_cut hw rfl hsize (List.nil_append sorted).symm .empty
  rw [parseWithin, byteOrder_cut hw k, cuts]
  apply examine_bind
  intro _
  dsimp only
  rw [hword hrevision]
  apply examine_bind
  intro _
  rw [if_neg (by decide), hword hcount]
  apply examine_bind
  intro _
  rw [hword hkeys]
  apply examine_bind
  intro _
  rw [hword htexts]
  apply examine_bind
  intro _
  rw [List.range_eq_range']
  exact hentries

/-! ### The last byte -/

/-- A file with entries has a pool. -/
theorem poolOffset_lt_fileLength (hne : sorted ≠ []) : poolOffset sorted < fileLength sorted := by
  cases sorted with
  | nil => exact absurd rfl hne
  | cons entry rest =>
      rw [fileLength, strings, List.map_cons, List.cons_append, pool_cons, List.length_append,
        List.length_cons]
      omega

theorem stringEnd_lt_fileLength (hne : sorted ≠ []) (place : Nat) :
    stringEnd sorted place < fileLength sorted := by
  have hpool : (pool (strings sorted)).length =
      (pool ((strings sorted).take (place + 1))).length +
        (pool ((strings sorted).drop (place + 1))).length := by
    rw [← List.length_append, ← pool_append, List.take_append_drop]
  have hlt := poolOffset_lt_fileLength hne
  rw [fileLength] at hlt ⊢
  rw [stringEnd]
  omega

/-- The last string ends in front of the last byte. -/
theorem stringEnd_last (hne : sorted ≠ []) :
    stringEnd sorted (sorted.length + (sorted.length - 1)) = fileLength sorted - 1 := by
  have hpos := List.length_pos_iff.mpr hne
  have htake : (strings sorted).take (sorted.length + (sorted.length - 1) + 1) =
      strings sorted := by
    apply List.take_of_length_le
    rw [length_strings]
    omega
  rw [stringEnd, htake, fileLength]

/-- All checks on what is left of a file with entries are about places in front of the last byte. -/
theorem exists_of_mem_cuts (hne : sorted ≠ []) {check : Check} (h : check ∈ cuts k sorted) :
    ∃ finish part, finish < fileLength sorted ∧ check = upTo k finish part := by
  have hpool := poolOffset_lt_fileLength hne
  have hplace (place : Nat) (hlt : place < 2 * sorted.length)
      (hmem : check ∈ stringCuts k sorted place) :
      ∃ finish part, finish < fileLength sorted ∧ check = upTo k finish part := by
    have htable : headerLength + 8 * place + 8 ≤ poolOffset sorted := by
      rw [poolOffset]
      omega
    simp only [stringCuts, List.mem_cons, List.not_mem_nil, or_false] at hmem
    rcases hmem with rfl | rfl | rfl
    · exact ⟨_, _, by omega, rfl⟩
    · exact ⟨_, _, by omega, rfl⟩
    · exact ⟨_, _, stringEnd_lt_fileLength hne place, rfl⟩
  rcases List.mem_append.mp h with hheader | hentries
  · obtain ⟨finish, hfinish, rfl⟩ := List.mem_map.mp hheader
    have hle : finish ≤ 20 := by
      simp only [List.mem_cons, List.not_mem_nil, or_false] at hfinish
      omega
    rw [poolOffset, headerLength] at hpool
    exact ⟨finish, _, by omega, rfl⟩
  · obtain ⟨index, hindex, hentry⟩ := List.mem_flatMap.mp hentries
    rw [List.mem_range] at hindex
    rcases List.mem_append.mp hentry with hkey | htext
    · exact hplace index (by omega) hkey
    · exact hplace (sorted.length + index) (by omega) htext

/-- The last check on what is left of a file with entries is about the last byte. -/
theorem last_mem_cuts (hne : sorted ≠ []) (k : Nat) :
    upTo k (fileLength sorted - 1) .stringData ∈ cuts k sorted := by
  have hpos := List.length_pos_iff.mpr hne
  apply List.mem_append_right
  apply List.mem_flatMap.mpr
  refine ⟨sorted.length - 1, List.mem_range.mpr (by omega), ?_⟩
  apply List.mem_append_right
  simp only [stringCuts, stringEnd_last hne, List.mem_cons, true_or, or_true]

/-- A file with entries is read if no byte is cut off it but the last one. -/
theorem examine_cuts_of_le (hne : sorted ≠ []) (hleft : fileLength sorted ≤ k + 1) {α : Type}
    (a : α) : examine (cuts k sorted) a = .ok a := by
  apply examine_eq_ok.mpr
  refine ⟨fun check hcheck => ?_, rfl⟩
  obtain ⟨finish, part, hfinish, rfl⟩ := exists_of_mem_cuts hne hcheck
  exact upTo_holds.mpr (by omega)

/-- If more is cut off, something of the file is missing. -/
theorem examine_cuts_of_lt (hne : sorted ≠ []) (hleft : k + 1 < fileLength sorted) {α : Type}
    (a : α) : ∃ part, examine (cuts k sorted) a = .error (.truncated part) := by
  cases hfailed : firstFailed? (cuts k sorted) with
  | none =>
      have hlast := List.find?_eq_none.mp hfailed _ (last_mem_cuts hne k)
      have hheld : (upTo k (fileLength sorted - 1) .stringData).holds := by simpa using hlast
      have hle := upTo_holds.mp hheld
      omega
  | some check =>
      obtain ⟨finish, part, -, rfl⟩ := exists_of_mem_cuts hne (List.mem_of_find?_eq_some hfailed)
      exact ⟨part, by rw [examine, hfailed]; rfl⟩

/-- Every byte counts but the last one: if more than the last byte is cut off a written file with
entries, it is reported as truncated, and without the last byte it is read as the whole file is. -/
theorem parse_extract_encode {entries : List (String × String)} (hne : entries ≠ [])
    (h : (encode entries).size < UInt32.size) :
    (∀ k, k < (encode entries).size - 1 →
        ∃ part, parse ((encode entries).extract 0 k) = .error (.truncated part)) ∧
      ∃ m, parse ((encode entries).extract 0 ((encode entries).size - 1)) = .ok m ∧
        parse (encode entries) = .ok m := by
  have hsorted : sortEntries entries ≠ [] := fun hnil =>
    hne (List.nil_perm.mp (hnil ▸ sortEntries_perm entries))
  have hlength : (encode entries).size = fileLength (sortEntries entries) :=
    size_of_fileBytes (data_encode entries)
  have hparse (k : Nat) : parse ((encode entries).extract 0 k) =
      examine (cuts k (sortEntries entries)) (Messages.ofEntries (sortEntries entries)) :=
    parseWithin_cut (written_encode h) (Nat.lt_trans h (by decide)) k
  refine ⟨fun k hk => ?_, Messages.ofEntries (sortEntries entries), ?_, ?_⟩
  · rw [hparse]
    exact examine_cuts_of_lt hsorted (by omega) _
  · rw [hparse]
    exact examine_cuts_of_le hsorted (by omega) _
  · exact parse_encode_eq h

/-- Entries out of order. The last string of their file is empty. -/
def emptyText : List (String × String) := [("b", ""), ("a", "1")]

theorem parse_extract_encode_emptyText :
    emptyText ≠ [] ∧ (encode emptyText).size = 67 ∧ (encode emptyText).size < UInt32.size ∧
      (∃ part, parse ((encode emptyText).extract 0 65) = .error (.truncated part)) ∧
      ∃ m, parse ((encode emptyText).extract 0 66) = .ok m ∧ parse (encode emptyText) = .ok m := by
  have hne : emptyText ≠ [] := List.cons_ne_nil _ _
  have hlength : (encode emptyText).size = 67 := by
    rw [size_encode]
    decide +kernel
  have hsize : (encode emptyText).size < UInt32.size := by
    rw [hlength]
    decide
  obtain ⟨hcut, hlast⟩ := parse_extract_encode hne hsize
  rw [hlength] at hcut hlast
  exact ⟨hne, hlength, hsize, hcut 65 (by decide), hlast⟩

end FrontEnd.Catalog
