import FrontEnd.Proofs.Catalog.Checks

/-!
# Reading a file as a list of checks

Every step of the reader examines the checks on what it reads: words, strings of a table, entries
and the header. In a row they make up the checks on the file.
-/

namespace FrontEnd.Catalog

open Check

namespace Image

variable {image : Image}

/-- The text that stands in a range of the file. -/
def rangeText (image : Image) (offset length index : Nat) : Except Fault String :=
  match (image.sum? offset length).bind fun _ => slice? image.bytes offset length with
  | none => .error (.truncated .stringData)
  | some raw =>
    match String.fromUTF8? raw with
    | some text => .ok text
    | none => .error (.notText index)

theorem string_eq_rangeText (image : Image) (address index : Nat) :
    image.string address index =
      (do
        let length ← image.word .stringTable address
        let offset ← image.word .stringTable ((address + 4) % image.addresses)
        image.rangeText offset length index) := rfl

/-- The string that a table names at an index: the string at the address of the entry. -/
def tableString (image : Image) (table index : Nat) : Except Fault String := do
  image.string (← image.entryAddress table index) index

theorem entries_succ (image : Image) (keys texts index count : Nat) (m : Messages) :
    image.entries keys texts index (count + 1) m =
      (do
        let key ← image.tableString keys index
        let text ← image.tableString texts index
        image.entries keys texts (index + 1) count (m.collect (key, text))) := by
  simp only [entries, tableString, bind_assoc, Messages.collect]

/-- A sum of addresses need not be checked for what is not there behind the end of the file. -/
theorem sum?_bind (h : image.bytes.size < image.addresses) {α : Type} {a b : Nat} {found : Option α}
    (hfound : image.bytes.size < a + b → found = none) :
    ((image.sum? a b).bind fun _ => found) = found := by
  rw [sum?]
  split
  · rw [Option.bind_some]
  · rw [Option.bind_none, hfound (by omega)]

/-- A word is read if it lies in the file. -/
theorem word_eq (h : image.bytes.size < image.addresses) (part : Part) (address : Nat) :
    image.word part address =
      examine [within image.bytes (address + 4) part] (wordAt image.order image.bytes address) := by
  rw [word, sum?_bind h fun hend => word?_eq_none (by omega), examine_cons, examine_nil]
  by_cases hend : address + 4 ≤ image.bytes.size
  · rw [word?_eq_some hend, if_pos (within_holds.mpr hend)]
  · rw [word?_eq_none (by omega), if_neg (mt within_holds.mp hend)]
    rfl

/-- The text of a range is read if the range lies in the file and is text. -/
theorem rangeText_eq (h : image.bytes.size < image.addresses) (offset length index : Nat) :
    image.rangeText offset length index =
      examine [within image.bytes (offset + length) .stringData,
          legible (image.bytes.extract offset (offset + length)) index]
        ((String.fromUTF8? (image.bytes.extract offset (offset + length))).getD "") := by
  rw [rangeText, sum?_bind h fun hend => slice?_eq_none (by omega), examine_cons, examine_cons]
  by_cases hend : offset + length ≤ image.bytes.size
  · rw [slice?_eq_some hend, if_pos (within_holds.mpr hend), legible]
    cases htext : String.fromUTF8? (image.bytes.extract offset (offset + length)) <;>
      simp [htext]
  · rw [slice?_eq_none (by omega), if_neg (mt within_holds.mp hend)]
    rfl

/-- The string whose length and offset stand at the place of an entry in a table. The address of the
offset does not wrap around, for the length in front of it has been read. -/
theorem string_eq (h : image.bytes.size < image.addresses) (table index : Nat) :
    image.string (table + 8 * index) index =
      examine (stringChecks image.order image.bytes table index)
        (stringAt image.order image.bytes table index) := by
  have hoffset (hlength : ∀ check ∈ [within image.bytes (table + 8 * index + 4) .stringTable],
      check.holds) :
      image.word .stringTable ((table + 8 * index + 4) % image.addresses) =
        examine [within image.bytes (table + 8 * index + 8) .stringTable]
          (wordAt image.order image.bytes (table + 8 * index + 4)) := by
    have hend := within_holds.mp (hlength _ (List.mem_singleton_self _))
    rw [Nat.mod_eq_of_lt (by omega), word_eq h]
  -- The length and the offset have one check, which covers the length too.
  rw [string_eq_rangeText, word_eq h, stringChecks,
    ← examine_within_within (Nat.add_le_add_left (by decide : 4 ≤ 8) _)]
  apply examine_bind
  intro hlength
  rw [hoffset hlength]
  exact examine_bind fun _ => rangeText_eq h _ _ index

theorem entryAddress_eq (image : Image) (table index : Nat) :
    image.entryAddress table index =
      if table + 8 * index < image.addresses then .ok (table + 8 * index)
      else .error (.truncated .stringTable) := by
  rw [entryAddress, Nat.mul_comm index 8, sum?, Nat.add_zero]
  by_cases hsum : table + 8 * index < image.addresses
  · rw [if_pos (by omega), Option.bind_some, sum?, if_pos hsum, if_pos hsum]
  · rw [if_neg hsum]
    by_cases hdelta : 8 * index < image.addresses
    · rw [if_pos hdelta, Option.bind_some, sum?, if_neg hsum]
    · rw [if_neg hdelta, Option.bind_none]

/-- A string of a table is read if it passes its checks. -/
theorem tableString_eq (h : image.bytes.size < image.addresses) (table index : Nat) :
    image.tableString table index =
      examine (stringChecks image.order image.bytes table index)
        (stringAt image.order image.bytes table index) := by
  rw [tableString, entryAddress_eq]
  split
  · exact string_eq h table index
  · rw [stringChecks, examine_cons, if_neg (mt within_holds.mp (by omega))]
    rfl

/-- Entries are read if they pass their checks, one after another. -/
theorem entries_eq (h : image.bytes.size < image.addresses) (keys texts index count : Nat)
    (m : Messages) :
    image.entries keys texts index count m =
      examine ((List.range' index count).flatMap (entryChecks image.order image.bytes keys texts))
        (((List.range' index count).map (entryAt image.order image.bytes keys texts)).foldl
          Messages.collect m) := by
  induction count generalizing index m with
  | zero => rfl
  | succ count ih =>
      rw [entries_succ, List.range'_succ, List.flatMap_cons, List.map_cons, List.foldl_cons,
        entryChecks, List.append_assoc, tableString_eq h]
      apply examine_bind
      intro _
      rw [tableString_eq h]
      apply examine_bind
      intro _
      exact ih (index + 1) (m.collect (entryAt image.order image.bytes keys texts index))

end Image

/-- The byte order is found if the file starts with the magic number in that order. -/
theorem byteOrder_eq (bytes : ByteArray) :
    byteOrder bytes =
      examine [within bytes 4 .header,
          ⟨decide (wordAt (orderOf bytes) bytes 0 = magic), .wrongMagic (wordAt .little bytes 0)⟩]
        (orderOf bytes) := by
  rw [byteOrder, examine_cons, examine_cons]
  by_cases hend : 4 ≤ bytes.size
  · rw [word?_eq_some (by omega), if_pos (within_holds.mpr hend)]
    have hbig := wordAt_big_eq_magic hend
    have hne : magic ≠ swappedMagic := by decide
    by_cases hswapped : wordAt .little bytes 0 = swappedMagic
    · have horder : orderOf bytes = .big := if_pos (hbig.mpr hswapped)
      simp [horder, hswapped, hbig.mpr hswapped, hne.symm]
    · have horder : orderOf bytes = .little := if_neg fun h => hswapped (hbig.mp h)
      by_cases hmagic : wordAt .little bytes 0 = magic
      · simp [horder, hmagic]
      · simp [horder, hmagic, hswapped]
  · rw [word?_eq_none (by omega), if_neg (mt within_holds.mp hend)]
    rfl

/-- The numbers behind the revision are read if they lie in the file, and the entries if they pass
their checks. -/
theorem Image.counted_eq {image : Image} (h : image.bytes.size < image.addresses) :
    (do
      let count ← image.word .header 8
      let keys ← image.word .header 12
      let texts ← image.word .header 16
      image.entries keys texts 0 count .empty) =
      examine (within image.bytes 20 .header ::
          (List.range (wordAt image.order image.bytes 8)).flatMap
            (entryChecks image.order image.bytes (wordAt image.order image.bytes 12)
              (wordAt image.order image.bytes 16)))
        (Messages.ofEntries ((List.range (wordAt image.order image.bytes 8)).map
          (entryAt image.order image.bytes (wordAt image.order image.bytes 12)
            (wordAt image.order image.bytes 16)))) := by
  -- The three numbers have one check, that of the last one.
  rw [← examine_within_within (by decide : 16 ≤ 20), ← examine_within_within (by decide : 12 ≤ 16),
    word_eq h, word_eq h, word_eq h]
  apply examine_bind
  intro _
  apply examine_bind
  intro _
  apply examine_bind
  intro _
  rw [entries_eq h, List.range_eq_range']
  rfl

/-- A file is read if it passes its checks, and the messages are those of its entries. -/
theorem parseWithin_eq {addresses : Nat} {bytes : ByteArray} (h : bytes.size < addresses) :
    parseWithin addresses bytes =
      examine (checks bytes) (Messages.ofEntries (entriesOf bytes)) := by
  rw [parseWithin, byteOrder_eq]
  apply examine_bind
  intro _
  dsimp only
  rw [Image.word_eq h]
  apply examine_bind
  intro _
  rw [examine_cons]
  by_cases hrevision : wordAt (orderOf bytes) bytes 4 = 0
  · rw [if_neg (by simpa using hrevision), if_pos (by simpa using hrevision)]
    exact Image.counted_eq h
  · rw [if_pos hrevision, if_neg (by simpa using hrevision)]

end FrontEnd.Catalog
