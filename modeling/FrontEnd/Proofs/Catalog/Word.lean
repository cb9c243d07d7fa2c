import FrontEnd.Catalog.Word

/-!
# Words and byte ranges of files

A range of a file is there exactly if it ends within the file, and a word is read back from its
four bytes in either byte order.
-/

namespace FrontEnd

namespace Word

theorem length_bytes (order : ByteOrder) (n : Nat) : (bytes order n).length = 4 := by
  cases order <;> rfl

/-- A number of 32 bits is read back from its bytes. -/
theorem ofLittleBytes_littleBytes {n : Nat} (hn : n < UInt32.size) :
    ofLittleBytes (littleBytes n) = n := by
  have hsize : UInt32.size = 4294967296 := rfl
  simp only [ofLittleBytes, littleBytes, List.foldr_cons, List.foldr_nil, UInt8.toNat_ofNat']
  omega

theorem ofBytes_bytes (order : ByteOrder) {n : Nat} (hn : n < UInt32.size) :
    ofBytes order (bytes order n) = n := by
  cases order with
  | little => exact ofLittleBytes_littleBytes hn
  | big =>
      rw [ofBytes, bytes, List.reverse_reverse]
      exact ofLittleBytes_littleBytes hn

end Word

variable {bytes : ByteArray} {order : ByteOrder} {offset length : Nat}

/-- A range that ends within the file is there. -/
theorem slice?_eq_some (h : offset + length ≤ bytes.size) :
    slice? bytes offset length = some (bytes.extract offset (offset + length)) := if_pos h

/-- A range that ends behind the file is not there. -/
theorem slice?_eq_none (h : bytes.size < offset + length) : slice? bytes offset length = none :=
  if_neg (by omega)

/-- A part of a file is the range behind all that stands in front of it. -/
theorem slice?_of_eq {front part back : List UInt8}
    (h : bytes.data.toList = front ++ (part ++ back)) :
    slice? bytes front.length part.length = some ⟨part.toArray⟩ := by
  have hsize : bytes.size = front.length + (part.length + back.length) := by
    rw [← ByteArray.size_data, ← Array.length_toList, h, List.length_append, List.length_append]
  rw [slice?_eq_some (by omega)]
  congr 1
  ext1
  apply Array.toList_inj.mp
  rw [ByteArray.data_extract, Array.toList_extract, h]
  simp

/-- The word at an offset, or zero where there is none. -/
def wordAt (order : ByteOrder) (bytes : ByteArray) (offset : Nat) : Nat :=
  (word? order bytes offset).getD 0

/-- There is a word where four bytes are left. -/
theorem word?_eq_some (h : offset + 4 ≤ bytes.size) :
    word? order bytes offset = some (wordAt order bytes offset) := by
  rw [wordAt, word?, slice?_eq_some h]
  rfl

theorem word?_eq_none (h : bytes.size < offset + 4) : word? order bytes offset = none := by
  rw [word?, slice?_eq_none h]
  rfl

/-- A word is read exactly where four bytes are left. -/
theorem word?_eq_some_iff {n : Nat} :
    word? order bytes offset = some n ↔
      offset + 4 ≤ bytes.size ∧ wordAt order bytes offset = n := by
  by_cases hend : offset + 4 ≤ bytes.size
  · rw [word?_eq_some hend, Option.some_inj]
    exact (and_iff_right hend).symm
  · rw [word?_eq_none (by omega)]
    simp [hend]

theorem add_four_le_of_word? {n : Nat} (h : word? order bytes offset = some n) :
    offset + 4 ≤ bytes.size := (word?_eq_some_iff.mp h).1

/-- The word that four bytes of a file were written for is read back. -/
theorem word?_of_eq {front back : List UInt8} {n : Nat}
    (h : bytes.data.toList = front ++ (Word.bytes order n ++ back)) (hn : n < UInt32.size) :
    word? order bytes front.length = some n := by
  have hslice := slice?_of_eq h
  rw [Word.length_bytes] at hslice
  rw [word?, hslice, Option.map_some, Word.ofBytes_bytes order hn]

end FrontEnd
