import FrontEnd.Proofs.Catalog.Cut

/-!
# Files of the other byte order

A written file in the other byte order has the bytes of every word of its header and its tables
reversed, and the same strings behind them. It is read in the same way, and so is what is left of it
when its end is cut off: the places where its parts end are the same.
-/

namespace FrontEnd.Catalog

/-- Reverses the bytes of every word of four bytes. -/
def reverseWords : List UInt8 → List UInt8
  | a :: b :: c :: d :: rest => d :: c :: b :: a :: reverseWords rest
  | rest => rest

/-- A file with the bytes of every word in front of an offset reversed. -/
def withReversedWords (bytes : ByteArray) (offset : Nat) : ByteArray :=
  ⟨(reverseWords (bytes.data.toList.take offset) ++ bytes.data.toList.drop offset).toArray⟩

/-- Reversing the bytes of words takes them from one byte order to the other. -/
theorem reverseWords_wordBytes (words : List Nat) :
    reverseWords (wordBytes .little words) = wordBytes .big words := by
  induction words with
  | nil => rfl
  | cons n rest ih =>
      rw [wordBytes_cons, wordBytes_cons, ← ih]
      rfl

/-- A written file with the words in front of its strings reversed is the file of the same entries
in the other byte order. -/
theorem data_withReversedWords_encode (entries : List (String × String)) :
    (withReversedWords (encode entries) (poolOffset entries)).data.toList =
      fileBytes .big (sortEntries entries) := by
  have hoffset : poolOffset entries =
      (wordBytes .little (words (sortEntries entries))).length := by
    rw [length_wordBytes_words, poolOffset, poolOffset, (sortEntries_perm entries).length_eq]
  rw [withReversedWords, List.toList_toArray, data_encode, fileBytes, hoffset, List.take_left,
    List.drop_left, reverseWords_wordBytes, fileBytes]

theorem written_withReversedWords {entries : List (String × String)}
    (h : (encode entries).size < UInt32.size) :
    Written (withReversedWords (encode entries) (poolOffset entries)) .big
      (sortEntries entries) where
  data := data_withReversedWords_encode entries
  size := by
    rwa [size_of_fileBytes (data_withReversedWords_encode entries),
      ← size_of_fileBytes (data_encode entries)]

/-- The byte order does not matter: however much of a written file is left, it is read with the same
result in both byte orders, whether that is messages or a fault. -/
theorem parse_withReversedWords {entries : List (String × String)}
    (h : (encode entries).size < UInt32.size) (k : Nat) :
    parse ((withReversedWords (encode entries) (poolOffset entries)).extract 0 k) =
      parse ((encode entries).extract 0 k) := by
  have hreversed := written_withReversedWords h
  have hlarge : UInt32.size < UInt64.size := by decide
  calc parse ((withReversedWords (encode entries) (poolOffset entries)).extract 0 k)
      = Check.examine (cuts k (sortEntries entries))
          (Messages.ofEntries (sortEntries entries)) :=
        parseWithin_cut hreversed (Nat.lt_trans hreversed.size hlarge) k
    _ = parse ((encode entries).extract 0 k) :=
        (parseWithin_cut (written_encode h) (Nat.lt_trans h hlarge) k).symm

/-- The file of two entries in the other byte order, cut off within the offset of a key. -/
theorem parse_withReversedWords_emptyText :
    let reversed := withReversedWords (encode emptyText) (poolOffset emptyText)
    (encode emptyText).size < UInt32.size ∧
      reversed.data.toList.take 8 = [0x95, 0x04, 0x12, 0xde, 0, 0, 0, 0] ∧
      parse (reversed.extract 0 34) = .error (.truncated .stringTable) ∧
      parse ((encode emptyText).extract 0 34) = .error (.truncated .stringTable) := by
  intro reversed
  have hsize : (encode emptyText).size < UInt32.size := by
    rw [size_encode]
    decide +kernel
  have hsorted : sortEntries emptyText = [("a", "1"), ("b", "")] := by
    simp [sortEntries, emptyText, List.mergeSort]
  have hcut : parse ((encode emptyText).extract 0 34) = .error (.truncated .stringTable) := by
    rw [parse, parseWithin_cut (written_encode hsize) (Nat.lt_trans hsize (by decide)), hsorted]
    rfl
  refine ⟨hsize, ?_, ?_, hcut⟩
  · rw [data_withReversedWords_encode, hsorted]
    decide +kernel
  · exact (parse_withReversedWords hsize 34).trans hcut

end FrontEnd.Catalog
