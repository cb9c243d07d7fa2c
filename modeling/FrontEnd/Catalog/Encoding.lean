import FrontEnd.Catalog.Parsing

/-!
# Writing catalog files

The entries are sorted by key. The header is followed by the table of the keys, the table of the
texts, and the strings in the same order, each closed by a zero byte. The order of texts by
code points used here is the order of their bytes.
-/

namespace FrontEnd.Catalog

/-- The length of the header in bytes. -/
def headerLength : Nat := 28

/-- Entries in ascending order of their keys; entries with the same key keep their order. -/
def sortEntries (entries : List (String × String)) : List (String × String) :=
  entries.mergeSort fun a b => decide (a.1 ≤ b.1)

/-- A string as it stands in the file: its bytes and a zero byte. -/
def stored (s : String) : List UInt8 := s.toUTF8.data.toList ++ [0]

/-- The length and the offset of each string, when the first one stands at `offset`. -/
def descriptors (offset : Nat) : List String → List (Nat × Nat)
  | [] => []
  | s :: rest => (s.utf8ByteSize, offset) :: descriptors (offset + s.utf8ByteSize + 1) rest

/-- The words of a file with the given sorted entries: the header and both tables. -/
def words (sorted : List (String × String)) : List Nat :=
  let count := sorted.length
  let strings := headerLength + 16 * count
  [magic, 0, count, headerLength, headerLength + 8 * count, 0, strings] ++
    (descriptors strings (sorted.map (·.1) ++ sorted.map (·.2))).flatMap fun d => [d.1, d.2]

/-- The bytes of a file with the given sorted entries. -/
def sortedBytes (sorted : List (String × String)) : List UInt8 :=
  (words sorted).flatMap Word.littleBytes ++
    (sorted.map (·.1) ++ sorted.map (·.2)).flatMap stored

/-- Writes a catalog file with the given entries. -/
def encode (entries : List (String × String)) : ByteArray :=
  ⟨(sortedBytes (sortEntries entries)).toArray⟩

end FrontEnd.Catalog
