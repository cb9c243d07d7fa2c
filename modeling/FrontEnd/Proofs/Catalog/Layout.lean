import FrontEnd.Catalog.Encoding
import FrontEnd.Proofs.Catalog.Stored

/-!
# The layout of written files

A written file is a list of words and then a pool of strings. The words are the header and one
length and one offset for every string. The two tables stand one behind the other, so that they are
read as one table of all strings: the keys, then the texts. All this holds in both byte orders.
-/

namespace FrontEnd.Catalog

variable {order : ByteOrder} {bytes : ByteArray}

/-- The strings of a file with the given sorted entries: the keys, then the texts. -/
def strings (sorted : List (String × String)) : List String :=
  sorted.map (·.1) ++ sorted.map (·.2)

/-- Where the strings of a file begin. -/
def poolOffset (sorted : List (String × String)) : Nat := headerLength + 16 * sorted.length

/-- The bytes of strings as they stand in the pool. -/
def pool (strings : List String) : List UInt8 := strings.flatMap stored

/-- The length of a file with the given sorted entries. -/
def fileLength (sorted : List (String × String)) : Nat :=
  poolOffset sorted + (pool (strings sorted)).length

/-- The bytes of words in a byte order. -/
def wordBytes (order : ByteOrder) (words : List Nat) : List UInt8 :=
  words.flatMap (Word.bytes order)

/-- The bytes of a file with the given sorted entries and its words in a byte order. -/
def fileBytes (order : ByteOrder) (sorted : List (String × String)) : List UInt8 :=
  wordBytes order (words sorted) ++ pool (strings sorted)

/-- The words of the header of a file with the given sorted entries. -/
def headerWords (sorted : List (String × String)) : List Nat :=
  [magic, 0, sorted.length, headerLength, headerLength + 8 * sorted.length, 0, poolOffset sorted]

/-- The words of the tables for some strings whose first one stands at an offset. -/
def tableWords (offset : Nat) (strings : List String) : List Nat :=
  (descriptors offset strings).flatMap fun d => [d.1, d.2]

theorem data_encode (entries : List (String × String)) :
    (encode entries).data.toList = fileBytes .little (sortEntries entries) := rfl

theorem words_eq (sorted : List (String × String)) :
    words sorted = headerWords sorted ++ tableWords (poolOffset sorted) (strings sorted) := rfl

theorem length_strings (sorted : List (String × String)) :
    (strings sorted).length = 2 * sorted.length := by
  rw [strings, List.length_append, List.length_map, List.length_map]
  omega

theorem pool_append (front back : List String) : pool (front ++ back) = pool front ++ pool back :=
  List.flatMap_append

theorem pool_cons (s : String) (rest : List String) :
    pool (s :: rest) = s.toUTF8.data.toList ++ (0 :: pool rest) := by
  rw [pool, List.flatMap_cons, stored, List.append_assoc]
  rfl

theorem length_toUTF8 (s : String) : s.toUTF8.data.toList.length = s.utf8ByteSize := rfl

theorem length_stored (s : String) : (stored s).length = s.utf8ByteSize + 1 := by
  rw [stored, List.length_append, length_toUTF8]
  rfl

theorem length_wordBytes (order : ByteOrder) (words : List Nat) :
    (wordBytes order words).length = 4 * words.length := by
  induction words with
  | nil => rfl
  | cons n rest ih =>
      rw [wordBytes, List.flatMap_cons, List.length_append, Word.length_bytes, List.length_cons]
      rw [wordBytes] at ih
      omega

theorem wordBytes_append (order : ByteOrder) (front back : List Nat) :
    wordBytes order (front ++ back) = wordBytes order front ++ wordBytes order back :=
  List.flatMap_append

theorem wordBytes_cons (order : ByteOrder) (n : Nat) (rest : List Nat) :
    wordBytes order (n :: rest) = Word.bytes order n ++ wordBytes order rest := rfl

/-- The table of the strings that stand behind others goes on where these end. -/
theorem tableWords_append (offset : Nat) (front back : List String) :
    tableWords offset (front ++ back) =
      tableWords offset front ++ tableWords (offset + (pool front).length) back := by
  induction front generalizing offset with
  | nil => rfl
  | cons s front ih =>
      have hlength : offset + s.utf8ByteSize + 1 + (pool front).length =
          offset + (pool (s :: front)).length := by
        rw [pool, pool, List.flatMap_cons, List.length_append, length_stored]
        omega
      have htail := ih (offset + s.utf8ByteSize + 1)
      rw [hlength] at htail
      simp only [tableWords, descriptors, List.cons_append, List.flatMap_cons] at htail ⊢
      rw [htail, List.append_assoc]

theorem tableWords_cons (offset : Nat) (s : String) (rest : List String) :
    tableWords offset (s :: rest) =
      s.utf8ByteSize :: offset :: tableWords (offset + s.utf8ByteSize + 1) rest := rfl

theorem length_tableWords (offset : Nat) (strings : List String) :
    (tableWords offset strings).length = 2 * strings.length := by
  induction strings generalizing offset with
  | nil => rfl
  | cons s rest ih =>
      rw [tableWords_cons, List.length_cons, List.length_cons, ih, List.length_cons]
      omega

theorem length_headerWords (sorted : List (String × String)) :
    (headerWords sorted).length = 7 := rfl

theorem length_words (sorted : List (String × String)) :
    (words sorted).length = 7 + 4 * sorted.length := by
  rw [words_eq, List.length_append, length_tableWords, length_strings, length_headerWords]
  omega

/-- The pool begins where the words end. -/
theorem length_wordBytes_words (order : ByteOrder) (sorted : List (String × String)) :
    (wordBytes order (words sorted)).length = poolOffset sorted := by
  rw [length_wordBytes, length_words, poolOffset, headerLength]
  omega

theorem length_fileBytes (order : ByteOrder) (sorted : List (String × String)) :
    (fileBytes order sorted).length = fileLength sorted := by
  rw [fileBytes, List.length_append, length_wordBytes_words, fileLength]

theorem size_of_fileBytes {sorted : List (String × String)}
    (h : bytes.data.toList = fileBytes order sorted) : bytes.size = fileLength sorted := by
  rw [← length_fileBytes order, ← h]
  rfl

/-- Every word of a written file stands at its place. -/
theorem word?_of_fileBytes {sorted : List (String × String)} (front : List Nat) {back : List Nat}
    {n : Nat} (h : bytes.data.toList = fileBytes order sorted)
    (hwords : words sorted = front ++ n :: back) (hn : n < UInt32.size) :
    word? order bytes (4 * front.length) = some n := by
  rw [fileBytes, hwords, wordBytes_append, wordBytes_cons, List.append_assoc,
    List.append_assoc] at h
  have hword := word?_of_eq h hn
  rwa [length_wordBytes] at hword

/-- The length and the offset of a string are the words behind those of the strings in front. -/
theorem words_of_strings {sorted : List (String × String)} {front back : List String} {s : String}
    (hstrings : strings sorted = front ++ s :: back) :
    words sorted = (headerWords sorted ++ tableWords (poolOffset sorted) front) ++
      s.utf8ByteSize :: (poolOffset sorted + (pool front).length) ::
        tableWords (poolOffset sorted + (pool front).length + s.utf8ByteSize + 1) back := by
  rw [words_eq, hstrings, tableWords_append, tableWords_cons, List.append_assoc]

/-- The bytes of a file that was written with the given sorted entries, in some byte order. Words
can address all of them. -/
structure Written (bytes : ByteArray) (order : ByteOrder) (sorted : List (String × String)) :
    Prop where
  data : bytes.data.toList = fileBytes order sorted
  size : bytes.size < UInt32.size

namespace Written

variable {sorted : List (String × String)} {front back : List String} {s : String}

/-- The header of a written file. -/
theorem hasHeader (hw : Written bytes order sorted) :
    HasHeader bytes order sorted.length headerLength (headerLength + 8 * sorted.length) := by
  have hcount : headerLength + 16 * sorted.length < UInt32.size := by
    have hsize := hw.size
    rw [size_of_fileBytes hw.data, fileLength, poolOffset] at hsize
    omega
  have hword := words_eq sorted
  exact {
    magic := word?_of_fileBytes [] hw.data hword (by decide)
    revision := word?_of_fileBytes [Catalog.magic] hw.data hword (by decide)
    count := word?_of_fileBytes [Catalog.magic, 0] hw.data hword (by omega)
    keys := word?_of_fileBytes [Catalog.magic, 0, sorted.length] hw.data hword (by decide)
    texts := word?_of_fileBytes [Catalog.magic, 0, sorted.length, headerLength] hw.data hword
      (by omega) }

/-- The length and the offset of a string are read back at its place among all strings. -/
theorem words?_of_strings (hw : Written bytes order sorted)
    (hstrings : strings sorted = front ++ s :: back) :
    word? order bytes (headerLength + 8 * front.length) = some s.utf8ByteSize ∧
      word? order bytes (headerLength + 8 * front.length + 4) =
        some (poolOffset sorted + (pool front).length) := by
  have hsize := hw.size
  have hpool : bytes.size =
      poolOffset sorted + ((pool front).length + (s.utf8ByteSize + (1 + (pool back).length))) := by
    rw [size_of_fileBytes hw.data, fileLength, hstrings, pool_append, pool_cons,
      List.length_append, List.length_append, length_toUTF8, List.length_cons, Nat.add_comm 1]
  have hwords := words_of_strings hstrings
  have hlength := word?_of_fileBytes _ hw.data hwords (by omega)
  have hoffset :=
    word?_of_fileBytes _ hw.data (hwords.trans (List.append_cons _ _ _)) (by omega)
  have hplace : 4 * (headerWords sorted ++ tableWords (poolOffset sorted) front).length =
      headerLength + 8 * front.length := by
    rw [List.length_append, length_headerWords, length_tableWords, headerLength]
    omega
  rw [hplace] at hlength
  rw [List.length_append, List.length_singleton, Nat.mul_add, hplace] at hoffset
  exact ⟨hlength, hoffset⟩

/-- The bytes of a string stand behind those of the strings in front, at the offset for it. -/
theorem slice?_of_strings (hw : Written bytes order sorted)
    (hstrings : strings sorted = front ++ s :: back) :
    slice? bytes (poolOffset sorted + (pool front).length) s.utf8ByteSize = some s.toUTF8 := by
  have h := hw.data
  rw [fileBytes, hstrings, pool_append, pool_cons, ← List.append_assoc] at h
  have hslice := slice?_of_eq h
  rwa [List.length_append, length_wordBytes_words, length_toUTF8] at hslice

/-- Every string of a written file is named by its place among all strings. -/
theorem string?_of_strings (hw : Written bytes order sorted)
    (hstrings : strings sorted = front ++ s :: back) :
    string? order bytes headerLength front.length = some s := by
  obtain ⟨hlength, hoffset⟩ := hw.words?_of_strings hstrings
  rw [string?, hlength, Option.bind_eq_bind, Option.bind_some, hoffset]
  simp only [Option.bind_eq_bind, Option.bind_some, hw.slice?_of_strings hstrings]
  exact dif_pos s.isValidUTF8

end Written

/-- A table that goes on behind some strings. -/
theorem string?_add (order : ByteOrder) (bytes : ByteArray) (table count index : Nat) :
    string? order bytes table (count + index) = string? order bytes (table + 8 * count) index := by
  have hplace : table + 8 * (count + index) = table + 8 * count + 8 * index := by omega
  rw [string?, string?, hplace]

/-- The key of an entry, among all strings. -/
theorem strings_eq_key (front back : List (String × String)) (entry : String × String) :
    strings (front ++ entry :: back) =
      front.map (·.1) ++ entry.1 :: (back.map (·.1) ++ (front ++ entry :: back).map (·.2)) := by
  rw [strings, List.map_append, List.map_cons, List.append_assoc, List.cons_append]

/-- The text of an entry, among all strings. -/
theorem strings_eq_text (front back : List (String × String)) (entry : String × String) :
    strings (front ++ entry :: back) =
      ((front ++ entry :: back).map (·.1) ++ front.map (·.2)) ++ entry.2 :: back.map (·.2) := by
  rw [strings, List.append_assoc, ← List.map_cons, ← List.map_append]

/-- A written file stores the entries that it was written for. -/
theorem Written.stores {sorted : List (String × String)} (hw : Written bytes order sorted) :
    Stores bytes sorted := by
  refine ⟨order, _, _, hw.hasHeader, ?_⟩
  intro i hi
  have hsplit : sorted = sorted.take i ++ sorted[i] :: sorted.drop (i + 1) := by
    rw [List.getElem_cons_drop, List.take_append_drop]
  have hfront : (sorted.take i).length = i := List.length_take_of_le (by omega)
  constructor
  · have hkeys := strings_eq_key (sorted.take i) (sorted.drop (i + 1)) sorted[i]
    rw [← hsplit] at hkeys
    have hkey := hw.string?_of_strings hkeys
    rwa [List.length_map, hfront] at hkey
  · have htexts := strings_eq_text (sorted.take i) (sorted.drop (i + 1)) sorted[i]
    rw [← hsplit] at htexts
    have htext := hw.string?_of_strings htexts
    rwa [List.length_append, List.length_map, List.length_map, hfront, string?_add] at htext

end FrontEnd.Catalog
