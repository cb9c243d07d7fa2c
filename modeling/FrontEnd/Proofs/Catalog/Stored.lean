import FrontEnd.Catalog.Parsing
import FrontEnd.Proofs.Catalog.Word

/-!
# The entries that a catalog file stores

The words of the header give the byte order, the number of entries and the addresses of two
tables. The tables have the keys and the texts of the entries. Where the tables and the strings
stand is left open: they may overlap, and several entries may share a string.
-/

namespace FrontEnd.Catalog

variable {bytes : ByteArray} {order : ByteOrder}

/-- The header of a file, in some byte order. -/
structure HasHeader (bytes : ByteArray) (order : ByteOrder) (count keys texts : Nat) : Prop where
  magic : word? order bytes 0 = some magic
  revision : word? order bytes 4 = some 0
  count : word? order bytes 8 = some count
  keys : word? order bytes 12 = some keys
  texts : word? order bytes 16 = some texts

/-- The string that a table names at an index: its length and its offset stand in the table. -/
def string? (order : ByteOrder) (bytes : ByteArray) (table index : Nat) : Option String := do
  let length ← word? order bytes (table + 8 * index)
  let offset ← word? order bytes (table + 8 * index + 4)
  String.fromUTF8? (← slice? bytes offset length)

/-- A file stores some entries: it has a header for that many entries, and at every index the two
tables name the key and the text of the entry. -/
def Stores (bytes : ByteArray) (entries : List (String × String)) : Prop :=
  ∃ order keys texts, HasHeader bytes order entries.length keys texts ∧
    ∀ (i : Nat) (h : i < entries.length),
      string? order bytes keys i = some entries[i].1 ∧
        string? order bytes texts i = some entries[i].2

/-- The magic number tells the byte orders apart. -/
theorem ofBytes_big_eq_magic {word : List UInt8} (h : word.length = 4) :
    Word.ofBytes .big word = magic ↔ Word.ofBytes .little word = swappedMagic := by
  match word, h with
  | [a, b, c, d], _ =>
    have ha := a.toNat_lt
    have hb := b.toNat_lt
    have hc := c.toNat_lt
    have hd := d.toNat_lt
    simp only [Word.ofBytes, Word.ofLittleBytes, List.reverse_cons, List.reverse_nil,
      List.nil_append, List.cons_append, List.foldr_cons, List.foldr_nil, magic, swappedMagic]
    omega

/-- What is known of a word that is there: it is read from four bytes. -/
theorem wordAt_eq_ofBytes {offset : Nat} (h : offset + 4 ≤ bytes.size) :
    ∃ word : List UInt8, word.length = 4 ∧
      ∀ order, wordAt order bytes offset = Word.ofBytes order word := by
  refine ⟨(bytes.extract offset (offset + 4)).data.toList, ?_, fun order => ?_⟩
  · rw [Array.length_toList, ByteArray.size_data, ByteArray.size_extract]
    omega
  · rw [wordAt, word?, slice?_eq_some h]
    rfl

theorem wordAt_big_eq_magic (h : 4 ≤ bytes.size) :
    wordAt .big bytes 0 = magic ↔ wordAt .little bytes 0 = swappedMagic := by
  have hend : 0 + 4 ≤ bytes.size := by omega
  obtain ⟨word, hlength, hword⟩ := wordAt_eq_ofBytes hend
  rw [hword, hword]
  exact ofBytes_big_eq_magic hlength

/-- A string of a table has its place in the table within the file. -/
theorem add_eight_le_of_string? {table index : Nat} {s : String}
    (h : string? order bytes table index = some s) : table + 8 * index + 8 ≤ bytes.size := by
  simp only [string?, Option.bind_eq_bind, Option.bind_eq_some_iff] at h
  obtain ⟨length, _, offset, hoffset, _⟩ := h
  have hle := add_four_le_of_word? hoffset
  omega

/-- The tables of a file are no longer than the file. -/
theorem Stores.length_le {entries : List (String × String)} (h : Stores bytes entries) :
    8 * entries.length ≤ bytes.size := by
  obtain ⟨order, keys, texts, _, hstrings⟩ := h
  cases hlength : entries.length with
  | zero => omega
  | succ n =>
      have hle := add_eight_le_of_string? (hstrings n (by omega)).1
      omega

end FrontEnd.Catalog
