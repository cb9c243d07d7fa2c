/-!
# Words in byte strings

Catalog files are made of 32-bit words, in either byte order, and of strings that words point to.
-/

namespace FrontEnd

/-- The order of the bytes of a word. -/
inductive ByteOrder where
  | little
  | big
deriving DecidableEq, Repr

namespace Word

/-- The four bytes of the low 32 bits of a number, least significant first. -/
def littleBytes (n : Nat) : List UInt8 :=
  [UInt8.ofNat n, UInt8.ofNat (n / 0x100), UInt8.ofNat (n / 0x10000), UInt8.ofNat (n / 0x1000000)]

/-- The number whose bytes are given least significant first. -/
def ofLittleBytes (bytes : List UInt8) : Nat := bytes.foldr (fun b n => b.toNat + 0x100 * n) 0

/-- The four bytes of the low 32 bits of a number. -/
def bytes (order : ByteOrder) (n : Nat) : List UInt8 :=
  match order with
  | .little => littleBytes n
  | .big => (littleBytes n).reverse

/-- The number with the given bytes. -/
def ofBytes (order : ByteOrder) (bytes : List UInt8) : Nat :=
  match order with
  | .little => ofLittleBytes bytes
  | .big => ofLittleBytes bytes.reverse

end Word

/-- The `length` bytes from `offset` on, if that many are there. -/
def slice? (bytes : ByteArray) (offset length : Nat) : Option ByteArray :=
  if offset + length ≤ bytes.size then some (bytes.extract offset (offset + length)) else none

/-- The word at an offset. -/
def word? (order : ByteOrder) (bytes : ByteArray) (offset : Nat) : Option Nat :=
  (slice? bytes offset 4).map fun word => Word.ofBytes order word.data.toList

end FrontEnd
