import FrontEnd.Table
import FrontEnd.Catalog.Word
import FrontEnd.Text.Characters

/-!
# Reading catalog files

A catalog file starts with a header of words: the magic number, the revision, the number of
entries, and the offsets of the two string tables. A table holds a length and an offset for every
string. The magic number tells the byte order. All numbers come from outside, so every sum of
addresses is checked against the size of the address space before it is used.
-/

namespace FrontEnd.Catalog

/-- The magic number of a catalog file. -/
def magic : Nat := 0x950412de

/-- The magic number read in the wrong byte order. -/
def swappedMagic : Nat := 0xde120495

/-- The parts of a catalog file. -/
inductive Part where
  | header
  | stringTable
  | stringData
deriving DecidableEq, Repr

/-- What is wrong with a catalog file. -/
inductive Fault where
  /-- It starts with another number. -/
  | wrongMagic (found : Nat)
  /-- It has a revision other than zero. -/
  | unknownRevision (found : Nat)
  /-- It ends within a part, or points behind its end. -/
  | truncated (part : Part)
  /-- A string of the entry is not text. -/
  | notText (entry : Nat)
deriving DecidableEq, Repr

/-- The name of a part in messages. -/
def Part.name : Part → String
  | header => "header"
  | stringTable => "string table"
  | stringData => "string data"

/-- The line for a fault. -/
def Fault.message : Fault → String
  | wrongMagic found =>
    "not a message catalog (magic 0x" ++ String.ofList (Digits.hex 8 found) ++ ")"
  | unknownRevision found => "unsupported catalog revision " ++ found.repr
  | truncated part => "truncated catalog: " ++ part.name
  | notText entry => "catalog entry " ++ entry.repr ++ " is not valid UTF-8"

/-- A catalog file with its byte order, on a machine with the given number of addresses. -/
structure Image where
  bytes : ByteArray
  order : ByteOrder
  addresses : Nat

namespace Image

/-- The sum of two addresses, if it is an address. -/
def sum? (image : Image) (a b : Nat) : Option Nat :=
  if a + b < image.addresses then some (a + b) else none

/-- The word at an address. -/
def word (image : Image) (part : Part) (address : Nat) : Except Fault Nat :=
  match (image.sum? address 4).bind fun _ => word? image.order image.bytes address with
  | some n => .ok n
  | none => .error (.truncated part)

/-- The address of an entry of a string table. -/
def entryAddress (image : Image) (table entry : Nat) : Except Fault Nat :=
  match (image.sum? (entry * 8) 0).bind fun delta => image.sum? table delta with
  | some address => .ok address
  | none => .error (.truncated .stringTable)

/-- The string whose length and offset stand at an address. The address of the offset wraps around
at the end of the address space. -/
def string (image : Image) (address entry : Nat) : Except Fault String := do
  let length ← image.word .stringTable address
  let offset ← image.word .stringTable ((address + 4) % image.addresses)
  match (image.sum? offset length).bind fun _ => slice? image.bytes offset length with
  | none => .error (.truncated .stringData)
  | some raw =>
    match String.fromUTF8? raw with
    | some text => .ok text
    | none => .error (.notText entry)

/-- Reads `count` entries of the two tables from `entry` on. A later entry for the same key
replaces an earlier one, and the entry for the empty key is left out. -/
def entries (image : Image) (keys texts entry : Nat) :
    Nat → Messages → Except Fault Messages
  | 0, messages => .ok messages
  | count + 1, messages => do
    let key ← image.string (← image.entryAddress keys entry) entry
    let text ← image.string (← image.entryAddress texts entry) entry
    entries image keys texts (entry + 1) count
      (if key.isEmpty then messages else messages.insert key text)

end Image

/-- The byte order that a file's first word tells. -/
def byteOrder (bytes : ByteArray) : Except Fault ByteOrder :=
  match word? .little bytes 0 with
  | none => .error (.truncated .header)
  | some found =>
    if found = magic then .ok .little
    else if found = swappedMagic then .ok .big
    else .error (.wrongMagic found)

/-- Reads a catalog file on a machine with the given number of addresses. -/
def parseWithin (addresses : Nat) (bytes : ByteArray) : Except Fault Messages := do
  let image : Image := ⟨bytes, ← byteOrder bytes, addresses⟩
  let revision ← image.word .header 4
  if revision ≠ 0 then .error (.unknownRevision revision)
  else
    let count ← image.word .header 8
    let keys ← image.word .header 12
    let texts ← image.word .header 16
    image.entries keys texts 0 count .empty

/-- Reads a catalog file. -/
def parse (bytes : ByteArray) : Except Fault Messages := parseWithin UInt64.size bytes

end FrontEnd.Catalog
