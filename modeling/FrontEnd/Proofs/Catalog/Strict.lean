import FrontEnd.Proofs.Catalog.Reading

/-!
# Reading on a strict machine

The reader takes sums of addresses that nothing guards, and looks into the file. A strict machine
stops where such a sum is no address, and where a byte is looked at that is not in the file. The
reader on that machine is written out here with every byte that it looks at. It never stops, and
gives what the reader gives.
-/

namespace FrontEnd.Catalog

/-- What stops a strict machine. -/
inductive Trap where
  /-- A sum of addresses is no address. -/
  | overflow
  /-- A byte is looked at that is not in the file. -/
  | outside
deriving DecidableEq, Repr

/-- Steps of a strict machine: they stop it, or end with a result or a fault of the file. -/
abbrev Strict : Type → Type := ExceptT Fault (Except Trap)

namespace Strict

variable {α β : Type}

/-- The machine stops. -/
def stop (trap : Trap) : Strict α := ExceptT.mk (.error trap)

/-- The machine goes on with a result or a fault. -/
def ofResult (result : Except Fault α) : Strict α := ExceptT.mk (.ok result)

/-- The sum of two addresses, without a guard. -/
def sum (addresses a b : Nat) : Strict Nat :=
  if a + b < addresses then pure (a + b) else stop .overflow

/-- The byte at an address. -/
def byte (bytes : ByteArray) (address : Nat) : Strict UInt8 :=
  match bytes.data.toList[address]? with
  | some b => pure b
  | none => stop .outside

/-- The bytes from an address on. -/
def look (bytes : ByteArray) (address : Nat) : Nat → Strict (List UInt8)
  | 0 => pure []
  | count + 1 => do
    let first ← byte bytes address
    let rest ← look bytes (address + 1) count
    return first :: rest

/-- The bytes between two addresses, or a fault if they do not stand in the file. -/
def range (bytes : ByteArray) (start : Nat) (finish? : Option Nat) (part : Part) :
    Strict ByteArray := do
  match finish? with
  | none => throw (.truncated part)
  | some finish =>
    if start ≤ finish ∧ finish ≤ bytes.size then
      return ⟨(← look bytes start (finish - start)).toArray⟩
    else throw (.truncated part)

/-- The word at an address. -/
def word (image : Image) (part : Part) (address : Nat) : Strict Nat := do
  let raw ← range image.bytes address (image.sum? address 4) part
  return Word.ofBytes image.order raw.data.toList

/-- The string whose length and offset stand at an address. -/
def string (image : Image) (address entry : Nat) : Strict String := do
  let length ← word image .stringTable address
  let offset ← word image .stringTable (← sum image.addresses address 4)
  let raw ← range image.bytes offset (image.sum? offset length) .stringData
  match String.fromUTF8? raw with
  | some text => return text
  | none => throw (.notText entry)

/-- Reads `count` entries of the two tables from `entry` on. -/
def entries (image : Image) (keys texts entry : Nat) : Nat → Messages → Strict Messages
  | 0, messages => pure messages
  | count + 1, messages => do
    let key ← string image (← ofResult (image.entryAddress keys entry)) entry
    let text ← string image (← ofResult (image.entryAddress texts entry)) entry
    entries image keys texts (entry + 1) count
      (if key.isEmpty then messages else messages.insert key text)

/-- The byte order that a file's first word tells. -/
def byteOrder (bytes : ByteArray) : Strict ByteOrder := do
  let raw ← range bytes 0 (some 4) .header
  let found := Word.ofBytes .little raw.data.toList
  if found = magic then return .little
  else if found = swappedMagic then return .big
  else throw (.wrongMagic found)

/-- Reads a catalog file. -/
def parse (addresses : Nat) (bytes : ByteArray) : Strict Messages := do
  let image : Image := ⟨bytes, ← byteOrder bytes, addresses⟩
  let revision ← word image .header 4
  if revision ≠ 0 then throw (.unknownRevision revision)
  else
    let count ← word image .header 8
    let keys ← word image .header 12
    let texts ← word image .header 16
    entries image keys texts 0 count .empty

/-- Steps that do not stop, one after the other, do not stop. -/
theorem ofResult_bind {result : Except Fault α} {f : α → Strict β} {g : α → Except Fault β}
    (h : ∀ a, result = .ok a → f a = ofResult (g a)) :
    (ofResult result >>= f) = ofResult (result >>= g) := by
  cases result with
  | error fault => rfl
  | ok a => exact h a rfl

/-- All bytes that stand in the file can be looked at. -/
theorem look_eq {bytes : ByteArray} {address count : Nat} (h : address + count ≤ bytes.size) :
    look bytes address count = pure (bytes.extract address (address + count)).data.toList := by
  rw [ByteArray.data_extract, Array.toList_extract, List.extract_eq_take_drop,
    Nat.add_sub_cancel_left]
  induction count generalizing address with
  | zero => rfl
  | succ count ih =>
      have hlt : address < bytes.data.toList.length := by
        rw [Array.length_toList, ByteArray.size_data]
        omega
      rw [look, byte, List.getElem?_eq_getElem hlt, ih (by omega), List.drop_eq_getElem_cons hlt,
        List.take_succ_cons]
      simp only [pure_bind]

/-- What is there of a part, or its fault. -/
def present (part : Part) : Option α → Except Fault α
  | some a => .ok a
  | none => .error (.truncated part)

theorem ofResult_present_some (part : Part) (a : α) :
    ofResult (present part (some a)) = pure a := rfl

/-- A range is looked at only if it stands in the file. -/
theorem range_some (bytes : ByteArray) (start length : Nat) (part : Part) :
    range bytes start (some (start + length)) part =
      ofResult (present part (slice? bytes start length)) := by
  rw [range, Nat.add_sub_cancel_left]
  by_cases hend : start + length ≤ bytes.size
  · rw [if_pos ⟨by omega, hend⟩, look_eq hend, slice?_eq_some hend, pure_bind]
    rfl
  · rw [if_neg (by omega), slice?_eq_none (by omega)]
    rfl

theorem range_eq (image : Image) (start length : Nat) (part : Part) :
    range image.bytes start (image.sum? start length) part =
      ofResult (present part
        ((image.sum? start length).bind fun _ => slice? image.bytes start length)) := by
  cases hsum : image.sum? start length with
  | none => rfl
  | some finish =>
      have hfinish : finish = start + length := by
        simp only [Image.sum?, Option.ite_none_right_eq_some, Option.some.injEq] at hsum
        exact hsum.2.symm
      rw [hfinish]
      exact range_some image.bytes start length part

theorem word_eq (image : Image) (part : Part) (address : Nat) :
    word image part address = ofResult (image.word part address) := by
  rw [word, range_eq, Image.word]
  simp only [word?]
  cases image.sum? address 4 with
  | none => rfl
  | some finish => cases slice? image.bytes address 4 <;> rfl

/-- The sum for the address of the offset is an address, for the length in front of it has been
read. -/
theorem string_eq (image : Image) (address entry : Nat) :
    string image address entry = ofResult (image.string address entry) := by
  rw [string, word_eq, Image.string_eq_rangeText]
  apply ofResult_bind
  intro length hlength
  have hsum : address + 4 < image.addresses := by
    apply Nat.lt_of_not_le
    intro hle
    rw [Image.word, Image.sum?, if_neg (by omega)] at hlength
    cases hlength
  rw [sum, if_pos hsum, pure_bind, Nat.mod_eq_of_lt hsum, word_eq]
  apply ofResult_bind
  intro offset _
  rw [range_eq, Image.rangeText]
  cases (image.sum? offset length).bind fun _ => slice? image.bytes offset length with
  | none => rfl
  | some raw =>
      rw [ofResult_present_some, pure_bind]
      dsimp only
      cases String.fromUTF8? raw <;> rfl

theorem entries_eq (image : Image) (keys texts entry count : Nat) (messages : Messages) :
    entries image keys texts entry count messages =
      ofResult (image.entries keys texts entry count messages) := by
  induction count generalizing entry messages with
  | zero => rfl
  | succ count ih =>
      simp only [entries, Image.entries, string_eq, ih]
      apply ofResult_bind
      intro keyAddress _
      apply ofResult_bind
      intro key _
      apply ofResult_bind
      intro textAddress _
      exact ofResult_bind fun text _ => rfl

theorem byteOrder_eq (bytes : ByteArray) :
    byteOrder bytes = ofResult (Catalog.byteOrder bytes) := by
  rw [byteOrder, show some 4 = some (0 + 4) from rfl, range_some, Catalog.byteOrder, word?]
  cases slice? bytes 0 4 with
  | none => rfl
  | some raw =>
      rw [ofResult_present_some, pure_bind, Option.map_some]
      by_cases hlittle : Word.ofBytes .little raw.data.toList = magic
      · simp only [if_pos hlittle]
        rfl
      · by_cases hbig : Word.ofBytes .little raw.data.toList = swappedMagic
        · simp only [if_neg hlittle, if_pos hbig]
          rfl
        · simp only [if_neg hlittle, if_neg hbig]
          rfl

/-- The reader never stops the strict machine, and gives the same result on it. -/
theorem parse_eq (addresses : Nat) (bytes : ByteArray) :
    parse addresses bytes = ofResult (parseWithin addresses bytes) := by
  rw [parse, byteOrder_eq, parseWithin]
  apply ofResult_bind
  intro order _
  simp only [word_eq, entries_eq]
  apply ofResult_bind
  intro revision _
  split
  · rfl
  · apply ofResult_bind
    intro count _
    apply ofResult_bind
    intro keys _
    exact ofResult_bind fun texts _ => rfl

end Strict

end FrontEnd.Catalog
