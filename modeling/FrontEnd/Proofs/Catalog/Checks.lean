import FrontEnd.Proofs.Catalog.Messages
import FrontEnd.Proofs.Catalog.Stored

/-!
# The checks on a catalog file

A file is read exactly if it fulfils a list of checks that can be written down without reading it:
every check is a condition on the bytes of the file, and carries the fault of a file that does not
fulfil it. The fault of a file is the one of the first check that it does not fulfil.

The conditions are about numbers without a bound. On a machine whose addresses reach to the end of
the file a sum that is no address lies behind the end of the file, so both have the same fault.
-/

namespace FrontEnd.Catalog

/-- A condition on a file, and the fault of a file that does not fulfil it. -/
structure Check where
  holds : Bool
  fault : Fault

namespace Check

variable {α β : Type}

/-- The first of some checks that does not hold. -/
def firstFailed? (checks : List Check) : Option Check := checks.find? fun check => !check.holds

/-- What is there if all checks hold, and otherwise the fault of the first one that does not. -/
def examine (checks : List Check) (a : α) : Except Fault α :=
  match firstFailed? checks with
  | some check => .error check.fault
  | none => .ok a

@[simp] theorem examine_nil (a : α) : examine [] a = .ok a := rfl

theorem examine_cons (check : Check) (checks : List Check) (a : α) :
    examine (check :: checks) a =
      if check.holds then examine checks a else .error check.fault := by
  cases h : check.holds <;> simp [examine, firstFailed?, h]

/-- Checks in a row: the later ones matter only where the earlier ones hold. -/
theorem examine_bind {checks later : List Check} {a : α} {b : β} {f : α → Except Fault β}
    (h : (∀ check ∈ checks, check.holds) → f a = examine later b) :
    (examine checks a >>= f) = examine (checks ++ later) b := by
  induction checks with
  | nil => exact h (by simp)
  | cons check checks ih =>
      rw [List.cons_append, examine_cons, examine_cons]
      cases hcheck : check.holds with
      | false => rfl
      | true =>
          rw [if_pos rfl, if_pos rfl]
          apply ih
          intro hall
          apply h
          intro other hother
          rcases List.mem_cons.mp hother with rfl | hother
          · exact hcheck
          · exact hall other hother

/-- A check may be left out in front of a stronger one with the same fault. -/
theorem examine_cons_cons (weak strong : Check) (hfault : weak.fault = strong.fault)
    (hholds : strong.holds → weak.holds) (checks : List Check) (a : α) :
    examine (weak :: strong :: checks) a = examine (strong :: checks) a := by
  rw [examine_cons]
  cases hweak : weak.holds with
  | true => rw [if_pos rfl]
  | false =>
      have hstrong : strong.holds = false := by
        cases hs : strong.holds with
        | false => rfl
        | true => simpa [hweak] using hholds hs
      rw [examine_cons, hstrong, hfault]
      rfl

theorem examine_eq_ok {checks : List Check} {a b : α} :
    examine checks a = .ok b ↔ (∀ check ∈ checks, check.holds) ∧ a = b := by
  unfold examine
  cases h : firstFailed? checks with
  | none =>
      have hall : ∀ check ∈ checks, check.holds := by
        simpa [firstFailed?, List.find?_eq_none] using h
      exact ⟨fun h => ⟨hall, by simpa using h⟩, fun h => by rw [h.2]⟩
  | some check =>
      have hmem := List.mem_of_find?_eq_some h
      have hfailed := List.find?_some h
      simp only [reduceCtorEq, false_iff, not_and]
      intro hall
      simp [hall check hmem] at hfailed

theorem examine_eq_error {checks : List Check} {a : α} {fault : Fault} :
    examine checks a = .error fault ↔ (firstFailed? checks).map Check.fault = some fault := by
  unfold examine
  cases firstFailed? checks <;> simp

end Check

open Check

section
variable (order : ByteOrder) (bytes : ByteArray)

/-- A part of a file has to end within the file. -/
def within (finish : Nat) (part : Part) : Check := ⟨decide (finish ≤ bytes.size), .truncated part⟩

variable {bytes} in
theorem within_holds {finish : Nat} {part : Part} :
    (within bytes finish part).holds ↔ finish ≤ bytes.size := decide_eq_true_iff

variable {bytes} in
/-- The end of a part need not be checked in front of a later end. -/
theorem examine_within_within {near far : Nat} (hle : near ≤ far) (part : Part)
    (later : List Check) {α : Type} (a : α) :
    examine (within bytes near part :: within bytes far part :: later) a =
      examine (within bytes far part :: later) a := by
  have hends (hfar : (within bytes far part).holds) : (within bytes near part).holds :=
    within_holds.mpr (Nat.le_trans hle (within_holds.mp hfar))
  exact examine_cons_cons (within bytes near part) (within bytes far part) rfl hends later a

/-- The bytes of the string at an index have to be text. -/
def legible (raw : ByteArray) (index : Nat) : Check :=
  ⟨(String.fromUTF8? raw).isSome, .notText index⟩

/-- The bytes of the string that a table names at an index. -/
def rawAt (table index : Nat) : ByteArray :=
  let length := wordAt order bytes (table + 8 * index)
  let offset := wordAt order bytes (table + 8 * index + 4)
  bytes.extract offset (offset + length)

/-- The string that a table names at an index; the empty one if there is none. -/
def stringAt (table index : Nat) : String :=
  (String.fromUTF8? (rawAt order bytes table index)).getD ""

/-- The checks on a string of a table: its length and its offset are there, its bytes are there, and
they are text. -/
def stringChecks (table index : Nat) : List Check :=
  let length := wordAt order bytes (table + 8 * index)
  let offset := wordAt order bytes (table + 8 * index + 4)
  [within bytes (table + 8 * index + 8) .stringTable,
    within bytes (offset + length) .stringData,
    legible (rawAt order bytes table index) index]

/-- The checks on an entry: those on its key, then those on its text. -/
def entryChecks (keys texts index : Nat) : List Check :=
  stringChecks order bytes keys index ++ stringChecks order bytes texts index

/-- The entry at an index of both tables. -/
def entryAt (keys texts index : Nat) : String × String :=
  (stringAt order bytes keys index, stringAt order bytes texts index)

end

/-- The byte order that the first word of a file tells. -/
def orderOf (bytes : ByteArray) : ByteOrder :=
  if wordAt .big bytes 0 = magic then .big else .little

/-- The entries that the header and the tables of a file name. -/
def entriesOf (bytes : ByteArray) : List (String × String) :=
  let word := wordAt (orderOf bytes) bytes
  (List.range (word 8)).map (entryAt (orderOf bytes) bytes (word 12) (word 16))

/-- The checks on the header of a file. -/
def headerChecks (bytes : ByteArray) : List Check :=
  let word := wordAt (orderOf bytes) bytes
  [within bytes 4 .header,
    ⟨decide (word 0 = magic), .wrongMagic (wordAt .little bytes 0)⟩,
    within bytes 8 .header,
    ⟨decide (word 4 = 0), .unknownRevision (word 4)⟩,
    within bytes 20 .header]

/-- The checks on a file: those on its header, then those on every entry that the header counts. -/
def checks (bytes : ByteArray) : List Check :=
  let word := wordAt (orderOf bytes) bytes
  headerChecks bytes ++
    (List.range (word 8)).flatMap (entryChecks (orderOf bytes) bytes (word 12) (word 16))

end FrontEnd.Catalog
