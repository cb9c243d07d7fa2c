import FrontEnd.Proofs.Catalog.Strict

/-!
# Accepted files

The files that pass their checks are those that store some entries. So a file stores one list of
entries at most, and its messages are the ones of these entries. Nothing is assumed of a file but
that the machine has an address for every byte of it.
-/

namespace FrontEnd.Catalog

open Check

variable {bytes : ByteArray} {order : ByteOrder}

/-- A table names a string at an index if the checks on the string hold. -/
theorem string?_eq_some_iff {table index : Nat} {s : String} :
    string? order bytes table index = some s ↔
      (∀ check ∈ stringChecks order bytes table index, check.holds) ∧
        stringAt order bytes table index = s := by
  simp only [stringChecks, List.forall_mem_cons, List.not_mem_nil, false_implies, implies_true,
    and_true, within, legible, decide_eq_true_eq, stringAt, rawAt]
  by_cases hplace : table + 8 * index + 8 ≤ bytes.size
  · rw [string?, word?_eq_some (by omega), word?_eq_some (by omega)]
    by_cases hdata : wordAt order bytes (table + 8 * index + 4) +
        wordAt order bytes (table + 8 * index) ≤ bytes.size
    · simp only [Option.bind_eq_bind, Option.bind_some, slice?_eq_some hdata]
      cases String.fromUTF8? _ <;> simp [hplace, hdata]
    · simp only [Option.bind_eq_bind, Option.bind_some, slice?_eq_none (Nat.lt_of_not_le hdata)]
      simp [hdata]
  · have hnone : string? order bytes table index ≠ some s := fun h =>
      hplace (add_eight_le_of_string? h)
    simp [hplace, hnone]

/-- A header is there if the checks on it hold, and its numbers are the words of the file in the
byte order that the first word tells. -/
theorem hasHeader_iff {count keys texts : Nat} :
    HasHeader bytes order count keys texts ↔
      (∀ check ∈ headerChecks bytes, check.holds) ∧ orderOf bytes = order ∧
        wordAt order bytes 8 = count ∧ wordAt order bytes 12 = keys ∧
          wordAt order bytes 16 = texts := by
  simp only [headerChecks, List.forall_mem_cons, List.not_mem_nil, false_implies, implies_true,
    and_true, within, decide_eq_true_eq]
  constructor
  · rintro ⟨hmagic, hrevision, hcount, hkeys, htexts⟩
    rw [word?_eq_some_iff] at hmagic hrevision hcount hkeys htexts
    have horder : orderOf bytes = order := by
      have hend : 4 ≤ bytes.size := by omega
      have hbig := wordAt_big_eq_magic hend
      cases order with
      | big => exact if_pos hmagic.2
      | little =>
          apply if_neg
          rw [hbig, hmagic.2]
          decide
    rw [horder]
    exact ⟨⟨by omega, hmagic.2, by omega, hrevision.2, by omega⟩, rfl, hcount.2, hkeys.2, htexts.2⟩
  · rintro ⟨⟨_, hmagic, _, hrevision, hend⟩, rfl, rfl, rfl, rfl⟩
    constructor <;> rw [word?_eq_some_iff]
    · exact ⟨by omega, hmagic⟩
    · exact ⟨by omega, hrevision⟩
    · exact ⟨by omega, rfl⟩
    · exact ⟨by omega, rfl⟩
    · exact ⟨by omega, rfl⟩

/-- Both tables name the strings of an entry if the checks on the entry hold. -/
theorem entryChecks_hold_iff {keys texts index : Nat} {entry : String × String} :
    (string? order bytes keys index = some entry.1 ∧
        string? order bytes texts index = some entry.2) ↔
      (∀ check ∈ entryChecks order bytes keys texts index, check.holds) ∧
        entryAt order bytes keys texts index = entry := by
  rw [string?_eq_some_iff, string?_eq_some_iff, entryChecks, List.forall_mem_append, Prod.ext_iff]
  dsimp only [entryAt]
  exact and_and_and_comm

/-- The files that store some entries are those that pass their checks. -/
theorem stores_iff {entries : List (String × String)} :
    Stores bytes entries ↔ (∀ check ∈ checks bytes, check.holds) ∧ entriesOf bytes = entries := by
  constructor
  · rintro ⟨order, keys, texts, hheader, hstrings⟩
    obtain ⟨hhead, rfl, hcount, rfl, rfl⟩ := hasHeader_iff.mp hheader
    have hentry (i : Nat) (hi : i < entries.length) := entryChecks_hold_iff.mp (hstrings i hi)
    constructor
    · simp only [checks, List.forall_mem_append, List.forall_mem_flatMap, List.mem_range, hcount]
      exact ⟨hhead, fun i hi => (hentry i hi).1⟩
    · apply List.ext_getElem
      · simp [entriesOf, hcount]
      · intro i _ hi
        simpa [entriesOf] using (hentry i hi).2
  · rintro ⟨hchecks, rfl⟩
    simp only [checks, List.forall_mem_append, List.forall_mem_flatMap, List.mem_range] at hchecks
    have hcount : wordAt (orderOf bytes) bytes 8 = (entriesOf bytes).length := by simp [entriesOf]
    refine ⟨orderOf bytes, _, _, hasHeader_iff.mpr ⟨hchecks.1, rfl, hcount, rfl, rfl⟩, ?_⟩
    intro i hi
    apply entryChecks_hold_iff.mpr
    constructor
    · exact hchecks.2 i (by simpa [entriesOf] using hi)
    · simp [entriesOf]

/-- The messages of a file are those of the entries that it stores. -/
theorem parseWithin_eq_ok_iff {addresses : Nat} (h : bytes.size < addresses) {m : Messages} :
    parseWithin addresses bytes = .ok m ↔
      ∃ entries, Stores bytes entries ∧ Messages.ofEntries entries = m := by
  rw [parseWithin_eq h, examine_eq_ok]
  constructor
  · rintro ⟨hchecks, hm⟩
    exact ⟨entriesOf bytes, stores_iff.mpr ⟨hchecks, rfl⟩, hm⟩
  · rintro ⟨entries, hstores, hm⟩
    obtain ⟨hchecks, rfl⟩ := stores_iff.mp hstores
    exact ⟨hchecks, hm⟩

/-- Reading is safe and exact, whatever the file and however many addresses there are. A strict
machine does not stop and gives the same result. A file is read if it stores some entries; these
take eight bytes of the file each at least, and the messages are theirs. Otherwise the fault is the
one of the first check that fails. -/
theorem parseWithin_exact {addresses : Nat} (h : bytes.size < addresses) :
    (Strict.parse addresses bytes).run = .ok (parseWithin addresses bytes) ∧
      ((∃ m, parseWithin addresses bytes = .ok m) ↔ ∃ entries, Stores bytes entries) ∧
      (∀ m entries, parseWithin addresses bytes = .ok m → Stores bytes entries →
        entries.length ≤ bytes.size / 8 ∧ m.Holds entries) ∧
      ∀ fault, parseWithin addresses bytes = .error fault ↔
        (firstFailed? (checks bytes)).map Check.fault = some fault := by
  refine ⟨Strict.parse_eq addresses bytes, ?_, ?_, ?_⟩
  · constructor
    · rintro ⟨m, hm⟩
      obtain ⟨entries, hstores, _⟩ := (parseWithin_eq_ok_iff h).mp hm
      exact ⟨entries, hstores⟩
    · rintro ⟨entries, hstores⟩
      exact ⟨_, (parseWithin_eq_ok_iff h).mpr ⟨entries, hstores, rfl⟩⟩
  · intro m entries hm hstores
    have hread := (parseWithin_eq_ok_iff h).mpr ⟨entries, hstores, rfl⟩
    obtain rfl : Messages.ofEntries entries = m := Except.ok.inj (hread.symm.trans hm)
    have hlength := hstores.length_le
    exact ⟨by omega, Messages.holds_ofEntries entries⟩
  · intro fault
    rw [parseWithin_eq h, examine_eq_error]

/-- A file of one entry with the most significant byte of a word first, whose two tables stand at
the same place. -/
def overlapping : ByteArray :=
  ⟨#[0x95, 0x04, 0x12, 0xde, 0, 0, 0, 0, 0, 0, 0, 1, 0, 0, 0, 20, 0, 0, 0, 20,
    0, 0, 0, 1, 0, 0, 0, 28, 97]⟩

theorem parseWithin_exact_overlapping :
    overlapping.size < UInt32.size ∧ Stores overlapping [("a", "a")] ∧
      ∃ m, (Strict.parse UInt32.size overlapping).run = .ok (.ok m) ∧ m.Holds [("a", "a")] := by
  have hstring : string? .big overlapping 20 0 = some "a" := by decide +kernel
  have hstores : Stores overlapping [("a", "a")] := by
    refine ⟨.big, 20, 20, ?_, ?_⟩
    · constructor <;> decide +kernel
    · intro i hi
      obtain rfl : i = 0 := by simpa using hi
      rw [List.getElem_cons_zero]
      exact ⟨hstring, hstring⟩
  have hsize : overlapping.size < UInt32.size := by decide
  obtain ⟨hstrict, hread, hmessages, _⟩ := parseWithin_exact hsize
  obtain ⟨m, hm⟩ := hread.mpr ⟨_, hstores⟩
  rw [hm] at hstrict
  exact ⟨hsize, hstores, m, hstrict, (hmessages m _ hm hstores).2⟩

end FrontEnd.Catalog
