import FrontEnd.Toml.Reading
import FrontEnd.Proofs.Text.Digits
import FrontEnd.Proofs.Text.Reader
import Mathlib.Data.List.TakeWhile

/-!
# Reading TOML integers back

A run of decimal digits is neither a date nor a time nor a floating-point number, and stands for
the number that it is written for.
-/

namespace FrontEnd.Toml

variable {run : List Char}

theorem not_mem_of_isDigit (hr : ∀ c ∈ run, c.isDigit = true) {d : Char}
    (hd : d.isDigit = false) : d ∉ run := by
  intro h
  rw [hr d h] at hd
  cases hd

/-- Digits are no date: there are no hyphens. -/
theorem isDate_eq_false (hr : ∀ c ∈ run, c.isDigit = true) : isDate run = false := by
  have h := not_mem_of_isDigit hr (show '-'.isDigit = false from rfl)
  unfold isDate
  split
  · simp at h
  · rfl

/-- Digits are no time: there are no colons. -/
theorem isTime_eq_false (hr : ∀ c ∈ run, c.isDigit = true) (zone : List Char → Bool) :
    isTime zone run = false := by
  have h := not_mem_of_isDigit hr (show ':'.isDigit = false from rfl)
  unfold isTime
  split
  · simp at h
  · rfl

theorem isMoment_eq_false (hr : ∀ c ∈ run, c.isDigit = true) : isMoment run = false := by
  have ht : isDate (run.take 10) = false :=
    isDate_eq_false fun c hc => hr c (List.mem_of_mem_take hc)
  simp [isMoment, isTime_eq_false hr, isDate_eq_false hr, ht]

/-- Digits have no sign. -/
theorem signed_eq (hr : ∀ c ∈ run, c.isDigit = true) : signed run = (false, run) := by
  have hp := not_mem_of_isDigit hr (show '+'.isDigit = false from rfl)
  have hm := not_mem_of_isDigit hr (show '-'.isDigit = false from rfl)
  unfold signed
  split
  · simp at hp
  · simp at hm
  · rfl

/-- Digits are no floating-point number: there is neither a fraction nor an exponent. -/
theorem isFloat_eq_false (hr : ∀ c ∈ run, c.isDigit = true) : isFloat run = false := by
  have hw : run.dropWhile (fun c => c.isDigit || c == '_') = [] := by
    rw [List.dropWhile_eq_nil_iff]
    intro c hc
    simp [hr c hc]
  have hi := not_mem_of_isDigit hr (show 'n'.isDigit = false from rfl)
  have hn : ¬ (run = ['i', 'n', 'f'] ∨ run = ['n', 'a', 'n']) := by
    rintro (rfl | rfl) <;> simp at hi
  simp only [isFloat, signed_eq hr, hw, fractional?, if_neg hn]
  split
  · simp_all
  · rfl

theorem isBoolean_eq_false (hr : ∀ c ∈ run, c.isDigit = true) : isBoolean run = false := by
  have he := not_mem_of_isDigit hr (show 'e'.isDigit = false from rfl)
  rw [isBoolean, decide_eq_false_iff_not]
  rintro (rfl | rfl) <;> simp at he

/-- Digits without underscores are kept. -/
theorem ungroup?_eq (hr : ∀ c ∈ run, c.isDigit = true) (hne : run ≠ []) :
    ungroup? 10 run = some run := by
  induction run with
  | nil => exact absurd rfl hne
  | cons c rest ih =>
      have hc := Digits.isDigitOf_ten (hr c List.mem_cons_self)
      have hrest : ∀ d ∈ rest, d.isDigit = true := fun d hd => hr d (List.mem_cons_of_mem c hd)
      cases rest with
      | nil => simp [ungroup?, hc]
      | cons d rest =>
          have hd := not_mem_of_isDigit hrest (show '_'.isDigit = false from rfl)
          rw [ungroup?, if_pos hc, ih hrest (List.cons_ne_nil d rest)]
          · rfl
          · simp
          · rintro tail h
            simp_all

/-- The decimal digits of a number have no zero in front of others. -/
theorem whole?_decimal (n : Nat) : whole? (Digits.decimal n) = some (Digits.decimal n) := by
  have hd := Digits.isDigit_decimal n
  have hz : ¬ ((Digits.decimal n).head? = some '0' ∧ Digits.decimal n ≠ ['0']) := by
    rintro ⟨hh, hne⟩
    rcases Nat.eq_zero_or_pos n with rfl | hn
    · exact hne rfl
    · exact Digits.decimal_head_ne hn hh
  rw [whole?, if_neg hz, ungroup?_eq hd (Digits.decimal_ne_nil n)]

/-- A number that fits 32 bits fits 64 bits. -/
theorem fits_toNat (n : UInt32) : fits n.toNat = true := by
  have hmin : Int64.minValue.toInt = -9223372036854775808 := by decide
  have hmax : Int64.maxValue.toInt = 9223372036854775807 := by decide
  have hn : n.toNat < 4294967296 := n.toNat_lt_size
  rw [fits, hmin, hmax, Bool.and_eq_true, decide_eq_true_eq, decide_eq_true_eq]
  constructor <;> omega

/-- A number that fits 64 bits is read from its decimal digits. -/
theorem integer?_decimal {n : Nat} (hn : fits n = true) :
    integer? (Digits.decimal n) = some (n : Int) := by
  have hd := Digits.isDigit_decimal n
  have hx := not_mem_of_isDigit hd (show 'x'.isDigit = false from rfl)
  have ho := not_mem_of_isDigit hd (show 'o'.isDigit = false from rfl)
  have hb := not_mem_of_isDigit hd (show 'b'.isDigit = false from rfl)
  unfold integer?
  split
  · simp_all
  · simp_all
  · simp_all
  · simp [signed_eq hd, whole?_decimal, Digits.number?_decimal, withSign, hn]

theorem isRunChar_of_isDigit {c : Char} (hc : c.isDigit = true) : isRunChar c = true := by
  simp [isRunChar, Char.isAlphanum, hc]

/-- A number that fits 64 bits is read back as an integer. -/
theorem reads_decimal {n : Nat} (hn : fits n = true) {after : List Char}
    (ha : startsWith isRunChar after = false) :
    scalar.Reads (Digits.decimal n) (.integer n) after := by
  have hd := Digits.isDigit_decimal n
  have ht := takeWhile_append_stop (fun c hc => isRunChar_of_isDigit (hd c hc)) ha
  simp [Reader.Reads, scalar, ht, isDate_eq_false hd, isMoment_eq_false hd, isFloat_eq_false hd,
    isBoolean_eq_false hd, integer?_decimal hn]

end FrontEnd.Toml
