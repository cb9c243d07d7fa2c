import FrontEnd.Text.Characters

/-!
# Reading digits back

The digits that a number is written with are read back as the number, in base ten and in base
sixteen.
-/

namespace FrontEnd.Digits

theorem value?_digitChar {d : Nat} (hd : d < 16) : value? (Nat.digitChar d) = some d := by
  have h : ∀ d < 16, value? (Nat.digitChar d) = some d := by decide
  exact h d hd

/-- One more digit of a base is added behind a number. -/
theorem append?_of_value? {base d : Nat} {c : Char} (hc : value? c = some d) (hd : d < base)
    (n : Nat) : append? base n c = some (n * base + d) := by
  simp [append?, hc, hd]

/-- The last digits of a number in base sixteen stand for the rest of a division, also where every
digit is written in another way. -/
theorem foldlM_map_hex {f : Char → Char} (hf : ∀ d < 16, value? (f (Nat.digitChar d)) = some d)
    (width n : Nat) :
    ((hex width n).map f).foldlM (append? 16) 0 = some (n % Nat.pow 16 width) := by
  induction width generalizing n with
  | zero => simp [hex, Nat.mod_one]
  | succ width ih =>
      have hd : n % 16 < 16 := Nat.mod_lt n (by decide)
      rw [hex, List.map_append, List.foldlM_append, ih]
      simp only [List.map_cons, List.map_nil, List.foldlM_cons, List.foldlM_nil, bind_pure,
        Option.bind_eq_bind, Option.bind_some, append?_of_value? (hf _ hd) hd]
      have hpow : Nat.pow 16 (width + 1) = 16 * Nat.pow 16 width := Nat.mul_comm _ _
      rw [hpow, Nat.mod_mul]
      congr 1
      omega

/-- A number that fits four digits of base sixteen is read back from them. -/
theorem number?_map_hex {f : Char → Char} (hf : ∀ d < 16, value? (f (Nat.digitChar d)) = some d)
    {n : Nat} (hn : n < 65536) : number? 16 ((hex 4 n).map f) = some n := by
  have hne : ((hex 4 n).map f).isEmpty = false := rfl
  rw [number?, hne, foldlM_map_hex hf, Nat.mod_eq_of_lt hn]
  rfl

/-- A number is read back from four capital digits. -/
theorem number?_hexUpper {n : Nat} (hn : n < 65536) : number? 16 (hexUpper 4 n) = some n :=
  number?_map_hex (by decide) hn

/-- A number is read back from four small digits. -/
theorem number?_hex {n : Nat} (hn : n < 65536) : number? 16 (hex 4 n) = some n := by
  have h := number?_map_hex (f := id) (by decide) hn
  rwa [List.map_id] at h

/-- The decimal digits are the digits of base ten. -/
theorem isDigitOf_ten {c : Char} (hc : c.isDigit = true) : isDigitOf 10 c = true := by
  obtain ⟨hl, hu⟩ := Char.isDigit_iff_toNat.mp hc
  have hv : value? c = some (c.toNat - 48) := if_pos ⟨hl, hu⟩
  have hu : c.toNat ≤ 57 := hu
  simp only [isDigitOf, hv, decide_eq_true_eq]
  omega

/-- Numbers are written in decimal digits. -/
theorem isDigit_decimal (n : Nat) : ∀ c ∈ decimal n, c.isDigit = true := by
  intro c hc
  exact Nat.isDigit_of_mem_toDigits (by decide) (by decide) hc

theorem decimal_ne_nil (n : Nat) : decimal n ≠ [] := Nat.toDigits_ne_nil

/-- The digits of a number start with no percent sign. -/
theorem exists_repr_eq_cons (n : Nat) : ∃ c cs, n.repr.toList = c :: cs ∧ c ≠ '%' := by
  obtain ⟨c, cs, hdigits⟩ := List.exists_cons_of_ne_nil (decimal_ne_nil n)
  have hc : c.isDigit = true := isDigit_decimal n c (hdigits ▸ List.mem_cons_self)
  refine ⟨c, cs, ?_, fun h => ?_⟩
  · rw [← hdigits, decimal, Nat.repr, String.toList_ofList]
  · rw [h] at hc
    cases hc

/-- The digits of a number from its last digit and those in front of it. -/
theorem decimal_of_le {n : Nat} (hn : 10 ≤ n) :
    decimal n = decimal (n / 10) ++ [Nat.digitChar (n % 10)] :=
  Nat.toDigits_of_base_le (by decide) hn

theorem decimal_of_lt {n : Nat} (hn : n < 10) : decimal n = [Nat.digitChar n] :=
  Nat.toDigits_of_lt_base hn

theorem foldlM_decimal (n : Nat) : (decimal n).foldlM (append? 10) 0 = some n := by
  induction n using Nat.strongRecOn with
  | ind n ih =>
      by_cases hn : n < 10
      · have hd : value? (Nat.digitChar n) = some n := value?_digitChar (by omega)
        simp [decimal_of_lt hn, append?_of_value? hd hn]
      · have hd : n % 10 < 10 := Nat.mod_lt n (by decide)
        have hc : value? (Nat.digitChar (n % 10)) = some (n % 10) := value?_digitChar (by omega)
        rw [decimal_of_le (Nat.le_of_not_lt hn), List.foldlM_append, ih (n / 10) (by omega)]
        simp only [List.foldlM_cons, List.foldlM_nil, bind_pure, Option.bind_eq_bind,
          Option.bind_some, append?_of_value? hc hd]
        congr 1
        omega

/-- A number is read back from its decimal digits. -/
theorem number?_decimal (n : Nat) : number? 10 (decimal n) = some n := by
  have hne : (decimal n).isEmpty = false := by
    simpa using decimal_ne_nil n
  rw [number?, hne, foldlM_decimal]
  rfl

/-- The first decimal digit of a positive number is not a zero. -/
theorem decimal_head_ne {n : Nat} (hn : 0 < n) : (decimal n).head? ≠ some '0' := by
  induction n using Nat.strongRecOn with
  | ind n ih =>
      by_cases hlt : n < 10
      · have h : ∀ d < 10, 0 < d → Nat.digitChar d ≠ '0' := by decide
        rw [decimal_of_lt hlt, List.head?_cons, Ne, Option.some.injEq]
        exact h n hlt hn
      · have hrest := ih (n / 10) (by omega) (by omega)
        obtain ⟨c, rest, hc⟩ := List.exists_cons_of_ne_nil (decimal_ne_nil (n / 10))
        rw [hc] at hrest
        rw [decimal_of_le (Nat.le_of_not_lt hlt), hc]
        exact hrest

end FrontEnd.Digits
