import FrontEnd.Proofs.Text.Digits
import FrontEnd.Text.Characters

/-!
# Texts without control characters

A text without control characters stays on one line and does nothing to a terminal. Digits have
none, and neither has the visible form of any character.
-/

namespace FrontEnd

/-- Whether a text has no control characters, which are U+0000 to U+001F and U+007F to U+009F. -/
def HasNoControls (text : String) : Prop :=
  ∀ c ∈ text.toList, ¬ (c.toNat ≤ 0x1f ∨ 0x7f ≤ c.toNat ∧ c.toNat ≤ 0x9f)

instance (text : String) : Decidable (HasNoControls text) :=
  List.decidableBAll _ text.toList

theorem HasNoControls.append {front back : String} (hfront : HasNoControls front)
    (hback : HasNoControls back) : HasNoControls (front ++ back) := by
  intro c hc
  rw [String.toList_append] at hc
  rcases List.mem_append.mp hc with hc | hc
  · exact hfront c hc
  · exact hback c hc

theorem isControl_iff {c : Char} :
    isControl c = true ↔ c.toNat ≤ 0x1f ∨ 0x7f ≤ c.toNat ∧ c.toNat ≤ 0x9f := by
  simp only [isControl, Bool.or_eq_true, Bool.and_eq_true, decide_eq_true_eq, UInt32.lt_iff_toNat_lt,
    UInt32.le_iff_toNat_le]
  change c.toNat < 32 ∨ 127 ≤ c.toNat ∧ c.toNat < 160 ↔ _
  omega

/-- The digits of a number of a base up to sixteen are no control characters. -/
theorem not_isControl_of_mem_toDigits {b n : Nat} (hb : 1 < b) (hsixteen : b ≤ 16) {c : Char}
    (h : c ∈ Nat.toDigits b n) : isControl c = false := by
  have hdigit : ∀ d < 16, isControl (Nat.digitChar d) = false := by decide
  induction n using Nat.strongRecOn with
  | ind n ih =>
      by_cases hn : n < b
      · rw [Nat.toDigits_of_lt_base hn, List.mem_singleton] at h
        exact h ▸ hdigit n (by omega)
      · have hlt : n % b < b := Nat.mod_lt n (by omega)
        rw [Nat.toDigits_of_base_le hb (Nat.le_of_not_lt hn), List.mem_append,
          List.mem_singleton] at h
        rcases h with h | rfl
        · exact ih (n / b) (Nat.div_lt_self (by omega) hb) h
        · exact hdigit (n % b) (by omega)

theorem hasNoControls_repr (n : Nat) : HasNoControls n.repr := by
  intro c hc
  rw [Nat.toList_repr] at hc
  rw [← isControl_iff, not_isControl_of_mem_toDigits (by decide) (by decide) hc]
  exact Bool.false_ne_true

/-- The visible form of a character has no control characters. -/
theorem hasNoControls_visible (c : Char) : HasNoControls (visible c) := by
  unfold visible
  split
  · split
    · decide
    · decide
    · decide
    · intro d hd
      rw [String.toList_ofList, List.mem_append, List.mem_append] at hd
      rcases hd with (hd | hd) | hd
      · have hfront : HasNoControls "\\u\x7b" := by decide
        exact hfront d hd
      · rw [← isControl_iff, not_isControl_of_mem_toDigits (by decide) (by decide) hd]
        exact Bool.false_ne_true
      · have hback : HasNoControls "\x7d" := by decide
        exact hback d hd
  · rename_i hcontrol
    intro d hd
    rw [String.toList_singleton, List.mem_singleton] at hd
    rwa [hd, ← isControl_iff]

end FrontEnd
