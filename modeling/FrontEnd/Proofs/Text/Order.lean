import Mathlib.Data.List.Basic
import Mathlib.Tactic.SplitIfs

/-!
# The order of texts

Texts are ordered by their code points, character by character. The bytes of a text are in the same
order: a character with a smaller code point has a smaller first byte, or the same one and smaller
bytes behind it.
-/

namespace FrontEnd

/-- Bytes come before others if the first one is not greater, and, where it is the same, the bytes
behind it come before the others' bytes. -/
theorem byte_cons_lt_cons {m n : Nat} {xs ys : List UInt8} (hle : m ≤ n) (hn : n < 256)
    (hrest : m = n → xs < ys) : UInt8.ofNat m :: xs < UInt8.ofNat n :: ys := by
  rw [List.cons_lt_cons_iff]
  rcases Nat.eq_or_lt_of_le hle with heq | hlt
  · exact Or.inr ⟨congrArg UInt8.ofNat heq, hrest heq⟩
  · left
    rw [UInt8.lt_iff_toNat_lt, UInt8.toNat_ofNat', UInt8.toNat_ofNat', Nat.mod_eq_of_lt hn,
      Nat.mod_eq_of_lt (Nat.lt_trans hlt hn)]
    exact hlt

theorem val_toNat_lt (c : Char) : c.val.toNat < 0x110000 := by
  rcases c.valid with h | ⟨_, h⟩ <;> omega

/-- The bytes of a character come before those of a greater one, whatever stands behind them. -/
theorem utf8EncodeChar_append_lt {c d : Char} (h : c < d) (xs ys : List UInt8) :
    String.utf8EncodeChar c ++ xs < String.utf8EncodeChar d ++ ys := by
  have hlt : c.val.toNat < d.val.toNat := h
  have hd := val_toNat_lt d
  unfold String.utf8EncodeChar
  generalize c.val.toNat = v at *
  generalize d.val.toNat = w at *
  dsimp only
  -- One case for every pair of lengths. The bytes are compared one by one, until they differ.
  split_ifs
  all_goals try omega
  all_goals refine byte_cons_lt_cons (by omega) (by omega) fun h₁ => ?_
  all_goals try omega
  all_goals refine byte_cons_lt_cons (by omega) (by omega) fun h₂ => ?_
  all_goals try omega
  all_goals refine byte_cons_lt_cons (by omega) (by omega) fun h₃ => ?_
  all_goals try omega
  all_goals refine byte_cons_lt_cons (by omega) (by omega) fun h₄ => ?_
  all_goals omega

theorem toList_utf8Encode_cons (c : Char) (cs : List Char) :
    (c :: cs).utf8Encode.data.toList = String.utf8EncodeChar c ++ cs.utf8Encode.data.toList := by
  rw [List.utf8Encode_cons, List.utf8Encode_singleton, ByteArray.data_append,
    Array.toList_append, List.data_toByteArray]

theorem utf8Encode_lt {cs ds : List Char} (h : cs < ds) :
    cs.utf8Encode.data.toList < ds.utf8Encode.data.toList := by
  induction cs generalizing ds with
  | nil =>
      cases ds with
      | nil => exact absurd h (List.lt_irrefl [])
      | cons d ds =>
          obtain ⟨b, bs, hb⟩ := List.exists_cons_of_ne_nil (String.utf8EncodeChar_ne_nil (c := d))
          rw [toList_utf8Encode_cons, hb, List.cons_append]
          exact List.nil_lt_cons _ _
  | cons c cs ih =>
      cases ds with
      | nil => exact absurd h (List.not_lt_nil _)
      | cons d ds =>
          rw [toList_utf8Encode_cons, toList_utf8Encode_cons]
          rcases List.cons_lt_cons_iff.mp h with hc | ⟨rfl, hcs⟩
          · exact utf8EncodeChar_append_lt hc _ _
          · exact List.append_left_lt (ih hcs)

/-- The bytes of a text, as a list. -/
def textBytes (s : String) : List UInt8 := s.toUTF8.data.toList

theorem textBytes_lt {a b : String} (h : a < b) : textBytes a < textBytes b := by
  have hbytes := utf8Encode_lt (String.lt_iff.mp h)
  rwa [String.utf8Encode_toList, String.utf8Encode_toList] at hbytes

/-- Texts are in the order of their bytes. -/
theorem textBytes_le_iff {a b : String} : textBytes a ≤ textBytes b ↔ a ≤ b := by
  constructor
  · intro h
    apply String.not_lt.mp
    intro hlt
    exact List.not_lt.mpr h (textBytes_lt hlt)
  · intro h
    apply List.not_lt.mp
    intro hlt
    by_cases hab : a < b
    · exact List.lt_asymm hlt (textBytes_lt hab)
    · rw [String.le_antisymm h (String.not_lt.mp hab)] at hlt
      exact List.lt_irrefl _ hlt

theorem textBytes_lt_iff {a b : String} : textBytes a < textBytes b ↔ a < b := by
  rw [← List.not_le, ← String.not_le, textBytes_le_iff]

/-- A text is told by its bytes. -/
theorem textBytes_inj {a b : String} : textBytes a = textBytes b ↔ a = b := by
  constructor
  · intro h
    apply String.le_antisymm
    · exact textBytes_le_iff.mp (h ▸ List.le_refl _)
    · exact textBytes_le_iff.mp (h ▸ List.le_refl _)
  · rintro rfl
    rfl

/-- Texts are compared as their bytes are. -/
theorem compare_eq_textBytes (a b : String) :
    compare a b = compareOfLessAndEq (textBytes a) (textBytes b) := by
  change compareOfLessAndEq a b = _
  simp only [compareOfLessAndEq, textBytes_lt_iff, textBytes_inj]

end FrontEnd
