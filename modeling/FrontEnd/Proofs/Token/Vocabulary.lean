import FrontEnd.Token.Vocabulary
import FrontEnd.Proofs.Text.Order
import Mathlib.Tactic.SplitIfs

/-!
# Finding reserved words

In a table in strictly ascending order, halving finds a word in a window exactly if it stands there:
every step leaves out only texts on one side of the middle, and the word is not one of them. The
order is that of the bytes, which is the one that halving compares by, and the reserved words are in
it. So a word is reserved exactly if it stands in the table, and that settles its kind.
-/

namespace FrontEnd.Vocabulary

variable {table : Array String} {word first rest : String} {k : Kind} {lo hi middle i j : Nat}

/-! ## Halving -/

/-- The texts of a table are in strictly ascending order of their bytes. -/
def Ascending (table : Array String) : Prop :=
  table.toList.Pairwise fun a b => textBytes a < textBytes b

instance (table : Array String) : Decidable (Ascending table) :=
  inferInstanceAs (Decidable (List.Pairwise _ _))

/-- A word stands in the window from `lo` up to `hi` of a table. -/
def InWindow (table : Array String) (word : String) (lo hi : Nat) : Prop :=
  ∃ i, lo ≤ i ∧ i < hi ∧ table[i]? = some word

namespace Ascending

theorem getElem_lt (h : Ascending table) (his : i < table.size) (hjs : j < table.size)
    (hij : i < j) : table[i] < table[j] :=
  textBytes_lt_iff.mp (List.pairwise_iff_getElem.mp h i j his hjs hij)

/-- Of two texts the lesser one stands in front. -/
theorem lt_of_getElem_lt (h : Ascending table) (his : i < table.size) (hjs : j < table.size)
    (hlt : table[i] < table[j]) : i < j := by
  rcases Nat.lt_trichotomy i j with hij | rfl | hji
  · exact hij
  · exact absurd hlt (String.lt_irrefl _)
  · exact absurd (h.getElem_lt hjs his hji) (String.lt_asymm hlt)

/-- A word less than the middle of a window stands in its lower part, if in it at all. -/
theorem inWindow_lower (h : Ascending table) (inside : middle < table.size) (hle : middle ≤ hi)
    (hlt : word < table[middle]) :
    InWindow table word lo middle ↔ InWindow table word lo hi := by
  constructor
  · rintro ⟨i, hlo, himid, hword⟩
    exact ⟨i, hlo, Nat.lt_of_lt_of_le himid hle, hword⟩
  · rintro ⟨i, hlo, _, hword⟩
    obtain ⟨his, rfl⟩ := Array.getElem?_eq_some_iff.mp hword
    exact ⟨i, hlo, h.lt_of_getElem_lt his inside hlt, hword⟩

/-- A word greater than the middle of a window stands in its upper part, if in it at all. -/
theorem inWindow_upper (h : Ascending table) (inside : middle < table.size) (hle : lo ≤ middle)
    (hgt : table[middle] < word) :
    InWindow table word (middle + 1) hi ↔ InWindow table word lo hi := by
  constructor
  · rintro ⟨i, hmid, hihi, hword⟩
    exact ⟨i, Nat.le_trans hle (Nat.le_of_succ_le hmid), hihi, hword⟩
  · rintro ⟨i, _, hihi, hword⟩
    obtain ⟨his, rfl⟩ := Array.getElem?_eq_some_iff.mp hword
    exact ⟨i, h.lt_of_getElem_lt inside his hgt, hihi, hword⟩

/-- Halving finds the words that stand in a window of an ascending table, and no other. -/
theorem search_iff (h : Ascending table) (bound : hi ≤ table.size) :
    search table word lo hi bound = true ↔ InWindow table word lo hi := by
  -- No step changes whether the word stands in what is left of the window.
  fun_induction search table word lo hi bound with
  | case1 lo hi bound window middle inside hlt ih =>
      rw [ih]
      exact h.inWindow_lower inside (by omega) (compareOfLessAndEq_eq_lt.mp hlt)
  | case2 lo hi bound window middle inside heq =>
      have hword : table[middle] = word := (Std.compare_eq_iff_eq.mp heq).symm
      simp only [true_iff]
      exact ⟨middle, by omega, by omega, Array.getElem?_eq_some_iff.mpr ⟨inside, hword⟩⟩
  | case3 lo hi bound window middle inside hgt ih =>
      have hswap : compare table[middle] word = .lt := Std.OrientedCmp.gt_iff_lt.mp hgt
      rw [ih]
      exact h.inWindow_upper inside (by omega) (compareOfLessAndEq_eq_lt.mp hswap)
  | case4 lo hi bound window =>
      simp only [Bool.false_eq_true, false_iff]
      rintro ⟨i, hlo, hihi, _⟩
      exact window (Nat.lt_of_le_of_lt hlo hihi)

end Ascending

/-! ## The reserved words -/

theorem ascending_words : Ascending words := by decide

/-- A word is reserved exactly if it stands in the table. -/
theorem isReserved_iff : isReserved word = true ↔ word ∈ words := by
  rw [isReserved, ascending_words.search_iff, Array.mem_iff_getElem?]
  constructor
  · rintro ⟨i, _, _, hword⟩
    exact ⟨i, hword⟩
  · rintro ⟨i, hword⟩
    obtain ⟨his, _⟩ := Array.getElem?_eq_some_iff.mp hword
    exact ⟨i, Nat.zero_le i, his, hword⟩

/-- The reserved words that begin with another one: the shorter word, and what stands behind it. -/
def nested : List (String × String) := [("fun", "ction"), ("in", "terface"), ("ref", "erence")]

theorem mem_nested_iff :
    (first, rest) ∈ nested ↔ rest ≠ "" ∧ first ∈ words ∧ first ++ rest ∈ words := by
  have hnested : ∀ p ∈ nested, p.2 ≠ "" ∧ p.1 ∈ words ∧ p.1 ++ p.2 ∈ words := by
    decide +kernel
  -- Both words stand in the table, so that it is enough to look at all pairs of its words.
  have hall : ∀ a ∈ words, ∀ b ∈ words, a.toList <+: b.toList →
      a = b ∨ ∃ p ∈ nested, p.1 = a ∧ p.1 ++ p.2 = b := by decide +kernel
  constructor
  · exact hnested (first, rest)
  · rintro ⟨hne, hfirst, hlong⟩
    have hprefix : first.toList <+: (first ++ rest).toList := by simp
    rcases hall first hfirst _ hlong hprefix with heq | ⟨p, hp, rfl, heq⟩
    · exact absurd ((String.append_right_inj first).mp (String.append_empty.trans heq)) hne.symm
    · rwa [← (String.append_right_inj p.1).mp heq]

/-! ## The kind of a word -/

/-- The words of the table that spell literals. -/
def literals : List String := ["null", "true", "false"]

/-- Which words are of a kind, by plain membership in the table. -/
def HasKind (word : String) : Kind → Prop
  | .nullLiteral => word = "null"
  | .boolTrue => word = "true"
  | .boolFalse => word = "false"
  | .keyword => word ∈ words ∧ word ∉ literals
  | .ident => word ∉ words
  | _ => False

/-- The kind of a word, by plain membership in the table. -/
def kindOf (word : String) : Kind :=
  if word = "null" then .nullLiteral
  else if word = "true" then .boolTrue
  else if word = "false" then .boolFalse
  else if word ∈ words then .keyword
  else .ident

theorem kindOf_mem (word : String) :
    kindOf word ∈ [.nullLiteral, .boolTrue, .boolFalse, .keyword, .ident] := by
  unfold kindOf
  split_ifs <;> decide

theorem mem_words_of_mem_literals (h : word ∈ literals) : word ∈ words := by
  have hall : ∀ w ∈ literals, w ∈ words := by decide +kernel
  exact hall word h

/-- Apart from the literals, a word is told by whether it is reserved. -/
theorem classify_of_not_mem_literals (h : word ∉ literals) :
    classify word = if isReserved word then .keyword else .ident := by
  unfold classify
  split
  · exact absurd (by decide) h
  · exact absurd (by decide) h
  · exact absurd (by decide) h
  · rfl

theorem hasKind_kindOf (word : String) : HasKind word (kindOf word) := by
  unfold kindOf
  split_ifs with hnull htrue hfalse hword
  · exact hnull
  · exact htrue
  · exact hfalse
  · exact ⟨hword, by simp [literals, hnull, htrue, hfalse]⟩
  · exact hword

theorem classify_of_hasKind (h : HasKind word k) : classify word = k := by
  unfold HasKind at h
  split at h
  · rw [h]; rfl
  · rw [h]; rfl
  · rw [h]; rfl
  · rw [classify_of_not_mem_literals h.2, if_pos (isReserved_iff.mpr h.1)]
  · have hword : ¬ isReserved word = true := mt isReserved_iff.mp h
    rw [classify_of_not_mem_literals (mt mem_words_of_mem_literals h), if_neg hword]
  · exact h.elim

/-- The kind of a word is the one that membership gives it. -/
theorem classify_eq_kindOf (word : String) : classify word = kindOf word :=
  classify_of_hasKind (hasKind_kindOf word)

theorem classify_eq_iff : classify word = k ↔ HasKind word k := by
  constructor
  · rintro rfl
    rw [classify_eq_kindOf]
    exact hasKind_kindOf word
  · exact classify_of_hasKind

theorem classify_ne_ident_iff : classify word ≠ .ident ↔ word ∈ words := by
  rw [ne_eq, classify_eq_iff, HasKind, Decidable.not_not]

/-- Halving agrees with plain membership: the table is in strictly ascending order of bytes, which
is the order of the comparison; the reserved words are, byte for byte, those of the table; and every
word has the one kind that membership gives it. In particular, what begins with a reserved word or
is the beginning of one is an identifier, but for the words nested in others. -/
theorem halving_agrees_membership :
    Ascending words ∧
      (∀ a b : String, compare a b = compareOfLessAndEq (textBytes a) (textBytes b)) ∧
      ∀ word : String,
        (isReserved word = true ↔ ∃ w ∈ words, textBytes w = textBytes word) ∧
        (∀ k, classify word = k ↔ HasKind word k) ∧
        ∀ rest,
          (rest ≠ "" ∧ word ∈ words ∧ classify (word ++ rest) ≠ .ident ↔ (word, rest) ∈ nested) ∧
          (rest ≠ "" ∧ word ++ rest ∈ words ∧ classify word ≠ .ident ↔
            (word, rest) ∈ nested) := by
  refine ⟨ascending_words, compare_eq_textBytes, fun word => ⟨?_, fun _ => classify_eq_iff,
    fun rest => ⟨?_, ?_⟩⟩⟩
  · simp only [isReserved_iff, textBytes_inj, exists_eq_right]
  · rw [classify_ne_ident_iff, mem_nested_iff]
  · rw [classify_ne_ident_iff, mem_nested_iff]
    exact and_congr_right fun _ => and_comm

end FrontEnd.Vocabulary
