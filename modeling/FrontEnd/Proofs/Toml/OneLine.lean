import FrontEnd.Toml.Quoted
import FrontEnd.Toml.Writing
import FrontEnd.Proofs.Text.Digits

/-!
# TOML strings on one line

Every character of a basic string is written as itself or as an escape that is read back as the
character. A literal string has characters as they are.
-/

namespace FrontEnd.Toml

/-- The characters behind a backslash that are read back as `c`, and cannot be taken for the rest
of a line. -/
def Escapes (e : List Char) (c : Char) : Prop :=
  ∀ after, escape? (e ++ after) = some (c, e.length) ∧ endsLine (e ++ after) = false

theorem ofCode?_toNat (c : Char) : ofCode? c.toNat = some c := by
  have hc : c.toNat.isValidChar := c.valid
  rw [ofCode?, dif_pos hc]
  rfl

/-- A one-letter escape is read back. -/
theorem escapes_letter {letter c : Char} (h : unescape? letter = some c) :
    Escapes [letter] c := by
  intro after
  unfold unescape? at h
  split at h <;> cases h <;> simp [escape?, unescape?, endsLine, isBlank, lineBreak]

/-- An escape with a code point is read back. -/
theorem escapes_code {c : Char} (hc : c.toNat < 65536) :
    Escapes ('u' :: Digits.hexUpper 4 c.toNat) c := by
  intro after
  have hn := Digits.number?_hexUpper hc
  obtain ⟨x, y, z, w, h⟩ : ∃ x y z w, Digits.hexUpper 4 c.toNat = [x, y, z, w] :=
    ⟨_, _, _, _, rfl⟩
  rw [h] at hn ⊢
  constructor
  · simp [escape?, hn, ofCode?_toNat]
  · simp [endsLine, isBlank, lineBreak]

/-- A character stands in a basic string as itself or as an escape. -/
theorem escaped_cases (c : Char) (hq : c ≠ '"') (hn : c ≠ '\n') :
    (escaped c = [c] ∧ isPrintable c = true ∧ c ≠ '\\') ∨
      ∃ e, escaped c = '\\' :: e ∧ Escapes e c := by
  unfold escaped
  split
  · exact Or.inr ⟨_, rfl, escapes_letter rfl⟩
  · exact Or.inr ⟨_, rfl, escapes_letter rfl⟩
  · exact Or.inr ⟨_, rfl, escapes_letter rfl⟩
  · exact Or.inr ⟨_, rfl, escapes_letter rfl⟩
  · exact Or.inr ⟨_, rfl, escapes_letter rfl⟩
  · rename_i h₁ h₂ h₃ h₄ h₅
    by_cases hc : c < ' ' ∨ c = '\x7f'
    · rw [if_pos hc]
      refine Or.inr ⟨_, rfl, escapes_code ?_⟩
      rcases hc with hc | rfl
      · exact Nat.lt_trans (Char.lt_def.mp hc) (by decide)
      · decide
    · rw [if_neg hc]
      rw [not_or, Char.not_lt] at hc
      exact Or.inl ⟨rfl, by simp [isPrintable, hc], h₅⟩

/-- A character stands in a basic string on one line as itself, unless it is a quote, or as an
escape. -/
theorem escapedInLine_cases (c : Char) :
    (escapedInLine c = [c] ∧ isPrintable c = true ∧ c ≠ '"' ∧ c ≠ '\\') ∨
      ∃ e, escapedInLine c = '\\' :: e ∧ Escapes e c := by
  unfold escapedInLine
  split
  · exact Or.inr ⟨_, rfl, escapes_letter rfl⟩
  · exact Or.inr ⟨_, rfl, escapes_letter rfl⟩
  · rename_i hq hn
    rcases escaped_cases c hq hn with ⟨h, hp, hb⟩ | h
    · exact Or.inl ⟨h, hp, hq, hb⟩
    · exact Or.inr h

/-- A basic string goes on behind a character that stands for itself. -/
theorem basicFrom_plain {c : Char} (hp : isPrintable c = true) (hq : c ≠ '"') (hb : c ≠ '\\')
    (done : List Char) (taken : Nat) (rest : List Char) :
    basicFrom done taken (c :: rest) = basicFrom (c :: done) (taken + 1) rest := by
  rw [basicFrom]
  · rw [if_pos hp]
  · exact hq
  · exact hb

/-- A basic string goes on behind an escape. -/
theorem basicFrom_escape {e : List Char} {c : Char} (he : Escapes e c) (done : List Char)
    (taken : Nat) (rest : List Char) :
    basicFrom done taken ('\\' :: (e ++ rest)) =
      basicFrom (c :: done) (taken + 1 + e.length) rest := by
  rw [basicFrom, (he rest).1]
  simp only [List.drop_left]

/-- A basic string on one line is read back. -/
theorem basicFrom_chars (cs after done : List Char) (taken : Nat) :
    basicFrom done taken (cs.flatMap escapedInLine ++ '"' :: after) =
      some (done.reverse ++ cs, taken + (cs.flatMap escapedInLine).length + 1) := by
  induction cs generalizing done taken with
  | nil => simp [basicFrom]
  | cons c cs ih =>
      rcases escapedInLine_cases c with ⟨h, hp, hq, hb⟩ | ⟨e, h, he⟩
      · rw [List.flatMap_cons, h, List.singleton_append, List.cons_append,
          basicFrom_plain hp hq hb, ih]
        simp
        omega
      · rw [List.flatMap_cons, h, List.append_assoc, List.cons_append, basicFrom_escape he, ih]
        simp
        omega

/-- A literal string on one line is read back. -/
theorem literalFrom_chars {cs : List Char} (hc : ∀ c ∈ cs, isPrintable c = true ∧ c ≠ '\'')
    (after done : List Char) (taken : Nat) :
    literalFrom done taken (cs ++ '\'' :: after) =
      some (done.reverse ++ cs, taken + cs.length + 1) := by
  induction cs generalizing done taken with
  | nil => simp [literalFrom]
  | cons c cs ih =>
      obtain ⟨hp, hq⟩ := hc c List.mem_cons_self
      rw [List.cons_append, literalFrom, if_pos hp, ih fun d hd => hc d (List.mem_cons_of_mem c hd)]
      · simp
        omega
      · exact hq

end FrontEnd.Toml
