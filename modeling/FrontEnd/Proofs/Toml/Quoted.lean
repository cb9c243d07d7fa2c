import FrontEnd.Proofs.Text.Reader
import FrontEnd.Proofs.Toml.Lines
import Mathlib.Tactic.SplitIfs

/-!
# Reading TOML strings back

Every text is written in a form that can hold it, and every form that can hold a text is read back
as the text.
-/

namespace FrontEnd.Toml

/-- Whether a text can be written in a form: the basic forms hold every text, the literal ones
neither controls nor quotes that would close them. -/
def Form.Holds : Form → List Char → Prop
  | basic, _ => True
  | literal, cs => ∀ c ∈ cs, isPrintable c = true ∧ c ≠ '\''
  | basicLines, _ => True
  | literalLines, cs =>
    (∀ c ∈ cs, c = '\n' ∨ isPrintable c = true) ∧ longestRun '\'' cs ≤ 2

/-- Characters other than line feeds that need no escape can stand as they are. -/
theorem isPrintable_of_needsEscape {c : Char} (hc : needsEscape c = false) :
    c = '\n' ∨ isPrintable c = true := by
  rw [needsEscape, Bool.or_eq_false_iff] at hc
  obtain ⟨hlow, hdelete⟩ := hc
  by_cases hn : c = '\n'
  · exact Or.inl hn
  · by_cases ht : c = '\t'
    · exact Or.inr (by simp [isPrintable, ht])
    · have hle : ' ' ≤ c := by simpa [hn, ht] using hlow
      exact Or.inr (by simp_all [isPrintable])

/-- A text with a character has a run of it. -/
theorem longestRunFrom_ne_zero {q : Char} {cs : List Char} (hq : q ∈ cs) (run : Nat) :
    longestRunFrom q run cs ≠ 0 := by
  induction cs generalizing run with
  | nil => cases hq
  | cons c cs ih =>
      rw [longestRunFrom]
      split
      · have h := le_longestRunFrom q (run + 1) cs
        omega
      · rename_i hc
        have h := ih ((List.mem_cons.mp hq).resolve_left (Ne.symm hc)) 0
        omega

/-- The form in which a text is written can hold it. -/
theorem formOf_holds (cs : List Char) : (formOf cs).Holds cs := by
  have hp : cs.any needsEscape = false → ∀ c ∈ cs, c = '\n' ∨ isPrintable c = true := by
    intro h c hc
    rw [List.any_eq_false] at h
    exact isPrintable_of_needsEscape (Bool.eq_false_iff.mpr (h c hc))
  simp only [formOf]
  split_ifs with h₁ h₂ h₃ h₄ h₅
  · trivial
  · simp only [Bool.and_eq_true, Bool.not_eq_true', decide_eq_true_eq] at h₂
    obtain ⟨⟨hcontrol, hsingle⟩, hnewline⟩ := h₂
    intro c hc
    constructor
    · refine (hp hcontrol c hc).resolve_left ?_
      rintro rfl
      simp [hc] at hnewline
    · rintro rfl
      exact longestRunFrom_ne_zero hc 0 hsingle
  · trivial
  · simp only [Bool.and_eq_true, Bool.not_eq_true', decide_eq_true_eq] at h₄
    exact ⟨hp h₄.1, h₄.2⟩
  · trivial
  · trivial

/-- Text that starts with a character that can stand in a line starts with no line break. -/
theorem lineBreak_cons {c : Char} (hp : isPrintable c = true) (rest : List Char) :
    lineBreak (c :: rest) = 0 := by
  obtain ⟨hn, hr⟩ := ne_lineBreak_of_isPrintable hp
  unfold lineBreak
  split <;> simp_all

/-- The line break behind opening quotes is there exactly for a text that could start with one. -/
theorem lineBreak_leadingBreak {cs body : List Char} (hb : '\n' ∉ cs → lineBreak body = 0) :
    lineBreak (leadingBreak cs ++ body) = (leadingBreak cs).length := by
  unfold leadingBreak
  split
  · rfl
  · rename_i h
    exact hb (by simpa using h)

theorem startsWith_quote {mark : Char} (hm : mark ∈ ['"', '\'']) {after : List Char}
    (ha : startsWith (['"', '\''].contains ·) after = false) :
    startsWith (· == mark) after = false := by
  cases after with
  | nil => rfl
  | cons c rest =>
      rw [startsWith_cons] at ha ⊢
      rw [beq_eq_false_iff_ne]
      rintro rfl
      simp_all

/-- A quote starts a string on one line unless two more quotes follow. -/
theorem string_eq_lineString {mark : Char} {rest : List Char} (hr : ¬ [mark, mark] <+: rest) :
    string (mark :: rest) = lineString (mark :: rest) := by
  rw [string]
  · rintro tail h
    simp_all
  · rintro tail h
    simp_all

/-- Between quotes on one line no two quotes stand right behind the opening one. -/
theorem not_double_prefix {mark : Char} {body after : List Char}
    (hb : startsWith (· == mark) body = false) (ha : startsWith (· == mark) after = false) :
    ¬ [mark, mark] <+: body ++ mark :: after := by
  cases body with
  | nil =>
      rw [List.nil_append, List.cons_prefix_cons]
      rintro ⟨-, h⟩
      exact not_prefix_of_startsWith ha [] h
  | cons c body =>
      have h : startsWith (· == mark) (c :: body ++ mark :: after) = false := hb
      exact not_prefix_of_startsWith h [mark]

theorem reads_basic (cs : List Char) {after : List Char}
    (ha : startsWith (['"', '\''].contains ·) after = false) :
    Reader.Reads string (quotedAs .basic cs) cs after := by
  have hb : startsWith (· == '"') (cs.flatMap escapedInLine) = false := by
    cases cs with
    | nil => rfl
    | cons c cs =>
        rcases escapedInLine_cases c with ⟨h, -, hq, -⟩ | ⟨e, h, -⟩
        · simp [h, hq]
        · simp [h]
  have hr := not_double_prefix hb (startsWith_quote (by simp) ha)
  have hl : quotedAs .basic cs ++ after = '"' :: (cs.flatMap escapedInLine ++ '"' :: after) := by
    simp [quotedAs]
  rw [Reader.Reads, hl, string_eq_lineString hr, lineString, basicFrom_chars]
  simp [quotedAs]
  omega

theorem reads_literal {cs : List Char} (hc : Form.literal.Holds cs) {after : List Char}
    (ha : startsWith (['"', '\''].contains ·) after = false) :
    Reader.Reads string (quotedAs .literal cs) cs after := by
  have hb : startsWith (· == '\'') cs = false := by
    cases cs with
    | nil => rfl
    | cons c cs => simpa using (hc c List.mem_cons_self).2
  have hr := not_double_prefix hb (startsWith_quote (by simp) ha)
  have hl : quotedAs .literal cs ++ after = '\'' :: (cs ++ '\'' :: after) := by
    simp [quotedAs]
  rw [Reader.Reads, hl, string_eq_lineString hr, lineString, literalFrom_chars hc]
  simp [quotedAs]
  omega

theorem reads_basicLines (cs : List Char) {after : List Char}
    (ha : startsWith (['"', '\''].contains ·) after = false) :
    Reader.Reads string (quotedAs .basicLines cs) cs after := by
  have hb : '\n' ∉ cs →
      lineBreak (escapedInLines 0 cs ++ '"' :: '"' :: '"' :: after) = 0 := by
    intro hn
    cases cs with
    | nil => exact lineBreak_cons rfl _
    | cons c cs =>
        rcases escapedInLines_cons 0 c cs with ⟨-, -, h⟩ | ⟨s, hs, h⟩
        · rw [h]
          exact lineBreak_cons rfl _
        · obtain ⟨d, tail, rfl, -, hd⟩ := hs.head
          rw [h]
          exact lineBreak_cons (hd (List.ne_of_not_mem_cons hn).symm) _
  have hread := basicLinesFrom_chars cs (startsWith_quote (by simp) ha) (Nat.zero_le 2) []
    (3 + (leadingBreak cs).length)
  have hl : quotedAs .basicLines cs ++ after = '"' :: '"' :: '"' :: (leadingBreak cs ++
      (escapedInLines 0 cs ++ '"' :: '"' :: '"' :: after)) := by
    simp [quotedAs]
  rw [Reader.Reads, hl, string, lineBreak_leadingBreak hb, List.drop_left]
  refine hread.trans ?_
  simp [quotedAs]
  omega

theorem reads_literalLines {cs : List Char} (hc : Form.literalLines.Holds cs) {after : List Char}
    (ha : startsWith (['"', '\''].contains ·) after = false) :
    Reader.Reads string (quotedAs .literalLines cs) cs after := by
  obtain ⟨hp, hruns⟩ := hc
  have hb : '\n' ∉ cs → lineBreak (cs ++ '\'' :: '\'' :: '\'' :: after) = 0 := by
    intro hn
    cases cs with
    | nil => exact lineBreak_cons rfl _
    | cons c cs =>
        refine lineBreak_cons ((hp c List.mem_cons_self).resolve_left ?_) _
        exact (List.ne_of_not_mem_cons hn).symm
  have hread := literalLinesFrom_chars hp (startsWith_quote (by simp) ha) hruns []
    (3 + (leadingBreak cs).length)
  have hl : quotedAs .literalLines cs ++ after = '\'' :: '\'' :: '\'' :: (leadingBreak cs ++
      (cs ++ '\'' :: '\'' :: '\'' :: after)) := by
    simp [quotedAs]
  rw [Reader.Reads, hl, string, lineBreak_leadingBreak hb, List.drop_left]
  refine hread.trans ?_
  simp [quotedAs]
  omega

/-- A text that is written in a form which can hold it is read back, in front of any text that
starts with no quote. -/
theorem reads_quotedAs {form : Form} {cs : List Char} (h : form.Holds cs) {after : List Char}
    (ha : startsWith (['"', '\''].contains ·) after = false) :
    Reader.Reads string (quotedAs form cs) cs after := by
  cases form with
  | basic => exact reads_basic cs ha
  | literal => exact reads_literal h ha
  | basicLines => exact reads_basicLines cs ha
  | literalLines => exact reads_literalLines h ha

/-- Every text is read back as it is written. -/
theorem reads_quoted (cs : List Char) {after : List Char}
    (ha : startsWith (['"', '\''].contains ·) after = false) :
    Reader.Reads string (quoted cs) cs after :=
  reads_quotedAs (formOf_holds cs) ha

end FrontEnd.Toml
