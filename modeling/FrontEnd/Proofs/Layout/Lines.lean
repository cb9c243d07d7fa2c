import FrontEnd.Proofs.Layout.Basic
import FrontEnd.Proofs.Text.Position

/-!
# Layouts of whole lines

Only one lexeme ends with a newline, the newline itself, and no blank or comment does. So a layout
of whole lines ends with such a lexeme, and its cells fit whatever stands behind it: no word,
number, operator, literal or comment reaches over its last newline.
-/

namespace FrontEnd

/-- Behind a newline no fraction goes on. -/
theorem startsFraction_append {cs : List Char} (h : cs.getLast? = some '\n')
    (after : List Char) : startsFraction (cs ++ after) = startsFraction cs := by
  rcases cs with - | ⟨c, - | ⟨d, cs⟩⟩
  · cases h
  · cases h
    rfl
  · by_cases hc : c = '.'
    · rw [hc]
      rfl
    · simp [startsFraction, hc]

/-- There is no newline in a number. -/
theorem Spelling.newline_not_mem_number {whole : List Char} {fraction : Option (List Char)}
    {exponent : Option Exponent} (hv : (number whole fraction exponent).Valid) :
    '\n' ∉ (number whole fraction exponent).chars := by
  obtain ⟨hw, hf, he⟩ := hv
  simp only [chars, List.mem_append, not_or]
  refine ⟨⟨fun h => ?_, fun h => ?_⟩, fun h => ?_⟩
  · cases hw.2 _ h
  · cases fraction with
    | none => cases h
    | some digits =>
        rcases List.mem_cons.mp h with h | h
        · cases h
        · cases (hf digits rfl).2 _ h
  · cases exponent with
    | none => cases h
    | some e =>
        obtain ⟨⟨hm, hs⟩, hd⟩ := he e rfl
        simp only [exponentChars, Exponent.chars, Exponent.lead, List.cons_append, List.mem_cons,
          List.mem_append, Option.mem_toList] at h
        rcases h with h | h | h
        · rw [← h] at hm
          exact absurd hm (by decide)
        · rw [h] at hs
          exact absurd hs (by decide)
        · cases hd.2 _ h

/-- Only a newline is spelled with a newline at its end. -/
theorem Spelling.eq_linebreak {s : Spelling} (hv : s.Valid) (hl : s.chars.getLast? = some '\n') :
    s = .symbol ⟨.linebreak, ['\n'], []⟩ := by
  cases s with
  | symbol s =>
      have h : ∀ s ∈ symbols, s.chars.getLast? = some '\n' → s = ⟨.linebreak, ['\n'], []⟩ := by
        decide
      rw [h s hv hl]
  | word first rest =>
      rcases List.mem_cons.mp (List.mem_of_getLast? hl) with h | h
      · have hf := hv.1
        rw [← h] at hf
        cases hf
      · have hr := hv.2 '\n' h
        cases hr
  | number whole fraction exponent =>
      exact absurd (List.mem_of_getLast? hl) (newline_not_mem_number hv)
  | string glyphs =>
      rw [chars, List.getLast?_concat] at hl
      cases hl
  | char glyph =>
      rw [chars, List.getLast?_concat] at hl
      cases hl

/-- No blank or comment is written with a newline at its end. -/
theorem Trivia.getLast?_chars {t : Trivia} (hv : t.Valid) : t.chars.getLast? ≠ some '\n' := by
  intro hl
  cases t with
  | blank c =>
      cases hl
      exact absurd hv (by decide)
  | lineComment body =>
      rcases List.mem_cons.mp (List.mem_of_getLast? hl) with h | h
      · cases h
      · rcases List.mem_cons.mp h with h | h
        · cases h
        · exact hv h
  | blockComment body =>
      rw [chars, List.getLast?_append] at hl
      cases hl

/-- No gap is written with a newline at its end. -/
theorem getLast?_gapChars {gap : List Trivia} {after : List Char} (hg : GapFits gap after) :
    (gapChars gap).getLast? ≠ some '\n' := by
  induction gap with
  | nil => simp
  | cons t gap ih =>
      obtain ⟨hv, -, hg⟩ := hg
      have ht := Trivia.getLast?_chars hv
      rw [gapChars_cons, List.getLast?_append]
      cases hl : (gapChars gap).getLast? with
      | none => simpa using ht
      | some c =>
          rw [hl] at ih
          simpa using ih hg

/-- A gap in whole lines is empty at the end of them. -/
theorem gapChars_eq_nil {cs : List Char} {gap : List Trivia} {after : List Char}
    (hw : WholeLines (cs ++ gapChars gap)) (hg : GapFits gap after) : gapChars gap = [] := by
  rcases hw.of_append with h | h
  · exact h
  · exact absurd h (getLast?_gapChars hg)

/-- Blanks and comments fit all texts that start with the same character. -/
theorem GapFits.of_head?_eq {gap : List Trivia} {as bs : List Char} (h : GapFits gap as)
    (he : as.head? = bs.head?) : GapFits gap bs := by
  induction gap with
  | nil => trivial
  | cons t gap ih =>
      obtain ⟨hv, ha, hg⟩ := h
      refine ⟨hv, ?_, ih hg⟩
      cases t with
      | lineComment body =>
          have hhead : (gapChars gap ++ as).head? = (gapChars gap ++ bs).head? := by
            rw [List.head?_append, List.head?_append, he]
          rw [Trivia.Apart, startsWith, ← hhead]
          exact ha
      | blank c => trivial
      | blockComment body => trivial

/-- A gap that fits some text fits it with more text behind it. -/
theorem GapFits.append {gap : List Trivia} {cs : List Char} (h : GapFits gap cs) (hne : cs ≠ [])
    (after : List Char) : GapFits gap (cs ++ after) := by
  obtain ⟨c, cs, rfl⟩ := List.exists_cons_of_ne_nil hne
  exact h.of_head?_eq rfl

/-- A lexeme that ends in front of whole lines ends in front of them also with more text behind
them. -/
theorem Spelling.Apart.append {s : Spelling} {cs : List Char} (h : s.Apart cs)
    (hl : cs.getLast? = some '\n') (after : List Char) : s.Apart (cs ++ after) := by
  have hne : cs ≠ [] := by
    rintro rfl
    cases hl
  have hstart := fun p => startsWith_append_of_ne_nil hne p after
  cases s with
  | symbol s => exact (hstart _).trans h
  | word first rest => exact (hstart _).trans h
  | number whole fraction exponent =>
      obtain ⟨hd, he, hf⟩ := h
      refine ⟨(hstart _).trans hd, fun hn => (hstart _).trans (he hn), fun hw hn => ?_⟩
      rw [startsFraction_append hl]
      exact hf hw hn
  | string glyphs => trivial
  | char glyph => trivial

/-- The cells of whole lines fit any text behind them. -/
theorem CellsFit.of_wholeLines {cells : List Cell} (hc : CellsFit cells [])
    (hw : WholeLines (cellsChars cells)) (after : List Char) : CellsFit cells after := by
  induction cells with
  | nil => trivial
  | cons c cells ih =>
      obtain ⟨⟨hg, hv, ha⟩, hcs⟩ := hc
      have hne := Spelling.chars_ne_nil hv
      rw [List.append_nil] at hg ha
      rw [cellsChars_cons] at hw
      refine ⟨⟨?_, hv, ?_⟩, ih hcs hw.of_append.of_append⟩
      · rw [← List.append_assoc]
        exact hg.append (by simp [hne]) after
      · rcases hw.of_append.of_append with hnil | hlast
        · have hs : c.spelling = .symbol ⟨.linebreak, ['\n'], []⟩ := by
            rw [hnil, List.append_nil] at hw
            exact Spelling.eq_linebreak hv (hw.of_append.resolve_left hne)
          rw [hs, hnil, List.nil_append]
          cases after <;> rfl
        · exact ha.append hlast after

end FrontEnd
