import FrontEnd.Proofs.Layout.Lines
import FrontEnd.Proofs.Text.CarriageReturns

/-!
# Layouts with carriage returns

With a carriage return in front of every newline, a layout stays one. A block comment takes the
carriage returns into its body, and a line comment the one in front of the newline that ends it. In
front of any other newline the carriage return is one more blank. The lexemes stay the same, unless
a literal goes over several lines.
-/

namespace FrontEnd

/-! ## Gaps -/

/-- A blank or a comment with a carriage return in front of every newline, which only a block
comment can hold. -/
def Trivia.withReturns : Trivia → Trivia
  | blank c => .blank c
  | lineComment body => .lineComment body
  | blockComment body => .blockComment (FrontEnd.withReturns body)

theorem Trivia.Valid.ne_newline {c : Char} (hv : (blank c).Valid) : c ≠ '\n' := by
  rintro rfl
  exact absurd hv (by decide)

theorem Trivia.chars_withReturns {t : Trivia} (hv : t.Valid) :
    t.withReturns.chars = FrontEnd.withReturns t.chars := by
  cases t with
  | blank c =>
      have hchars : '\n' ∉ chars (.blank c) :=
        fun hm => hv.ne_newline (List.mem_singleton.mp hm).symm
      exact (withReturns_of_not_mem hchars).symm
  | lineComment body =>
      have hbody : '\n' ∉ body := hv
      have hchars : '\n' ∉ chars (.lineComment body) := by simp [chars, hbody]
      exact (withReturns_of_not_mem hchars).symm
  | blockComment body =>
      calc '/' :: '*' :: FrontEnd.withReturns body ++ ['*', '/']
        _ = FrontEnd.withReturns ['/', '*'] ++ FrontEnd.withReturns body ++
            FrontEnd.withReturns ['*', '/'] := rfl
        _ = FrontEnd.withReturns (['/', '*'] ++ body ++ ['*', '/']) := by
          rw [withReturns_append, withReturns_append]

theorem Trivia.Valid.withReturns {t : Trivia} (hv : t.Valid) : t.withReturns.Valid := by
  cases t with
  | blank c => exact hv
  | lineComment body => exact hv
  | blockComment body => exact fun h => hv (endMark_of_withReturns h)

/-- A gap still starts with the same character. -/
theorem head?_gapChars_withReturns (gap : List Trivia) (after : List Char) :
    (gapChars (gap.map Trivia.withReturns) ++ after).head? = (gapChars gap ++ after).head? := by
  cases gap with
  | nil => rfl
  | cons t gap => cases t <;> rfl

theorem GapFits.withReturns {gap : List Trivia} {after : List Char} (h : GapFits gap after) :
    GapFits (gap.map Trivia.withReturns) after := by
  induction gap with
  | nil => trivial
  | cons t gap ih =>
      obtain ⟨hv, ha, hg⟩ := h
      refine ⟨hv.withReturns, ?_, ih hg⟩
      cases t with
      | lineComment body =>
          rw [Trivia.withReturns, Trivia.Apart, startsWith, head?_gapChars_withReturns]
          exact ha
      | blank c => trivial
      | blockComment body => trivial

theorem gapChars_withReturns {gap : List Trivia} {after : List Char} (h : GapFits gap after) :
    gapChars (gap.map Trivia.withReturns) = withReturns (gapChars gap) := by
  induction gap with
  | nil => rfl
  | cons t gap ih =>
      obtain ⟨hv, -, hg⟩ := h
      rw [List.map_cons, gapChars_cons, gapChars_cons, withReturns_append, ih hg,
        Trivia.chars_withReturns hv]

/-- A gap with a carriage return behind it, which belongs to the line comment at the end of the gap
or else is a blank. -/
def endReturn : List Trivia → List Trivia
  | [] => [.blank '\r']
  | [.lineComment body] => [.lineComment (body ++ ['\r'])]
  | t :: gap => t :: endReturn gap

theorem gapChars_endReturn (gap : List Trivia) :
    gapChars (endReturn gap) = gapChars gap ++ ['\r'] := by
  fun_induction endReturn gap with
  | case1 => rfl
  | case2 body => simp [Trivia.chars]
  | case3 t gap _ ih => rw [gapChars_cons, gapChars_cons, ih, List.append_assoc]

/-- In front of a newline, a gap fits with a carriage return behind it. -/
theorem GapFits.endReturn {gap : List Trivia} {rest : List Char}
    (h : GapFits gap ('\n' :: rest)) : GapFits (endReturn gap) ('\n' :: rest) := by
  fun_induction FrontEnd.endReturn gap with
  | case1 => exact ⟨by decide, trivial, trivial⟩
  | case2 body =>
      obtain ⟨hv, -, -⟩ := h
      have hbody : '\n' ∉ body := hv
      have hv' : (Trivia.lineComment (body ++ ['\r'])).Valid := by simp [Trivia.Valid, hbody]
      exact ⟨hv', rfl, trivial⟩
  | case3 t gap hlast ih =>
      obtain ⟨hv, ha, hg⟩ := h
      refine ⟨hv, ?_, ih hg⟩
      cases t with
      | lineComment body =>
          -- A newline or the end of the text ends a line comment, and no other piece starts so.
          cases gap with
          | nil => exact absurd rfl (hlast body rfl)
          | cons u gap =>
              cases u with
              | blank c =>
                  have hc : c = '\n' := by simpa [Trivia.Apart, Trivia.chars] using ha
                  exact absurd hc hg.1.ne_newline
              | lineComment | blockComment => cases ha
      | blank c => trivial
      | blockComment body => trivial

/-! ## Lexemes -/

theorem startsFraction_withReturns (cs : List Char) :
    startsFraction (withReturns cs) = startsFraction cs := by
  cases cs with
  | nil => rfl
  | cons c cs =>
      by_cases hc : c = '.'
      · rw [hc, withReturns_cons (by decide)]
        exact startsWith_withReturns rfl cs
      · by_cases hn : c = '\n'
        · rw [hn]
          rfl
        · rw [withReturns_cons hn]
          simp [startsFraction, hc]

namespace Spelling

/-- Only a newline has the kind of one. -/
theorem eq_linebreak_of_kind {s : Spelling} (hv : s.Valid) (hk : s.kind = .linebreak) :
    s = .symbol ⟨.linebreak, ['\n'], []⟩ := by
  cases s with
  | symbol s =>
      have h : ∀ s ∈ symbols, s.kind = .linebreak → s = ⟨.linebreak, ['\n'], []⟩ := by decide
      rw [h s hv hk]
  | word first rest =>
      have hword := Vocabulary.kindOf_mem (String.ofList (first :: rest))
      rw [kind] at hk
      rw [hk] at hword
      exact absurd hword (by decide)
  | number => cases hk
  | string => cases hk
  | char => cases hk

/-- Whether a lexeme is a literal. -/
def IsLiteral (s : Spelling) : Prop := s.kind ∈ [.string, .char]

instance (s : Spelling) : Decidable s.IsLiteral := inferInstanceAs (Decidable (s.kind ∈ _))

/-- A lexeme that is neither a newline nor a literal holds no newline. -/
theorem newline_not_mem {s : Spelling} (hv : s.Valid) (hk : s.kind ≠ .linebreak)
    (hq : s.IsLiteral → '\n' ∉ s.chars) : '\n' ∉ s.chars := by
  cases s with
  | symbol s =>
      have h : ∀ s ∈ symbols, s.kind ≠ .linebreak → '\n' ∉ s.chars := by decide
      exact h s hv hk
  | word first rest =>
      intro h
      rcases List.mem_cons.mp h with rfl | h
      · cases hv.1
      · cases hv.2 _ h
  | number => exact newline_not_mem_number hv
  | string => exact hq (by simp [IsLiteral, kind])
  | char => exact hq (by simp [IsLiteral, kind])

/-- Behind a lexeme a carriage return ends it as well as a newline. -/
theorem Apart.withReturns {s : Spelling} (hv : s.Valid) {after : List Char} (h : s.Apart after) :
    s.Apart (FrontEnd.withReturns after) := by
  cases s with
  | symbol s =>
      have hb : ∀ s ∈ symbols, s.barred.contains '\r' = s.barred.contains '\n' := by decide
      exact (startsWith_withReturns (hb s hv) after).trans h
  | word first rest => exact (startsWith_withReturns rfl after).trans h
  | number whole fraction exponent =>
      obtain ⟨hd, he, hf⟩ := h
      refine ⟨(startsWith_withReturns rfl after).trans hd,
        fun hn => (startsWith_withReturns rfl after).trans (he hn), fun hw hn => ?_⟩
      rw [startsFraction_withReturns]
      exact hf hw hn
  | string glyphs => trivial
  | char glyph => trivial

end Spelling

/-! ## Cells and layouts -/

/-- A cell with a carriage return in front of every newline. In front of a lexeme that is a newline,
the carriage return belongs to the gap. -/
def Cell.withReturns (c : Cell) : Cell :=
  let gap := c.gap.map Trivia.withReturns
  ⟨if c.spelling.kind = .linebreak then endReturn gap else gap, c.spelling⟩

/-- Whether a literal, if the cell holds one, stands on one line. -/
def Cell.OnOneLine (c : Cell) : Prop := c.spelling.IsLiteral → '\n' ∉ c.spelling.chars

instance (c : Cell) : Decidable c.OnOneLine := inferInstanceAs (Decidable (_ → _))

theorem Cell.gapChars_withReturns {c : Cell} {after : List Char} (hc : c.Fits after) :
    gapChars c.withReturns.gap = FrontEnd.withReturns (gapChars c.gap) ++
      if c.spelling.kind = .linebreak then ['\r'] else [] := by
  rw [← FrontEnd.gapChars_withReturns hc.1]
  by_cases hk : c.spelling.kind = .linebreak
  · simp only [withReturns, if_pos hk, gapChars_endReturn]
  · simp only [withReturns, if_neg hk, List.append_nil]

theorem Cell.chars_withReturns {c : Cell} {after : List Char} (hc : c.Fits after)
    (hq : c.OnOneLine) : c.withReturns.chars = FrontEnd.withReturns c.chars := by
  have hspelling : (if c.spelling.kind = .linebreak then ['\r'] else []) ++ c.spelling.chars =
      FrontEnd.withReturns c.spelling.chars := by
    by_cases hk : c.spelling.kind = .linebreak
    · rw [if_pos hk, Spelling.eq_linebreak_of_kind hc.2.1 hk]
      rfl
    · rw [if_neg hk, withReturns_of_not_mem (Spelling.newline_not_mem hc.2.1 hk hq)]
      rfl
  calc c.withReturns.chars
    _ = gapChars c.withReturns.gap ++ c.spelling.chars := rfl
    _ = FrontEnd.withReturns (gapChars c.gap) ++ FrontEnd.withReturns c.spelling.chars := by
      rw [gapChars_withReturns hc, List.append_assoc, hspelling]
    _ = FrontEnd.withReturns c.chars := (withReturns_append _ _).symm

theorem Cell.Fits.withReturns {c : Cell} {after : List Char} (hc : c.Fits after) :
    c.withReturns.Fits (FrontEnd.withReturns after) := by
  obtain ⟨hg, hv, ha⟩ := hc
  have hhead : (c.spelling.chars ++ after).head? =
      (c.spelling.chars ++ FrontEnd.withReturns after).head? := by
    obtain ⟨d, ds, hd⟩ := List.exists_cons_of_ne_nil (Spelling.chars_ne_nil hv)
    rw [hd]
    rfl
  have hgap := hg.withReturns.of_head?_eq hhead
  refine ⟨?_, hv, ha.withReturns hv⟩
  by_cases hk : c.spelling.kind = .linebreak
  · have hs := Spelling.eq_linebreak_of_kind hv hk
    simp only [Cell.withReturns, if_pos hk]
    rw [hs] at hgap ⊢
    exact hgap.endReturn
  · simpa only [Cell.withReturns, if_neg hk] using hgap

theorem cellsChars_withReturns {cells : List Cell} {after : List Char} (hc : CellsFit cells after)
    (hq : ∀ c ∈ cells, c.OnOneLine) :
    cellsChars (cells.map Cell.withReturns) = withReturns (cellsChars cells) := by
  induction cells with
  | nil => rfl
  | cons c cells ih =>
      obtain ⟨hc, hcs⟩ := hc
      obtain ⟨hq, hqs⟩ := List.forall_mem_cons.mp hq
      have hchars : cellsChars (c :: cells) = c.chars ++ cellsChars cells := List.flatMap_cons
      rw [hchars, withReturns_append, ← Cell.chars_withReturns hc hq, ← ih hcs hqs]
      exact List.flatMap_cons

theorem CellsFit.withReturns {cells : List Cell} {after : List Char} (hc : CellsFit cells after)
    (hq : ∀ c ∈ cells, c.OnOneLine) :
    CellsFit (cells.map Cell.withReturns) (FrontEnd.withReturns after) := by
  induction cells with
  | nil => trivial
  | cons c cells ih =>
      obtain ⟨hc, hcs⟩ := hc
      obtain ⟨hq, hqs⟩ := List.forall_mem_cons.mp hq
      refine ⟨?_, ih hcs hqs⟩
      rw [cellsChars_withReturns hcs hqs, ← withReturns_append]
      exact hc.withReturns

namespace Layout

/-- Whether all literals of a layout stand on one line each. -/
def OnOneLine (l : Layout) : Prop := ∀ c ∈ l.cells, c.OnOneLine

instance (l : Layout) : Decidable l.OnOneLine :=
  inferInstanceAs (Decidable (∀ c ∈ l.cells, c.OnOneLine))

/-- A layout with a carriage return in front of every newline. -/
def withReturns (l : Layout) (hq : l.OnOneLine) : Layout where
  cells := l.cells.map Cell.withReturns
  last := l.last.map Trivia.withReturns
  cellsFit := by
    rw [gapChars_withReturns l.lastFits]
    exact l.cellsFit.withReturns hq
  lastFits := l.lastFits.withReturns

theorem chars_withReturns (l : Layout) (hq : l.OnOneLine) :
    (l.withReturns hq).chars = FrontEnd.withReturns l.chars := by
  calc (l.withReturns hq).chars
    _ = cellsChars (l.cells.map Cell.withReturns) ++ gapChars (l.last.map Trivia.withReturns) := rfl
    _ = FrontEnd.withReturns (cellsChars l.cells) ++ FrontEnd.withReturns (gapChars l.last) := by
      rw [cellsChars_withReturns l.cellsFit hq, gapChars_withReturns l.lastFits]
    _ = FrontEnd.withReturns l.chars := (withReturns_append _ _).symm

end Layout

end FrontEnd
