import FrontEnd.Proofs.Layout.Lines
import FrontEnd.Proofs.Scanner.Answer
import FrontEnd.Proofs.Scanner.Tiling

/-!
# Texts behind whole lines

Behind whole lines that have tokens, a text has the tokens or the diagnostic that it has on its own,
lower by the number of the lines. Nothing in the lines reaches into the text, and reading the text
does not depend on the lines in front of it.
-/

namespace FrontEnd

/-- A token that stands some lines lower. -/
def Token.lowered (lines : Nat) (t : Token) : Token :=
  { t with line := t.line + UInt32.ofNat lines }

/-- A diagnostic that is reported some lines lower. -/
def Diagnostic.lowered (lines : Nat) (d : Diagnostic) : Diagnostic :=
  { d with line := d.line + UInt32.ofNat lines }

theorem lineWord_append (cs ds : List Char) :
    UInt32.ofNat (lineAfter (cs ++ ds)) =
      UInt32.ofNat (lineAfter ds) + UInt32.ofNat (cs.count '\n') := by
  rw [lineAfter_append, UInt32.ofNat_add]

namespace Scanner

variable {lines : List Char}

/-- Behind whole lines, a scanner answers the same some lines lower. -/
theorem answer_append (hl : WholeLines lines) (before unread : List Char) :
    (answer (lines ++ before) unread).1 =
      ((answer before unread).1.map (·.lowered (lines.count '\n'))).mapError
        (·.lowered (lines.count '\n')) := by
  have hend : ∀ cs, endBehind (lines ++ cs) = (endBehind cs).lowered (lines.count '\n') := by
    intro cs
    rw [endBehind, lineWord_append, columnAfter_append hl]
    rfl
  have hfault : ∀ cause character cs, diagnosticBehind cause character (lines ++ cs) =
      (diagnosticBehind cause character cs).lowered (lines.count '\n') := by
    intro cause character cs
    rw [diagnosticBehind, lineWord_append, columnAfter_append hl]
    rfl
  have htoken : ∀ (l : Lexeme) cs,
      l.tokenBehind (lines ++ cs) = (l.tokenBehind cs).lowered (lines.count '\n') := by
    intro l cs
    rw [Lexeme.tokenBehind, lineWord_append, columnAfter_append hl]
    rfl
  simp only [answer, List.append_assoc]
  cases Gap.width? 0 unread with
  | none => simp only [hfault, Except.map, Except.mapError]
  | some gap =>
      cases hd : unread.drop gap with
      | nil => simp only [hd, hend, Except.map, Except.mapError]
      | cons c rest =>
          cases hs : Lexeme.scan c rest with
          | ok l => simp only [hd, hs, htoken, Except.map, Except.mapError]
          | error f => simp only [hd, hs, hfault, Except.map, Except.mapError]

/-- One step of two scanners, of which the second one has passed some lines in front, gives the same
answer, some lines lower, and keeps them so. -/
theorem Below.next {s t : Scanner} (h : Below lines s t) (hl : WholeLines lines) :
    t.next.1 = (s.next.1.map (·.lowered (lines.count '\n'))).mapError
        (·.lowered (lines.count '\n')) ∧
      Below lines s.next.2 t.next.2 := by
  obtain ⟨hs, ht, hbelow⟩ := h.step
  refine ⟨?_, hbelow⟩
  rw [ht, hs, answer_append hl]

/-- A whole run of two such scanners gives the same tokens or the same diagnostic, some lines
lower. -/
theorem Below.readAll {s t : Scanner} (h : Below lines s t) (hl : WholeLines lines)
    (tokens done : List Token) :
    (t.readAll (tokens.map (·.lowered (lines.count '\n')) ++ done)).1 =
      ((s.readAll tokens).1.map fun ts =>
        done.reverse ++ ts.map (·.lowered (lines.count '\n'))).mapError
          (·.lowered (lines.count '\n')) := by
  induction hn : s.cursor.unread.length using Nat.strongRecOn generalizing s t tokens with
  | ind n ih =>
      obtain ⟨hanswer, hbelow⟩ := h.next hl
      cases hs : s.next with
      | mk result s' =>
          cases ht : t.next with
          | mk result' t' =>
              rw [hs, ht] at hanswer hbelow
              cases result with
              | error d =>
                  have herror : t.next.1 = .error (d.lowered (lines.count '\n')) := by
                    rw [ht]
                    exact hanswer
                  rw [readAll_error herror, readAll_error (s := s) (by rw [hs])]
                  rfl
              | ok token =>
                  have hnext : t.next = (.ok (token.lowered (lines.count '\n')), t') := by
                    rw [ht]
                    exact congrArg (·, t') hanswer
                  cases he : token.isEnd with
                  | true =>
                      rw [readAll_end hs he, readAll_end hnext he]
                      simp [Except.map, Except.mapError]
                  | false =>
                      have hlt : s'.cursor.unread.length < n := by
                        rw [← hn]
                        exact next_unread_lt hs he
                      rw [readAll_more hs he, readAll_more hnext he]
                      exact ih _ hlt hbelow (token :: tokens) rfl

end Scanner

/-- The lines and columns of tokens are those behind some front part of the text. -/
theorem exists_front_of_mem {cells : List Cell} {before : List Char} {t : Token}
    (ht : t ∈ tokensBehind before cells) :
    ∃ front, front <+: before ++ cellsChars cells ∧
      t.line = UInt32.ofNat (lineAfter front) := by
  induction cells generalizing before with
  | nil => cases ht
  | cons c cells ih =>
      rcases List.mem_cons.mp ht with rfl | ht
      · refine ⟨before ++ gapChars c.gap, ?_, rfl⟩
        rw [cellsChars_cons, ← List.append_assoc]
        exact List.prefix_append _ _
      · obtain ⟨front, hf, hline⟩ := ih ht
        refine ⟨front, ?_, hline⟩
        simpa [Cell.chars] using hf

/-- The tokens or the diagnostic of a text stand in lines behind some front part of it. -/
theorem exists_front (source : String) :
    (∀ ts, tokenize source = .ok ts → ∀ t ∈ ts, ∃ front, front <+: source.toList ∧
      t.line = UInt32.ofNat (lineAfter front)) ∧
    ∀ d, tokenize source = .error d → ∃ front, front <+: source.toList ∧
      d.line = UInt32.ofNat (lineAfter front) := by
  rcases tokenize_cases source with ⟨l, hl, ht⟩ | ⟨b, hb, hd⟩
  · refine ⟨fun ts hts t hmem => ?_, fun d hd => ?_⟩
    · rw [ht] at hts
      cases hts
      rcases List.mem_append.mp hmem with hmem | hmem
      · obtain ⟨front, hf, hline⟩ := exists_front_of_mem hmem
        refine ⟨front, ?_, hline⟩
        rw [hl]
        exact hf.trans (List.prefix_append _ _)
      · cases List.mem_singleton.mp hmem
        exact ⟨l.chars, hl ▸ List.prefix_rfl, rfl⟩
    · rw [ht] at hd
      cases hd
  · refine ⟨fun ts hts => ?_, fun d he => ?_⟩
    · rw [hd] at hts
      cases hts
    · rw [hd] at he
      cases he
      exact ⟨b.front, by rw [hb]; exact List.prefix_append _ _, rfl⟩

/-- A line of a text does not wrap around when the text stands behind another one and both together
have fewer than 2³² - 1 characters. -/
theorem toNat_line_add {s₁ s₂ : String} (hb : (s₁ ++ s₂).length < UInt32.size - 1)
    {front : List Char} (hf : front <+: s₂.toList) {line : UInt32}
    (hline : line = UInt32.ofNat (lineAfter front)) :
    (line + UInt32.ofNat (s₁.toList.count '\n')).toNat =
      line.toNat + s₁.toList.count '\n' := by
  have hlength : (s₁.toList ++ front).length < UInt32.size - 1 := by
    have h := hf.length_le
    rw [String.length_append] at hb
    rw [String.length_toList] at h
    rw [List.length_append, String.length_toList]
    omega
  have hfront : front.length < UInt32.size - 1 := by
    rw [List.length_append] at hlength
    omega
  rw [hline, ← lineWord_append, toNat_ofNat_of_le (lineAfter_le _) hlength,
    toNat_ofNat_of_le (lineAfter_le _) hfront, lineAfter_append]

/-- Reading whole lines that have tokens, and a text behind them, gives the tokens of the lines
without the closing one, and then the tokens or the diagnostic of the text some lines lower. -/
theorem tokenize_lines {s₁ s₂ : String} {ts₁ : List Token} {last : Token}
    (hl : WholeLines s₁.toList) (h₁ : tokenize s₁ = .ok (ts₁ ++ [last])) :
    tokenize (s₁ ++ s₂) =
      ((tokenize s₂).map fun ts =>
        ts₁ ++ ts.map (·.lowered (s₁.toList.count '\n'))).mapError
          (·.lowered (s₁.toList.count '\n')) := by
  obtain ⟨l, hchars, htokens⟩ := exists_layout_of_tokenize h₁
  have hlast : gapChars l.last = [] := gapChars_eq_nil (hchars ▸ hl) l.lastFits
  have hcells : s₁.toList = cellsChars l.cells := by
    rw [hchars, Layout.chars, hlast, List.append_nil]
  have hts₁ : ts₁ = tokensBehind [] l.cells := (List.append_inj' htokens rfl).1
  have hfit : CellsFit l.cells s₂.toList := by
    have h := l.cellsFit
    rw [hlast] at h
    exact h.of_wholeLines (hcells ▸ hl) s₂.toList
  let r := Scanner.ofString (s₁ ++ s₂)
  have hr : r.cursor.Placed := Cursor.placed_ofList _
  have hunread : r.cursor.unread = cellsChars l.cells ++ s₂.toList := by
    rw [← hcells, ← String.toList_append]
    rfl
  obtain ⟨t, hcursor, hread⟩ := Scanner.readAll_cells hfit hr hunread []
  have hbelow : Scanner.Below s₁.toList (Scanner.ofString s₂) t := by
    refine ⟨Cursor.placed_ofList _, ?_, ?_, ?_⟩
    · rw [hcursor]
      exact hr.pass _
    · rw [hcursor, Cursor.unread_pass, hunread, List.drop_left]
      rfl
    · rw [Scanner.before, hcursor, Cursor.passed_pass, hunread, List.take_left, hcells]
      simp [r, Scanner.ofString, Scanner.ofList, Cursor.ofList, Scanner.before]
  have hrun := hbelow.readAll hl [] ts₁.reverse
  rw [List.map_nil, List.nil_append, List.reverse_reverse] at hrun
  calc
    tokenize (s₁ ++ s₂) = (t.readAll ((tokensBehind [] l.cells).reverse ++ [])).1 :=
      congrArg Prod.fst hread
    _ = (t.readAll ts₁.reverse).1 := by rw [List.append_nil, hts₁]
    _ = _ := hrun

/-- Whole lines that have tokens do not change what is read behind them. Where a text has tokens,
the lines and the text together have the tokens of the lines without the closing one, and then the
tokens of the text. Where a text has a diagnostic, both together have that diagnostic. In both cases
all that belongs to the text is lower by the number of the lines, and in the same columns. -/
theorem tokenize_append {s₁ s₂ : String} {ts₁ : List Token} {last : Token}
    (hb : (s₁ ++ s₂).length < UInt32.size - 1) (hl : WholeLines s₁.toList)
    (h₁ : tokenize s₁ = .ok (ts₁ ++ [last])) :
    (∀ ts₂, tokenize s₂ = .ok ts₂ →
      tokenize (s₁ ++ s₂) = .ok (ts₁ ++ ts₂.map (·.lowered (s₁.toList.count '\n'))) ∧
      ∀ t ∈ ts₂, (t.lowered (s₁.toList.count '\n')).line.toNat =
        t.line.toNat + s₁.toList.count '\n') ∧
    ∀ d, tokenize s₂ = .error d →
      tokenize (s₁ ++ s₂) = .error (d.lowered (s₁.toList.count '\n')) ∧
      (d.lowered (s₁.toList.count '\n')).line.toNat =
        d.line.toNat + s₁.toList.count '\n' := by
  obtain ⟨hfronts, hfront⟩ := exists_front s₂
  constructor
  · intro ts₂ h₂
    refine ⟨by rw [tokenize_lines hl h₁, h₂]; rfl, fun t ht => ?_⟩
    obtain ⟨front, hf, hline⟩ := hfronts ts₂ h₂ t ht
    exact toNat_line_add hb hf hline
  · intro d h₂
    refine ⟨by rw [tokenize_lines hl h₁, h₂]; rfl, ?_⟩
    obtain ⟨front, hf, hline⟩ := hfront d h₂
    exact toNat_line_add hb hf hline

/-- A character literal that holds a newline and a line comment with an open quote end with their
lines: what is read behind them is read as if it stood alone, two lines lower. -/
theorem tokenize_append_comment :
    tokenize ("'\n'//\"\n" ++ "a\n2") =
      .ok ([⟨.char, "\n", 1, 1⟩, ⟨.linebreak, "\n", 2, 5⟩] ++
        [⟨.ident, "a", 3, 1⟩, ⟨.linebreak, "\n", 3, 2⟩, ⟨.number, "2", 4, 1⟩,
          ⟨.endOfText, "", 4, 2⟩]) ∧
    tokenize ("'\n'//\"\n" ++ "a\n2e") =
      .error ⟨.missingExponent, none, some "NUMBER", 4, 3⟩ := by
  have h₁ : tokenize "'\n'//\"\n" = .ok ([⟨.char, "\n", 1, 1⟩, ⟨.linebreak, "\n", 2, 5⟩] ++
      [⟨.endOfText, "", 3, 1⟩]) := by decide +kernel
  have h₂ : tokenize "a\n2" = .ok [⟨.ident, "a", 1, 1⟩, ⟨.linebreak, "\n", 1, 2⟩,
      ⟨.number, "2", 2, 1⟩, ⟨.endOfText, "", 2, 2⟩] := by decide +kernel
  have h₃ : tokenize "a\n2e" = .error ⟨.missingExponent, none, some "NUMBER", 2, 3⟩ := by
    decide +kernel
  exact ⟨((tokenize_append (by decide) (by decide) h₁).1 _ h₂).1,
    ((tokenize_append (by decide) (by decide) h₁).2 _ h₃).1⟩

end FrontEnd
