import FrontEnd.Proofs.Layout.CarriageReturns
import FrontEnd.Proofs.Scanner.Reading
import Mathlib.Data.List.Forall2

/-!
# Scanning lines that end with carriage returns

With a carriage return in front of every newline, a text has the same tokens on the same lines. They
also stand in the same columns, save for the newlines themselves, which stand one column later.
-/

namespace FrontEnd

/-- Two tokens that say the same on the same line. They stand in the same column, unless they are
newlines: then the second one stands behind a carriage return, one column later. -/
structure Token.SameBesideReturns (t u : Token) : Prop where
  kind : u.kind = t.kind
  text : u.text = t.text
  line : u.line = t.line
  column : u.column.toNat = t.column.toNat + if t.kind = .linebreak then 1 else 0

/-- A token stays the same, and is moved on if it is a newline with a carriage return in front. -/
theorem Spelling.sameBesideReturns (s : Spelling) {front : List Char}
    (hb : front.length + 1 < UInt32.size - 1) :
    (s.tokenBehind front).SameBesideReturns
      (s.tokenBehind (withReturns front ++ if s.kind = .linebreak then ['\r'] else [])) := by
  obtain ⟨hline, hcolumn⟩ := lineAfter_columnAfter_withReturns front
  by_cases hk : s.kind = .linebreak
  · have hkind : (s.tokenBehind front).kind = .linebreak := hk
    have hle := columnAfter_le front
    rw [if_pos hk]
    refine ⟨rfl, rfl, ?_, ?_⟩
    · rw [tokenBehind, tokenBehind, lineAfter_concat, hline, if_neg (by decide)]
    · rw [if_pos hkind]
      calc (UInt32.ofNat (columnAfter (withReturns front ++ ['\r']))).toNat
        _ = (UInt32.ofNat (columnAfter front + 1)).toNat := by
          rw [columnAfter_concat, hcolumn, if_neg (by decide)]
        _ = columnAfter front + 1 := toNat_ofNat_of_le (Nat.succ_le_succ hle) hb
        _ = (UInt32.ofNat (columnAfter front)).toNat + 1 := by
          rw [toNat_ofNat_of_le hle (by omega)]
  · rw [if_neg hk, List.append_nil]
    refine ⟨rfl, rfl, ?_, ?_⟩
    · rw [tokenBehind, tokenBehind, hline]
    · rw [tokenBehind, tokenBehind, hcolumn, if_neg hk, Nat.add_zero]

theorem Cell.sameBesideReturns {c : Cell} {before after : List Char} (hc : c.Fits after)
    (hb : (before ++ c.chars).length < UInt32.size - 1) :
    (c.spelling.tokenBehind (before ++ gapChars c.gap)).SameBesideReturns
      (c.spelling.tokenBehind (FrontEnd.withReturns before ++ gapChars c.withReturns.gap)) := by
  have hfront : (before ++ gapChars c.gap).length + 1 < UInt32.size - 1 := by
    have hpos := List.length_pos_iff.mpr (Spelling.chars_ne_nil hc.2.1)
    rw [Cell.chars, ← List.append_assoc, List.length_append] at hb
    exact Nat.lt_of_le_of_lt (Nat.add_le_add_left hpos _) hb
  rw [gapChars_withReturns hc, ← List.append_assoc, ← withReturns_append]
  exact c.spelling.sameBesideReturns hfront

/-- The tokens of cells stay the same, save for the columns of the newlines. -/
theorem tokensBehind_withReturns {cells : List Cell} {before after : List Char}
    (hc : CellsFit cells after) (hq : ∀ c ∈ cells, c.OnOneLine)
    (hb : (before ++ cellsChars cells).length < UInt32.size - 1) :
    List.Forall₂ Token.SameBesideReturns (tokensBehind before cells)
      (tokensBehind (withReturns before) (cells.map Cell.withReturns)) := by
  induction cells generalizing before with
  | nil => exact .nil
  | cons c cells ih =>
      obtain ⟨hc, hcs⟩ := hc
      obtain ⟨hq, hqs⟩ := List.forall_mem_cons.mp hq
      have hchars : before ++ cellsChars (c :: cells) = before ++ c.chars ++ cellsChars cells := by
        rw [List.append_assoc]
        exact congrArg (before ++ ·) List.flatMap_cons
      rw [hchars] at hb
      have hrest := ih hcs hqs hb
      rw [withReturns_append, ← Cell.chars_withReturns hc hq] at hrest
      refine .cons (Cell.sameBesideReturns hc ?_) hrest
      rw [List.length_append] at hb
      exact Nat.lt_of_le_of_lt (Nat.le_add_right _ _) hb

/-- The closing token stays in its place. -/
theorem endBehind_withReturns (front : List Char) :
    endBehind (withReturns front) = endBehind front := by
  obtain ⟨hline, hcolumn⟩ := lineAfter_columnAfter_withReturns front
  rw [endBehind, endBehind, hline, hcolumn]

/-- Lines that end with a carriage return and a newline have the tokens of lines that end with a
newline alone. Let a text have tokens, with no newline between the quotes of a literal. With a
carriage return in front of every newline, in comments too, the text has as many tokens, of the same
kinds, texts and lines in order. As long as it has fewer than 2³² - 1 characters, they stand in the
same columns, save that each newline stands one column later. -/
theorem tokenize_withReturns {source : String} {ts : List Token} (hts : tokenize source = .ok ts)
    {l : Layout} (hl : source.toList = l.chars) (hq : l.OnOneLine)
    (hb : (withReturns source.toList).length < UInt32.size - 1) :
    ∃ us, tokenize (.ofList (withReturns source.toList)) = .ok us ∧
      List.Forall₂ Token.SameBesideReturns ts us := by
  have hread : ∀ (l : Layout) (s : String), s.toList = l.chars → tokenize s = .ok l.tokens :=
    fun l s hs => Scanner.readAll_layout l.cellsFit l.lastFits (Cursor.placed_ofList _) hs []
  have hchars : (l.withReturns hq).chars = withReturns l.chars := l.chars_withReturns hq
  have hlength : (cellsChars l.cells ++ gapChars l.last).length < UInt32.size - 1 :=
    Nat.lt_of_le_of_lt (hl ▸ length_le_withReturns _) hb
  obtain rfl : ts = l.tokens := Except.ok.inj (hts.symm.trans (hread l source hl))
  refine ⟨(l.withReturns hq).tokens, hread _ _ ?_, ?_⟩
  · rw [String.toList_ofList, hl, hchars]
  · rw [Layout.tokens, Layout.tokens, hchars, endBehind_withReturns]
    apply List.rel_append
    · apply tokensBehind_withReturns l.cellsFit hq
      rw [List.length_append] at hlength
      exact Nat.lt_of_le_of_lt (Nat.le_add_right _ _) hlength
    · exact .cons ⟨rfl, rfl, rfl, rfl⟩ .nil

/-- A line comment, a block comment over two lines and a carriage return that is there already, each
in front of a newline. -/
theorem tokenize_withReturns_comments :
    ∃ us, tokenize (.ofList (withReturns "x //a\n/*\n*/\"\\n\"\r\n".toList)) = .ok us ∧
      List.Forall₂ Token.SameBesideReturns
        [⟨.ident, "x", 1, 1⟩, ⟨.linebreak, "\n", 1, 6⟩, ⟨.string, "\n", 3, 3⟩,
          ⟨.linebreak, "\n", 3, 8⟩, ⟨.endOfText, "", 4, 1⟩] us := by
  let l : Layout :=
    { cells := [⟨[], .word 'x' []⟩,
        ⟨[.blank ' ', .lineComment ['a']], .symbol ⟨.linebreak, ['\n'], []⟩⟩,
        ⟨[.blockComment ['\n']], .string [.escape 'n' '\n']⟩,
        ⟨[.blank '\r'], .symbol ⟨.linebreak, ['\n'], []⟩⟩]
      last := []
      cellsFit := by decide
      lastFits := by decide }
  have hq : l.OnOneLine := by decide +kernel
  exact tokenize_withReturns (by decide +kernel) (by decide) hq (by decide)

end FrontEnd
