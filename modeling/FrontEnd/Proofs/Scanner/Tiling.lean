import FrontEnd.Proofs.Scanner.Reading
import Mathlib.Data.List.Forall2

/-!
# Texts and their layouts

The tokens of a layout's text are exactly the tokens of the layout. Every text that has tokens is
the text of a layout, and the lines and columns of its tokens are counted exactly.
-/

namespace FrontEnd

/-- A token of a given kind and text that stands exactly behind the given text in front of it. -/
structure Token.Records (t : Token) (before : List Char) (kind : Kind) (text : String) : Prop where
  kind : t.kind = kind
  text : t.text = text
  line : t.line.toNat = lineAfter before
  column : t.column.toNat = columnAfter before

/-- A token at the line and column behind a text of fewer than 2³² - 1 characters stands exactly
there. -/
theorem Token.records_behind (kind : Kind) (text : String) {before : List Char}
    (hb : before.length < UInt32.size - 1) :
    Token.Records ⟨kind, text, UInt32.ofNat (lineAfter before), UInt32.ofNat (columnAfter before)⟩
      before kind text where
  kind := rfl
  text := rfl
  line := toNat_ofNat_of_le (lineAfter_le before) hb
  column := toNat_ofNat_of_le (columnAfter_le before) hb

/-- The tokens of cells stand exactly behind the texts in front of their lexemes. -/
theorem records_tokensBehind (cells : List Cell) {before : List Char}
    (hb : (before ++ cellsChars cells).length < UInt32.size - 1) :
    List.Forall₂ (fun p t => t.Records p.1 p.2.kind p.2.text) (lexemesBehind before cells)
      (tokensBehind before cells) := by
  induction cells generalizing before with
  | nil => exact List.Forall₂.nil
  | cons c cells ih =>
      simp only [cellsChars_cons, List.length_append] at hb
      refine List.Forall₂.cons (Token.records_behind _ _ ?_) (ih ?_)
      · rw [List.length_append]
        omega
      · simp only [Cell.chars, List.length_append]
        omega

/-- No lexeme of cells has one of the four kinds that no lexeme has. -/
theorem tokensBehind_kind_not_mem {cells : List Cell} {after : List Char}
    (hc : CellsFit cells after) (before : List Char) :
    ∀ t ∈ tokensBehind before cells, t.kind ∉ unspelledKinds := by
  induction cells generalizing before with
  | nil =>
      intro t ht
      cases ht
  | cons c cells ih =>
      intro t ht
      rcases List.mem_cons.mp ht with rfl | ht
      · exact Spelling.kind_not_mem hc.1.2.1
      · exact ih hc.2 _ t ht

/-- The tokens of a layout's text are the tokens of the layout: each lexeme is read as one token
however long the lexemes and the gaps around it are. -/
theorem tokenize_layout (l : Layout) : tokenize (String.ofList l.chars) = .ok l.tokens := by
  have hu : (Scanner.ofString (String.ofList l.chars)).cursor.unread = l.chars :=
    String.toList_ofList
  exact Scanner.readAll_layout l.cellsFit l.lastFits (Cursor.placed_ofList _) hu []

/-- A text that has tokens is the text of a layout, and its tokens are those of the layout. -/
theorem exists_layout_of_tokenize {source : String} {ts : List Token}
    (h : tokenize source = .ok ts) : ∃ l : Layout, source.toList = l.chars ∧ ts = l.tokens := by
  rcases tokenize_cases source with ⟨l, hl, ht⟩ | ⟨b, -, hd⟩
  · rw [h] at ht
    exact ⟨l, hl, Except.ok.inj ht⟩
  · rw [h] at hd
    cases hd

/-- A text of fewer than 2³² - 1 characters that has tokens is cut without remainder into gaps and
lexemes. There is one token for each lexeme, of its kind and text and at its exact line and column,
and one closing token behind the whole text. -/
theorem tokenize_tiles {source : String} {ts : List Token} (hb : source.length < UInt32.size - 1)
    (h : tokenize source = .ok ts) :
    ∃ (l : Layout) (body : List Token) (last : Token),
      source.toList = l.chars ∧ ts = body ++ [last] ∧
      List.Forall₂ (fun p t => t.Records p.1 p.2.kind p.2.text) l.lexemes body ∧
      (∀ t ∈ body, t.kind ∉ unspelledKinds) ∧
      last.Records source.toList .endOfText "" := by
  obtain ⟨l, hl, ht⟩ := exists_layout_of_tokenize h
  have hlength : l.chars.length < UInt32.size - 1 := by
    rw [← hl, String.length_toList]
    exact hb
  refine ⟨l, tokensBehind [] l.cells, endBehind l.chars, hl, ht, ?_, ?_, ?_⟩
  · apply records_tokensBehind
    rw [Layout.chars, List.length_append] at hlength
    rw [List.nil_append]
    omega
  · exact tokensBehind_kind_not_mem l.cellsFit []
  · rw [hl]
    exact Token.records_behind _ _ hlength

/-- A character literal that holds a quote, a string literal over two lines and a comment over two
lines leave the tokens behind them at their exact places. Of the words there, one is reserved, one
spells a literal, and one only begins like such a word. -/
theorem tokenize_tiles_lines :
    ∃ (l : Layout) (body : List Token) (last : Token),
      "x\t/*\n/*/'''\"\\0\n\"**\r1.5e+3 fun\ttrue,null_//é".toList = l.chars ∧
      ([⟨.ident, "x", 1, 1⟩, ⟨.char, "'", 2, 4⟩, ⟨.string, "\x00\n", 2, 7⟩, ⟨.power, "**", 3, 2⟩,
        ⟨.number, "1.5e+3", 3, 5⟩, ⟨.keyword, "fun", 3, 12⟩, ⟨.boolTrue, "true", 3, 16⟩,
        ⟨.comma, ",", 3, 20⟩, ⟨.ident, "null_", 3, 21⟩, ⟨.endOfText, "", 3, 29⟩] : List Token) =
          body ++ [last] ∧
      List.Forall₂ (fun p t => t.Records p.1 p.2.kind p.2.text) l.lexemes body ∧
      (∀ t ∈ body, t.kind ∉ unspelledKinds) ∧
      last.Records "x\t/*\n/*/'''\"\\0\n\"**\r1.5e+3 fun\ttrue,null_//é".toList .endOfText "" :=
  tokenize_tiles (by decide) (by decide +kernel)

end FrontEnd
