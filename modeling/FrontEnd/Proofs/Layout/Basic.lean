import FrontEnd.Proofs.Layout.Trivia

/-!
# Layouts

A layout is a text cut into gaps and lexemes in turn, with a gap at the end. Its tokens are those
of its lexemes, each at the line and column behind all the text in front of it, and the closing
token behind the whole text.
-/

namespace FrontEnd

/-- A lexeme with the gap in front of it. -/
structure Cell where
  gap : List Trivia
  spelling : Spelling
deriving DecidableEq, Repr

/-- The characters of a gap and the lexeme behind it. -/
def Cell.chars (c : Cell) : List Char := gapChars c.gap ++ c.spelling.chars

/-- The characters of cells in a row. -/
def cellsChars (cells : List Cell) : List Char := cells.flatMap Cell.chars

@[simp] theorem cellsChars_nil : cellsChars [] = [] := rfl

@[simp] theorem cellsChars_cons (c : Cell) (cells : List Cell) :
    cellsChars (c :: cells) = gapChars c.gap ++ (c.spelling.chars ++ cellsChars cells) := by
  simp [cellsChars, Cell.chars]

/-- Whether a cell is proper and ends where the text behind it starts. -/
def Cell.Fits (c : Cell) (after : List Char) : Prop :=
  GapFits c.gap (c.spelling.chars ++ after) ∧ c.spelling.Valid ∧ c.spelling.Apart after

instance (c : Cell) (after : List Char) : Decidable (c.Fits after) :=
  inferInstanceAs (Decidable (_ ∧ _ ∧ _))

/-- Whether all cells in a row fit the text behind each of them. -/
def CellsFit : List Cell → List Char → Prop
  | [], _ => True
  | c :: cells, after => c.Fits (cellsChars cells ++ after) ∧ CellsFit cells after

instance decidableCellsFit :
    (cells : List Cell) → (after : List Char) → Decidable (CellsFit cells after)
  | [], _ => inferInstanceAs (Decidable True)
  | c :: cells, after =>
    have := decidableCellsFit cells after
    inferInstanceAs (Decidable (c.Fits (cellsChars cells ++ after) ∧ CellsFit cells after))

/-- The lexemes of cells, each with all the text in front of it. -/
def lexemesBehind (before : List Char) : List Cell → List (List Char × Spelling)
  | [] => []
  | c :: cells =>
    (before ++ gapChars c.gap, c.spelling) :: lexemesBehind (before ++ c.chars) cells

/-- The tokens of cells with a text in front of them. -/
def tokensBehind (before : List Char) (cells : List Cell) : List Token :=
  (lexemesBehind before cells).map fun p => p.2.tokenBehind p.1

/-- The closing token behind a text. -/
def endBehind (before : List Char) : Token :=
  .endOfText (UInt32.ofNat (lineAfter before)) (UInt32.ofNat (columnAfter before))

/-- The diagnostic of a cause met behind a text. -/
def diagnosticBehind (cause : Cause) (character : Option Char) (before : List Char) : Diagnostic :=
  .ofCause cause character (UInt32.ofNat (lineAfter before)) (UInt32.ofNat (columnAfter before))

/-- A text cut into gaps and lexemes: the lexemes with the gaps in front of them, and the gap
behind the last one. -/
structure Layout where
  cells : List Cell
  last : List Trivia
  cellsFit : CellsFit cells (gapChars last)
  lastFits : GapFits last []

namespace Layout

/-- The text of a layout. -/
def chars (l : Layout) : List Char := cellsChars l.cells ++ gapChars l.last

/-- The lexemes of a layout, each with all the text in front of it. -/
def lexemes (l : Layout) : List (List Char × Spelling) := lexemesBehind [] l.cells

/-- The tokens of a layout: one for each lexeme, and the closing token. -/
def tokens (l : Layout) : List Token := tokensBehind [] l.cells ++ [endBehind l.chars]

/-- The dot is no fraction: the text `/*/*/1.x` has three lexemes behind its comment. -/
example :
    (⟨[⟨[.blockComment ['/']], .number ['1'] none none⟩, ⟨[], .symbol ⟨.dot, ['.'], []⟩⟩,
      ⟨[], .word 'x' []⟩], [], by decide, by decide⟩ : Layout).tokens =
      [⟨.number, "1", 1, 6⟩, ⟨.dot, ".", 1, 7⟩, ⟨.ident, "x", 1, 8⟩, ⟨.endOfText, "", 1, 9⟩] := by
  decide +kernel

end Layout

end FrontEnd
