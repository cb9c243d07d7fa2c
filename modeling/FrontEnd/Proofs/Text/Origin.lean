import FrontEnd.Proofs.Text.Position

/-!
# Positions behind an origin

A text that starts in the middle of another one has positions of its own and positions in the other
one. Its first line goes on where it starts, and its other lines keep their columns.
-/

namespace FrontEnd

/-- The line and the column of the character behind a text. -/
def positionAfter (cs : List Char) : Nat × Nat := (lineAfter cs, columnAfter cs)

/-- A position of a text, as it is counted in a text in which the first one starts at `origin`. -/
def relocate (origin : Nat × Nat) : Nat × Nat → Nat × Nat
  | (1, column) => (origin.1, origin.2 + column - 1)
  | (line, column) => (origin.1 + line - 1, column)

theorem relocate_of_ne_one {line : Nat} (h : line ≠ 1) (origin : Nat × Nat) (column : Nat) :
    relocate origin (line, column) = (origin.1 + line - 1, column) := by
  unfold relocate
  split
  · rename_i heq
    cases heq
    exact absurd rfl h
  · rename_i heq
    cases heq
    rfl

/-- A newline in a text cuts its columns off from what stands in front of it. -/
theorem columnAfter_append_of_mem {ds : List Char} (h : '\n' ∈ ds) (cs : List Char) :
    columnAfter (cs ++ ds) = columnAfter ds := by
  have hne : (ds.reverse.takeWhile (· != '\n')).length ≠ ds.reverse.length := by
    intro heq
    have hall := List.all_takeWhile (p := (· != '\n')) (l := ds.reverse)
    rw [(List.takeWhile_prefix _).eq_of_length heq, List.all_eq_true] at hall
    simpa using hall '\n' (List.mem_reverse.mpr h)
  rw [columnAfter, columnAfter, List.reverse_append, List.takeWhile_append, if_neg hne]

/-- A text without a newline goes on in the columns of what stands in front of it. -/
theorem columnAfter_append_of_not_mem {ds : List Char} (h : '\n' ∉ ds) (cs : List Char) :
    columnAfter (cs ++ ds) = columnAfter cs + ds.length := by
  have hall : ∀ d ∈ ds.reverse, (d != '\n') = true := by
    intro d hd
    rw [bne_iff_ne]
    rintro rfl
    exact h (List.mem_reverse.mp hd)
  rw [columnAfter, columnAfter, List.reverse_append, List.takeWhile_append_of_pos hall,
    List.length_append, List.length_reverse]
  omega

/-- The position behind two texts is the one behind the second text, relocated to where that text
starts. -/
theorem positionAfter_append (cs ds : List Char) :
    positionAfter (cs ++ ds) = relocate (positionAfter cs) (positionAfter ds) := by
  by_cases h : '\n' ∈ ds
  · have hline : lineAfter ds ≠ 1 := by
      have := List.count_pos_iff.mpr h
      simp only [lineAfter]
      omega
    rw [positionAfter, positionAfter, positionAfter, relocate_of_ne_one hline,
      columnAfter_append_of_mem h, lineAfter_append]
    simp only [lineAfter, Prod.mk.injEq, and_true]
    omega
  · have hcount : ds.count '\n' = 0 := List.count_eq_zero.mpr h
    have hline : lineAfter ds = 1 := by rw [lineAfter, hcount]
    have hcolumn : columnAfter ds = ds.length + 1 := by
      have := columnAfter_append_of_not_mem h []
      rw [List.nil_append] at this
      rw [this, Nat.add_comm]
      rfl
    rw [positionAfter, positionAfter, positionAfter, columnAfter_append_of_not_mem h,
      lineAfter_append, hline, hcolumn]
    rfl

/-- The words of a position behind a text that is shorter than the largest word give the exact
position. -/
theorem position_words {cs : List Char} (h : cs.length < UInt32.size - 1) :
    ((UInt32.ofNat (lineAfter cs)).toNat, (UInt32.ofNat (columnAfter cs)).toNat) =
      positionAfter cs := by
  rw [toNat_ofNat_of_le (lineAfter_le cs) h, toNat_ofNat_of_le (columnAfter_le cs) h,
    positionAfter]

namespace Place

/-- The line and the column of a place as numbers. -/
def position (p : Place) : Nat × Nat := (p.line.toNat, p.column.toNat)

theorem position_afterAll_start {cs : List Char} (h : cs.length < UInt32.size - 1) :
    (start.afterAll cs).position = positionAfter cs := by
  rw [position, afterAll_start_line, afterAll_start_column, position_words h]

end Place

end FrontEnd
