import FrontEnd.Text.Cursor
import FrontEnd.Proofs.Text.Run
import Mathlib.Data.List.Induction

/-!
# Lines and columns

The line and the column behind a text are counted from the text alone, as natural numbers. The
place behind a text holds these numbers as words, and holds them exactly as long as the text has
fewer than `UInt32.size - 1` characters. A text of whole lines is empty or ends with a newline.
Behind whole lines, a text stands in the same columns as on its own, and lower by the number of the
lines.
-/

namespace FrontEnd

/-- The line of the character behind a text: one more than the newlines of the text. -/
def lineAfter (cs : List Char) : Nat := 1 + cs.count '\n'

/-- The column of the character behind a text: one more than the characters since the last
newline. -/
def columnAfter (cs : List Char) : Nat := 1 + (cs.reverse.takeWhile (· != '\n')).length

theorem lineAfter_concat (cs : List Char) (c : Char) :
    lineAfter (cs ++ [c]) = if c = '\n' then lineAfter cs + 1 else lineAfter cs := by
  by_cases hc : c = '\n'
  · simp [lineAfter, hc, Nat.add_assoc]
  · simp [lineAfter, hc]

theorem columnAfter_concat (cs : List Char) (c : Char) :
    columnAfter (cs ++ [c]) = if c = '\n' then 1 else columnAfter cs + 1 := by
  by_cases hc : c = '\n'
  · simp [columnAfter, hc]
  · simp [columnAfter, hc, Nat.add_assoc]

theorem lineAfter_le (cs : List Char) : lineAfter cs ≤ cs.length + 1 := by
  have h := List.count_le_length (a := '\n') (l := cs)
  simp only [lineAfter]
  omega

theorem columnAfter_le (cs : List Char) : columnAfter cs ≤ cs.length + 1 := by
  have h := (List.takeWhile_sublist (· != '\n') (l := cs.reverse)).length_le
  rw [List.length_reverse] at h
  simp only [columnAfter]
  omega

/-- A number of at most one more than the length of a text fits a word if the text is shorter
than the largest word. -/
theorem toNat_ofNat_of_le {n k : Nat} (hn : n ≤ k + 1) (hk : k < UInt32.size - 1) :
    (UInt32.ofNat n).toNat = n := by
  have hsize : UInt32.size = 4294967296 := rfl
  rw [UInt32.toNat_ofNat']
  exact Nat.mod_eq_of_lt (by omega)

namespace Place

theorem after_line (p : Place) (c : Char) :
    (p.after c).line = if c = '\n' then p.line + 1 else p.line := by
  unfold after
  split <;> rfl

theorem after_column (p : Place) (c : Char) :
    (p.after c).column = if c = '\n' then 1 else p.column + 1 := by
  unfold after
  split <;> rfl

/-- The line of the place behind a text is the number of its line as a word. -/
theorem afterAll_start_line (cs : List Char) :
    (start.afterAll cs).line = UInt32.ofNat (lineAfter cs) := by
  induction cs using List.reverseRecOn with
  | nil => rfl
  | append_singleton cs c ih =>
      rw [afterAll_append, afterAll_cons, afterAll_nil, after_line, lineAfter_concat, ih]
      split
      · rw [UInt32.ofNat_add]
        rfl
      · rfl

/-- The column of the place behind a text is the number of its column as a word. -/
theorem afterAll_start_column (cs : List Char) :
    (start.afterAll cs).column = UInt32.ofNat (columnAfter cs) := by
  induction cs using List.reverseRecOn with
  | nil => rfl
  | append_singleton cs c ih =>
      rw [afterAll_append, afterAll_cons, afterAll_nil, after_column, columnAfter_concat, ih]
      split
      · rfl
      · rw [UInt32.ofNat_add]
        rfl

end Place

namespace Cursor

theorem step_place (c : Cursor) : c.step.place = c.place.afterAll (c.unread.take 1) := by
  unfold step
  split <;> simp_all

theorem step_passed (c : Cursor) : c.step.passed = (c.unread.take 1).reverse ++ c.passed := by
  unfold step
  split <;> simp_all

/-- Passing `n` characters moves the place over each of them. -/
theorem place_pass (n : Nat) (c : Cursor) :
    (c.pass n).place = c.place.afterAll (c.unread.take n) := by
  induction n generalizing c with
  | zero => rfl
  | succ n ih =>
      rw [pass, ih, step_place, unread_step, ← Place.afterAll_append, ← List.drop_one,
        Nat.add_comm n 1, List.take_add]

/-- Passing `n` characters puts them behind the cursor. -/
theorem passed_pass (n : Nat) (c : Cursor) :
    (c.pass n).passed = (c.unread.take n).reverse ++ c.passed := by
  induction n generalizing c with
  | zero => rfl
  | succ n ih =>
      rw [pass, ih, step_passed, unread_step, ← List.append_assoc, ← List.reverse_append,
        ← List.drop_one, Nat.add_comm n 1, List.take_add]

/-- Passing characters that two texts have in common leaves the same place and the rest of each. -/
theorem pass_append_of_le {c : Cursor} {cs as : List Char} (hu : c.unread = cs ++ as)
    {n : Nat} (hn : n ≤ cs.length) (bs : List Char) :
    (⟨c.passed, cs ++ bs, c.place⟩ : Cursor).pass n =
      ⟨(c.pass n).passed, cs.drop n ++ bs, (c.pass n).place⟩ := by
  let d : Cursor := ⟨c.passed, cs ++ bs, c.place⟩
  calc d.pass n = ⟨(d.pass n).passed, (d.pass n).unread, (d.pass n).place⟩ := rfl
    _ = _ := by
      rw [passed_pass, unread_pass, place_pass, passed_pass, place_pass, hu,
        List.take_append_of_le_length hn, List.take_append_of_le_length hn,
        List.drop_append_of_le_length hn]

/-- The cursor stands at the place behind the characters that it has passed. -/
def Placed (c : Cursor) : Prop := c.place = Place.start.afterAll c.passed.reverse

theorem placed_ofList (cs : List Char) : (ofList cs).Placed := rfl

/-- Passing characters keeps the place right. -/
theorem Placed.pass {c : Cursor} (h : c.Placed) (n : Nat) : (c.pass n).Placed := by
  unfold Placed at h ⊢
  rw [place_pass, passed_pass, h, List.reverse_append, List.reverse_reverse,
    Place.afterAll_append]

/-- The place that is reached by passing `n` characters is the one behind all the text up to
there. -/
theorem Placed.place_pass {c : Cursor} (h : c.Placed) (n : Nat) :
    (c.pass n).place = Place.start.afterAll (c.passed.reverse ++ c.unread.take n) := by
  rw [Cursor.place_pass, h, Place.afterAll_append]

/-- The cursor stands in a text: what it has passed and what is left make up that text, and it knows
the place in between. -/
structure StandsIn (cs : List Char) (c : Cursor) : Prop where
  placed : c.Placed
  text : c.text = cs

namespace StandsIn

variable {cs : List Char} {c : Cursor}

theorem ofList (cs : List Char) : (Cursor.ofList cs).StandsIn cs := ⟨placed_ofList cs, rfl⟩

theorem pass (h : c.StandsIn cs) (n : Nat) : (c.pass n).StandsIn cs :=
  ⟨h.placed.pass n, (text_pass n c).trans h.text⟩

theorem reset (h : c.StandsIn cs) : c.reset = Cursor.ofList cs := by rw [Cursor.reset, h.text]

end StandsIn

end Cursor

/-! ### Whole lines -/

/-- Whether a text is empty or ends with a newline. -/
def WholeLines (cs : List Char) : Prop := cs = [] ∨ cs.getLast? = some '\n'

instance (cs : List Char) : Decidable (WholeLines cs) := inferInstanceAs (Decidable (_ ∨ _))

/-- The last part of whole lines consists of whole lines. -/
theorem WholeLines.of_append {cs ds : List Char} (h : WholeLines (cs ++ ds)) : WholeLines ds := by
  rcases h with h | h
  · exact Or.inl (List.append_eq_nil_iff.mp h).2
  · rw [List.getLast?_append] at h
    cases hd : ds.getLast? with
    | none => exact Or.inl (List.getLast?_eq_none_iff.mp hd)
    | some d =>
        rw [hd] at h
        exact Or.inr (hd.trans h)

/-- Behind a text, another one is lower by the newlines of the first one. -/
theorem lineAfter_append (cs ds : List Char) :
    lineAfter (cs ++ ds) = lineAfter ds + cs.count '\n' := by
  simp only [lineAfter, List.count_append]
  omega

/-- Behind whole lines, a text stands in the same columns. -/
theorem columnAfter_append {cs : List Char} (h : WholeLines cs) (ds : List Char) :
    columnAfter (cs ++ ds) = columnAfter ds := by
  have hstop : startsWith (· != '\n') cs.reverse = false := by
    rcases h with rfl | h
    · rfl
    · rw [startsWith, List.head?_reverse, h]
      rfl
  rw [columnAfter, columnAfter, List.reverse_append, takeWhile_append_eq hstop]

end FrontEnd
