import FrontEnd.Text.Reader
import FrontEnd.Proofs.Text.Run

/-!
# What readers take

`p.Reads run a after`: in front of the text `after`, the reader `p` takes exactly the characters of
`run` and gives `a`. A reader that is put together from others takes their runs one after another.
-/

namespace FrontEnd.Reader

variable {α β : Type} {p : Reader α}

/-- In front of a text a reader takes exactly a given run and gives a value. -/
def Reads (p : Reader α) (run : List Char) (a : α) (after : List Char) : Prop :=
  p (run ++ after) = some (a, run.length)

theorem reads_pure (a : α) (after : List Char) : (pure a : Reader α).Reads [] a after := rfl

/-- A reader that goes on behind another one takes the runs of both. -/
theorem Reads.bind {f : α → Reader β} {run rest after : List Char} {a : α} {b : β}
    (hp : p.Reads run a (rest ++ after)) (hf : (f a).Reads rest b after) :
    (p >>= f).Reads (run ++ rest) b after := by
  rw [Reads] at hp hf
  rw [Reads, bind_eq, List.append_assoc, hp]
  simp only [List.drop_left, hf, List.length_append]

/-- Behind a reader that takes nothing, reading goes on with the same text. -/
theorem Reads.nil_bind {f : α → Reader β} {run after : List Char} {a : α} {b : β}
    (hp : p.Reads [] a (run ++ after)) (hf : (f a).Reads run b after) :
    (p >>= f).Reads run b after :=
  Reads.bind hp hf

/-- A reader that goes on by taking nothing takes the same run. -/
theorem Reads.bind_nil {f : α → Reader β} {run after : List Char} {a : α} {b : β}
    (hp : p.Reads run a after) (hf : (f a).Reads [] b after) : (p >>= f).Reads run b after := by
  have h := Reads.bind hp hf
  rwa [List.append_nil] at h

theorem reads_char (c : Char) (after : List Char) : (char c).Reads [c] () after := by
  simp [Reads, char]

/-- Behind a given character, reading goes on. -/
theorem Reads.char_bind {f : Unit → Reader β} {run after : List Char} {b : β} (c : Char)
    (hf : (f ()).Reads run b after) : (char c >>= f).Reads (c :: run) b after :=
  Reads.bind (reads_char c (run ++ after)) hf

/-- Where a text starts with another character, a given one is not read. -/
theorem char_bind_eq_none {f : Unit → Reader β} {c : Char} {after : List Char}
    (ha : startsWith (· == c) after = false) : (char c >>= f) after = none := by
  have hc : after.head? ≠ some c := by
    cases after with
    | nil => simp
    | cons d rest => simpa using ha
  simp [bind_eq, char, hc]

/-- A run is read up to a text that starts with no character of its sort. -/
theorem reads_takeWhile {q : Char → Bool} {run after : List Char} (hr : ∀ c ∈ run, q c = true)
    (ha : startsWith q after = false) : (takeWhile q).Reads run run after := by
  simp only [Reads, takeWhile, takeWhile_append_stop hr ha]

theorem reads_optional_none {after : List Char} (h : p after = none) :
    (optional p).Reads [] none after := by
  simp [Reads, optional, h]

/-- Where the first of two readers refuses, the second one reads. -/
theorem Reads.orElse_right {q : Reader α} {run after : List Char} {a : α}
    (hp : p (run ++ after) = none) (hq : q.Reads run a after) :
    (orElse p q).Reads run a after := by
  rw [Reads] at hq
  simp only [Reads, orElse, hp, hq]

theorem reads_ofOption {o : Option α} {a : α} (h : o = some a) (after : List Char) :
    (ofOption o).Reads [] a after := by
  simp [Reads, ofOption, h]

/-- Repeating a reader gives the values read before, and then those that are read from the text
alone. -/
theorem manyFrom_eq (done : List α) (taken : Nat) (cs : List Char) :
    manyFrom p done taken cs =
      (done.reverse ++ (manyFrom p [] 0 cs).1, taken + (manyFrom p [] 0 cs).2) := by
  induction h : cs.length using Nat.strongRecOn generalizing done taken cs with
  | ind n ih =>
      cases cs with
      | nil => simp [manyFrom]
      | cons c rest =>
          rw [manyFrom, manyFrom]
          split
          · rename_i a k _
            have hlt : (rest.drop k).length < n := by
              rw [← h, List.length_drop, List.length_cons]
              omega
            rw [ih _ hlt (a :: done) _ _ rfl, ih _ hlt [a] _ _ rfl]
            simp [Nat.add_assoc]
          · simp

/-- Where a reader refuses or nothing is left, repeating it takes nothing. -/
theorem reads_many_nil {after : List Char} (h : after ≠ [] → p after = none) :
    (many p).Reads [] [] after := by
  simp only [Reads, many, List.nil_append, List.length_nil]
  cases after with
  | nil => simp [manyFrom]
  | cons c rest => simp [manyFrom, h]

/-- Repeating a reader that takes something goes on behind that. -/
theorem Reads.many_cons {run rest after : List Char} {a : α} {as : List α}
    (hp : p.Reads run a (rest ++ after)) (hr : run ≠ []) (hm : (many p).Reads rest as after) :
    (many p).Reads (run ++ rest) (a :: as) after := by
  obtain ⟨c, run, rfl⟩ := List.exists_cons_of_ne_nil hr
  simp only [Reads, many, Option.some.injEq] at hp hm ⊢
  rw [List.append_assoc, List.cons_append, manyFrom, ← List.cons_append, hp]
  simp only [List.length_cons, List.drop_left]
  have hl : 0 + run.length + 1 + rest.length = (c :: run ++ rest).length := by
    rw [List.length_append, List.length_cons, Nat.zero_add]
  rw [manyFrom_eq, hm, hl]
  rfl

/-- A text that a reader takes as a whole is read to its very end. -/
theorem Reads.all? {cs : List Char} {a : α} (hp : p.Reads cs a []) : p.all? cs = some a := by
  rw [Reads, List.append_nil] at hp
  simp [Reader.all?, hp]

/-- Reading a text to its very end by repetition goes on behind the first thing that is taken. -/
theorem many_all?_cons {run rest : List Char} {a : α} (hp : p.Reads run a rest) (hr : run ≠ []) :
    (many p).all? (run ++ rest) = ((many p).all? rest).map (a :: ·) := by
  obtain ⟨c, run, rfl⟩ := List.exists_cons_of_ne_nil hr
  rw [Reads] at hp
  simp only [Reader.all?, many]
  rw [List.cons_append, manyFrom, ← List.cons_append, hp]
  simp only [List.length_cons, List.drop_left]
  rw [manyFrom_eq [a]]
  have hd : 0 + run.length + 1 = (c :: run).length := by
    rw [List.length_cons, Nat.zero_add]
  rw [hd, ← List.drop_drop, List.drop_left]
  split <;> simp

/-- Items that are each read to a value are read to the list of their values. -/
theorem mapM_map_eq_some {γ : Type} {f : β → Option γ} {h : α → β} {g : α → γ} {items : List α}
    (hf : ∀ a ∈ items, f (h a) = some (g a)) : (items.map h).mapM f = some (items.map g) := by
  induction items with
  | nil => rfl
  | cons a items ih =>
      obtain ⟨ha, hitems⟩ := List.forall_mem_cons.mp hf
      rw [List.map_cons, List.mapM_cons, ha, ih hitems]
      rfl

end FrontEnd.Reader
