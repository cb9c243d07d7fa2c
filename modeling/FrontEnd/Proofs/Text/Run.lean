/-!
# Runs at the front of a text

The longest run of characters of one sort ends where the text behind it starts with a character of
another sort, or is empty.
-/

namespace FrontEnd

/-- Whether a text starts with a character that satisfies `p`. -/
def startsWith (p : Char → Bool) (cs : List Char) : Bool := cs.head?.any p

@[simp] theorem startsWith_nil (p : Char → Bool) : startsWith p [] = false := rfl

@[simp] theorem startsWith_cons (p : Char → Bool) (c : Char) (cs : List Char) :
    startsWith p (c :: cs) = p c := rfl

/-- A text starts with a character of a sort and so with no given one of another sort. -/
theorem cons_ne_cons {p : Char → Bool} {c d : Char} (hc : p c = true) (hd : p d = false)
    (cs ds : List Char) : c :: cs ≠ d :: ds := by
  intro h
  obtain ⟨rfl, -⟩ := List.cons.inj h
  rw [hc] at hd
  cases hd

/-- Two texts in a row start with no character of a sort if neither of them does. -/
theorem startsWith_append {p : Char → Bool} {cs after : List Char}
    (hc : startsWith p cs = false) (ha : startsWith p after = false) :
    startsWith p (cs ++ after) = false := by
  cases cs with
  | nil => exact ha
  | cons c cs => exact hc

/-- How a text starts does not depend on what stands behind it. -/
theorem startsWith_append_of_ne_nil {cs : List Char} (h : cs ≠ []) (p : Char → Bool)
    (after : List Char) : startsWith p (cs ++ after) = startsWith p cs := by
  obtain ⟨c, cs, rfl⟩ := List.exists_cons_of_ne_nil h
  rfl

/-- A text that does not start with a character has no prefix that does. -/
theorem not_prefix_of_startsWith {c : Char} {cs : List Char}
    (h : startsWith (· == c) cs = false) (tail : List Char) : ¬ c :: tail <+: cs := by
  rintro ⟨after, rfl⟩
  simp at h

/-- A text that starts with no character that satisfies `p` does not make the run in front of it
longer. -/
theorem takeWhile_append_eq {p : Char → Bool} {after : List Char}
    (ha : startsWith p after = false) (cs : List Char) :
    (cs ++ after).takeWhile p = cs.takeWhile p := by
  induction cs with
  | nil =>
      cases after with
      | nil => rfl
      | cons c cs => exact List.takeWhile_cons_of_neg (by simp [show p c = false from ha])
  | cons c cs ih => rw [List.cons_append, List.takeWhile_cons, List.takeWhile_cons, ih]

/-- A run whose characters all satisfy `p` is the longest one if the text behind it starts with
no such character. -/
theorem takeWhile_append_stop {p : Char → Bool} {run after : List Char}
    (hr : ∀ c ∈ run, p c = true) (ha : startsWith p after = false) :
    (run ++ after).takeWhile p = run := by
  have h : (run ++ []).takeWhile p = run ++ [] := List.takeWhile_append_of_pos hr
  rw [List.append_nil] at h
  rw [takeWhile_append_eq ha, h]

/-- Behind such a run the text goes on. -/
theorem dropWhile_append_stop {p : Char → Bool} {run after : List Char}
    (hr : ∀ c ∈ run, p c = true) (ha : startsWith p after = false) :
    (run ++ after).dropWhile p = after := by
  have hsplit := List.takeWhile_append_dropWhile (p := p) (l := run ++ after)
  rwa [takeWhile_append_stop hr ha, List.append_cancel_left_eq] at hsplit

/-- A run that ends before the part that two texts have in common ends is a run of both. -/
theorem takeWhile_append_of_length_lt {p : Char → Bool} {cs as : List Char}
    (h : ((cs ++ as).takeWhile p).length < cs.length) (bs : List Char) :
    (cs ++ bs).takeWhile p = (cs ++ as).takeWhile p := by
  have hne : (cs.takeWhile p).length ≠ cs.length := by
    intro he
    rw [List.takeWhile_append, if_pos he, List.length_append] at h
    omega
  rw [List.takeWhile_append, List.takeWhile_append, if_neg hne, if_neg hne]

/-- Every text is a run of characters that satisfy `p` and a text that starts with no such one. -/
theorem exists_run (p : Char → Bool) (cs : List Char) :
    ∃ run after, cs = run ++ after ∧ (∀ c ∈ run, p c = true) ∧ startsWith p after = false := by
  induction cs with
  | nil => exact ⟨[], [], rfl, by simp, rfl⟩
  | cons c cs ih =>
      cases hc : p c with
      | false => exact ⟨[], c :: cs, rfl, by simp, hc⟩
      | true =>
          obtain ⟨run, after, rfl, hr, ha⟩ := ih
          refine ⟨c :: run, after, rfl, ?_, ha⟩
          intro d hd
          rcases List.mem_cons.mp hd with rfl | hd
          · exact hc
          · exact hr d hd

end FrontEnd
