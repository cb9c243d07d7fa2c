import FrontEnd.Proofs.Text.Position
import FrontEnd.Proofs.Text.Run

/-!
# Carriage returns in front of newlines

Lines may end with a carriage return and a newline. A text that is written so has the same lines and
columns as with newlines alone, save that each newline itself stands one column later.
-/

namespace FrontEnd

/-- The text with a carriage return in front of every newline. -/
def withReturns (cs : List Char) : List Char :=
  cs.flatMap fun c => if c = '\n' then ['\r', '\n'] else [c]

@[simp] theorem withReturns_nil : withReturns [] = [] := rfl

@[simp] theorem withReturns_newline (cs : List Char) :
    withReturns ('\n' :: cs) = '\r' :: '\n' :: withReturns cs := rfl

theorem withReturns_cons {c : Char} (hc : c ≠ '\n') (cs : List Char) :
    withReturns (c :: cs) = c :: withReturns cs := by
  rw [withReturns, List.flatMap_cons, if_neg hc]
  rfl

theorem withReturns_append (cs ds : List Char) :
    withReturns (cs ++ ds) = withReturns cs ++ withReturns ds :=
  List.flatMap_append

/-- A text without newlines stays as it is. -/
theorem withReturns_of_not_mem {cs : List Char} (h : '\n' ∉ cs) : withReturns cs = cs := by
  induction cs with
  | nil => rfl
  | cons c cs ih =>
      rw [List.mem_cons, not_or] at h
      rw [withReturns_cons (Ne.symm h.1), ih h.2]

theorem length_le_withReturns (cs : List Char) : cs.length ≤ (withReturns cs).length := by
  induction cs with
  | nil => exact Nat.le_refl _
  | cons c cs ih =>
      by_cases hc : c = '\n'
      · rw [hc, withReturns_newline]
        exact Nat.succ_le_succ (Nat.le_succ_of_le ih)
      · rw [withReturns_cons hc]
        exact Nat.succ_le_succ ih

/-- The line and the column behind a text stay the same. -/
theorem lineAfter_columnAfter_withReturns (cs : List Char) :
    lineAfter (withReturns cs) = lineAfter cs ∧ columnAfter (withReturns cs) = columnAfter cs := by
  induction cs using List.reverseRecOn with
  | nil => exact ⟨rfl, rfl⟩
  | append_singleton cs c ih =>
      obtain ⟨hline, hcolumn⟩ := ih
      by_cases hc : c = '\n'
      · have hsplit : withReturns (cs ++ [c]) = withReturns cs ++ ['\r'] ++ [c] := by
          rw [withReturns_append, hc, List.append_assoc]
          rfl
        rw [hsplit, lineAfter_concat, lineAfter_concat, lineAfter_concat, columnAfter_concat,
          columnAfter_concat _ c, hline, if_pos hc, if_pos hc, if_pos hc, if_pos hc]
        exact ⟨rfl, rfl⟩
      · have hsplit : withReturns (cs ++ [c]) = withReturns cs ++ [c] := by
          rw [withReturns_append, withReturns_cons hc, withReturns_nil]
        rw [hsplit, lineAfter_concat, lineAfter_concat, columnAfter_concat, columnAfter_concat,
          hline, hcolumn]
        exact ⟨rfl, rfl⟩

/-- The first character stays the same, for all purposes for which a carriage return counts as much
as a newline. -/
theorem startsWith_withReturns {p : Char → Bool} (hp : p '\r' = p '\n') (cs : List Char) :
    startsWith p (withReturns cs) = startsWith p cs := by
  cases cs with
  | nil => rfl
  | cons c cs =>
      by_cases hc : c = '\n'
      · rw [hc]
        exact hp
      · rw [withReturns_cons hc]
        rfl

/-- No end mark of a comment comes about. -/
theorem endMark_of_withReturns {cs : List Char} (h : ['*', '/'] <:+: withReturns cs) :
    ['*', '/'] <:+: cs := by
  induction cs with
  | nil => exact h
  | cons c cs ih =>
      by_cases hc : c = '\n'
      · have hnot : ∀ d, '*' ≠ d → ∀ ds : List Char, ¬ ['*', '/'] <+: d :: ds :=
          fun d hd ds hp => hd (List.cons_prefix_cons.mp hp).1
        rw [hc, withReturns_newline] at h
        have hrest := (List.infix_cons_iff.mp h).resolve_left (hnot _ (by decide) _)
        have hrest := (List.infix_cons_iff.mp hrest).resolve_left (hnot _ (by decide) _)
        exact List.infix_cons (ih hrest)
      · rw [withReturns_cons hc] at h
        rcases List.infix_cons_iff.mp h with hfront | hrest
        · obtain ⟨rfl, after, hslash⟩ := List.cons_prefix_cons.mp hfront
          have hstart : startsWith (· == '/') cs = true := by
            rw [← startsWith_withReturns rfl, ← hslash]
            rfl
          cases cs with
          | nil => cases hstart
          | cons d cs =>
              rw [startsWith_cons, beq_iff_eq] at hstart
              rw [hstart]
              exact List.IsPrefix.isInfix ⟨cs, rfl⟩
        · exact List.infix_cons (ih hrest)

end FrontEnd
