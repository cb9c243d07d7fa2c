import FrontEnd.Lexeme.Scan
import FrontEnd.Proofs.Layout.Trivia

/-!
# Measuring gaps

The width of a gap is exact: it is that of the blanks and comments at the front of a text, as many
as there are, and there is none exactly if a block comment among them stays open.
-/

namespace FrontEnd.Gap

/-- A block comment is closed by its first end mark. -/
theorem closeComment?_append {body : List Char} (hb : ¬ ['*', '/'] <:+: body) (n : Nat)
    (after : List Char) :
    closeComment? n (body ++ '*' :: '/' :: after) = some (n + body.length + 2) := by
  induction body generalizing n with
  | nil => rfl
  | cons c body ih =>
      have ht : ¬ ['*', '/'] <:+: body := fun h => hb (h.trans (List.suffix_cons c body).isInfix)
      have hc : ∀ tail, c = '*' → body ++ '*' :: '/' :: after = '/' :: tail → False := by
        rintro tail rfl he
        cases body with
        | nil => cases he
        | cons d body =>
            cases he
            exact hb ⟨[], body, rfl⟩
      rw [List.cons_append, closeComment?]
      · rw [ih ht]
        simp [Nat.add_comm, Nat.add_left_comm]
      · exact hc

/-- Without an end mark a block comment stays open. -/
theorem closeComment?_eq_none {cs : List Char} (h : ¬ ['*', '/'] <:+: cs) (n : Nat) :
    closeComment? n cs = none := by
  induction cs generalizing n with
  | nil => rfl
  | cons c cs ih =>
      have ht : ¬ ['*', '/'] <:+: cs := fun h' => h (h'.trans (List.suffix_cons c cs).isInfix)
      have hc : ∀ tail, c = '*' → cs = '/' :: tail → False := by
        rintro tail rfl rfl
        exact h ⟨[], tail, rfl⟩
      rw [closeComment?]
      · exact ih ht _
      · exact hc

/-- A text that holds an end mark holds a first one. -/
theorem exists_endMark {cs : List Char} (h : ['*', '/'] <:+: cs) :
    ∃ body after, cs = body ++ '*' :: '/' :: after ∧ ¬ ['*', '/'] <:+: body := by
  induction cs with
  | nil => simp at h
  | cons c cs ih =>
      by_cases hp : ['*', '/'] <+: c :: cs
      · obtain ⟨after, ha⟩ := hp
        exact ⟨[], after, ha.symm, by simp⟩
      · have hi : ['*', '/'] <:+: cs := (List.infix_cons_iff.mp h).resolve_left hp
        obtain ⟨body, after, rfl, hb⟩ := ih hi
        refine ⟨c :: body, after, rfl, ?_⟩
        intro hm
        rcases List.infix_cons_iff.mp hm with hm | hm
        · exact hp (hm.trans ⟨'*' :: '/' :: after, rfl⟩)
        · exact hb hm

theorem width?_lineComment {body after : List Char} (hb : '\n' ∉ body)
    (ha : startsWith (· != '\n') after = false) (n : Nat) :
    width? n ('/' :: '/' :: (body ++ after)) = width? (n + (body.length + 2)) after := by
  have hbody : ∀ c ∈ body, (c != '\n') = true := by
    intro c hc
    rw [bne_iff_ne]
    rintro rfl
    exact hb hc
  rw [width?]
  simp only [takeWhile_append_stop hbody ha, List.drop_left]
  congr 1
  omega

theorem width?_blockComment {body : List Char} (hb : ¬ ['*', '/'] <:+: body) (after : List Char)
    (n : Nat) :
    width? n ('/' :: '*' :: (body ++ '*' :: '/' :: after)) =
      width? (n + (body.length + 4)) after := by
  have hdrop : (body ++ '*' :: '/' :: after).drop (0 + body.length + 2) = after := by
    rw [Nat.zero_add, ← List.drop_drop, List.drop_left]
    rfl
  rw [width?]
  simp only [closeComment?_append hb, hdrop]
  congr 1
  omega

theorem width?_blank {c : Char} (hc : c ∈ [' ', '\t', '\r']) (n : Nat) (after : List Char) :
    width? n (c :: after) = width? (n + 1) after := by
  simp only [List.mem_cons, List.not_mem_nil, or_false] at hc
  rcases hc with rfl | rfl | rfl
  all_goals
    rw [width?]
    · rfl
    all_goals simp

/-- Where no blank or comment stands, a gap ends. -/
theorem width?_stop {cs : List Char} (h : opensTrivia cs = false) (n : Nat) :
    width? n cs = some n := by
  unfold width?
  split
  · cases h
  · cases h
  · rename_i c rest _ _
    simp only [opensTrivia, Bool.or_eq_false_iff] at h
    have hc : isBlank c = false := by simpa [isBlank, and_assoc] using h.1
    simp [hc]
  · rfl

/-- Blanks and comments that fit the text behind them are passed. -/
theorem width?_gap {gap : List Trivia} {after : List Char} (hg : GapFits gap after) (n : Nat) :
    width? n (gapChars gap ++ after) = width? (n + (gapChars gap).length) after := by
  induction gap generalizing n with
  | nil => rfl
  | cons t gap ih =>
      obtain ⟨hv, ha, hg⟩ := hg
      rw [gapChars_cons, List.append_assoc, List.length_append, ← Nat.add_assoc, ← ih hg]
      cases t with
      | blank c => exact width?_blank hv n _
      | lineComment body => exact width?_lineComment hv ha n
      | blockComment body =>
          simpa [Trivia.chars] using width?_blockComment hv (gapChars gap ++ after) n

/-- A gap is measured up to where no blank or comment stands. -/
theorem width?_chars {gap : List Trivia} {after : List Char} (hg : GapFits gap after)
    (ha : opensTrivia after = false) :
    width? 0 (gapChars gap ++ after) = some (gapChars gap).length := by
  rw [width?_gap hg, width?_stop ha, Nat.zero_add]

/-- Behind a block comment that stays open nothing is measured. -/
theorem width?_open {body : List Char} (hb : ¬ ['*', '/'] <:+: body) (n : Nat) :
    width? n ('/' :: '*' :: body) = none := by
  rw [width?, closeComment?_eq_none hb]

/-- A blank or comment at the front of a text either is complete or is a block comment that stays
open. -/
theorem exists_trivia {cs : List Char} (h : opensTrivia cs = true) :
    (∃ (t : Trivia) (after : List Char), cs = t.chars ++ after ∧ t.Valid ∧ t.Apart after) ∨
      ∃ body, cs = '/' :: '*' :: body ∧ ¬ ['*', '/'] <:+: body := by
  cases cs with
  | nil => cases h
  | cons c rest =>
      simp only [opensTrivia, Bool.or_eq_true, Bool.and_eq_true, beq_iff_eq,
        List.contains_iff_mem] at h
      rcases h with hc | ⟨rfl, hr⟩
      · exact Or.inl ⟨.blank c, rest, rfl, hc, trivial⟩
      · cases rest with
        | nil => cases hr
        | cons d rest =>
            have hd : d = '/' ∨ d = '*' := by simpa using hr
            rcases hd with rfl | rfl
            · obtain ⟨body, after, rfl, hb, ha⟩ := exists_run (· != '\n') rest
              refine Or.inl ⟨.lineComment body, after, rfl, ?_, ha⟩
              intro hm
              simpa using hb _ hm
            · by_cases hm : ['*', '/'] <:+: rest
              · obtain ⟨body, after, rfl, hb⟩ := exists_endMark hm
                exact Or.inl ⟨.blockComment body, after, by simp [Trivia.chars], hb, trivial⟩
              · exact Or.inr ⟨rest, rfl, hm⟩

/-- Every text starts with the longest possible gap, unless a block comment stays open behind the
blanks and comments at its front. -/
theorem exists_gap (cs : List Char) :
    ∃ (gap : List Trivia) (after : List Char), cs = gapChars gap ++ after ∧ GapFits gap after ∧
      (opensTrivia after = false ∨
        ∃ body, after = '/' :: '*' :: body ∧ ¬ ['*', '/'] <:+: body) := by
  induction h : cs.length using Nat.strongRecOn generalizing cs with
  | ind n ih =>
      cases ho : opensTrivia cs with
      | false => exact ⟨[], cs, rfl, trivial, Or.inl ho⟩
      | true =>
          rcases exists_trivia ho with ⟨t, rest, rfl, hv, ha⟩ | ⟨body, rfl, hb⟩
          · have hlt : rest.length < n := by
              have hpos := t.chars_length_pos
              rw [List.length_append] at h
              omega
            obtain ⟨gap, after, rfl, hg, hend⟩ := ih _ hlt rest rfl
            exact ⟨t :: gap, after, by simp, ⟨hv, ha, hg⟩, hend⟩
          · exact ⟨[], _, rfl, trivial, Or.inr ⟨body, rfl, hb⟩⟩

end FrontEnd.Gap
