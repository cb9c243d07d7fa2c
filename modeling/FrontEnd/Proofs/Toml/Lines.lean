import FrontEnd.Proofs.Text.Run
import FrontEnd.Proofs.Toml.OneLine

/-!
# TOML strings on several lines

A reader of such a string looks ahead over quotes: up to two of them are characters, also in front
of the closing ones. So quotes are read back together, at the end of their run.
-/

namespace FrontEnd.Toml

/-- A reader of a string between three marks: a mark that starts no three is a character, and up to
two marks in front of the closing ones are. -/
structure ReadsMarks (mark : Char)
    (f : List Char → Nat → List Char → Option (List Char × Nat)) : Prop where
  one : ∀ {rest}, ¬ [mark, mark] <+: rest → ∀ done taken,
    f done taken (mark :: rest) = f (mark :: done) (taken + 1) rest
  three : ∀ {after}, startsWith (· == mark) after = false → ∀ done taken,
    f done taken (mark :: mark :: mark :: after) = some (done.reverse, taken + 3)
  four : ∀ {after}, startsWith (· == mark) after = false → ∀ done taken,
    f done taken (mark :: mark :: mark :: mark :: after) = some ((mark :: done).reverse, taken + 4)
  five : ∀ after done taken, f done taken (mark :: mark :: mark :: mark :: mark :: after) =
    some ((mark :: mark :: done).reverse, taken + 5)

namespace ReadsMarks

variable {mark : Char} {f : List Char → Nat → List Char → Option (List Char × Nat)} {q : Nat}

/-- Up to two marks in front of another character are read as characters. -/
theorem run (hf : ReadsMarks mark f) (hq : q ≤ 2) {rest : List Char}
    (hr : startsWith (· == mark) rest = false) (done : List Char) (taken : Nat) :
    f done taken (List.replicate q mark ++ rest) =
      f (List.replicate q mark ++ done) (taken + q) rest := by
  have h := not_prefix_of_startsWith hr
  match q with
  | 0 => rfl
  | 1 => exact hf.one (h _) done taken
  | 2 =>
      have h₂ : ¬ [mark, mark] <+: mark :: rest := by
        simp [h]
      calc
        f done taken (mark :: mark :: rest) = f (mark :: done) (taken + 1) (mark :: rest) :=
          hf.one h₂ done taken
        _ = f (mark :: mark :: done) (taken + 1 + 1) rest := hf.one (h _) _ _

/-- Up to two marks in front of the closing ones are read as characters. -/
theorem close (hf : ReadsMarks mark f) (hq : q ≤ 2) {after : List Char}
    (ha : startsWith (· == mark) after = false) (done : List Char) (taken : Nat) :
    f done taken (List.replicate q mark ++ mark :: mark :: mark :: after) =
      some (done.reverse ++ List.replicate q mark, taken + q + 3) := by
  match q with
  | 0 =>
      refine (hf.three ha done taken).trans ?_
      simp
  | 1 =>
      refine (hf.four ha done taken).trans ?_
      simp
  | 2 =>
      refine (hf.five after done taken).trans ?_
      simp

end ReadsMarks

theorem readsMarks_basicLinesFrom : ReadsMarks '"' basicLinesFrom where
  one := by
    intro rest h done taken
    rw [basicLinesFrom] <;> rintro _ rfl <;> simp at h
  three := by
    intro after h done taken
    rw [basicLinesFrom] <;> rintro _ rfl <;> simp at h
  four := by
    intro after h done taken
    rw [basicLinesFrom]
    rintro _ rfl
    simp at h
  five := by
    intro after done taken
    rw [basicLinesFrom]

theorem readsMarks_literalLinesFrom : ReadsMarks '\'' literalLinesFrom where
  one := by
    intro rest h done taken
    rw [literalLinesFrom] <;> rintro _ rfl <;> simp at h
  three := by
    intro after h done taken
    rw [literalLinesFrom] <;> rintro _ rfl <;> simp at h
  four := by
    intro after h done taken
    rw [literalLinesFrom]
    rintro _ rfl
    simp at h
  five := by
    intro after done taken
    rw [literalLinesFrom]

theorem ne_lineBreak_of_isPrintable {c : Char} (hp : isPrintable c = true) :
    c ≠ '\n' ∧ c ≠ '\r' := by
  constructor
  · rintro rfl
    cases hp
  · rintro rfl
    cases hp

/-- The characters that stand for `c` in a basic string on several lines: they start with no quote
and with a line break only for a line break, and the string goes on behind them. -/
structure WritesInLines (s : List Char) (c : Char) : Prop where
  head : ∃ d tail, s = d :: tail ∧ d ≠ '"' ∧ (c ≠ '\n' → isPrintable d = true)
  step : ∀ done taken rest,
    basicLinesFrom done taken (s ++ rest) = basicLinesFrom (c :: done) (taken + s.length) rest

theorem writesInLines_plain {c : Char} (hp : isPrintable c = true) (hq : c ≠ '"')
    (hb : c ≠ '\\') : WritesInLines [c] c where
  head := ⟨c, [], rfl, hq, fun _ => hp⟩
  step := by
    intro done taken rest
    obtain ⟨hn, hr⟩ := ne_lineBreak_of_isPrintable hp
    rw [List.singleton_append, basicLinesFrom]
    · simp [hp]
    all_goals simp_all

theorem writesInLines_newline : WritesInLines ['\n'] '\n' where
  head := ⟨'\n', [], rfl, by decide, fun h => absurd rfl h⟩
  step := by
    intro done taken rest
    rw [List.singleton_append, basicLinesFrom]
    rfl

theorem writesInLines_escape {e : List Char} {c : Char} (he : Escapes e c) :
    WritesInLines ('\\' :: e) c where
  head := ⟨'\\', e, rfl, by decide, fun _ => rfl⟩
  step := by
    intro done taken rest
    obtain ⟨hescape, hends⟩ := he rest
    have hl : taken + 1 + e.length = taken + ('\\' :: e).length := by
      rw [List.length_cons, Nat.add_assoc, Nat.add_comm 1]
    rw [List.cons_append, basicLinesFrom, hends, hescape, ← hl]
    simp

/-- A text on several lines starts with a quote that stands for itself, or with characters that
stand for its first one. -/
theorem escapedInLines_cons (q : Nat) (c : Char) (cs : List Char) :
    (c = '"' ∧ q ≠ 2 ∧ escapedInLines q (c :: cs) = '"' :: escapedInLines (q + 1) cs) ∨
      ∃ s, WritesInLines s c ∧ escapedInLines q (c :: cs) = s ++ escapedInLines 0 cs := by
  by_cases hq : c = '"'
  · subst hq
    by_cases h : q = 2
    · exact Or.inr ⟨['\\', '"'], writesInLines_escape (escapes_letter rfl), by
        simp [escapedInLines, h]⟩
    · exact Or.inl ⟨rfl, h, by simp [escapedInLines, h]⟩
  · by_cases hn : c = '\n'
    · subst hn
      exact Or.inr ⟨['\n'], writesInLines_newline, by simp [escapedInLines]⟩
    · have hc : escapedInLines q (c :: cs) = escaped c ++ escapedInLines 0 cs := by
        rw [escapedInLines]
        · exact hq
        · exact hn
      rcases escaped_cases c hq hn with ⟨h, hp, hb⟩ | ⟨e, h, he⟩
      · exact Or.inr ⟨_, writesInLines_plain hp hq hb, by rw [hc, h]⟩
      · exact Or.inr ⟨_, writesInLines_escape he, by rw [hc, h]⟩

/-- A basic string on several lines is read back, behind up to two quotes that belong to it. -/
theorem basicLinesFrom_chars (cs : List Char) {after : List Char}
    (ha : startsWith (· == '"') after = false) {q : Nat} (hq : q ≤ 2) (done : List Char)
    (taken : Nat) :
    basicLinesFrom done taken
        (List.replicate q '"' ++ (escapedInLines q cs ++ '"' :: '"' :: '"' :: after)) =
      some (done.reverse ++ (List.replicate q '"' ++ cs),
        taken + q + (escapedInLines q cs).length + 3) := by
  induction cs generalizing q done taken with
  | nil =>
      refine (readsMarks_basicLinesFrom.close hq ha done taken).trans ?_
      simp [escapedInLines]
  | cons c cs ih =>
      rcases escapedInLines_cons q c cs with ⟨rfl, h, hc⟩ | ⟨s, hs, hc⟩
      · -- The quote joins those in front of it.
        have h := ih (show q + 1 ≤ 2 by omega) done taken
        rw [List.replicate_succ', List.append_assoc, List.append_assoc] at h
        have hl : taken + q + ('"' :: escapedInLines (q + 1) cs).length =
            taken + (q + 1) + (escapedInLines (q + 1) cs).length := by
          rw [List.length_cons]
          omega
        rw [hc, List.cons_append, hl]
        exact h
      · obtain ⟨d, tail, rfl, hd, -⟩ := hs.head
        have hr : startsWith (· == '"')
            (d :: tail ++ (escapedInLines 0 cs ++ '"' :: '"' :: '"' :: after)) = false := by
          simp [hd]
        have h := ih (Nat.zero_le 2) (c :: (List.replicate q '"' ++ done))
          (taken + q + (d :: tail).length)
        rw [hc, List.append_assoc, readsMarks_basicLinesFrom.run hq hr, hs.step]
        refine h.trans ?_
        simp
        omega

/-- A literal string on several lines goes on behind a character that is not a quote. -/
theorem literalLinesFrom_plain {c : Char} (hc : c = '\n' ∨ isPrintable c = true) (hq : c ≠ '\'')
    (done : List Char) (taken : Nat) (rest : List Char) :
    literalLinesFrom done taken (c :: rest) = literalLinesFrom (c :: done) (taken + 1) rest := by
  by_cases hn : c = '\n'
  · rw [hn, literalLinesFrom]
  · have hp : isPrintable c = true := hc.resolve_left hn
    have hr := (ne_lineBreak_of_isPrintable hp).2
    rw [literalLinesFrom]
    · rw [if_pos hp]
    all_goals simp_all

/-- The longest run is at least as long as the run that it starts with. -/
theorem le_longestRunFrom (q : Char) (run : Nat) (cs : List Char) :
    run ≤ longestRunFrom q run cs := by
  induction cs generalizing run with
  | nil => exact Nat.le_refl run
  | cons c cs ih =>
      rw [longestRunFrom]
      split
      · exact Nat.le_of_succ_le (ih (run + 1))
      · exact Nat.le_max_left _ _

/-- A literal string on several lines without long runs of quotes is read back, behind quotes that
belong to it. -/
theorem literalLinesFrom_chars {cs : List Char}
    (hc : ∀ c ∈ cs, c = '\n' ∨ isPrintable c = true) {after : List Char}
    (ha : startsWith (· == '\'') after = false) {q : Nat} (hq : longestRunFrom '\'' q cs ≤ 2)
    (done : List Char) (taken : Nat) :
    literalLinesFrom done taken
        (List.replicate q '\'' ++ (cs ++ '\'' :: '\'' :: '\'' :: after)) =
      some (done.reverse ++ (List.replicate q '\'' ++ cs), taken + q + cs.length + 3) := by
  induction cs generalizing q done taken with
  | nil =>
      have hq : q ≤ 2 := hq
      refine (readsMarks_literalLinesFrom.close hq ha done taken).trans ?_
      simp
  | cons c cs ih =>
      have hq' : q ≤ 2 := Nat.le_trans (le_longestRunFrom '\'' q (c :: cs)) hq
      have hcs : ∀ d ∈ cs, d = '\n' ∨ isPrintable d = true :=
        fun d hd => hc d (List.mem_cons_of_mem c hd)
      rw [longestRunFrom] at hq
      by_cases h : c = '\''
      · -- The quote joins those in front of it.
        subst h
        rw [if_pos rfl] at hq
        have h := ih hcs hq done taken
        rw [List.replicate_succ', List.append_assoc, List.append_assoc] at h
        have hl : taken + q + ('\'' :: cs).length = taken + (q + 1) + cs.length := by
          rw [List.length_cons]
          omega
        rw [List.cons_append, hl]
        exact h
      · rw [if_neg h] at hq
        have hr : startsWith (· == '\'') (c :: (cs ++ '\'' :: '\'' :: '\'' :: after)) = false := by
          simp [h]
        have hrest := ih hcs (Nat.le_trans (Nat.le_max_right _ _) hq)
          (c :: (List.replicate q '\'' ++ done)) (taken + q + 1)
        rw [List.cons_append, readsMarks_literalLinesFrom.run hq' hr,
          literalLinesFrom_plain (hc c List.mem_cons_self) h]
        refine hrest.trans ?_
        simp
        omega

end FrontEnd.Toml
