import FrontEnd.Proofs.Layout.Lines
import FrontEnd.Proofs.Lexeme.Gap
import FrontEnd.Proofs.Lexeme.Quoted
import FrontEnd.Proofs.Lexeme.Reach

/-!
# How far a scan looks ahead

A scan looks at no more than two characters behind those that it passes. So texts that agree up to
there are scanned alike, whatever stands behind.
-/

namespace FrontEnd

variable {cs as : List Char}

/-- A gap is measured alike in all texts that agree on it and on the two characters behind it. -/
theorem Gap.width?_append_of_lt {gap : Nat} (h : width? 0 (cs ++ as) = some gap)
    (hlt : gap + 1 < cs.length) (bs : List Char) : width? 0 (cs ++ bs) = some gap := by
  obtain ⟨trivia, after, heq, hfits, ho | ⟨body, rfl, hb⟩⟩ := exists_gap (cs ++ as)
  · rw [heq, width?_chars hfits ho] at h
    cases h
    have hprefix : gapChars trivia <+: cs :=
      List.prefix_of_prefix_length_le ⟨after, heq.symm⟩ (List.prefix_append cs as) (by omega)
    obtain ⟨rest, rfl⟩ := hprefix
    rw [List.append_assoc] at heq
    obtain rfl := List.append_cancel_left heq
    rw [List.length_append] at hlt
    rcases rest with - | ⟨c, - | ⟨d, rest⟩⟩
    · rw [List.length_nil] at hlt
      omega
    · rw [List.length_singleton] at hlt
      omega
    · rw [List.append_assoc]
      exact width?_chars (hfits.of_head?_eq rfl) ho
  · rw [heq, width?_gap hfits, width?_open hb] at h
    cases h

/-- A verbatim lexeme is the same in all texts that agree on it. -/
theorem Lexeme.verbatim_append_of_le {kind : Kind} {c : Char} {tail : Nat} (h : tail ≤ cs.length)
    (bs : List Char) :
    verbatim kind c (cs ++ bs) tail = verbatim kind c (cs ++ as) tail := by
  unfold verbatim
  rw [List.take_append_of_le_length h, List.take_append_of_le_length h]

namespace Number

theorem digits_append_of_lt (h : digits (cs ++ as) < cs.length) (bs : List Char) :
    digits (cs ++ bs) = digits (cs ++ as) := by
  rw [digits, takeWhile_append_of_length_lt h, digits]

theorem fraction_dot (rest : List Char) :
    fraction ('.' :: rest) = if digits rest = 0 then 0 else digits rest + 1 := rfl

theorem fraction_append_of_lt (h : fraction (cs ++ as) + 1 < cs.length) (bs : List Char) :
    fraction (cs ++ bs) = fraction (cs ++ as) := by
  rcases cs with - | ⟨c, cs⟩
  · cases h
  · by_cases hc : c = '.'
    · subst hc
      have hlt : digits (cs ++ as) < cs.length := by
        rw [List.cons_append, fraction_dot, List.length_cons] at h
        split at h <;> omega
      rw [List.cons_append, List.cons_append, fraction_dot, fraction_dot, digits_append_of_lt hlt]
    · simp [fraction, hc]

/-- The first character decides whether there is a sign. -/
theorem sign_of_head?_eq {as bs : List Char} (h : as.head? = bs.head?) : sign as = sign bs := by
  cases as with
  | nil => rw [List.head?_eq_none_iff.mp h.symm]
  | cons c as =>
      obtain ⟨bs, rfl⟩ := List.head?_eq_some_iff.mp h.symm
      unfold sign
      split <;> simp_all

/-- The number of characters that an exponent passes, also if its digits are missing. -/
def exponentReach : Except (Nat × Option Char) Nat → Nat
  | .ok width => width
  | .error (width, _) => width

theorem exponent_cons (mark : Char) (rest : List Char) :
    exponent (mark :: rest) =
      if isExponentMark mark then
        if digits (rest.drop (sign rest)) = 0 then
          .error (sign rest + 1, (rest.drop (sign rest)).head?)
        else .ok (sign rest + 1 + digits (rest.drop (sign rest)))
      else .ok 0 := rfl

theorem exponent_append_of_lt (h : exponentReach (exponent (cs ++ as)) + 1 < cs.length)
    (bs : List Char) : exponent (cs ++ bs) = exponent (cs ++ as) := by
  rcases cs with - | ⟨mark, cs⟩
  · cases h
  rw [List.cons_append, List.cons_append, exponent_cons, exponent_cons]
  by_cases hm : isExponentMark mark = true
  · rw [List.cons_append, exponent_cons, if_pos hm, List.length_cons] at h
    -- The mark, the sign and the digits leave one more character of what the texts have in common.
    have hlt : sign (cs ++ as) < cs.length ∧
        digits ((cs ++ as).drop (sign (cs ++ as))) < cs.length - sign (cs ++ as) := by
      split at h <;> simp only [exponentReach] at h <;> omega
    obtain ⟨hsign, hdigits⟩ := hlt
    have hdrop : ∀ ds, (cs ++ ds).drop (sign (cs ++ as)) = cs.drop (sign (cs ++ as)) ++ ds :=
      fun _ => List.drop_append_of_le_length (Nat.le_of_lt hsign)
    obtain ⟨c, power, hpower⟩ : ∃ c power, cs.drop (sign (cs ++ as)) = c :: power :=
      List.exists_cons_of_ne_nil (by simpa using hsign)
    have hsame : sign (cs ++ bs) = sign (cs ++ as) := by
      apply sign_of_head?_eq
      cases cs with
      | nil => cases hsign
      | cons c cs => rfl
    rw [hdrop, ← List.length_drop] at hdigits
    rw [if_pos hm, if_pos hm, hsame, hdrop, hdrop, digits_append_of_lt hdigits, hpower]
    rfl
  · rw [if_neg hm, if_neg hm]

/-- A number passes its digits, its fraction and its exponent. -/
theorem reach_scan (c : Char) (rest : List Char) :
    Lexeme.reach (scan c rest) =
      digits rest + fraction (rest.drop (digits rest)) +
        exponentReach (exponent (rest.drop (digits rest + fraction (rest.drop (digits rest))))) +
        1 := by
  unfold scan
  dsimp only
  split
  · rename_i width hw
    rw [hw]
    rfl
  · rename_i width found hw
    rw [hw]
    rfl

/-- A number is scanned alike in all texts that agree on it and on the two characters behind it. -/
theorem scan_append_of_lt {c : Char} (h : Lexeme.reach (scan c (cs ++ as)) < cs.length)
    (bs : List Char) : scan c (cs ++ bs) = scan c (cs ++ as) := by
  rw [reach_scan] at h
  have hdrop : ∀ n ≤ cs.length, ∀ ds, (cs ++ ds).drop n = cs.drop n ++ ds :=
    fun n hn ds => List.drop_append_of_le_length hn
  have hdigits : digits (cs ++ bs) = digits (cs ++ as) := digits_append_of_lt (by omega) bs
  have hfraction : fraction ((cs ++ bs).drop (digits (cs ++ as))) =
      fraction ((cs ++ as).drop (digits (cs ++ as))) := by
    rw [hdrop _ (by omega), hdrop _ (by omega)]
    apply fraction_append_of_lt
    rw [List.length_drop, ← hdrop _ (by omega)]
    omega
  unfold scan
  dsimp only
  rw [hdigits, hfraction]
  generalize digits (cs ++ as) + fraction ((cs ++ as).drop (digits (cs ++ as))) = mantissa at h ⊢
  have hexponent : exponent ((cs ++ bs).drop mantissa) = exponent ((cs ++ as).drop mantissa) := by
    rw [hdrop _ (by omega), hdrop _ (by omega)]
    apply exponent_append_of_lt
    rw [List.length_drop, ← hdrop _ (by omega)]
    omega
  rw [hexponent]
  cases he : exponent ((cs ++ as).drop mantissa) with
  | error e => rfl
  | ok width =>
      rw [he, exponentReach] at h
      exact congrArg Except.ok (Lexeme.verbatim_append_of_le (by omega) bs)

end Number

namespace Quoted

/-- A backslash is passed, whatever stands behind it. -/
theorem lt_reach_backslash (passed : Nat) (content rest : List Char) :
    passed < Lexeme.reach (stringBody passed content ('\\' :: rest)) := by
  cases rest with
  | nil => exact Nat.lt_succ_self _
  | cons letter rest =>
      rw [stringBody]
      split
      · exact Nat.lt_of_lt_of_le (Nat.lt_add_of_pos_right Nat.two_pos)
          (le_reach_stringBody _ _ _)
      · exact Nat.lt_succ_self _

/-- A string literal is scanned alike in all texts that agree on what the scan passes and on one
character behind it. -/
theorem stringBody_append_of_lt {passed : Nat} {content : List Char}
    (h : Lexeme.reach (stringBody passed content (cs ++ as)) < passed + cs.length)
    (bs : List Char) :
    stringBody passed content (cs ++ bs) = stringBody passed content (cs ++ as) := by
  obtain ⟨gs, tail, hg, rfl, rfl | ⟨rest, rfl⟩ | rfl | ⟨letter, rest, hl, rfl⟩⟩ := exists_glyphs cs
  · rw [List.append_nil, stringBody_glyphs hg] at h
    exact absurd h (Nat.not_lt.mpr (le_reach_stringBody _ _ _))
  · rw [List.append_assoc, List.append_assoc, stringBody_glyphs hg, stringBody_glyphs hg]
    rfl
  · rw [List.append_assoc, stringBody_glyphs hg, List.length_append, ← Nat.add_assoc] at h
    exact absurd h (Nat.not_lt.mpr (lt_reach_backslash _ _ _))
  · rw [List.append_assoc, List.append_assoc, stringBody_glyphs hg, stringBody_glyphs hg]
    simp only [List.cons_append, stringBody, hl]

/-- What a character literal has passed belongs to what it passes, also if it is not closed. -/
theorem le_reach_closeChar (c : Char) (passed : Nat) (rest : List Char) :
    passed ≤ Lexeme.reach (closeChar c passed rest) := by
  unfold closeChar
  split
  · exact Nat.le_succ _
  · exact Nat.le_refl _

theorem one_le_reach_charBody (cs : List Char) : 1 ≤ Lexeme.reach (charBody cs) := by
  unfold charBody
  split
  · exact Nat.le_refl _
  · exact Nat.le_succ _
  · split
    · exact Nat.le_trans (by decide) (le_reach_closeChar _ _ _)
    · exact Nat.le_succ _
  · exact Nat.le_trans (Nat.le_succ _) (le_reach_closeChar _ _ _)

theorem two_le_reach_backslash (rest : List Char) :
    2 ≤ Lexeme.reach (charBody ('\\' :: rest)) := by
  cases rest with
  | nil => exact Nat.le_refl _
  | cons letter rest =>
      rw [charBody]
      split
      · exact Nat.le_trans (by decide) (le_reach_closeChar _ _ _)
      · exact Nat.le_refl _

/-- A character literal is scanned alike in all texts that agree on what the scan passes and on one
character behind it. -/
theorem charBody_append_of_lt (h : Lexeme.reach (charBody (cs ++ as)) < 1 + cs.length)
    (bs : List Char) : charBody (cs ++ bs) = charBody (cs ++ as) := by
  rcases glyph_cases ['\\'] cs with
    rfl | ⟨g, rest, hg, rfl⟩ | ⟨c, rest, hc, hne, rfl⟩ | rfl | ⟨letter, rest, hl, rfl⟩
  · exact absurd h (Nat.not_lt.mpr (one_le_reach_charBody _))
  · rw [List.append_assoc, charBody_glyph hg] at h
    rw [List.append_assoc, List.append_assoc, charBody_glyph hg, charBody_glyph hg]
    cases rest with
    | nil =>
        have hle := le_reach_closeChar g.value (g.chars.length + 1) as
        rw [List.nil_append, List.append_nil] at h
        omega
    | cons c rest => rfl
  · exact absurd (List.mem_singleton.mp hc) hne
  · exact absurd h (Nat.not_lt.mpr (two_le_reach_backslash _))
  · simp only [List.cons_append, charBody, hl]

end Quoted

namespace Lexeme

theorem word_append_of_lt {c : Char} (h : (word c (cs ++ as)).width < cs.length) (bs : List Char) :
    word c (cs ++ bs) = word c (cs ++ as) := by
  have htail : ((cs ++ as).takeWhile isWordPart).length < cs.length := Nat.lt_of_succ_lt h
  unfold word
  dsimp only
  rw [takeWhile_append_of_length_lt htail, List.take_append_of_le_length (Nat.le_of_lt htail),
    List.take_append_of_le_length (Nat.le_of_lt htail)]
  exact verbatim_append_of_le (Nat.le_of_lt htail) bs

/-- An operator is told by its own character and the one behind. -/
theorem operator_cons (c d : Char) (as bs : List Char) :
    operator c (d :: bs) = operator c (d :: as) := by
  unfold operator
  split <;> rfl

/-- The text behind a first character is scanned alike in all texts that agree on what the scan
passes and on two characters behind it. -/
theorem scan_append_of_lt {c : Char} (h : reach (scan c (cs ++ as)) < cs.length)
    (bs : List Char) : scan c (cs ++ bs) = scan c (cs ++ as) := by
  obtain ⟨d, ds, rfl⟩ : ∃ d ds, cs = d :: ds :=
    List.exists_cons_of_length_pos (Nat.lt_of_le_of_lt (Nat.zero_le _) h)
  revert h
  unfold scan
  split
  · exact fun _ => rfl
  split
  · exact fun h => Quoted.stringBody_append_of_lt (Nat.lt_add_left 1 h) bs
  split
  · exact fun h => Quoted.charBody_append_of_lt (Nat.lt_add_left 1 h) bs
  split
  · exact fun h => Number.scan_append_of_lt h bs
  split
  · exact fun h => congrArg Except.ok (word_append_of_lt h bs)
  · exact fun _ => operator_cons c d (ds ++ as) (ds ++ bs)

end Lexeme

end FrontEnd
