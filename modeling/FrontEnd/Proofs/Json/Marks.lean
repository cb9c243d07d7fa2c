import FrontEnd.Proofs.Json.Quoted
import Mathlib.Data.List.TakeWhile

/-!
# Splitting JSON texts into marks

The marks of a text are read off one after another, whatever white space stands between them. A
text spells given marks if it is split into them in front of every text that cannot make its last
mark longer.
-/

namespace FrontEnd.Json

/-- Reads a mark and the white space behind it. -/
def spacedMark : Reader Mark := do
  let m ← mark
  let _ ← space
  return m

theorem drop_takeWhile (p : Char → Bool) (cs : List Char) :
    cs.drop (cs.takeWhile p).length = cs.dropWhile p :=
  calc
    cs.drop (cs.takeWhile p).length =
        (cs.takeWhile p ++ cs.dropWhile p).drop (cs.takeWhile p).length := by
      rw [List.takeWhile_append_dropWhile]
    _ = cs.dropWhile p := List.drop_left

/-- The marks of a text are read behind the white space in front of it. -/
theorem marks?_eq (cs : List Char) :
    marks? cs = (Reader.many spacedMark).all? (cs.dropWhile isSpace) := by
  have hmany : ∀ ds, Reader.many spacedMark ds = some (Reader.manyFrom spacedMark [] 0 ds) :=
    fun _ => rfl
  rw [marks?, Reader.all?, Reader.bind_eq, ← spacedMark]
  simp only [space, Reader.takeWhile, drop_takeWhile, hmany, Reader.all?]
  rw [← List.drop_drop, drop_takeWhile]

theorem marks?_nil : marks? [] = some [] := by
  rw [marks?_eq]
  simp [Reader.all?, Reader.many, Reader.manyFrom]

/-- A text is not split into marks if none stands at its front. -/
theorem marks?_eq_none {c : Char} {cs : List Char} (hc : isSpace c = false)
    (hm : mark (c :: cs) = none) : marks? (c :: cs) = none := by
  have hspaced : spacedMark (c :: cs) = none := by
    rw [spacedMark, Reader.bind_eq, hm]
  rw [marks?_eq, List.dropWhile_cons_of_neg (by simp [hc])]
  simp [Reader.all?, Reader.many, Reader.manyFrom, hspaced]

/-- White space in front of a text does not matter. -/
theorem marks?_space {space : List Char} (hs : ∀ c ∈ space, isSpace c = true) (cs : List Char) :
    marks? (space ++ cs) = marks? cs := by
  rw [marks?_eq, marks?_eq, List.dropWhile_append_of_pos hs]

/-- The first mark of a text stands in front of the marks of the text behind it. -/
theorem marks?_mark {run rest : List Char} {m : Mark} (hm : mark.Reads run m rest)
    (hr : startsWith (fun c => !isSpace c) run = true) :
    marks? (run ++ rest) = (marks? rest).map (m :: ·) := by
  obtain ⟨c, run, rfl⟩ : ∃ c tail, run = c :: tail := by
    cases run with
    | nil => cases hr
    | cons c tail => exact ⟨c, tail, rfl⟩
  have hc : isSpace c = false := by simpa using hr
  have hsplit : rest = rest.takeWhile isSpace ++ rest.dropWhile isSpace :=
    List.takeWhile_append_dropWhile.symm
  have hspace : space.Reads (rest.takeWhile isSpace) (rest.takeWhile isSpace)
      (rest.dropWhile isSpace) := by
    simp only [Reader.Reads, space, Reader.takeWhile, ← hsplit]
  have hspaced : spacedMark.Reads (c :: run ++ rest.takeWhile isSpace) m
      (rest.dropWhile isSpace) := by
    refine Reader.Reads.bind (by rwa [← hsplit]) ?_
    exact Reader.Reads.bind_nil hspace (Reader.reads_pure m _)
  have hmany := Reader.many_all?_cons hspaced (by simp)
  rw [List.append_assoc, ← hsplit] at hmany
  rw [marks?_eq, marks?_eq, ← hmany, List.cons_append, List.dropWhile_cons_of_neg (by simp [hc])]

/-- Whether a text is split into the given marks in front of every text that starts with no
character of a number. -/
def Spells (cs : List Char) (ms : List Mark) : Prop :=
  ∀ rest, startsWith isNumberChar rest = false →
    marks? (cs ++ rest) = (marks? rest).map (ms ++ ·)

/-- A text that spells marks is split into them. -/
theorem Spells.marks? {cs : List Char} {ms : List Mark} (h : Spells cs ms) :
    marks? cs = some ms := by
  have h := h [] rfl
  rw [List.append_nil, marks?_nil, Option.map_some, List.append_nil] at h
  exact h

theorem spells_nil : Spells [] [] := by
  intro rest _
  simp

/-- The marks of two texts stand one behind the other if the second text does not go on with a
number. -/
theorem Spells.append {cs ds : List Char} {ms ns : List Mark} (hc : Spells cs ms)
    (hd : Spells ds ns) (hn : startsWith isNumberChar ds = false) :
    Spells (cs ++ ds) (ms ++ ns) := by
  intro rest hr
  rw [List.append_assoc, hc (ds ++ rest) (startsWith_append hn hr), hd rest hr]
  simp [Function.comp_def]

/-- White space in front of a text is not part of its marks. -/
theorem Spells.space {space cs : List Char} {ms : List Mark} (h : Spells cs ms)
    (hs : IsSpaces space) : Spells (space ++ cs) ms := by
  intro rest hr
  rw [List.append_assoc, marks?_space hs, h rest hr]

/-- A mark that ends by itself may stand in front of any text. -/
theorem Spells.mark {run cs : List Char} {m : Mark} {ms : List Mark} (h : Spells cs ms)
    (hm : ∀ after, mark.Reads run m after)
    (hr : startsWith (fun c => !isSpace c) run = true) : Spells (run ++ cs) (m :: ms) := by
  intro rest hrest
  rw [List.append_assoc, marks?_mark (hm _) hr, h rest hrest]
  simp [Function.comp_def]

/-- A string may stand in front of any text. -/
theorem Spells.string {points : List CodePoint} {run cs : List Char} {ms : List Mark}
    (h : Spells cs ms) (hrun : StringSpelled points run) :
    Spells (run ++ cs) (.string points :: ms) := by
  refine h.mark (reads_string hrun) ?_
  obtain ⟨-⟩ := hrun
  rfl

/-! ### White space -/

/-- White space holds no marks. -/
theorem spells_space {space : List Char} (hs : IsSpaces space) : Spells space [] := by
  simpa using spells_nil.space hs

/-- White space does not go on with a number. -/
theorem startsWith_space {space : List Char} (hs : IsSpaces space) :
    startsWith isNumberChar space = false := by
  cases space with
  | nil => rfl
  | cons c space =>
      have hc := hs c List.mem_cons_self
      rw [startsWith_cons]
      simp only [isSpace, Bool.or_eq_true, beq_iff_eq] at hc
      obtain ((rfl | rfl) | rfl) | rfl := hc <;> rfl

/-- White space behind a text is not part of its marks. -/
theorem Spells.append_space {cs space : List Char} {ms : List Mark} (h : Spells cs ms)
    (hs : IsSpaces space) : Spells (cs ++ space) ms := by
  simpa using h.append (spells_space hs) (startsWith_space hs)

/-! ### Numbers -/

theorem isNumberChar_of_isDigit {c : Char} (hc : c.isDigit = true) : isNumberChar c = true := by
  simp [isNumberChar, hc]

/-- Digits are a digit and more digits. -/
theorem isDigits_iff {cs : List Char} :
    isDigits cs = true ↔ cs ≠ [] ∧ ∀ c ∈ cs, c.isDigit = true := by
  simp [isDigits]

theorem isNumberChar_of_isDigits {cs : List Char} (h : isDigits cs = true) :
    ∀ c ∈ cs, isNumberChar c = true :=
  fun c hc => isNumberChar_of_isDigit ((isDigits_iff.mp h).2 c hc)

/-- Digits start with a digit. -/
theorem exists_cons_of_isDigits {cs : List Char} (h : isDigits cs = true) :
    ∃ c tail, cs = c :: tail ∧ c.isDigit = true := by
  obtain ⟨hne, hdigit⟩ := isDigits_iff.mp h
  obtain ⟨c, tail, rfl⟩ := List.exists_cons_of_ne_nil hne
  exact ⟨c, tail, rfl, hdigit c List.mem_cons_self⟩

theorem ExponentSpelled.startsWith {cs : List Char} (h : ExponentSpelled cs) :
    startsWith Char.isDigit cs = false := by
  cases h with
  | none => rfl
  | some hmark hsign hdigits =>
      simp only [List.mem_cons, List.not_mem_nil, or_false] at hmark
      rcases hmark with rfl | rfl <;> rfl

theorem FractionSpelled.startsWith {cs : List Char} (h : FractionSpelled cs) :
    startsWith Char.isDigit cs = false := by
  cases h <;> rfl

/-- A spelled exponent is an exponent. -/
theorem isExponent_of_spelled {cs : List Char} (h : ExponentSpelled cs) :
    isExponent cs = true := by
  cases h with
  | none => rfl
  | @some mark sign digits hmark hsign hdigits =>
      have hmark : (mark == 'e' || mark == 'E') = true := by
        simpa using hmark
      obtain ⟨c, tail, rfl, hc⟩ := exists_cons_of_isDigits hdigits
      simp only [List.mem_cons, List.not_mem_nil, or_false] at hsign
      rcases hsign with rfl | rfl | rfl
      · rw [List.nil_append, isExponent, hmark, hdigits]
        · rfl
        -- A digit is no sign.
        all_goals exact fun _ => cons_ne_cons hc rfl _ _
      · rw [List.singleton_append, isExponent, hmark, hdigits]
        rfl
      · rw [List.singleton_append, isExponent, hmark, hdigits]
        rfl

/-- A spelled fraction in front of a spelled exponent is a fraction. -/
theorem isFraction_of_spelled {fraction exponent : List Char} (hf : FractionSpelled fraction)
    (he : ExponentSpelled exponent) : isFraction (fraction ++ exponent) = true := by
  cases hf with
  | none =>
      rw [List.nil_append, isFraction]
      · exact isExponent_of_spelled he
      · rintro rest rfl
        cases he with
        | some hmark _ _ => simp at hmark
  | @some digits hdigits =>
      obtain ⟨hne, hall⟩ := isDigits_iff.mp hdigits
      rw [List.cons_append, isFraction, takeWhile_append_stop hall he.startsWith,
        dropWhile_append_stop hall he.startsWith, isExponent_of_spelled he]
      simpa using hne

/-- A spelled number is a number. -/
theorem isNumber_of_spelled {cs : List Char} (h : NumberSpelled cs) : isNumber cs = true := by
  obtain ⟨hsign, ⟨hdigits, hzero⟩, hfraction, hexponent⟩ := h
  rename_i sign whole fraction exponent
  have hstop := startsWith_append hfraction.startsWith hexponent.startsWith
  obtain ⟨hne, hall⟩ := isDigits_iff.mp hdigits
  have hunsigned : isUnsigned (whole ++ (fraction ++ exponent)) = true := by
    simp only [isUnsigned, takeWhile_append_stop hall hstop, dropWhile_append_stop hall hstop,
      isFraction_of_spelled hfraction hexponent]
    by_cases hhead : whole.head? = some '0'
    · simp [hzero hhead]
    · simp [hne, hhead]
  simp only [List.mem_cons, List.not_mem_nil, or_false] at hsign
  rcases hsign with rfl | rfl
  · obtain ⟨c, tail, rfl, hc⟩ := exists_cons_of_isDigits hdigits
    rw [List.nil_append, isNumber]
    · exact hunsigned
    · exact fun _ => cons_ne_cons hc rfl _ _
  · exact hunsigned

/-- A spelled number is made of the characters of numbers. -/
theorem isNumberChar_of_spelled {cs : List Char} (h : NumberSpelled cs) :
    ∀ c ∈ cs, isNumberChar c = true := by
  obtain ⟨hsign, ⟨hdigits, -⟩, hfraction, hexponent⟩ := h
  have hminus : ∀ sign ∈ [[], ['-']], ∀ c ∈ sign, isNumberChar c = true := by
    simp [isNumberChar]
  rw [List.forall_mem_append, List.forall_mem_append, List.forall_mem_append]
  refine ⟨hminus _ hsign, isNumberChar_of_isDigits hdigits, ?_, ?_⟩
  · cases hfraction with
    | none => exact List.forall_mem_nil _
    | some hdigits => exact List.forall_mem_cons.mpr ⟨rfl, isNumberChar_of_isDigits hdigits⟩
  · cases hexponent with
    | none => exact List.forall_mem_nil _
    | some hmark hsign hdigits =>
        have hmarks : ∀ mark ∈ ['e', 'E'], isNumberChar mark = true := by simp [isNumberChar]
        have hsigns : ∀ sign ∈ [[], ['+'], ['-']], ∀ c ∈ sign, isNumberChar c = true := by
          simp [isNumberChar]
        rw [List.forall_mem_cons, List.forall_mem_append]
        exact ⟨hmarks _ hmark, hsigns _ hsign, isNumberChar_of_isDigits hdigits⟩

/-- A spelled number starts with a minus sign or a digit. -/
theorem exists_cons_of_spelled {cs : List Char} (h : NumberSpelled cs) :
    ∃ c tail, cs = c :: tail ∧ (c == '-' || c.isDigit) = true := by
  obtain ⟨hsign, ⟨hdigits, -⟩, -, -⟩ := h
  obtain ⟨c, tail, rfl, hc⟩ := exists_cons_of_isDigits hdigits
  simp only [List.mem_cons, List.not_mem_nil, or_false] at hsign
  rcases hsign with rfl | rfl
  · exact ⟨c, _, rfl, by simp [hc]⟩
  · exact ⟨'-', _, rfl, rfl⟩

/-- A number is read up to a text that starts with no character of a number. -/
theorem reads_number {cs after : List Char} (h : NumberSpelled cs)
    (ha : startsWith isNumberChar after = false) : mark.Reads cs (.number cs) after := by
  have ht := takeWhile_append_stop (isNumberChar_of_spelled h) ha
  obtain ⟨c, tail, hc, hstart⟩ := exists_cons_of_spelled h
  rw [Reader.Reads, mark]
  · simp only [ht, isNumber_of_spelled h, if_true]
  -- The other marks start with neither a minus sign nor a digit.
  all_goals
    rw [hc]
    intro _ h
    rw [(List.cons.inj h).1] at hstart
    cases hstart

/-- A number spells itself. -/
theorem spells_number {cs : List Char} (h : NumberSpelled cs) : Spells cs [.number cs] := by
  obtain ⟨c, tail, hc, hstart⟩ := exists_cons_of_spelled h
  have hspace : isSpace c = false := by
    simp only [isSpace, Bool.or_eq_false_iff, beq_eq_false_iff_ne]
    refine ⟨⟨⟨?_, ?_⟩, ?_⟩, ?_⟩ <;> rintro rfl <;> cases hstart
  intro rest hr
  rw [marks?_mark (reads_number h hr) (by rw [hc]; simp [hspace])]
  rfl

/-- The decimal digits of a number are one of the texts that are numbers. -/
theorem numberSpelled_decimal (n : Nat) : NumberSpelled (Digits.decimal n) := by
  have hdigits : isDigits (Digits.decimal n) = true :=
    isDigits_iff.mpr ⟨Digits.decimal_ne_nil n, Digits.isDigit_decimal n⟩
  have hwhole : WholeSpelled (Digits.decimal n) := by
    refine ⟨hdigits, fun hzero => ?_⟩
    rcases Nat.eq_zero_or_pos n with rfl | hn
    · rfl
    · exact absurd hzero (Digits.decimal_head_ne hn)
  have h := NumberSpelled.intro List.mem_cons_self hwhole .none .none
  rwa [List.nil_append, List.append_nil, List.append_nil] at h

end FrontEnd.Json
