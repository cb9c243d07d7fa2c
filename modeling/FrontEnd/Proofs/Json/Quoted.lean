import FrontEnd.Json.Writing
import FrontEnd.Proofs.Json.Spelling
import FrontEnd.Proofs.Text.Digits
import FrontEnd.Proofs.Text.Reader

/-!
# JSON strings

Every spelling of a string is read as the string. A text is written with one of its spellings, so
that it is read back as its characters.
-/

namespace FrontEnd.Json

/-- The elements of a string that has no surrogates. -/
def scalars (cs : List Char) : List CodePoint := cs.map .scalar

theorem chars?_scalars (cs : List Char) : CodePoint.chars? (scalars cs) = some cs := by
  induction cs with
  | nil => rfl
  | cons c cs ih => simpa [scalars, CodePoint.chars?] using ih

/-- A text is the text of its characters. -/
@[simp] theorem text?_scalars (s : String) : CodePoint.text? (scalars s.toList) = some s := by
  simp [CodePoint.text?, chars?_scalars]

/-! ### Reading -/

theorem unescape?_of_mem {letter c : Char} (h : (letter, c) ∈ escapeLetters) :
    unescape? letter = some c := by
  have hall : ∀ e ∈ escapeLetters, unescape? e.1 = some e.2 := by decide
  exact hall (letter, c) h

/-- A string goes on behind a spelling of one of its elements. -/
theorem stringFrom_spelled {p : CodePoint} {run : List Char} (h : p.Spelled run)
    (done : List CodePoint) (taken : Nat) (rest : List Char) :
    stringFrom done taken (run ++ rest) = stringFrom (p :: done) (taken + run.length) rest := by
  cases h with
  | plain hquote hbackslash hcontrol =>
      rw [List.singleton_append, stringFrom, if_neg hcontrol]
      · rfl
      all_goals simp_all
  | letter hletter =>
      rw [List.cons_append, List.cons_append, List.nil_append, stringFrom,
        unescape?_of_mem hletter]
      · rfl
      -- The letter of an escape with digits stands for nothing by itself.
      · rintro a b c d tail rfl
        have hu := unescape?_of_mem hletter
        cases hu
  | code hcode =>
      simp only [List.cons_append, List.nil_append]
      rw [stringFrom, hcode]
      rfl

/-- The elements of a string are read up to its closing quote. -/
theorem stringFrom_points {points : List CodePoint} {body : List Char}
    (h : PointsSpelled points body) (done : List CodePoint) (taken : Nat) (after : List Char) :
    stringFrom done taken (body ++ '"' :: after) =
      some (done.reverse ++ points, taken + body.length + 1) := by
  induction h generalizing done taken with
  | nil => simp [stringFrom]
  | cons hp hrest ih =>
      rw [List.append_assoc, stringFrom_spelled hp, ih]
      simp
      omega

/-- A spelling of a string is read as the string. -/
theorem reads_string {points : List CodePoint} {cs : List Char} (h : StringSpelled points cs)
    (after : List Char) : mark.Reads cs (.string points) after := by
  obtain ⟨hbody⟩ := h
  simp only [Reader.Reads, List.cons_append, List.append_assoc, mark, List.nil_append,
    stringFrom_points hbody]
  simp
  omega

/-! ### Writing -/

/-- A character is written with one of its spellings. -/
theorem spelled_escaped (c : Char) : (CodePoint.scalar c).Spelled (escaped c) := by
  unfold escaped
  split
  · exact .letter (by decide)
  · exact .letter (by decide)
  · exact .letter (by decide)
  · exact .letter (by decide)
  · exact .letter (by decide)
  · exact .letter (by decide)
  · exact .letter (by decide)
  · rename_i hquote hbackslash _ _ _ _ _
    by_cases hcontrol : c < ' '
    · have hlt : c.toNat < 32 := Char.lt_def.mp hcontrol
      have hcode : CodePoint.ofCode c.toNat = .scalar c := by
        rw [CodePoint.ofCode, if_neg (by omega), Char.ofNat_toNat]
      rw [if_pos hcontrol, ← hcode]
      exact .code (Digits.number?_hex (by omega))
    · rw [if_neg hcontrol]
      exact .plain hquote hbackslash hcontrol

theorem pointsSpelled_escaped (cs : List Char) :
    PointsSpelled (scalars cs) (cs.flatMap escaped) := by
  induction cs with
  | nil => exact .nil
  | cons c cs ih => exact .cons (spelled_escaped c) ih

/-- A text is written with one of its spellings. -/
theorem stringSpelled_quoted (cs : List Char) : StringSpelled (scalars cs) (quoted cs) :=
  .intro (pointsSpelled_escaped cs)

end FrontEnd.Json
