import FrontEnd.Lexeme.Literal
import FrontEnd.Proofs.Lexeme.Quoted

/-!
# Scanning numbers

The three parts of a number are measured one behind the other. Each measure is exact on a proper
part that ends where the text behind it starts, and every text that starts with a digit has such
parts, save that an exponent may lack its digits.
-/

namespace FrontEnd.Number

/-- The mark of an exponent is one of the two letters. -/
theorem isExponentMark_eq (c : Char) : isExponentMark c = ['e', 'E'].contains c := by
  simp [isExponentMark, Bool.beq_eq_decide_eq]

theorem digits_append {run after : List Char} (hr : ∀ c ∈ run, c.isDigit = true)
    (ha : startsWith Char.isDigit after = false) : digits (run ++ after) = run.length := by
  rw [digits, takeWhile_append_stop hr ha]

/-- A run of digits is not empty if the text starts with a digit. -/
theorem isDigits_of_startsWith {run after : List Char} (hr : ∀ c ∈ run, c.isDigit = true)
    (ha : startsWith Char.isDigit after = false)
    (h : startsWith Char.isDigit (run ++ after) = true) : IsDigits run := by
  refine ⟨?_, hr⟩
  rintro rfl
  rw [List.nil_append, ha] at h
  cases h

theorem fraction_append {fr : Option (List Char)} {after : List Char}
    (hf : ∀ ds ∈ fr, IsDigits ds) (ha : startsWith Char.isDigit after = false)
    (hn : fr = none → startsFraction after = false) :
    fraction (fractionChars fr ++ after) = (fractionChars fr).length := by
  cases fr with
  | none =>
      have hs := hn rfl
      simp only [fractionChars, List.nil_append, List.length_nil]
      unfold fraction
      split
      · rename_i rest
        have hz : digits rest = 0 := digits_append (List.forall_mem_nil _) hs
        rw [if_pos hz]
      · rfl
  | some ds =>
      have hd := hf ds rfl
      simp [fractionChars, fraction, digits_append hd.2 ha, hd.1]

theorem sign_append {sign? : Option Char} {after : List Char}
    (hs : sign? ∈ [none, some '+', some '-'])
    (hn : sign? = none → startsWith (['+', '-'].contains ·) after = false) :
    sign (sign?.toList ++ after) = sign?.toList.length := by
  simp only [List.mem_cons, List.not_mem_nil, or_false] at hs
  rcases hs with rfl | rfl | rfl
  · have ha := hn rfl
    simp only [Option.toList_none, List.nil_append, List.length_nil]
    unfold sign
    split <;> simp_all
  · rfl
  · rfl

/-- The exponent at the front is measured up to its digits, which may be missing. -/
theorem exponent_chars {e : Exponent} {after : List Char} (he : e.Marked)
    (hd : ∀ c ∈ e.digits, c.isDigit = true) (ha : startsWith Char.isDigit after = false)
    (hs : e.digits = [] → e.sign = none → startsWith (['+', '-'].contains ·) after = false) :
    exponent (e.chars ++ after) =
      if e.digits = [] then .error (e.chars.length, after.head?) else .ok e.chars.length := by
  have hmark : isExponentMark e.mark = true := by
    rw [isExponentMark_eq]
    simpa using he.1
  have hsign : sign (e.sign.toList ++ (e.digits ++ after)) = e.sign.toList.length := by
    apply sign_append he.2
    intro hn
    cases hdig : e.digits with
    | nil => exact hs hdig hn
    | cons d ds =>
        have hdd : d.isDigit = true := hd d (by simp [hdig])
        simp only [List.cons_append, startsWith_cons]
        rw [← Bool.not_eq_true]
        intro hm
        simp only [List.contains_eq_mem, List.mem_cons, List.not_mem_nil, or_false,
          decide_eq_true_eq] at hm
        rcases hm with rfl | rfl <;> simp at hdd
  have hdigits : digits (e.digits ++ after) = e.digits.length := digits_append hd ha
  have hchars : e.chars ++ after = e.mark :: (e.sign.toList ++ (e.digits ++ after)) := by
    simp [Exponent.chars, Exponent.lead]
  have hlen : e.chars.length = e.sign.toList.length + 1 + e.digits.length := by
    simp [Exponent.chars, Exponent.lead, Nat.add_right_comm]
  rw [hchars, exponent, if_pos hmark]
  simp only [hsign, List.drop_left, hdigits, hlen]
  cases hdig : e.digits with
  | nil => simp
  | cons d ds => simp

theorem exponent_append {ex : Option Exponent} {after : List Char}
    (he : ∀ e ∈ ex, e.Marked ∧ IsDigits e.digits) (ha : startsWith Char.isDigit after = false)
    (hn : ex = none → startsWith (['e', 'E'].contains ·) after = false) :
    exponent (exponentChars ex ++ after) = .ok (exponentChars ex).length := by
  cases ex with
  | none =>
      have hs := hn rfl
      simp only [exponentChars, List.nil_append, List.length_nil]
      cases after with
      | nil => rfl
      | cons c after =>
          have hm : isExponentMark c = false := by rw [isExponentMark_eq]; exact hs
          simp [exponent, hm]
  | some e =>
      obtain ⟨hm, hd⟩ := he e rfl
      rw [exponentChars, exponent_chars hm hd.2 ha (fun h => absurd h hd.1), if_neg hd.1]

/-- No exponent starts with a digit. -/
theorem startsWith_exponent {ex : Option Exponent} {after : List Char}
    (he : ∀ e ∈ ex, e.Marked) (ha : startsWith Char.isDigit after = false) :
    startsWith Char.isDigit (exponentChars ex ++ after) = false := by
  cases ex with
  | none => exact ha
  | some e =>
      have hm := (he e rfl).1
      simp only [List.mem_cons, List.not_mem_nil, or_false] at hm
      rcases hm with hm | hm <;> simp [exponentChars, Exponent.chars, Exponent.lead, hm]

/-- No exponent starts with a dot and a digit. -/
theorem startsFraction_exponent {ex : Option Exponent} {after : List Char}
    (he : ∀ e ∈ ex, e.Marked) (ha : ex = none → startsFraction after = false) :
    startsFraction (exponentChars ex ++ after) = false := by
  cases ex with
  | none => exact ha rfl
  | some e =>
      have hm := (he e rfl).1
      simp only [List.mem_cons, List.not_mem_nil, or_false] at hm
      rcases hm with hm | hm <;>
        simp [exponentChars, Exponent.chars, Exponent.lead, hm, startsFraction]

/-- Once the digits and the fraction are passed, the exponent decides about the number. -/
theorem scan_mantissa {c : Char} {ds tail : List Char} {fr : Option (List Char)}
    (hd : ∀ d ∈ ds, d.isDigit = true) (hf : ∀ ds ∈ fr, IsDigits ds)
    (ht : startsWith Char.isDigit tail = false) (hn : fr = none → startsFraction tail = false) :
    scan c (ds ++ (fractionChars fr ++ tail)) =
      match exponent tail with
      | .ok width => .ok (.verbatim .number c (ds ++ (fractionChars fr ++ tail))
          (ds.length + (fractionChars fr).length + width))
      | .error (width, found) => .error (.here .missingExponent found
          (ds.length + (fractionChars fr).length + width + 1)) := by
  have hs : startsWith Char.isDigit (fractionChars fr ++ tail) = false := by
    cases fr with
    | none => exact ht
    | some fs => rfl
  have hdrop : (ds ++ (fractionChars fr ++ tail)).drop (ds.length + (fractionChars fr).length) =
      tail := by
    rw [← List.append_assoc, ← List.length_append, List.drop_left]
  cases h : exponent tail <;>
    simp only [scan, digits_append hd hs, List.drop_left, fraction_append hf ht hn, hdrop, h]

/-- A number is scanned as far as its parts go. -/
theorem scan_chars {c : Char} {ds after : List Char} {fr : Option (List Char)}
    {ex : Option Exponent} (hv : (Spelling.number (c :: ds) fr ex).Valid)
    (ha : (Spelling.number (c :: ds) fr ex).Apart after) :
    scan c (ds ++ (fractionChars fr ++ (exponentChars ex ++ after))) =
      .ok (Spelling.number (c :: ds) fr ex).lexeme := by
  obtain ⟨hw, hf, he⟩ := hv
  obtain ⟨hd, hm, hp⟩ := ha
  have hmark : ∀ e ∈ ex, e.Marked := fun e h => (he e h).1
  rw [scan_mantissa (fun d h => hw.2 d (by simp [h])) hf (startsWith_exponent hmark hd)
    (fun hn => startsFraction_exponent hmark (hp hn)), exponent_append he hd hm]
  have hlen : ds.length + (fractionChars fr).length + (exponentChars ex).length =
      (ds ++ fractionChars fr ++ exponentChars ex).length := by
    simp [Nat.add_assoc]
  have hrest : ds ++ (fractionChars fr ++ (exponentChars ex ++ after)) =
      ds ++ fractionChars fr ++ exponentChars ex ++ after := by
    simp
  simp only [hlen, hrest, Lexeme.verbatim_append]
  rfl

/-- Behind a run of digits there is a fraction or none. -/
theorem exists_fraction {cs : List Char} (h : startsWith Char.isDigit cs = false) :
    ∃ (fr : Option (List Char)) (after : List Char), cs = fractionChars fr ++ after ∧
      (∀ ds ∈ fr, IsDigits ds) ∧ startsWith Char.isDigit after = false ∧
      (fr = none → startsFraction after = false) := by
  cases hs : startsFraction cs with
  | false => exact ⟨none, cs, rfl, by simp, h, fun _ => hs⟩
  | true =>
      obtain ⟨rest, rfl, hr⟩ : ∃ rest, cs = '.' :: rest ∧ startsWith Char.isDigit rest = true := by
        unfold startsFraction at hs
        split at hs
        · exact ⟨_, rfl, hs⟩
        · cases hs
      obtain ⟨run, after, rfl, hd, ha⟩ := exists_run Char.isDigit rest
      refine ⟨some run, after, rfl, ?_, ha, by simp⟩
      rintro ds ⟨⟩
      exact isDigits_of_startsWith hd ha hr

/-- Behind the digits and the fraction there is an exponent or none, or an exponent without
digits. -/
theorem exists_exponent {cs : List Char} (h : startsWith Char.isDigit cs = false) :
    startsWith (['e', 'E'].contains ·) cs = false ∨
      ∃ (e : Exponent) (after : List Char), cs = e.chars ++ after ∧ e.Marked ∧
        (∀ c ∈ e.digits, c.isDigit = true) ∧ startsWith Char.isDigit after = false ∧
        (e.digits = [] → e.sign = none → startsWith (['+', '-'].contains ·) after = false) := by
  cases hs : startsWith (['e', 'E'].contains ·) cs with
  | false => exact Or.inl rfl
  | true =>
      refine Or.inr ?_
      cases cs with
      | nil => cases hs
      | cons mark rest =>
          have hm : mark ∈ ['e', 'E'] := by simpa using hs
          cases hg : startsWith (['+', '-'].contains ·) rest with
          | false =>
              obtain ⟨run, after, rfl, hd, ha⟩ := exists_run Char.isDigit rest
              refine ⟨⟨mark, none, run⟩, after, rfl, ⟨hm, by simp⟩, hd, ha, ?_⟩
              rintro rfl -
              exact hg
          | true =>
              cases rest with
              | nil => cases hg
              | cons sign rest =>
                  have hg' : sign ∈ ['+', '-'] := by simpa using hg
                  obtain ⟨run, after, rfl, hd, ha⟩ := exists_run Char.isDigit rest
                  refine ⟨⟨mark, some sign, run⟩, after, rfl, ⟨hm, by simpa using hg'⟩, hd, ha, ?_⟩
                  intro _ hn
                  cases hn

/-- The scan of a number reads the text from its first digit on. -/
theorem scan_reads {c : Char} (hc : c.isDigit = true) (rest : List Char) :
    Lexeme.Reads (c :: rest) (scan c rest) := by
  obtain ⟨ds, tail, rfl, hd, ht⟩ := exists_run Char.isDigit rest
  obtain ⟨fr, tail, rfl, hf, ht, hn⟩ := exists_fraction ht
  have hw : IsDigits (c :: ds) := by
    refine ⟨by simp, ?_⟩
    intro d h
    rcases List.mem_cons.mp h with rfl | h
    · exact hc
    · exact hd d h
  rcases exists_exponent ht with ha | ⟨e, after, rfl, he, hed, ha, hs⟩
  · have hv : (Spelling.number (c :: ds) fr none).Valid := ⟨hw, hf, by simp⟩
    have hap : (Spelling.number (c :: ds) fr none).Apart tail :=
      ⟨ht, fun _ => ha, fun h _ => hn h⟩
    have hscan := scan_chars hv hap
    simp only [exponentChars, List.nil_append] at hscan
    rw [hscan]
    exact ⟨_, tail, hv, hap, by simp [Spelling.chars, exponentChars], rfl⟩
  · cases hed' : e.digits with
    | nil =>
        rw [scan_mantissa hd hf ht hn, exponent_chars he hed ha hs, if_pos hed']
        refine ⟨_, after, .missingExponent hw hf he hed' ha (hs hed'), by simp, ?_⟩
        simp [Lexeme.Fault.here]
        omega
    | cons d es =>
        have hv : (Spelling.number (c :: ds) fr (some e)).Valid := by
          refine ⟨hw, hf, ?_⟩
          rintro e' ⟨⟩
          exact ⟨he, by simp [hed'], hed⟩
        have hap : (Spelling.number (c :: ds) fr (some e)).Apart after :=
          ⟨ha, by simp, by simp⟩
        have hscan := scan_chars hv hap
        rw [show exponentChars (some e) = e.chars from rfl] at hscan
        rw [hscan]
        exact ⟨_, after, hv, hap, by simp [Spelling.chars, exponentChars], rfl⟩

end FrontEnd.Number
