import FrontEnd.Lexeme.Scan
import FrontEnd.Proofs.Lexeme.Number

/-!
# Scanning lexemes

The scan of one lexeme is exact in both directions: what it reads is a validly spelled lexeme or a
broken construct, and every validly spelled lexeme that ends where the text behind it starts is
read as it is.
-/

namespace FrontEnd.Lexeme

open Spelling (lexeme)

/-- Words start with letters. -/
theorem isWordStart_eq : isWordStart = isLetter := by
  funext c
  have halpha : c.isAlpha = (c.isUpper || c.isLower) := rfl
  have hlower : c.isLower = ('a' ≤ c && c ≤ 'z') := rfl
  have hupper : c.isUpper = ('A' ≤ c && c ≤ 'Z') := Bool.decide_and _ _
  rw [isWordStart, isLetter, halpha, hlower, hupper, Bool.or_comm (_ && _)]

/-- Words go on with letters and digits. -/
theorem isWordPart_eq : isWordPart = isLetterOrDigit := by
  funext c
  have halphanum : c.isAlphanum = (c.isAlpha || c.isDigit) := rfl
  have hdigit : c.isDigit = ('0' ≤ c && c ≤ '9') := rfl
  rw [isLetterOrDigit, ← isWordStart_eq, isWordStart, isWordPart, halphanum, hdigit,
    Bool.or_right_comm]

/-- A word is scanned as far as its characters go. -/
theorem word_chars {c : Char} {run after : List Char} (hr : ∀ d ∈ run, isLetterOrDigit d = true)
    (ha : startsWith isLetterOrDigit after = false) :
    word c (run ++ after) = (Spelling.word c run).lexeme := by
  rw [word, isWordPart_eq]
  simp only [takeWhile_append_stop hr ha, verbatim_append, List.take_left,
    Vocabulary.classify_eq_kindOf]
  rfl

/-- The scan of a word reads the text from its first character on. -/
theorem word_reads {c : Char} (hc : isWordStart c = true) (rest : List Char) :
    Reads (c :: rest) (.ok (word c rest)) := by
  obtain ⟨run, after, rfl, hr, ha⟩ := exists_run isLetterOrDigit rest
  exact ⟨.word c run, after, ⟨isWordStart_eq ▸ hc, hr⟩, ha, rfl, word_chars hr ha⟩

/-- An operator with a long form is read in its long form exactly if its second character
follows. -/
theorem extended_reads {c second : Char} {long short : Kind}
    (hl : ⟨long, [c, second], []⟩ ∈ symbols) (hs : ⟨short, [c], [second]⟩ ∈ symbols)
    (rest : List Char) : Reads (c :: rest) (.ok (extended c second long short rest)) := by
  by_cases h : rest.head? = some second
  · obtain ⟨after, rfl⟩ : ∃ after, rest = second :: after := List.head?_eq_some_iff.mp h
    refine ⟨.symbol ⟨long, [c, second], []⟩, after, hl, ?_, rfl, by simp [extended]; rfl⟩
    cases after <;> rfl
  · refine ⟨.symbol ⟨short, [c], [second]⟩, rest, hs, ?_, rfl, by simp [extended, h]; rfl⟩
    cases rest with
    | nil => rfl
    | cons d rest => simpa [Spelling.Apart] using h

/-- An operator that stands only doubled is read if its character follows, and is at fault
otherwise. -/
theorem doubled_reads {c : Char} {kind : Kind} (hk : ⟨kind, [c, c], []⟩ ∈ symbols)
    (hc : c ∈ ['&', '|']) (rest : List Char) : Reads (c :: rest) (doubled c kind rest) := by
  by_cases h : rest.head? = some c
  · obtain ⟨after, rfl⟩ : ∃ after, rest = c :: after := List.head?_eq_some_iff.mp h
    rw [doubled, if_pos h]
    refine ⟨.symbol ⟨kind, [c, c], []⟩, after, hk, ?_, rfl, rfl⟩
    cases after <;> rfl
  · rw [doubled, if_neg h]
    refine ⟨[], c :: rest, .undoubledCharacter hc ?_, rfl, rfl⟩
    cases rest with
    | nil => rfl
    | cons d rest => simpa using h

/-- A symbol is scanned as it is. -/
theorem scan_symbol {s : Symbol} (hs : s ∈ symbols) {c : Char} {tail after : List Char}
    (hc : s.chars = c :: tail) (ha : startsWith (s.barred.contains ·) after = false) :
    scan c (tail ++ after) = .ok (Spelling.symbol s).lexeme := by
  simp only [symbols, List.mem_cons, List.not_mem_nil, or_false] at hs
  rcases hs with rfl | rfl | rfl | rfl | rfl | rfl | rfl | rfl | rfl | rfl | rfl | rfl | rfl |
    rfl | rfl | rfl | rfl | rfl | rfl | rfl | rfl | rfl | rfl | rfl | rfl | rfl | rfl
  all_goals
    cases hc
    cases after with
    | nil => rfl
    | cons d after =>
        simp_all [scan, operator, extended, doubled, single?, isWordStart, verbatim, lexeme,
          Spelling.kind, Spelling.text, Spelling.chars]

theorem isDigit_of_isWordStart {c : Char} (h : isWordStart c = true) : c.isDigit = false := by
  cases hd : c.isDigit with
  | false => rfl
  | true =>
      delta isWordStart Char.isAlpha Char.isUpper Char.isLower at h
      simp only [Char.isDigit, Bool.or_eq_true, Bool.and_eq_true, decide_eq_true_eq, beq_iff_eq,
        UInt32.le_iff_toNat_le] at h hd
      rcases h with (h | h) | rfl
      · simp at h hd
        omega
      · simp at h hd
        omega
      · simp at hd

/-- The characters with a symbol of their own do not differ from the symbols. -/
theorem symbol_of_single? {c : Char} {kind : Kind} (h : single? c = some kind) :
    ⟨kind, [c], if c = '/' then ['/', '*'] else []⟩ ∈ symbols := by
  unfold single? at h
  split at h <;> cases h <;> decide

/-- The characters at the front of a form that is told apart before single characters are looked
up: newlines, quotes, operators with a longer form, and blanks. -/
def formStarts : List Char :=
  ['\n', '"', '\'', '=', '!', '<', '>', '*', '&', '|', ' ', '\t', '\r']

theorem symbols_head {s : Symbol} (hs : s ∈ symbols) {c : Char} (hc : s.chars.head? = some c) :
    c ∈ formStarts ∨ single? c ≠ none := by
  have h : ∀ s ∈ symbols,
      s.chars.head?.all (fun c => formStarts.contains c || (single? c).isSome) = true := by
    decide
  have h := h s hs
  simpa [hc, Option.isSome_iff_ne_none] using h

/-- A character outside all the forms that are told apart by their first character starts no
lexeme, blank or comment. -/
theorem startsNothing_of_single? {c : Char} (hf : c ∉ formStarts) (hd : c.isDigit = false)
    (hw : isWordStart c = false) (hs : single? c = none) : StartsNothing c := by
  have hslash : c ≠ '/' := by
    rintro rfl
    cases hs
  constructor
  · intro s hv hc
    cases s with
    | symbol s =>
        rcases symbols_head hv hc with h | h
        · exact hf h
        · exact h hs
    | word first rest =>
        cases hc
        rw [isWordStart_eq, hv.1] at hw
        cases hw
    | number whole fraction exponent =>
        cases whole with
        | nil => exact hv.1.1 rfl
        | cons d whole =>
            cases hc
            rw [hv.1.2 c (by simp)] at hd
            cases hd
    | string glyphs =>
        cases hc
        exact hf (by decide)
    | char glyph =>
        cases hc
        exact hf (by decide)
  · intro t hv hc
    cases t with
    | blank b =>
        cases hc
        apply hf
        simp only [Trivia.Valid, List.mem_cons, List.not_mem_nil, or_false] at hv
        rcases hv with rfl | rfl | rfl <;> decide
    | lineComment body =>
        cases hc
        exact hslash rfl
    | blockComment body =>
        cases hc
        exact hslash rfl

/-- The scan of an operator reads the text from its first character on. -/
theorem operator_reads {c : Char} {rest : List Char} (hn : c ∉ ['\n', '"', '\''])
    (hd : c.isDigit = false) (hw : isWordStart c = false)
    (ho : opensTrivia (c :: rest) = false) : Reads (c :: rest) (operator c rest) := by
  unfold operator
  split
  · exact extended_reads (by decide) (by decide) rest
  · exact extended_reads (by decide) (by decide) rest
  · exact extended_reads (by decide) (by decide) rest
  · exact extended_reads (by decide) (by decide) rest
  · exact extended_reads (by decide) (by decide) rest
  · exact doubled_reads (by decide) (by decide) rest
  · exact doubled_reads (by decide) (by decide) rest
  · simp only [opensTrivia, Bool.or_eq_false_iff] at ho
    split
    · rename_i kind hs
      refine ⟨.symbol _, rest, symbol_of_single? hs, ?_, rfl, rfl⟩
      by_cases hc : c = '/'
      · simpa [Spelling.Apart, hc] using ho.2
      · cases rest <;> simp [Spelling.Apart, hc]
    · rename_i hs
      refine ⟨[], c :: rest, .unexpectedCharacter ?_, rfl, rfl⟩
      apply startsNothing_of_single? ?_ hd hw hs
      simp_all [formStarts]

/-- The scan of a lexeme reads the text from its first character on. -/
theorem scan_reads {c : Char} {rest : List Char} (ho : opensTrivia (c :: rest) = false) :
    Reads (c :: rest) (scan c rest) := by
  unfold scan
  split
  · rename_i hc
    subst hc
    exact ⟨.symbol ⟨.linebreak, ['\n'], []⟩, rest, by decide, by cases rest <;> rfl, rfl, rfl⟩
  split
  · rename_i hc
    subst hc
    exact Quoted.stringBody_reads rest
  split
  · rename_i hc
    subst hc
    exact Quoted.charBody_reads rest
  split
  · rename_i hd
    exact Number.scan_reads hd rest
  split
  · rename_i hw
    exact word_reads hw rest
  · rename_i hn hq hs hd hw
    exact operator_reads (by simp [hn, hq, hs]) (by simpa using hd) (by simpa using hw) ho

theorem scan_of_isDigit {c : Char} (h : c.isDigit = true) (rest : List Char) :
    scan c rest = Number.scan c rest := by
  have hn : c ≠ '\n' ∧ c ≠ '"' ∧ c ≠ '\'' := by
    refine ⟨?_, ?_, ?_⟩ <;> rintro rfl <;> exact absurd h (by decide)
  simp [scan, hn, h]

theorem scan_of_isWordStart {c : Char} (h : isWordStart c = true) (rest : List Char) :
    scan c rest = .ok (word c rest) := by
  have hn : c ≠ '\n' ∧ c ≠ '"' ∧ c ≠ '\'' := by
    refine ⟨?_, ?_, ?_⟩ <;> rintro rfl <;> exact absurd h (by decide)
  simp [scan, hn, isDigit_of_isWordStart h, h]

/-- Digits and the characters that start words open no blank or comment. -/
theorem opensTrivia_eq_false {c : Char} {rest : List Char}
    (h : c.isDigit = true ∨ isWordStart c = true) : opensTrivia (c :: rest) = false := by
  have hc : c ≠ ' ' ∧ c ≠ '\t' ∧ c ≠ '\r' ∧ c ≠ '/' := by
    refine ⟨?_, ?_, ?_, ?_⟩ <;> rintro rfl <;> exact absurd h (by decide)
  simp [opensTrivia, hc]

theorem symbols_opening : ∀ s ∈ symbols, ∃ c tail, s.chars = c :: tail ∧
    [' ', '\t', '\r'].contains c = false ∧ (c ≠ '/' ∨ tail = [] ∧ s.barred = ['/', '*']) := by
  simp [symbols]

/-- No blank or comment stands where a validly spelled lexeme stands that ends where the text
behind it starts. -/
theorem opensTrivia_chars {s : Spelling} {after : List Char} (hv : s.Valid) (ha : s.Apart after) :
    opensTrivia (s.chars ++ after) = false := by
  cases s with
  | symbol s =>
      obtain ⟨c, tail, hc, hb, hs⟩ := symbols_opening s hv
      simp only [Spelling.chars, hc, List.cons_append, opensTrivia, hb, Bool.false_or]
      rcases hs with hs | ⟨rfl, hs⟩
      · simp [hs]
      · have ha' : startsWith (s.barred.contains ·) after = false := ha
        rw [hs] at ha'
        rw [List.nil_append, ha', Bool.and_false]
  | word first rest => exact opensTrivia_eq_false (Or.inr (isWordStart_eq ▸ hv.1))
  | number whole fraction exponent =>
      cases whole with
      | nil => exact absurd rfl hv.1.1
      | cons d ds => exact opensTrivia_eq_false (Or.inl (hv.1.2 d (by simp)))
  | string glyphs => rfl
  | char glyph => rfl

/-- A validly spelled lexeme that ends where the text behind it starts is scanned as it is. -/
theorem scan_chars {s : Spelling} {after : List Char} (hv : s.Valid) (ha : s.Apart after) :
    ∃ c rest, s.chars ++ after = c :: rest ∧ scan c rest = .ok s.lexeme := by
  cases s with
  | symbol s =>
      obtain ⟨c, tail, hc⟩ := List.exists_cons_of_ne_nil (Spelling.chars_ne_nil hv)
      exact ⟨c, tail ++ after, by rw [hc, List.cons_append], scan_symbol hv hc ha⟩
  | word first rest =>
      refine ⟨first, rest ++ after, rfl, ?_⟩
      rw [scan_of_isWordStart (isWordStart_eq ▸ hv.1), word_chars hv.2 ha]
  | number whole fraction exponent =>
      cases whole with
      | nil => exact absurd rfl hv.1.1
      | cons d ds =>
          have hd : d.isDigit = true := hv.1.2 d (by simp)
          refine ⟨d, ds ++ (fractionChars fraction ++ (exponentChars exponent ++ after)),
            by simp [Spelling.chars], ?_⟩
          rw [scan_of_isDigit hd, Number.scan_chars hv ha]
  | string glyphs =>
      refine ⟨'"', glyphs.flatMap Glyph.chars ++ '"' :: after, by simp [Spelling.chars], ?_⟩
      exact Quoted.stringBody_chars hv after
  | char glyph =>
      refine ⟨'\'', glyph.chars ++ '\'' :: after, by simp [Spelling.chars], ?_⟩
      exact Quoted.charBody_chars hv after

end FrontEnd.Lexeme
