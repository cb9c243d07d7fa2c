import FrontEnd.Lexeme.Literal
import FrontEnd.Proofs.Layout.Broken

/-!
# Scanning literals

A scan of a literal passes the glyphs at the front of a text one by one. Every text consists of
glyphs followed by its end, by the closing quote, or by a backslash without an escape letter, and
this decides whether the scan ends in a lexeme or in a fault.
-/

namespace FrontEnd

/-- What the outcome of a scan says about the text it starts at: either a lexeme with a valid
spelling stands there and ends there, or a broken construct. -/
def Lexeme.Reads (cs : List Char) : Except Lexeme.Fault Lexeme → Prop
  | .ok l => ∃ (s : Spelling) (after : List Char),
      s.Valid ∧ s.Apart after ∧ cs = s.chars ++ after ∧ l = s.lexeme
  | .error f => ∃ part after, Broken f.cause f.character part after ∧ cs = part ++ after ∧
      f.reported = part.length

namespace Quoted

/-- The escapes of the scan are the nine escapes. -/
theorem unescape?_eq_some_iff {letter c : Char} :
    unescape? letter = some c ↔ (letter, c) ∈ escapes := by
  constructor
  · intro h
    unfold unescape? at h
    split at h <;> cases h <;> simp [escapes]
  · intro h
    simp only [escapes, List.mem_cons, Prod.mk.injEq, List.not_mem_nil, or_false] at h
    rcases h with ⟨rfl, rfl⟩ | ⟨rfl, rfl⟩ | ⟨rfl, rfl⟩ | ⟨rfl, rfl⟩ | ⟨rfl, rfl⟩ | ⟨rfl, rfl⟩ |
      ⟨rfl, rfl⟩ | ⟨rfl, rfl⟩ | ⟨rfl, rfl⟩ <;> rfl

theorem not_mem_escapeLetters {letter : Char} (h : unescape? letter = none) :
    letter ∉ escapeLetters := by
  intro hl
  obtain ⟨⟨_, c⟩, he, rfl⟩ := List.mem_map.mp hl
  rw [unescape?_eq_some_iff.mpr he] at h
  cases h

/-- How a text goes on where a character of a literal may stand: it is at its end, starts with a
proper glyph or with a character that may not stand as it is, or holds no escape behind its
backslash. -/
theorem glyph_cases (escaped cs : List Char) :
    cs = [] ∨ (∃ (g : Glyph) (rest : List Char), g.Allowed escaped ∧ cs = g.chars ++ rest) ∨
      (∃ c rest, c ∈ escaped ∧ c ≠ '\\' ∧ cs = c :: rest) ∨ cs = ['\\'] ∨
      ∃ letter rest, unescape? letter = none ∧ cs = '\\' :: letter :: rest := by
  cases cs with
  | nil => exact Or.inl rfl
  | cons c rest =>
      refine Or.inr ?_
      by_cases hc : c = '\\'
      · subst hc
        cases rest with
        | nil => exact Or.inr (Or.inr (Or.inl rfl))
        | cons letter rest =>
            cases hu : unescape? letter with
            | none => exact Or.inr (Or.inr (Or.inr ⟨letter, rest, hu, rfl⟩))
            | some value =>
                exact Or.inl ⟨.escape letter value, rest, unescape?_eq_some_iff.mp hu, rfl⟩
      · by_cases he : c ∈ escaped
        · exact Or.inr (Or.inl ⟨c, rest, he, hc, rfl⟩)
        · exact Or.inl ⟨.plain c, rest, he, rfl⟩

/-- A glyph at the front of a string body is passed, and its value joins the content. -/
theorem stringBody_glyph {g : Glyph} (hg : g.InString) (passed : Nat) (content cs : List Char) :
    stringBody passed content (g.chars ++ cs) =
      stringBody (passed + g.chars.length) (g.value :: content) cs := by
  cases g with
  | plain c =>
      have hc : c ≠ '"' ∧ c ≠ '\\' := by simpa [Glyph.InString, Glyph.Allowed] using hg
      simp only [Glyph.chars, List.cons_append, List.nil_append]
      rw [stringBody]
      · rfl
      all_goals simp_all
  | escape letter value =>
      have hu : unescape? letter = some value := unescape?_eq_some_iff.mpr hg
      simp [Glyph.chars, Glyph.value, stringBody, hu]

/-- Glyphs in a row at the front of a string body are all passed. -/
theorem stringBody_glyphs {gs : List Glyph} (hg : ∀ g ∈ gs, g.InString) (passed : Nat)
    (content cs : List Char) :
    stringBody passed content (gs.flatMap Glyph.chars ++ cs) =
      stringBody (passed + (gs.flatMap Glyph.chars).length)
        ((gs.map Glyph.value).reverse ++ content) cs := by
  induction gs generalizing passed content with
  | nil => rfl
  | cons g gs ih =>
      rw [List.flatMap_cons, List.append_assoc, stringBody_glyph (hg g (by simp)),
        ih (fun g h => hg g (by simp [h]))]
      simp [Nat.add_assoc]

/-- Every text starts with the glyphs of a string body, as many as there are. -/
theorem exists_glyphs (cs : List Char) : ∃ (gs : List Glyph) (tail : List Char),
    (∀ g ∈ gs, g.InString) ∧ cs = gs.flatMap Glyph.chars ++ tail ∧
      (tail = [] ∨ (∃ rest, tail = '"' :: rest) ∨ tail = ['\\'] ∨
        ∃ letter rest, unescape? letter = none ∧ tail = '\\' :: letter :: rest) := by
  induction h : cs.length using Nat.strongRecOn generalizing cs with
  | ind n ih =>
      rcases glyph_cases ['"', '\\'] cs with
        rfl | ⟨g, rest, hg, rfl⟩ | ⟨c, rest, hc, hne, rfl⟩ | rfl | ⟨letter, rest, hl, rfl⟩
      · exact ⟨[], [], by simp, rfl, Or.inl rfl⟩
      · have hlt : rest.length < n := by
          have hpos := g.chars_length_pos
          rw [List.length_append] at h
          omega
        obtain ⟨gs, tail, hgs, rfl, ht⟩ := ih _ hlt rest rfl
        refine ⟨g :: gs, tail, ?_, by simp, ht⟩
        intro g' hg'
        rcases List.mem_cons.mp hg' with rfl | hm
        · exact hg
        · exact hgs g' hm
      · have hq : c = '"' := by simpa [hne] using hc
        exact ⟨[], _, by simp, rfl, Or.inr (Or.inl ⟨rest, by rw [hq]⟩)⟩
      · exact ⟨[], _, by simp, rfl, Or.inr (Or.inr (Or.inl rfl))⟩
      · exact ⟨[], _, by simp, rfl, Or.inr (Or.inr (Or.inr ⟨letter, rest, hl, rfl⟩))⟩

/-- A string literal is scanned to its closing quote, and its text is the decoded content. -/
theorem stringBody_chars {gs : List Glyph} (hg : ∀ g ∈ gs, g.InString) (after : List Char) :
    stringBody 1 [] (gs.flatMap Glyph.chars ++ '"' :: after) =
      .ok (Spelling.string gs).lexeme := by
  rw [stringBody_glyphs hg]
  simp [stringBody, Spelling.lexeme, Spelling.kind, Spelling.text, Spelling.chars, Nat.add_comm]

/-- The scan of a string literal reads the text from its opening quote on. -/
theorem stringBody_reads (rest : List Char) :
    Lexeme.Reads ('"' :: rest) (stringBody 1 [] rest) := by
  obtain ⟨gs, tail, hg, rfl, rfl | ⟨after, rfl⟩ | rfl | ⟨letter, after, hl, rfl⟩⟩ :=
    exists_glyphs rest
  · rw [stringBody_glyphs hg]
    exact ⟨_, [], .openString hg, by simp, by simp [Lexeme.Fault.here, Nat.add_comm]⟩
  · rw [stringBody_chars hg]
    exact ⟨.string gs, after, hg, trivial, by simp [Spelling.chars], rfl⟩
  · rw [stringBody_glyphs hg]
    exact ⟨_, [], .escapeAtEnd (.string hg), by simp,
      by simp [Lexeme.Fault.here]; omega⟩
  · rw [stringBody_glyphs hg, stringBody, hl]
    exact ⟨_, letter :: after, .unknownEscape (.string hg) (not_mem_escapeLetters hl), by simp,
      by simp [Lexeme.Fault.here]; omega⟩

/-- Behind the opening quote, a glyph of a character literal is passed, and the closing quote is
looked for behind it. -/
theorem charBody_glyph {g : Glyph} (hg : g.InChar) (rest : List Char) :
    charBody (g.chars ++ rest) = closeChar g.value (g.chars.length + 1) rest := by
  cases g with
  | plain c =>
      have hc : c ≠ '\\' := by simpa [Glyph.InChar, Glyph.Allowed] using hg
      simp only [Glyph.chars, List.cons_append, List.nil_append]
      rw [charBody]
      · rfl
      all_goals simp_all
  | escape letter value =>
      have hu : unescape? letter = some value := unescape?_eq_some_iff.mpr hg
      simp [Glyph.chars, Glyph.value, charBody, hu]

/-- A character literal is scanned to its closing quote, and its text is the decoded character. -/
theorem charBody_chars {g : Glyph} (hg : g.InChar) (after : List Char) :
    charBody (g.chars ++ '\'' :: after) = .ok (Spelling.char g).lexeme := by
  rw [charBody_glyph hg]
  simp [closeChar, Spelling.lexeme, Spelling.kind, Spelling.text, Spelling.chars]

/-- The scan of a character literal reads the text from its opening quote on. -/
theorem charBody_reads (rest : List Char) : Lexeme.Reads ('\'' :: rest) (charBody rest) := by
  rcases glyph_cases ['\\'] rest with
    rfl | ⟨g, rest, hg, rfl⟩ | ⟨c, rest, hc, hne, rfl⟩ | rfl | ⟨letter, rest, hl, rfl⟩
  · exact ⟨_, [], .openCharacterAtEnd, rfl, rfl⟩
  · cases hq : startsWith (· == '\'') rest with
    | true =>
        obtain ⟨after, rfl⟩ : ∃ after, rest = '\'' :: after := by
          cases rest with
          | nil => simp at hq
          | cons c after => exact ⟨after, by simpa using hq⟩
        rw [charBody_chars hg]
        exact ⟨.char g, after, hg, trivial, by simp [Spelling.chars], rfl⟩
    | false =>
        have hhead : rest.head? ≠ some '\'' := by
          intro hh
          simp [startsWith, hh] at hq
        rw [charBody_glyph hg, closeChar, if_neg hhead]
        exact ⟨_, rest, .openCharacter hg hq, by simp, by simp [Lexeme.Fault.here]⟩
  · simp at hc
    exact absurd hc hne
  · exact ⟨_, [], .escapeAtEnd .char, rfl, rfl⟩
  · rw [charBody, hl]
    exact ⟨_, letter :: rest, .unknownEscape .char (not_mem_escapeLetters hl), rfl, rfl⟩

end Quoted

end FrontEnd
