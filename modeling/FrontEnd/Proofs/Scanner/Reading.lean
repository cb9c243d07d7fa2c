import FrontEnd.Scanner
import FrontEnd.Proofs.Layout.Basic
import FrontEnd.Proofs.Lexeme.Gap
import FrontEnd.Proofs.Lexeme.Scan

/-!
# Reading tokens off a layout

One step of a scanner reads one cell, the gap behind the last cell, or a broken construct. A run
over cells gives their tokens one after another, and every text is made of cells up to its end or
up to a broken construct.
-/

namespace FrontEnd

/-- The kinds that no lexeme has. -/
def unspelledKinds : List Kind := [.illegal, .singleComment, .multiComment, .endOfText]

/-- The kind of a validly spelled lexeme is none of the four that no lexeme has. -/
theorem Spelling.kind_not_mem {s : Spelling} (hv : s.Valid) : s.kind ∉ unspelledKinds := by
  cases s with
  | symbol s =>
      have hs : ∀ s ∈ symbols, s.kind ∉ unspelledKinds := by decide
      exact hs s hv
  | word first rest =>
      have hk : ∀ k ∈ [.nullLiteral, .boolTrue, .boolFalse, .keyword, .ident],
          k ∉ unspelledKinds := by decide
      exact hk _ (Vocabulary.kindOf_mem _)
  | number => simp [kind, unspelledKinds]
  | string => simp [kind, unspelledKinds]
  | char => simp [kind, unspelledKinds]

theorem Spelling.isEnd_tokenBehind {s : Spelling} (hv : s.Valid) (before : List Char) :
    (s.tokenBehind before).isEnd = false := by
  rw [Token.isEnd, beq_eq_false_iff_ne]
  intro he
  have hk : s.kind = .endOfText := he
  exact Spelling.kind_not_mem hv (hk ▸ by decide)

/-- A lexeme is as wide as its characters. -/
theorem Spelling.width_lexeme {s : Spelling} (hv : s.Valid) : s.lexeme.width = s.chars.length := by
  have hpos := List.length_pos_iff.mpr (Spelling.chars_ne_nil hv)
  simp only [Lexeme.width, Spelling.lexeme]
  omega

namespace Scanner

/-- The text that the scanner has passed. -/
def before (s : Scanner) : List Char := s.cursor.passed.reverse

/-- A scanner enters a gap up to where no blank or comment stands, and reads a token there. -/
theorem next_gap {s : Scanner} {gap : List Trivia} {after : List Char}
    (hu : s.cursor.unread = gapChars gap ++ after) (hg : GapFits gap after)
    (ha : opensTrivia after = false) : s.next = (s.enter (gapChars gap).length).readToken := by
  rw [next, hu, Gap.width?_chars hg ha]

/-- Behind a gap the text behind it is still to read. -/
theorem enter_unread {s : Scanner} {gap : List Trivia} {after : List Char}
    (hu : s.cursor.unread = gapChars gap ++ after) :
    (s.enter (gapChars gap).length).cursor.unread = after := by
  simp [enter, hu]

/-- Behind a gap a token starts at the place behind the text up to there. -/
theorem enter_start {s : Scanner} (hs : s.cursor.Placed) {gap : List Trivia} {after : List Char}
    (hu : s.cursor.unread = gapChars gap ++ after) :
    (s.enter (gapChars gap).length).start = Place.start.afterAll (s.before ++ gapChars gap) := by
  have h := hs.place_pass (gapChars gap).length
  rwa [hu, List.take_left] at h

/-- At the end of the text, behind a last gap, the closing token is read. -/
theorem next_end {s : Scanner} (hs : s.cursor.Placed) {gap : List Trivia}
    (hu : s.cursor.unread = gapChars gap) (hg : GapFits gap []) :
    s.next = (.ok (endBehind (s.before ++ gapChars gap)), s.enter (gapChars gap).length) := by
  rw [← List.append_nil (gapChars gap)] at hu
  rw [next_gap hu hg rfl]
  simp only [readToken, enter_unread hu, enter_start hs hu, endBehind, Place.afterAll_start_line,
    Place.afterAll_start_column]

/-- The scanner behind a cell that it has read. -/
def beyond (s : Scanner) (c : Cell) : Scanner :=
  ⟨s.cursor.pass c.chars.length, (s.cursor.pass (gapChars c.gap).length).place, s.finished⟩

/-- Behind a cell the text behind it is still to read. -/
theorem beyond_unread {s : Scanner} {c : Cell} {after : List Char}
    (hu : s.cursor.unread = c.chars ++ after) : (s.beyond c).cursor.unread = after := by
  simp [beyond, hu]

/-- Behind a cell its characters are passed. -/
theorem beyond_before {s : Scanner} {c : Cell} {after : List Char}
    (hu : s.cursor.unread = c.chars ++ after) : (s.beyond c).before = s.before ++ c.chars := by
  simp [before, beyond, Cursor.passed_pass, hu]

/-- Where a cell stands that fits the text behind it, the token of its lexeme is read. -/
theorem next_cell {s : Scanner} (hs : s.cursor.Placed) {c : Cell} {after : List Char}
    (hu : s.cursor.unread = c.chars ++ after) (hc : c.Fits after) :
    s.next = (.ok (c.spelling.tokenBehind (s.before ++ gapChars c.gap)), s.beyond c) := by
  obtain ⟨hg, hv, ha⟩ := hc
  have hu' : s.cursor.unread = gapChars c.gap ++ (c.spelling.chars ++ after) := by
    simpa [Cell.chars] using hu
  have hnext := next_gap hu' hg (Lexeme.opensTrivia_chars hv ha)
  obtain ⟨d, rest, hd, hscan⟩ := Lexeme.scan_chars hv ha
  have hunread := enter_unread hu'
  rw [hd] at hunread
  have hcursor : (s.enter (gapChars c.gap).length).cursor.pass c.spelling.chars.length =
      s.cursor.pass c.chars.length := by
    rw [Cell.chars, List.length_append, Cursor.pass_add]
    rfl
  have hstart := enter_start hs hu'
  have hplace : (s.cursor.pass (gapChars c.gap).length).place =
      Place.start.afterAll (s.before ++ gapChars c.gap) := hstart
  rw [hnext]
  simp only [readToken, hunread, readLexeme, hscan, Spelling.width_lexeme hv, hcursor, hstart,
    beyond, hplace, Spelling.tokenBehind, Place.afterAll_start_line, Place.afterAll_start_column]
  rfl

/-- Where a lexeme is at fault behind a gap, the fault is reported behind its part of the text. -/
theorem next_fault {s : Scanner} (hs : s.cursor.Placed) {gap : List Trivia} {c : Char}
    {rest part after : List Char} {f : Lexeme.Fault}
    (hu : s.cursor.unread = gapChars gap ++ c :: rest) (hg : GapFits gap (c :: rest))
    (ho : opensTrivia (c :: rest) = false) (hf : Lexeme.scan c rest = .error f)
    (hp : c :: rest = part ++ after) (hr : f.reported = part.length) :
    s.next.1 =
      .error (diagnosticBehind f.cause f.character (s.before ++ gapChars gap ++ part)) := by
  have hplace : ((s.enter (gapChars gap).length).cursor.pass f.reported).place =
      Place.start.afterAll (s.before ++ gapChars gap ++ part) := by
    rw [enter, ← Cursor.pass_add, hs.place_pass, hu, hp, hr, ← List.append_assoc,
      ← List.length_append, List.take_left, ← List.append_assoc]
    rfl
  rw [next_gap hu hg ho]
  simp only [readToken, enter_unread hu, readLexeme, hf, hplace]
  simp only [diagnosticBehind, Place.afterAll_start_line, Place.afterAll_start_column]

/-- Where a block comment stays open behind a gap, the fault is reported behind the whole text. -/
theorem next_open {s : Scanner} (hs : s.cursor.Placed) {gap : List Trivia} {body : List Char}
    (hu : s.cursor.unread = gapChars gap ++ '/' :: '*' :: body)
    (hg : GapFits gap ('/' :: '*' :: body)) (hb : ¬ ['*', '/'] <:+: body) :
    s.next.1 = .error (diagnosticBehind .openComment (some '*')
      (s.before ++ gapChars gap ++ '/' :: '*' :: body)) := by
  have hw : Gap.width? 0 s.cursor.unread = none := by
    rw [hu, Gap.width?_gap hg, Gap.width?_open hb]
  have hplace := hs.place_pass s.cursor.unread.length
  rw [List.take_length, hu, ← List.append_assoc] at hplace
  simp only [next, hw, openComment]
  rw [hu, hplace]
  simp only [diagnosticBehind, before, Place.afterAll_start_line, Place.afterAll_start_column]

/-- A scanner stands in front of a last gap, of a cell that fits the text behind it, or of a gap
and a broken construct, which the next step reports. -/
theorem next_cases {s : Scanner} (hs : s.cursor.Placed) :
    (∃ gap, s.cursor.unread = gapChars gap ∧ GapFits gap []) ∨
      (∃ (c : Cell) (after : List Char), s.cursor.unread = c.chars ++ after ∧ c.Fits after) ∨
      ∃ (gap : List Trivia) (part after : List Char) (cause : Cause) (character : Option Char),
        s.cursor.unread = gapChars gap ++ (part ++ after) ∧ GapFits gap (part ++ after) ∧
        Broken cause character part after ∧
        s.next.1 =
          .error (diagnosticBehind cause character (s.before ++ gapChars gap ++ part)) := by
  obtain ⟨gap, rest, hu, hg, ho | ⟨body, rfl, hb⟩⟩ := Gap.exists_gap s.cursor.unread
  · cases rest with
    | nil => exact Or.inl ⟨gap, by rw [hu, List.append_nil], hg⟩
    | cons c rest =>
        have hread := Lexeme.scan_reads ho
        cases hscan : Lexeme.scan c rest with
        | ok l =>
            rw [hscan] at hread
            obtain ⟨sp, after, hv, ha, hc, -⟩ := hread
            rw [hc] at hu hg
            exact Or.inr (Or.inl ⟨⟨gap, sp⟩, after, by simp [hu, Cell.chars], hg, hv, ha⟩)
        | error f =>
            rw [hscan] at hread
            obtain ⟨part, after, hb, hc, hr⟩ := hread
            have hnext := next_fault hs hu hg ho hscan hc hr
            rw [hc] at hu hg
            exact Or.inr (Or.inr ⟨gap, part, after, f.cause, f.character, hu, hg, hb, hnext⟩)
  · refine Or.inr (Or.inr ⟨gap, '/' :: '*' :: body, [], .openComment, some '*', ?_, ?_,
      .openComment hb, next_open hs hu hg hb⟩)
    · simpa using hu
    · simpa using hg

/-- Reading ends with a closing token. -/
theorem readAll_end {s t : Scanner} {token : Token} (h : s.next = (.ok token, t))
    (he : token.isEnd = true) (tokens : List Token) :
    s.readAll tokens = (.ok (token :: tokens).reverse, t) := by
  rw [readAll]
  split
  · rename_i hn
    rw [h] at hn
    cases hn
  · rename_i hn
    rw [h] at hn
    cases hn
    simp [he]

/-- Reading goes on behind any other token. -/
theorem readAll_more {s t : Scanner} {token : Token} (h : s.next = (.ok token, t))
    (he : token.isEnd = false) (tokens : List Token) :
    s.readAll tokens = t.readAll (token :: tokens) := by
  rw [readAll]
  split
  · rename_i hn
    rw [h] at hn
    cases hn
  · rename_i hn
    rw [h] at hn
    cases hn
    simp [he]

/-- Reading ends with a diagnostic. -/
theorem readAll_error {s : Scanner} {d : Diagnostic} (h : s.next.1 = .error d)
    (tokens : List Token) : (s.readAll tokens).1 = .error d := by
  rw [readAll]
  split
  · rename_i hn
    rw [hn] at h
    simpa using h
  · rename_i hn
    rw [hn] at h
    cases h

/-- A run over cells that fit the text behind them reads their tokens and stands behind them. -/
theorem readAll_cells {cells : List Cell} {after : List Char} (hc : CellsFit cells after)
    {s : Scanner} (hs : s.cursor.Placed) (hu : s.cursor.unread = cellsChars cells ++ after)
    (tokens : List Token) :
    ∃ t : Scanner, t.cursor = s.cursor.pass (cellsChars cells).length ∧
      s.readAll tokens = t.readAll ((tokensBehind s.before cells).reverse ++ tokens) := by
  induction cells generalizing s tokens with
  | nil => exact ⟨s, rfl, rfl⟩
  | cons c cells ih =>
      obtain ⟨hc, hcs⟩ := hc
      have hu' : s.cursor.unread = c.chars ++ (cellsChars cells ++ after) := by
        simpa [Cell.chars] using hu
      have hnext := next_cell hs hu' hc
      have hend := Spelling.isEnd_tokenBehind hc.2.1 (s.before ++ gapChars c.gap)
      obtain ⟨t, ht, hread⟩ := ih hcs (hs.pass _) (beyond_unread hu')
        (c.spelling.tokenBehind (s.before ++ gapChars c.gap) :: tokens)
      refine ⟨t, ?_, ?_⟩
      · rw [ht, beyond, ← Cursor.pass_add, cellsChars_cons, ← List.append_assoc, Cell.chars]
        simp [Nat.add_assoc]
      · rw [readAll_more hnext hend, hread, beyond_before hu']
        simp [tokensBehind, lexemesBehind]

/-- A run over a whole layout reads all its tokens. -/
theorem readAll_layout {cells : List Cell} {last : List Trivia}
    (hc : CellsFit cells (gapChars last)) (hl : GapFits last []) {s : Scanner}
    (hs : s.cursor.Placed) (hu : s.cursor.unread = cellsChars cells ++ gapChars last)
    (tokens : List Token) :
    (s.readAll tokens).1 = .ok (tokens.reverse ++ (tokensBehind s.before cells ++
      [endBehind (s.before ++ (cellsChars cells ++ gapChars last))])) := by
  obtain ⟨t, ht, hread⟩ := readAll_cells hc hs hu tokens
  have hplaced : t.cursor.Placed := by
    rw [ht]
    exact hs.pass _
  have hunread : t.cursor.unread = gapChars last := by simp [ht, hu]
  have hbefore : t.before = s.before ++ cellsChars cells := by
    simp [before, ht, Cursor.passed_pass, hu]
  have hend : (endBehind (t.before ++ gapChars last)).isEnd = true := rfl
  rw [hread, readAll_end (next_end hplaced hunread hl) hend, hbefore]
  simp

/-- Every text is a layout, or cells and a gap in front of a broken construct that a run over the
text reports. -/
theorem readAll_cases {s : Scanner} (hs : s.cursor.Placed) (tokens : List Token) :
    (∃ (cells : List Cell) (last : List Trivia),
        s.cursor.unread = cellsChars cells ++ gapChars last ∧
        CellsFit cells (gapChars last) ∧ GapFits last []) ∨
      ∃ (cells : List Cell) (gap : List Trivia) (part after : List Char) (cause : Cause)
          (character : Option Char),
        s.cursor.unread = cellsChars cells ++ (gapChars gap ++ (part ++ after)) ∧
        CellsFit cells (gapChars gap ++ (part ++ after)) ∧ GapFits gap (part ++ after) ∧
        Broken cause character part after ∧
        (s.readAll tokens).1 = .error (diagnosticBehind cause character
          (s.before ++ (cellsChars cells ++ (gapChars gap ++ part)))) := by
  induction h : s.cursor.unread.length using Nat.strongRecOn generalizing s tokens with
  | ind n ih =>
      rcases next_cases hs with ⟨gap, hu, hg⟩ | ⟨c, rest, hu, hc⟩ |
        ⟨gap, part, after, cause, character, hu, hg, hb, hnext⟩
      · exact Or.inl ⟨[], gap, by simpa using hu, trivial, hg⟩
      · have hnext := next_cell hs hu hc
        have hend := Spelling.isEnd_tokenBehind hc.2.1 (s.before ++ gapChars c.gap)
        have hlt : (s.beyond c).cursor.unread.length < n := by
          rw [← h]
          exact next_unread_lt hnext hend
        rcases ih _ hlt (s := s.beyond c) (hs.pass _)
            (c.spelling.tokenBehind (s.before ++ gapChars c.gap) :: tokens) rfl with
          ⟨cells, last, hu', hcs, hl⟩ |
          ⟨cells, gap, part, after, cause, character, hu', hcs, hg, hb, hread⟩
        · rw [beyond_unread hu] at hu'
          subst hu'
          exact Or.inl ⟨c :: cells, last, by simp [hu, Cell.chars], ⟨hc, hcs⟩, hl⟩
        · rw [beyond_unread hu] at hu'
          subst hu'
          refine Or.inr ⟨c :: cells, gap, part, after, cause, character,
            by simp [hu, Cell.chars], ⟨hc, hcs⟩, hg, hb, ?_⟩
          rw [readAll_more hnext hend, hread, beyond_before hu]
          simp [Cell.chars]
      · refine Or.inr ⟨[], gap, part, after, cause, character, hu, trivial, hg, hb, ?_⟩
        rw [readAll_error hnext]
        simp

end Scanner

/-- Every text is the text of a layout and has its tokens, or is the text of a broken layout and
has its diagnostic. -/
theorem tokenize_cases (source : String) :
    (∃ l : Layout, source.toList = l.chars ∧ tokenize source = .ok l.tokens) ∨
      ∃ b : BrokenLayout, source.toList = b.front ++ b.after ∧
        tokenize source = .error b.diagnostic := by
  let s := Scanner.ofString source
  have hs : s.cursor.Placed := Cursor.placed_ofList source.toList
  rcases s.readAll_cases hs [] with
    ⟨cells, last, hu, hc, hl⟩ | ⟨cells, gap, part, after, cause, character, hu, hc, hg, hb, hread⟩
  · exact Or.inl ⟨⟨cells, last, hc, hl⟩, hu, Scanner.readAll_layout hc hl hs hu []⟩
  · let b : BrokenLayout := ⟨cells, gap, part, after, cause, character, hc, hg, hb⟩
    have hsource : source.toList = cellsChars cells ++ (gapChars gap ++ (part ++ after)) := hu
    refine Or.inr ⟨b, ?_, hread⟩
    rw [hsource]
    simp only [BrokenLayout.front, b, List.append_assoc]

end FrontEnd
