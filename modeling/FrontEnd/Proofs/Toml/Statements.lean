import FrontEnd.Proofs.Toml.Quoted
import FrontEnd.Proofs.Toml.Scalar

/-!
# Reading TOML statements back

A key without quotes, a string or a decimal number, and the lines that they are written in. Every
line is read in front of any text, so lines in a row are read one after another.
-/

namespace FrontEnd.Toml

/-- Whether a text is a key without quotes. -/
def IsBareKey (cs : List Char) : Prop := cs ≠ [] ∧ ∀ c ∈ cs, isKeyChar c = true

instance (cs : List Char) : Decidable (IsBareKey cs) :=
  decidable_of_iff (cs ≠ [] ∧ cs.all isKeyChar = true) (by simp [IsBareKey])

/-- A character of a key is no blank. -/
theorem isBlank_of_isKeyChar {c : Char} (hc : isKeyChar c = true) : isBlank c = false := by
  rw [isBlank, Bool.or_eq_false_iff, beq_eq_false_iff_ne, beq_eq_false_iff_ne]
  constructor
  · rintro rfl
    cases hc
  · rintro rfl
    cases hc

/-- Blanks are read up to a text that starts with none. -/
theorem reads_blanks {run after : List Char} (hr : ∀ c ∈ run, isBlank c = true)
    (ha : startsWith isBlank after = false) : blanks.Reads run run after :=
  Reader.reads_takeWhile hr ha

/-- Where a text starts with no blank, no blanks are read. -/
theorem reads_blanks_nil {after : List Char} (ha : startsWith isBlank after = false) :
    blanks.Reads [] [] after := by
  apply reads_blanks _ ha
  intro c hc
  cases hc

/-- A key without quotes is read up to a text that starts with no character of a key. -/
theorem reads_bareKey {name after : List Char} (hn : IsBareKey name)
    (ha : startsWith isKeyChar after = false) : bareKey.Reads name name after := by
  have ht := takeWhile_append_stop hn.2 ha
  simp [Reader.Reads, bareKey, ht, hn.1]

theorem lineString_of_isKeyChar {c : Char} (hc : isKeyChar c = true) (rest : List Char) :
    lineString (c :: rest) = none := by
  rw [lineString]
  · exact cons_ne_cons hc rfl rest
  · exact cons_ne_cons hc rfl rest

/-- A part of a key is read with the blanks behind it. -/
theorem reads_keyPart {name pad after : List Char} (hn : IsBareKey name)
    (hp : ∀ c ∈ pad, isBlank c = true) (hk : startsWith isKeyChar (pad ++ after) = false)
    (hb : startsWith isBlank after = false) :
    keyPart.Reads (name ++ pad) (String.ofList name) after := by
  obtain ⟨c, rest, rfl⟩ := List.exists_cons_of_ne_nil hn.1
  have hc : isKeyChar c = true := hn.2 c List.mem_cons_self
  have hfront : startsWith isBlank (c :: rest ++ pad ++ after) = false := isBlank_of_isKeyChar hc
  have hpart := Reader.Reads.orElse_right (lineString_of_isKeyChar hc (rest ++ (pad ++ after)))
    (reads_bareKey hn hk)
  refine Reader.Reads.nil_bind (reads_blanks_nil hfront)
    (Reader.Reads.bind hpart (Reader.Reads.bind_nil (reads_blanks hp hb) ?_))
  exact Reader.reads_pure _ after

/-- A key of one part is read with the blanks behind it. -/
theorem reads_key {name pad after : List Char} (hn : IsBareKey name)
    (hp : ∀ c ∈ pad, isBlank c = true) (hk : startsWith isKeyChar (pad ++ after) = false)
    (hb : startsWith isBlank after = false) (hd : startsWith (· == '.') after = false) :
    key.Reads (name ++ pad) ([], String.ofList name) after := by
  have hmore : (Reader.many (do Reader.char '.'; keyPart)).Reads [] [] after :=
    Reader.reads_many_nil fun _ => Reader.char_bind_eq_none hd
  refine Reader.Reads.bind_nil (reads_keyPart hn hp hk hb) (Reader.Reads.nil_bind hmore ?_)
  exact Reader.reads_ofOption rfl after

/-- The end of a line behind a statement is read in front of any text. -/
theorem reads_trailing (after : List Char) : trailing.Reads ['\n'] () after := by
  have hcomment : comment ('\n' :: after) = none := Reader.char_bind_eq_none rfl
  have hend : lineEnd.Reads ['\n'] () after := rfl
  exact Reader.Reads.nil_bind (reads_blanks_nil rfl)
    (Reader.Reads.nil_bind (Reader.reads_optional_none hcomment) hend)

/-- A text is written with a quote in front. -/
theorem exists_quoted (cs : List Char) :
    ∃ mark rest, quoted cs = mark :: rest ∧ mark ∈ ['"', '\''] := by
  unfold quoted
  cases formOf cs
  · exact ⟨'"', _, rfl, by simp⟩
  · exact ⟨'\'', _, rfl, by simp⟩
  · exact ⟨'"', _, rfl, by simp⟩
  · exact ⟨'\'', _, rfl, by simp⟩

/-- A string is read as a value. -/
theorem reads_value_quoted (depth : Nat) (cs : List Char) {after : List Char}
    (ha : startsWith (['"', '\''].contains ·) after = false) :
    (value depth).Reads (quoted cs) (.string (String.ofList cs)) after := by
  have hs := reads_quoted cs ha
  obtain ⟨mark, rest, h, hm⟩ := exists_quoted cs
  have hv : ∀ tail, value depth (mark :: tail) =
      (string (mark :: tail)).map fun r => (.string (String.ofList r.1), r.2) := by
    intro tail
    simp only [List.mem_cons, List.not_mem_nil, or_false] at hm
    rcases hm with rfl | rfl <;> rw [value]
  rw [h, Reader.Reads] at hs ⊢
  rw [List.cons_append, hv, ← List.cons_append, hs]
  rfl

/-- A number that fits 64 bits is read as a value. -/
theorem reads_value_decimal (depth : Nat) {n : Nat} (hn : fits n = true) {after : List Char}
    (ha : startsWith isRunChar after = false) :
    (value depth).Reads (Digits.decimal n) (.integer n) after := by
  have hs := reads_decimal hn ha
  obtain ⟨c, rest, h⟩ := List.exists_cons_of_ne_nil (Digits.decimal_ne_nil n)
  have hc : c.isDigit = true := Digits.isDigit_decimal n c (h ▸ List.mem_cons_self)
  have hv : ∀ tail, value depth (c :: tail) = scalar (c :: tail) := by
    intro tail
    rw [value]
    · exact cons_ne_cons hc rfl tail
    · exact cons_ne_cons hc rfl tail
    · intro rest _ h
      exact absurd h (cons_ne_cons hc rfl tail rest)
    · intro rest _ h
      exact absurd h (cons_ne_cons hc rfl tail rest)
  rw [h, Reader.Reads] at hs ⊢
  rw [List.cons_append, hv, ← List.cons_append, hs]

/-- A value given to a key is read with its line. -/
theorem reads_assignment {name text : List Char} {node : Node} (hn : IsBareKey name)
    (ht : startsWith isBlank text = false) {after : List Char}
    (hv : (value maxNesting).Reads text node ('\n' :: after)) :
    assignment.Reads (name ++ [' ', '=', ' '] ++ text ++ ['\n'])
      (.assign [] (String.ofList name) node) after := by
  have hrun : name ++ [' ', '=', ' '] ++ text ++ ['\n'] =
      (name ++ [' ']) ++ '=' :: ([' '] ++ (text ++ ['\n'])) := by
    simp
  have hpad : ∀ c ∈ [' '], isBlank c = true := by simp [isBlank]
  have hfront : startsWith isBlank (text ++ ['\n'] ++ after) = false := by
    rw [List.append_assoc]
    exact startsWith_append ht rfl
  rw [hrun]
  apply Reader.Reads.bind (reads_key hn hpad rfl rfl rfl)
  apply Reader.Reads.char_bind
  apply Reader.Reads.bind (reads_blanks hpad hfront)
  apply Reader.Reads.bind hv
  exact Reader.Reads.bind_nil (reads_trailing after) (Reader.reads_pure _ after)

/-- The header of an element of an array of tables is read with its line. -/
theorem reads_elementHeader {name : List Char} (hn : IsBareKey name) (after : List Char) :
    elementHeader.Reads (['[', '['] ++ name ++ [']', ']', '\n'])
      (.openElement [] (String.ofList name)) after := by
  have hrun : ['[', '['] ++ name ++ [']', ']', '\n'] =
      '[' :: '[' :: (name ++ [] ++ ']' :: ']' :: ['\n']) := by
    simp
  rw [hrun]
  apply Reader.Reads.char_bind
  apply Reader.Reads.char_bind
  apply Reader.Reads.bind (reads_key hn (List.forall_mem_nil _) rfl rfl rfl)
  apply Reader.Reads.char_bind
  apply Reader.Reads.char_bind
  exact Reader.Reads.bind_nil (reads_trailing after) (Reader.reads_pure _ after)

/-- The line that gives a value to a key, with the statement that it holds. -/
def assignmentLine (name text : List Char) (node : Node) : List Char × Option Statement :=
  (name ++ [' ', '=', ' '] ++ text ++ ['\n'], some (.assign [] (String.ofList name) node))

/-- The header of an element of an array of tables, with the statement that it holds. -/
def elementLine (name : List Char) : List Char × Option Statement :=
  (['[', '['] ++ name ++ [']', ']', '\n'], some (.openElement [] (String.ofList name)))

/-- A line is read as what it holds in front of any text, and starts with no blank. -/
structure IsLine (l : List Char × Option Statement) : Prop where
  ne_nil : l.1 ≠ []
  front : startsWith isBlank l.1 = false
  reads : ∀ after, line.Reads l.1 l.2 after

theorem line_of_isKeyChar {c : Char} (hc : isKeyChar c = true) (rest : List Char) :
    line (c :: rest) = (do return some (← assignment) : Reader (Option Statement)) (c :: rest) := by
  rw [line]
  · exact cons_ne_cons hc rfl rest
  · exact cons_ne_cons hc rfl rest
  · exact cons_ne_cons hc rfl rest
  · intro tail
    exact cons_ne_cons hc rfl rest _
  · exact cons_ne_cons hc rfl rest

/-- A value given to a key makes a line if the value is read in front of a line break. -/
theorem isLine_assignmentLine {name text : List Char} {node : Node} (hn : IsBareKey name)
    (ht : startsWith isBlank text = false)
    (hv : ∀ after, (value maxNesting).Reads text node ('\n' :: after)) :
    IsLine (assignmentLine name text node) := by
  obtain ⟨c, rest, rfl⟩ := List.exists_cons_of_ne_nil hn.1
  have hc : isKeyChar c = true := hn.2 c List.mem_cons_self
  refine ⟨List.cons_ne_nil c _, isBlank_of_isKeyChar hc, ?_⟩
  intro after
  have h : (do return some (← assignment) : Reader (Option Statement)).Reads _ _ after :=
    Reader.Reads.bind_nil (reads_assignment hn ht (hv after)) (Reader.reads_pure _ after)
  exact (line_of_isKeyChar hc _).trans h

/-- A string given to a key makes a line. -/
theorem isLine_string {name : List Char} (hn : IsBareKey name) (cs : List Char) :
    IsLine (assignmentLine name (quoted cs) (.string (String.ofList cs))) := by
  apply isLine_assignmentLine hn
  · obtain ⟨mark, rest, h, hm⟩ := exists_quoted cs
    rw [h]
    simp only [List.mem_cons, List.not_mem_nil, or_false] at hm
    rcases hm with rfl | rfl <;> rfl
  · intro after
    exact reads_value_quoted maxNesting cs rfl

/-- A number that fits 64 bits makes a line when it is given to a key. -/
theorem isLine_integer {name : List Char} (hn : IsBareKey name) {n : Nat} (h : fits n = true) :
    IsLine (assignmentLine name (Digits.decimal n) (.integer n)) := by
  apply isLine_assignmentLine hn
  · obtain ⟨c, rest, hc⟩ := List.exists_cons_of_ne_nil (Digits.decimal_ne_nil n)
    have hd : c.isDigit = true := Digits.isDigit_decimal n c (hc ▸ List.mem_cons_self)
    rw [hc]
    apply isBlank_of_isKeyChar
    simp [isKeyChar, Char.isAlphanum, hd]
  · intro after
    exact reads_value_decimal maxNesting h rfl

/-- The header of an element of an array of tables makes a line. -/
theorem isLine_elementLine {name : List Char} (hn : IsBareKey name) :
    IsLine (elementLine name) := by
  refine ⟨List.cons_ne_nil '[' _, rfl, ?_⟩
  intro after
  exact Reader.Reads.bind_nil (reads_elementHeader hn after) (Reader.reads_pure (some _) after)

/-- An empty line holds no statement. -/
theorem isLine_empty : IsLine (['\n'], none) := by
  refine ⟨List.cons_ne_nil '\n' [], rfl, ?_⟩
  intro after
  rfl

theorem startsWith_lines {lines : List (List Char × Option Statement)}
    (h : ∀ l ∈ lines, IsLine l) : startsWith isBlank (lines.flatMap Prod.fst) = false := by
  induction lines with
  | nil => rfl
  | cons l lines ih =>
      rw [List.flatMap_cons]
      apply startsWith_append (h l List.mem_cons_self).front
      exact ih fun m hm => h m (List.mem_cons_of_mem l hm)

/-- Lines in a row are read one after another up to the end of the text. -/
theorem reads_lines {lines : List (List Char × Option Statement)} (h : ∀ l ∈ lines, IsLine l) :
    (Reader.many (do let l ← line; let _ ← blanks; return l)).Reads
      (lines.flatMap Prod.fst) (lines.map Prod.snd) [] := by
  induction lines with
  | nil =>
      apply Reader.reads_many_nil
      intro hne
      exact absurd rfl hne
  | cons l lines ih =>
      have hl := h l List.mem_cons_self
      have hls : ∀ m ∈ lines, IsLine m := fun m hm => h m (List.mem_cons_of_mem l hm)
      -- The next line starts with no blank, so the blanks behind this one end with it.
      have hfront : startsWith isBlank ([] ++ (lines.flatMap Prod.fst ++ [])) = false := by
        simpa using startsWith_lines hls
      rw [List.flatMap_cons, List.map_cons]
      refine Reader.Reads.many_cons ?_ hl.ne_nil (ih hls)
      apply Reader.Reads.bind_nil (hl.reads _)
      exact Reader.Reads.nil_bind (reads_blanks_nil hfront) (Reader.reads_pure _ _)

/-- A document whose lines are read is read as the statements that they hold. -/
theorem reads_statements {lines : List (List Char × Option Statement)}
    (h : ∀ l ∈ lines, IsLine l) :
    statements.Reads (lines.flatMap Prod.fst) (lines.filterMap Prod.snd) [] := by
  have hfront : startsWith isBlank (lines.flatMap Prod.fst ++ []) = false := by
    simpa using startsWith_lines h
  have hstatements : (lines.map Prod.snd).filterMap id = lines.filterMap Prod.snd := by
    rw [List.filterMap_map]
    rfl
  rw [← hstatements]
  apply Reader.Reads.nil_bind (reads_blanks_nil hfront)
  exact Reader.Reads.bind_nil (reads_lines h) (Reader.reads_pure _ [])

end FrontEnd.Toml
