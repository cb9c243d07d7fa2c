import FrontEnd.Proofs.Scanner.Requests
import FrontEnd.Proofs.Text.Origin
import FrontEnd.Proofs.Text.Bytes

/-!
# Going on in the middle of a text

Wherever a scanner stands, and whatever it was asked before, it goes on as a new scanner in front of
the text that is left. Only the positions differ: they are those of the new scanner, relocated to
where the scanner stands.
-/

namespace FrontEnd

/-- The line and the column of a token as numbers. -/
def Token.position (t : Token) : Nat × Nat := (t.line.toNat, t.column.toNat)

/-- The line and the column of a diagnostic as numbers. -/
def Diagnostic.position (d : Diagnostic) : Nat × Nat := (d.line.toNat, d.column.toNat)

namespace Scanner

/-- Two answers that say the same, the second one of a text in which the text of the first one
starts at `origin`. -/
inductive SameBehind (origin : Nat × Nat) :
    Except Diagnostic Token → Except Diagnostic Token → Prop
  | token {t u : Token} (kind : u.kind = t.kind) (text : u.text = t.text)
      (position : u.position = relocate origin t.position) : SameBehind origin (.ok t) (.ok u)
  | diagnostic {d e : Diagnostic} (cause : e.cause = d.cause)
      (character : e.character = d.character) (context : e.context = d.context)
      (position : e.position = relocate origin d.position) : SameBehind origin (.error d) (.error e)

/-- An answer of a scanner, and the place where the scanner stands behind it. -/
structure Reading where
  answer : Except Diagnostic Token
  place : Place

/-- What a scanner gives for a number of requests for the next token. -/
def readings : Nat → Scanner → List Reading
  | 0, _ => []
  | n + 1, s => ⟨s.next.1, s.next.2.cursor.place⟩ :: readings n s.next.2

/-- Two readings that say the same and go equally far, the second one of a text in which the text of
the first one starts at `origin`. -/
structure Reading.SameBehind (origin : Place) (r r' : Reading) : Prop where
  answer : Scanner.SameBehind origin.position r.answer r'.answer
  offset : r'.place.offset = origin.offset + r.place.offset
  position : r'.place.position = relocate origin.position r.place.position

/-- The words of a position behind a text, in a text that is shorter than the largest word. -/
theorem position_words_append {front cs : List Char}
    (h : (front ++ cs).length < UInt32.size - 1) :
    ((UInt32.ofNat (lineAfter (front ++ cs))).toNat,
        (UInt32.ofNat (columnAfter (front ++ cs))).toNat) =
      relocate (positionAfter front)
        ((UInt32.ofNat (lineAfter cs)).toNat, (UInt32.ofNat (columnAfter cs)).toNat) := by
  have hc : cs.length < UInt32.size - 1 := by
    rw [List.length_append] at h
    omega
  rw [position_words h, position_words hc, positionAfter_append]

/-- A text in front of what a scanner has passed relocates its answer. -/
theorem answer_sameBehind {front before unread : List Char}
    (hb : (front ++ (before ++ unread)).length < UInt32.size - 1) :
    SameBehind (positionAfter front) (answer before unread).1
      (answer (front ++ before) unread).1 := by
  have hposition : ∀ n, ((UInt32.ofNat (lineAfter (front ++ (before ++ unread.take n)))).toNat,
        (UInt32.ofNat (columnAfter (front ++ (before ++ unread.take n)))).toNat) =
      relocate (positionAfter front)
        ((UInt32.ofNat (lineAfter (before ++ unread.take n))).toNat,
          (UInt32.ofNat (columnAfter (before ++ unread.take n))).toNat) := by
    intro n
    apply position_words_append
    have := List.length_take_le' n unread
    simp only [List.length_append] at hb ⊢
    omega
  unfold answer
  simp only [List.append_assoc]
  cases Gap.width? 0 unread with
  | none =>
      have h := hposition unread.length
      rw [List.take_length] at h
      exact .diagnostic rfl rfl rfl h
  | some gap =>
      cases hd : unread.drop gap with
      | nil =>
          simp only [hd]
          exact .token rfl rfl (hposition gap)
      | cons c rest =>
          cases hs : Lexeme.scan c rest with
          | ok l =>
              simp only [hd, hs]
              exact .token rfl rfl (hposition gap)
          | error f =>
              simp only [hd, hs]
              exact .diagnostic rfl rfl rfl (hposition (gap + f.reported))

/-- The place of a scanner that has passed a text in front of what another one has passed. -/
theorem Below.place {front cs : List Char} {s t : Scanner} (h : Below front s t)
    (hs : Reads cs s) (hb : (front ++ cs).length < UInt32.size - 1) :
    t.cursor.place.offset = (Place.start.afterAll front).offset + s.cursor.place.offset ∧
      t.cursor.place.position =
        relocate (Place.start.afterAll front).position s.cursor.place.position := by
  have hlength : (front ++ s.before).length < UInt32.size - 1 := by
    rw [← hs.before_append_unread] at hb
    simp only [List.length_append] at hb ⊢
    omega
  have hfront : front.length < UInt32.size - 1 := by
    rw [List.length_append] at hlength
    omega
  have hbefore : s.before.length < UInt32.size - 1 := by
    rw [List.length_append] at hlength
    omega
  have hplace : s.cursor.place = Place.start.afterAll s.before := h.placed
  have hbelow : t.cursor.place = Place.start.afterAll (front ++ s.before) := by
    rw [← h.before]
    exact h.placed_below
  constructor
  · rw [hbelow, hplace, Place.afterAll_append, Place.afterAll_offset _ s.before,
      Place.start_afterAll_offset s.before]
  · rw [hbelow, hplace, Place.position_afterAll_start hlength,
      Place.position_afterAll_start hfront, Place.position_afterAll_start hbefore,
      positionAfter_append]

/-- A run of two such scanners gives the same readings, relocated behind the text in front. -/
theorem Below.readings {front cs : List Char} {s t : Scanner} (h : Below front s t)
    (hs : Reads cs s) (hb : (front ++ cs).length < UInt32.size - 1) (n : Nat) :
    List.Forall₂ (Reading.SameBehind (Place.start.afterAll front)) (s.readings n)
      (t.readings n) := by
  induction n generalizing s t with
  | zero => exact .nil
  | succ n ih =>
      obtain ⟨hanswer, hanswer_below, hstep⟩ := h.step
      obtain ⟨hoffset, hposition⟩ := hstep.place hs.next hb
      have hfront : front.length < UInt32.size - 1 := by
        rw [List.length_append] at hb
        omega
      refine .cons ⟨?_, hoffset, hposition⟩ (ih hstep hs.next)
      rw [Place.position_afterAll_start hfront, hanswer, hanswer_below]
      apply answer_sameBehind
      rw [hs.before_append_unread]
      exact hb

/-- A scanner goes on where it stands as a new scanner in front of the text that is left. In a text
of fewer than 2³² - 1 characters, after any requests, the next token can be asked for any number of
times: the answers are those of the new scanner, and go as far. All offsets are larger by the offset
where the scanner stands, and all lines and columns are relocated to its line and column. -/
theorem readings_resumed {source : String} (hb : source.length < UInt32.size - 1)
    (requests : List Request) :
    ∃ front rest : String, source = front ++ rest ∧
      front.utf8ByteSize = ((ofString source).performAll requests).cursor.place.offset ∧
      ∀ n, List.Forall₂
        (Reading.SameBehind ((ofString source).performAll requests).cursor.place)
        ((ofString rest).readings n) (((ofString source).performAll requests).readings n) := by
  let t := (ofString source).performAll requests
  have ht : Reads source.toList t := reads_performAll source requests
  have hsource : source.toList = t.before ++ t.cursor.unread := ht.before_append_unread.symm
  have hplace : t.cursor.place = Place.start.afterAll t.before := ht.placed
  refine ⟨.ofList t.before, .ofList t.cursor.unread, ?_, ?_, fun n => ?_⟩
  · rw [← String.ofList_append, ← hsource, String.ofList_toList]
  · change _ = t.cursor.place.offset
    rw [hplace, Place.start_afterAll_offset]
  · have hbelow : Below t.before (Scanner.ofList t.cursor.unread) t :=
      ⟨Cursor.placed_ofList _, ht.placed, rfl, (List.append_nil _).symm⟩
    have hlength : (t.before ++ t.cursor.unread).length < UInt32.size - 1 := by
      rw [← hsource, String.length_toList]
      exact hb
    have hrun := hbelow.readings (.ofList t.cursor.unread) hlength n
    have hfresh : ofString (.ofList t.cursor.unread) = .ofList t.cursor.unread := by
      rw [ofString, String.toList_ofList]
    rw [hfresh]
    exact hplace ▸ hrun

/-- A string over two lines, a run that failed, and a lone ampersand that ended the stream stand in
front of a tab: a scanner goes on there, in the fifth column of the second line. -/
theorem readings_resumed_ampersand :
    let source := "\"é\n\"x/&\ty\n2e"
    let t := (ofString source).performAll [.tokens, .reset, .next, .pull, .pull, .pull]
    (t.cursor.place = ⟨8, 2, 5⟩ ∧ t.finished = true) ∧
      ∃ front rest : String, source = front ++ rest ∧
        front.utf8ByteSize = t.cursor.place.offset ∧
        ∀ n, List.Forall₂ (Reading.SameBehind t.cursor.place) ((ofString rest).readings n)
          (t.readings n) :=
  ⟨by decide +kernel, readings_resumed (by decide) _⟩

end Scanner

end FrontEnd
