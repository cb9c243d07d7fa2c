import FrontEnd.Proofs.Text.Bytes
import FrontEnd.Proofs.Text.Position

/-!
# Moves of a cursor

A cursor moves over single characters and over runs of them, back to the front, and to any place
where it was before. Wherever it gets to, it cuts its text in two, and its offset, line and column
are those of the cut.
-/

namespace FrontEnd

namespace Cursor

/-- Moves past unread characters for as long as `p` accepts them. What `p` says of a character may
depend on those that it has accepted before (last first). -/
def passWhileBy (p : List Char → Char → Bool) (accepted : List Char) (c : Cursor) : Cursor :=
  match left : c.unread with
  | [] => c
  | d :: _ =>
    if p accepted d then
      have : c.step.unread.length < c.unread.length := by simp [unread_step, left]
      passWhileBy p (d :: accepted) c.step
    else c
termination_by c.unread.length

theorem passWhileBy_nil {c : Cursor} (h : c.unread = []) (p : List Char → Char → Bool)
    (accepted : List Char) : c.passWhileBy p accepted = c := by
  rw [passWhileBy]
  split
  · rfl
  · rename_i heq
    rw [h] at heq
    cases heq

theorem passWhileBy_cons {c : Cursor} {d : Char} {ds : List Char} (h : c.unread = d :: ds)
    (p : List Char → Char → Bool) (accepted : List Char) :
    c.passWhileBy p accepted =
      if p accepted d then c.step.passWhileBy p (d :: accepted) else c := by
  rw [passWhileBy]
  split
  · rename_i heq
    rw [h] at heq
    cases heq
  · rename_i heq
    rw [h] at heq
    cases heq
    rfl

/-- A run is passed one character after another. -/
theorem exists_passWhileBy_eq_pass (p : List Char → Char → Bool) (accepted : List Char)
    (c : Cursor) : ∃ n, c.passWhileBy p accepted = c.pass n := by
  induction h : c.unread generalizing accepted c with
  | nil => exact ⟨0, passWhileBy_nil h p accepted⟩
  | cons d ds ih =>
      rw [passWhileBy_cons h]
      split
      · obtain ⟨n, hn⟩ := ih (d :: accepted) c.step (by rw [unread_step, h, List.tail_cons])
        exact ⟨n + 1, hn⟩
      · exact ⟨0, rfl⟩

/-- Where `p` looks at nothing but the next character, the run is the longest one of characters that
satisfy it. -/
theorem passWhileBy_const (p : Char → Bool) (accepted : List Char) (c : Cursor) :
    c.passWhileBy (fun _ => p) accepted = c.passWhile p := by
  induction h : c.unread generalizing accepted c with
  | nil => rw [passWhileBy_nil h, passWhile, h]; rfl
  | cons d ds ih =>
      have htail : c.step.unread = ds := by rw [unread_step, h, List.tail_cons]
      rw [passWhileBy_cons h, passWhile, h, List.takeWhile_cons]
      split
      · rw [ih (d :: accepted) c.step htail, passWhile, htail]
        rfl
      · rfl

/-- A place of a text is the one behind a part that the text starts with. -/
def IsPlaceOf (cs : List Char) (p : Place) : Prop :=
  ∃ front rest, cs = front ++ rest ∧ p = Place.start.afterAll front

theorem StandsIn.isPlaceOf {cs : List Char} {c : Cursor} (h : c.StandsIn cs) :
    IsPlaceOf cs c.place :=
  ⟨c.passed.reverse, c.unread, h.text.symm, h.placed⟩

/-- Going back to the place where a cursor stands, from anywhere in its text, gives that cursor. -/
theorem StandsIn.restore_place {cs : List Char} {c d : Cursor} (hc : c.StandsIn cs)
    (hd : d.StandsIn cs) : d.restore c.place = c := by
  have hplace : c.place = Place.start.afterAll c.passed.reverse := hc.placed
  have htext : d.text = c.passed.reverse ++ c.unread := hd.text.trans hc.text.symm
  have hsplit : splitAtByte c.place.offset [] d.text = (c.passed, c.unread) := by
    rw [hplace, htext, Place.start_afterAll_offset, splitAtByte_append, List.reverse_reverse,
      List.append_nil]
  rw [Cursor.restore, hsplit]

/-- Going back to a place of the text cuts the text there. -/
theorem StandsIn.restore {cs : List Char} {c : Cursor} (h : c.StandsIn cs) {p : Place}
    (hp : IsPlaceOf cs p) : (c.restore p).StandsIn cs := by
  obtain ⟨front, rest, rfl, rfl⟩ := hp
  let d : Cursor := ⟨front.reverse, rest, Place.start.afterAll front⟩
  have hd : d.StandsIn (front ++ rest) :=
    ⟨congrArg Place.start.afterAll (List.reverse_reverse front).symm,
      congrArg (· ++ rest) (List.reverse_reverse front)⟩
  have hrestore : c.restore (Place.start.afterAll front) = d := hd.restore_place h
  rw [hrestore]
  exact hd

/-! ## Runs of moves -/

/-- What can be done with a cursor. -/
inductive Move where
  | step
  | accept (expected : Char)
  | passWhile (p : List Char → Char → Bool)
  | reset
  | save
  | restore (index : Nat)

/-- A cursor with the places that were saved of it, the first one first. -/
structure Tour where
  cursor : Cursor
  saved : List Place
deriving DecidableEq, Repr

namespace Tour

/-- The tour that starts in front of a text. -/
def ofString (source : String) : Tour := ⟨.ofString source, []⟩

/-- The tour behind a move. Going back to a place that was never saved moves nothing. -/
def perform (t : Tour) : Move → Tour
  | .step => { t with cursor := t.cursor.step }
  | .accept expected => { t with cursor := (t.cursor.accept expected).2 }
  | .passWhile p => { t with cursor := t.cursor.passWhileBy p [] }
  | .reset => { t with cursor := t.cursor.reset }
  | .save => { t with saved := t.saved ++ [t.cursor.place] }
  | .restore index =>
    match t.saved[index]? with
    | some p => { t with cursor := t.cursor.restore p }
    | none => t

/-- The tour behind moves that are made one after another. -/
def performAll (t : Tour) (moves : List Move) : Tour := moves.foldl perform t

/-- The cursor stands in a text, and the saved places are places of that text. -/
structure Within (cs : List Char) (t : Tour) : Prop where
  cursor : t.cursor.StandsIn cs
  saved : ∀ p ∈ t.saved, IsPlaceOf cs p

namespace Within

variable {cs : List Char} {t : Tour}

/-- Every move stays within the text. -/
theorem perform (h : t.Within cs) (move : Move) : (t.perform move).Within cs := by
  cases move with
  | step => exact ⟨h.cursor.pass 1, h.saved⟩
  | accept expected =>
      refine ⟨?_, h.saved⟩
      change (t.cursor.accept expected).2.StandsIn cs
      rw [accept]
      split
      · exact h.cursor.pass 1
      · exact h.cursor
  | passWhile p =>
      obtain ⟨n, hn⟩ := exists_passWhileBy_eq_pass p [] t.cursor
      refine ⟨?_, h.saved⟩
      change (t.cursor.passWhileBy p []).StandsIn cs
      rw [hn]
      exact h.cursor.pass n
  | reset =>
      refine ⟨?_, h.saved⟩
      change t.cursor.reset.StandsIn cs
      rw [h.cursor.reset]
      exact .ofList cs
  | save =>
      refine ⟨h.cursor, fun p hp => ?_⟩
      rcases List.mem_append.mp hp with hp | hp
      · exact h.saved p hp
      · rw [List.mem_singleton.mp hp]
        exact h.cursor.isPlaceOf
  | restore index =>
      rw [Tour.perform]
      cases hp : t.saved[index]? with
      | none => exact h
      | some p => exact ⟨h.cursor.restore (h.saved p (List.mem_of_getElem? hp)), h.saved⟩

theorem performAll (h : t.Within cs) (moves : List Move) : (t.performAll moves).Within cs := by
  induction moves generalizing t with
  | nil => exact h
  | cons move moves ih => exact ih (h.perform move)

end Within

end Tour

/-! ## What a cursor tells -/

/-- The cursor cuts a text into two parts, and what it tells is about them.

- Its offset is the number of bytes in front of the cut, which stands between two characters.
- Its line and column count the newlines in front of the cut, and the characters behind the last of
  them. As long as anything is left, there is room to count one more.
- The current character, which also the bytes at the offset spell, is the first one behind the cut;
  looking ahead shows the other ones. There is none exactly at the end of the text.
- The slice from any boundary that is not behind the cut is the text in between. -/
structure Cuts (source front rest : String) (c : Cursor) : Prop where
  text : source = front ++ rest
  offset : c.place.offset = front.utf8ByteSize
  boundary : String.Pos.Raw.IsValid source ⟨c.place.offset⟩
  line : c.place.line.toNat = lineAfter front.toList
  column : c.place.column.toNat = columnAfter front.toList
  room : rest ≠ "" →
    c.place.line.toNat + 1 < UInt32.size ∧ c.place.column.toNat + 1 < UInt32.size
  current : c.current? = rest.toList.head?
  bytes : charAtByte? source c.place.offset = c.current?
  peek : ∀ n, c.peek? n = rest.toList[n]?
  atEnd : c.isAtEnd = true ↔ c.current? = none
  atEnd_offset : c.isAtEnd = true ↔ source.utf8ByteSize ≤ c.place.offset
  slice : ∀ start, String.Pos.Raw.IsValid source ⟨start⟩ → start ≤ c.place.offset →
    ∃ before between : String, front = before ++ between ∧ before.utf8ByteSize = start ∧
      c.sliceFrom? start = some between

/-- A slice from a boundary of the text in front of the cursor is what that text has behind it. -/
theorem sliceFrom?_append {c : Cursor} {before between : String}
    (hpassed : c.passed.reverse = (before ++ between).toList)
    (hoffset : c.place.offset = (before ++ between).utf8ByteSize) :
    c.sliceFrom? before.utf8ByteSize = some between := by
  have hpassed' : c.passed = between.toList.reverse ++ before.toList.reverse := by
    rw [← List.reverse_append, ← String.toList_append, ← hpassed, List.reverse_reverse]
  have hbytes : c.place.offset - before.utf8ByteSize =
      (String.ofList between.toList).utf8ByteSize := by
    rw [hoffset, String.utf8ByteSize_append, String.ofList_toList]
    omega
  have hle : before.utf8ByteSize ≤ c.place.offset := by
    rw [hoffset, String.utf8ByteSize_append]
    omega
  rw [sliceFrom?, if_pos hle, hbytes, hpassed', lastBytes?_append, List.append_nil,
    Option.map_some, String.ofList_toList]

/-- A cursor that stands in a text cuts it where it stands. -/
theorem StandsIn.cuts {source : String} (hb : source.length < UInt32.size - 1) {c : Cursor}
    (h : c.StandsIn source.toList) :
    Cuts source (.ofList c.passed.reverse) (.ofList c.unread) c := by
  have htext : source = String.ofList c.passed.reverse ++ String.ofList c.unread := by
    rw [← String.ofList_append, ← String.ofList_toList (s := source), ← h.text]
    rfl
  have hoffset : c.place.offset = (String.ofList c.passed.reverse).utf8ByteSize := by
    rw [h.placed, Place.start_afterAll_offset]
  have hlength : c.passed.reverse.length + c.unread.length = source.length := by
    rw [← String.length_toList, ← h.text, Cursor.text, List.length_append]
  have hfront : c.passed.reverse.length < UInt32.size - 1 := by omega
  have hline : c.place.line.toNat = lineAfter c.passed.reverse := by
    rw [h.placed, Place.afterAll_start_line, toNat_ofNat_of_le (lineAfter_le _) hfront]
  have hcolumn : c.place.column.toNat = columnAfter c.passed.reverse := by
    rw [h.placed, Place.afterAll_start_column, toNat_ofNat_of_le (columnAfter_le _) hfront]
  have hsize : source.utf8ByteSize ≤ c.place.offset ↔ c.unread = [] := by
    rw [htext, hoffset, String.utf8ByteSize_append, ← String.ofList_eq_empty_iff,
      ← String.utf8ByteSize_eq_zero_iff]
    omega
  refine ⟨htext, hoffset, ?_, ?_, ?_, ?_, ?_, ?_, ?_, ?_, ?_, ?_⟩
  · exact String.Pos.Raw.isValid_iff_exists_append.mpr
      ⟨_, _, htext, String.Pos.Raw.ext hoffset⟩
  · rw [String.toList_ofList, hline]
  · rw [String.toList_ofList, hcolumn]
  · intro hrest
    have hne : c.unread ≠ [] := fun hnil => hrest (by rw [hnil, String.ofList_nil])
    have hpos := List.length_pos_iff.mpr hne
    have hl := lineAfter_le c.passed.reverse
    have hc := columnAfter_le c.passed.reverse
    omega
  · rw [String.toList_ofList, current?]
  · rw [hoffset, htext, charAtByte?_append, String.toList_ofList, current?]
  · intro n
    rw [String.toList_ofList, peek?]
  · rw [isAtEnd, current?, List.isEmpty_iff, List.head?_eq_none_iff]
  · rw [isAtEnd, List.isEmpty_iff, hsize]
  · -- The boundary cuts the same text, no later than the cursor does.
    intro start hvalid hle
    obtain ⟨before, after, hcut, hstart⟩ := String.Pos.Raw.isValid_iff_exists_append.mp hvalid
    have hbefore : before.utf8ByteSize = start := (congrArg String.Pos.Raw.byteIdx hstart).symm
    obtain ⟨between, hbetween⟩ := exists_between (hcut.symm.trans htext) (by omega)
    refine ⟨before, between, hbetween, hbefore, ?_⟩
    rw [← hbefore]
    apply sliceFrom?_append
    · rw [← hbetween, String.toList_ofList]
    · rw [← hbetween, hoffset]

/-- Wherever a cursor is moved in a text of fewer than 2³² - 1 characters, it cuts the text where it
stands. -/
theorem cuts_performAll {source : String} (hb : source.length < UInt32.size - 1)
    (moves : List Move) :
    ∃ front rest : String,
      Cuts source front rest ((Tour.ofString source).performAll moves).cursor :=
  have h : (Tour.ofString source).Within source.toList :=
    ⟨.ofList source.toList, by simp [Tour.ofString]⟩
  ⟨_, _, (h.performAll moves).cursor.cuts hb⟩

/-- Behind a letter of two bytes, a run of two characters and the way back, a newline is passed: the
cursor cuts the text at its third byte, in front of the second line. -/
theorem cuts_performAll_accent :
    let t := (Tour.ofString "é\nb").performAll
      [.step, .save, .passWhile fun accepted _ => accepted.length < 2, .restore 0, .accept 'b',
        .step]
    t.cursor.place = ⟨3, 2, 1⟩ ∧ ∃ front rest : String, Cuts "é\nb" front rest t.cursor :=
  ⟨by decide +kernel, cuts_performAll (by decide) _⟩

end Cursor

end FrontEnd
