import FrontEnd.Text.Place

/-!
# Cursors over a text

A cursor splits a text into the characters already passed and the characters still unread, and
knows the place of the first unread one. Passed characters are kept last first, so that a step in
either direction touches one character only.
-/

namespace FrontEnd

/-- A position in a text: passed characters (last first), unread characters, and the place. -/
structure Cursor where
  passed : List Char
  unread : List Char
  place : Place
deriving DecidableEq, Repr

namespace Cursor

/-- The cursor in front of a text. -/
def ofList (cs : List Char) : Cursor := ⟨[], cs, Place.start⟩

/-- The cursor in front of a text. -/
def ofString (s : String) : Cursor := ofList s.toList

/-- The whole text under the cursor, wherever the cursor stands. -/
def text (c : Cursor) : List Char := c.passed.reverse ++ c.unread

/-- The first unread character. -/
def current? (c : Cursor) : Option Char := c.unread.head?

/-- The unread character `n` places ahead. -/
def peek? (c : Cursor) (n : Nat) : Option Char := c.unread[n]?

/-- Whether the next unread character is the given one. -/
def check (c : Cursor) (expected : Char) : Bool := c.current? == some expected

/-- Whether nothing is left unread. -/
def isAtEnd (c : Cursor) : Bool := c.unread.isEmpty

/-- Moves past one character, and stays put at the end. -/
def step (c : Cursor) : Cursor :=
  match c.unread with
  | [] => c
  | h :: t => ⟨h :: c.passed, t, c.place.after h⟩

/-- Moves past `n` characters, or to the end if fewer are left. -/
def pass : Nat → Cursor → Cursor
  | 0, c => c
  | n + 1, c => pass n c.step

/-- Moves past the next character if it is the given one, and says whether it did. -/
def accept (c : Cursor) (expected : Char) : Bool × Cursor :=
  if c.check expected then (true, c.step) else (false, c)

/-- Moves past the longest run of unread characters that all satisfy `p`. -/
def passWhile (p : Char → Bool) (c : Cursor) : Cursor :=
  c.pass (c.unread.takeWhile p).length

/-- Moves back to the front of the text. -/
def reset (c : Cursor) : Cursor := ofList c.text

/-- Splits a text at a byte offset; the first part is returned last character first. A cut inside
a character falls in front of the next one. -/
def splitAtByte : Nat → List Char → List Char → List Char × List Char
  | 0, passed, cs => (passed, cs)
  | _ + 1, passed, [] => (passed, [])
  | n + 1, passed, c :: cs => splitAtByte (n + 1 - c.utf8Size) (c :: passed) cs

/-- Moves to a remembered place of the same text. -/
def restore (c : Cursor) (p : Place) : Cursor :=
  let parts := splitAtByte p.offset [] c.text
  ⟨parts.1, parts.2, p⟩

/-- Takes exactly `n` bytes off the end of the passed characters, if that falls between two of
them, and puts them in reading order in front of `acc`. -/
def lastBytes? : Nat → List Char → List Char → Option (List Char)
  | 0, _, acc => some acc
  | _ + 1, [], _ => none
  | n + 1, c :: cs, acc =>
    if c.utf8Size ≤ n + 1 then lastBytes? (n + 1 - c.utf8Size) cs (c :: acc) else none

/-- The text from a byte offset up to the cursor. There is none if the offset lies beyond the
cursor or inside a character. -/
def sliceFrom? (c : Cursor) (offset : Nat) : Option String :=
  if offset ≤ c.place.offset then
    (lastBytes? (c.place.offset - offset) c.passed []).map String.ofList
  else none

@[simp] theorem text_ofList (cs : List Char) : (ofList cs).text = cs := rfl

@[simp] theorem text_step (c : Cursor) : c.step.text = c.text := by
  unfold step text
  split <;> simp_all

@[simp] theorem text_pass (n : Nat) (c : Cursor) : (c.pass n).text = c.text := by
  induction n generalizing c with
  | zero => rfl
  | succ n ih => simp [pass, ih]

theorem unread_step (c : Cursor) : c.step.unread = c.unread.tail := by
  unfold step
  split <;> simp_all

/-- Passing `n` characters drops them from the unread ones. -/
@[simp] theorem unread_pass (n : Nat) (c : Cursor) : (c.pass n).unread = c.unread.drop n := by
  induction n generalizing c with
  | zero => rfl
  | succ n ih => simp [pass, ih, unread_step, List.drop_tail]

theorem pass_add (m n : Nat) (c : Cursor) : c.pass (m + n) = (c.pass m).pass n := by
  induction m generalizing c with
  | zero => simp [pass]
  | succ m ih => rw [Nat.succ_add]; simp [pass, ih]

end Cursor

end FrontEnd
