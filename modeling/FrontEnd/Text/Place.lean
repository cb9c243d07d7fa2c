/-!
# Places in a text

A place is a byte offset together with the line and the column of the character there. Lines and
columns are counted from one and are 32-bit words, the width every exported record gives them.
-/

namespace FrontEnd

/-- A byte offset into a text with the line and column of the character that starts there. -/
structure Place where
  offset : Nat
  line : UInt32
  column : UInt32
deriving DecidableEq, Repr

namespace Place

/-- The place of the first character of a text. -/
def start : Place := ⟨0, 1, 1⟩

/-- A newline opens the next line at column one; any other character stays on its line. -/
def after (p : Place) (c : Char) : Place :=
  if c = '\n' then ⟨p.offset + c.utf8Size, p.line + 1, 1⟩
  else ⟨p.offset + c.utf8Size, p.line, p.column + 1⟩

/-- The place behind a whole run of characters. -/
def afterAll (p : Place) (cs : List Char) : Place := cs.foldl after p

@[simp] theorem afterAll_nil (p : Place) : p.afterAll [] = p := rfl

@[simp] theorem afterAll_cons (p : Place) (c : Char) (cs : List Char) :
    p.afterAll (c :: cs) = (p.after c).afterAll cs := rfl

theorem afterAll_append (p : Place) (cs ds : List Char) :
    p.afterAll (cs ++ ds) = (p.afterAll cs).afterAll ds := by
  simp [afterAll]

/-- Every character moves the offset by the length of its encoding. -/
theorem after_offset (p : Place) (c : Char) : (p.after c).offset = p.offset + c.utf8Size := by
  unfold after
  split <;> rfl

end Place

end FrontEnd
