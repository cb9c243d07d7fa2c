/-!
# Readers

A reader takes something off the front of a text and says how many characters that took. What
follows is read from the text without those characters, so repeating a reader that takes at least
one character comes to an end.
-/

namespace FrontEnd

/-- Reads a value off the front of a text, with the number of characters taken. -/
def Reader (α : Type) : Type := List Char → Option (α × Nat)

namespace Reader

variable {α β : Type}

/-- Reads nothing. -/
protected def pure (a : α) : Reader α := fun _ => some (a, 0)

/-- Reads on with `f` behind what `p` took. -/
protected def bind (p : Reader α) (f : α → Reader β) : Reader β := fun cs =>
  match p cs with
  | none => none
  | some (a, m) =>
    match f a (cs.drop m) with
    | none => none
    | some (b, n) => some (b, m + n)

instance : Monad Reader where
  pure := Reader.pure
  bind := Reader.bind

/-- Always refuses. -/
def fail : Reader α := fun _ => none

/-- Turns an optional value into a reader that takes nothing. -/
def ofOption (a : Option α) : Reader α := fun _ => a.map (·, 0)

/-- Reads one given character. -/
def char (c : Char) : Reader Unit := fun cs => if cs.head? = some c then some ((), 1) else none

/-- Reads the longest run of characters that satisfy `p`, which may be empty. -/
def takeWhile (p : Char → Bool) : Reader (List Char) := fun cs =>
  let run := cs.takeWhile p
  some (run, run.length)

/-- Reads with `p`, or nothing where `p` refuses. -/
def optional (p : Reader α) : Reader (Option α) := fun cs =>
  match p cs with
  | some (a, n) => some (some a, n)
  | none => some (none, 0)

/-- Reads with `p`, or with `q` where `p` refuses. -/
def orElse (p q : Reader α) : Reader α := fun cs =>
  match p cs with
  | some r => some r
  | none => q cs

/-- Repeats `p` until it refuses or takes nothing, after the values read so far (last first). -/
def manyFrom (p : Reader α) (done : List α) (taken : Nat) (cs : List Char) : List α × Nat :=
  match cs with
  | [] => (done.reverse, taken)
  | c :: rest =>
    match p (c :: rest) with
    | some (a, n + 1) => manyFrom p (a :: done) (taken + n + 1) (rest.drop n)
    | _ => (done.reverse, taken)
termination_by cs.length
decreasing_by simp only [List.length_cons, List.length_drop]; omega

/-- Repeats `p` until it refuses, takes nothing, or nothing is left. -/
def many (p : Reader α) : Reader (List α) := fun cs => some (manyFrom p [] 0 cs)

/-- The value of a text that is read to its very end. -/
def all? (p : Reader α) (cs : List Char) : Option α :=
  match p cs with
  | some (a, n) => if (cs.drop n).isEmpty then some a else none
  | none => none

theorem bind_eq (p : Reader α) (f : α → Reader β) (cs : List Char) :
    (p >>= f) cs = match p cs with
      | none => none
      | some (a, m) =>
        match f a (cs.drop m) with
        | none => none
        | some (b, n) => some (b, m + n) := rfl

theorem pure_eq (a : α) (cs : List Char) : (pure a : Reader α) cs = some (a, 0) := rfl

end Reader

end FrontEnd
