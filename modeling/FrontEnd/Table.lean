/-!
# Tables

A value is looked up by its key. A table is a list of keys with their values, and a value is put in
front of the others, in place of the one that its key may have. Messages are such a table, from
message keys to texts in the language of the user. An environment maps the names of variables to
their values; a variable may be missing, and one that is there may be empty.
-/

namespace FrontEnd.Table

variable {α β : Type} [BEq α] [LawfulBEq α]

/-- Leaving out one key does not matter to any other. -/
theorem lookup_filter_ne {key other : α} (h : other ≠ key) (pairs : List (α × β)) :
    (pairs.filter (·.1 != key)).lookup other = pairs.lookup other := by
  induction pairs with
  | nil => rfl
  | cons e rest ih =>
    by_cases he : e.1 = key
    · have skip : (other == e.1) = false := by simp [he, h]
      rw [List.filter_cons_of_neg (by simp [he]), ih, List.lookup_cons, skip]
    · rw [List.filter_cons_of_pos (by simp [he]), List.lookup_cons, List.lookup_cons, ih]

/-- Putting a value changes what is found for its key only. -/
theorem lookup_put [DecidableEq α] (pairs : List (α × β)) (key : α) (value : β) (other : α) :
    ((key, value) :: pairs.filter (·.1 != key)).lookup other =
      if other = key then some value else pairs.lookup other := by
  by_cases h : other = key
  · simp [h]
  · have skip : (other == key) = false := by simp [h]
    simp only [List.lookup_cons, skip, lookup_filter_ne h, if_neg h]

end FrontEnd.Table

namespace FrontEnd

/-- Texts by message key. -/
structure Messages where
  entries : List (String × String)
deriving DecidableEq, Repr

namespace Messages

/-- The table without messages. -/
def empty : Messages := ⟨[]⟩

/-- The text for a key. -/
def find? (m : Messages) (key : String) : Option String := m.entries.lookup key

/-- Gives a key a text in place of the one it may have. -/
def insert (m : Messages) (key text : String) : Messages :=
  ⟨(key, text) :: m.entries.filter (·.1 != key)⟩

/-- The number of keys. -/
def size (m : Messages) : Nat := m.entries.length

@[simp] theorem find?_empty (key : String) : empty.find? key = none := rfl

/-- Inserting changes the text for one key only. -/
theorem find?_insert (m : Messages) (key text other : String) :
    (m.insert key text).find? other =
      if other = key then some text else m.find? other := by
  rw [insert, find?, find?, Table.lookup_put]

end Messages

/-- The variables of an environment. -/
abbrev Environment := String → Option String

namespace Environment

/-- Whether a variable has a value other than the empty text. -/
def isFilled (env : Environment) (name : String) : Bool :=
  match env name with
  | some value => !value.isEmpty
  | none => false

end Environment

end FrontEnd
