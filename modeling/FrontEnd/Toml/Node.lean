/-!
# TOML documents as trees

A document is a tree of tables. How a table came about decides what may still be added to it: one
opened by a header or standing for the whole document is complete on its own, one that a longer
header only passes through may still be opened, and one made by dotted keys may only grow by
further dotted keys.
-/

namespace FrontEnd.Toml

/-- How a table came about. -/
inductive Origin where
  /-- By its own header, as the document, or as an element of an array of tables. -/
  | opened
  /-- By a longer header that passes through it. -/
  | passed
  /-- By dotted keys. -/
  | dotted
deriving DecidableEq, Repr

/-- A value or table of a document. Booleans, floating-point numbers and dates keep their text. -/
inductive Node where
  | string (text : String)
  | integer (n : Int)
  | other (text : String)
  | array (items : List Node)
  | inline (members : List (String × Node))
  | table (origin : Origin) (members : List (String × Node))
  /-- An array of tables, which is never empty: its last table, and those before it last first. -/
  | tables (latest : List (String × Node)) (earlier : List (List (String × Node)))

/-- A table with what it holds. -/
structure Table where
  origin : Origin
  members : List (String × Node)

namespace Table

/-- The empty document. -/
def root : Table := ⟨.opened, []⟩

/-- Replaces what stands under a key by what `change` makes of it, or refuses. -/
def alter (key : String) (change : Option Node → Option Node) :
    List (String × Node) → Option (List (String × Node))
  | [] => (change none).map fun node => [(key, node)]
  | (name, node) :: rest =>
    if name = key then (change (some node)).map fun node => (name, node) :: rest
    else (alter key change rest).map ((name, node) :: ·)

/-- Changes the table at the end of a path. Missing tables are made on the way, arrays of tables
are entered at their last table, and a path of dotted keys does not enter an opened table. -/
def reach (dotted : Bool) (change : Table → Option Table) : List String → Table → Option Table
  | [], t => change t
  | key :: path, t =>
    (alter key (fun
      | none =>
        (reach dotted change path ⟨if dotted then .dotted else .passed, []⟩).map fun sub =>
          .table sub.origin sub.members
      | some (.table origin members) =>
        if dotted && origin == .opened then none
        else
          (reach dotted change path ⟨origin, members⟩).map fun sub =>
            .table sub.origin sub.members
      | some (.tables latest earlier) =>
        (reach dotted change path ⟨.opened, latest⟩).map fun sub => .tables sub.members earlier
      | some _ => none) t.members).map fun members => ⟨t.origin, members⟩

/-- Gives a value to a key that has none. -/
def put (key : String) (value : Node) (t : Table) : Option Table :=
  (alter key (fun
    | none => some value
    | some _ => none) t.members).map fun members => ⟨t.origin, members⟩

/-- Gives a value to a dotted key. The keys before the last one lead to a table made by dotted
keys, and without such keys the value goes into the table itself. -/
def assign (parents : List String) (key : String) (value : Node) (t : Table) : Option Table :=
  reach true (fun sub =>
    if (sub.origin == .dotted) == parents.isEmpty then none else sub.put key value) parents t

/-- Opens the table that a header names. It may have been passed through but not made before. -/
def openTable (parents : List String) (key : String) (t : Table) : Option Table :=
  reach false (fun sub =>
    (alter key (fun
      | none => some (.table .opened [])
      | some (.table .passed members) => some (.table .opened members)
      | some _ => none) sub.members).map fun members => ⟨sub.origin, members⟩) parents t

/-- Opens the next table of the array that a header names. -/
def openElement (parents : List String) (key : String) (t : Table) : Option Table :=
  reach false (fun sub =>
    (alter key (fun
      | none => some (.tables [] [])
      | some (.tables latest earlier) => some (.tables [] (latest :: earlier))
      | some _ => none) sub.members).map fun members => ⟨sub.origin, members⟩) parents t

end Table

namespace Node

/-- The members of a table of any form. -/
def members? : Node → Option (List (String × Node))
  | inline members | table _ members => some members
  | _ => none

/-- The items of an array of any form, in order. -/
def items? : Node → Option (List Node)
  | array items => some items
  | tables latest earlier => some ((latest :: earlier).reverse.map (table .opened))
  | _ => none

/-- Whether a table or array of any form holds nothing. -/
def isEmpty : Node → Bool
  | array items => items.isEmpty
  | inline members | table _ members => members.isEmpty
  | _ => false

end Node

end FrontEnd.Toml
