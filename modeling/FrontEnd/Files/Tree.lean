import FrontEnd.Files.Basic

/-!
# File trees

A file system as a value: which files and directories there are, and the working directory.
Locations are lists of names from the root down. Finding a location walks the parts of a path one
by one, and every part but the last must be a directory.
-/

namespace FrontEnd

/-- What stands at a location. -/
inductive Entry where
  | file (content : ByteArray)
  | directory

/-- The names that lead from the root to a file or directory. -/
abbrev Location := List String

/-- The files and directories of a file system other than its root, and the working directory. -/
structure FileTree where
  entries : List (Location × Entry)
  workingDirectory : Location

namespace FileTree

/-- What stands at a location. The root is always there. -/
def entry? (t : FileTree) (l : Location) : Option Entry :=
  if l = [] then some .directory else t.entries.lookup l

/-- Puts a file or directory at a location. -/
def put (t : FileTree) (l : Location) (e : Entry) : FileTree :=
  { t with entries := (l, e) :: t.entries.filter (·.1 != l) }

/-- The longest name of a file or directory, in bytes. -/
def maxNameLength : Nat := 255

/-- The longest path, in bytes. -/
def maxPathLength : Nat := 4095

/-- Why a path leads nowhere: a part is not there, or the path cannot be followed. -/
inductive Obstacle where
  | missing
  | blocked
deriving DecidableEq, Repr

/-- One step along a path, from a directory. -/
def walkPart (t : FileTree) (l : Location) (part : String) : Except Obstacle Location :=
  match t.entry? l with
  | none => .error .missing
  | some (.file _) => .error .blocked
  | some .directory =>
    if part = "" ∨ part = "." then .ok l
    else if part = ".." then .ok l.dropLast
    else if maxNameLength < part.utf8ByteSize then .error .blocked
    else .ok (l ++ [part])

/-- Splits a text at its slashes. -/
def splitSlashes : List Char → List (List Char)
  | [] => [[]]
  | '/' :: rest => [] :: splitSlashes rest
  | c :: rest =>
    match splitSlashes rest with
    | [] => [[c]]
    | part :: parts => (c :: part) :: parts

/-- The location a path leads to. The last part need not be there. -/
def locate (t : FileTree) (path : String) : Except Obstacle Location :=
  if path.isEmpty then .error .missing
  else if path.toList.contains '\x00' || maxPathLength < path.utf8ByteSize then .error .blocked
  else
    ((splitSlashes path.toList).map String.ofList).foldlM t.walkPart
      (if Path.isAbsolute path then [] else t.workingDirectory)

/-- What a path leads to. -/
def find? (t : FileTree) (path : String) : Option Entry :=
  match t.locate path with
  | .ok l => t.entry? l
  | .error _ => none

/-- Whether a path leads to a file or a directory. -/
def pathExists (t : FileTree) (path : String) : Bool := (t.find? path).isSome

/-- Whether a path leads to a file. -/
def isFile (t : FileTree) (path : String) : Bool :=
  match t.find? path with
  | some (.file _) => true
  | _ => false

/-- Whether a path leads to a directory. -/
def isDirectory (t : FileTree) (path : String) : Bool :=
  match t.find? path with
  | some .directory => true
  | _ => false

/-- The content of the file that a path leads to. -/
def read (t : FileTree) (path : String) : Option ByteArray :=
  match t.find? path with
  | some (.file content) => some content
  | _ => none

/-- Makes or replaces the file that a path leads to. -/
def write (t : FileTree) (path : String) (content : ByteArray) : Bool × FileTree :=
  match t.locate path with
  | .error _ => (false, t)
  | .ok l =>
    match t.entry? l with
    | some .directory => (false, t)
    | _ => (true, t.put l (.file content))

/-- Drops the slashes off the end of a path, but not its first character. -/
def dropTrailing (path : String) : String :=
  match path.toList with
  | [] => ""
  | c :: rest => String.ofList (c :: (rest.reverse.dropWhile (· == '/')).reverse)

/-- Makes one directory. -/
def makeDirectory (t : FileTree) (path : String) : Except Obstacle FileTree :=
  match t.locate (dropTrailing path) with
  | .error o => .error o
  | .ok l =>
    match t.entry? l with
    | some _ => .error .blocked
    | none => .ok (t.put l .directory)

/-- Makes the directories of a list that starts with the innermost one. A directory that is there
already is as good as made, and one that cannot be made for want of an outer one is tried again
after the rest of the list. -/
def makeChain (t : FileTree) : List String → Bool × FileTree
  | [] => (false, t)
  | path :: outer =>
    if path.isEmpty then (true, t)
    else
      match t.makeDirectory path with
      | .ok u => (true, u)
      | .error .blocked => (t.isDirectory path, t)
      | .error .missing =>
        match t.makeChain outer with
        | (false, u) => (false, u)
        | (true, u) =>
          match u.makeDirectory path with
          | .ok v => (true, v)
          | .error _ => (u.isDirectory path, u)

/-- Makes a directory and the directories it stands in. -/
def makeDirectories (t : FileTree) (path : String) : Bool × FileTree :=
  t.makeChain (Path.lineage path)

/-- Copies a file. The target is emptied before the source is read, so a file copied to itself is
empty afterwards. -/
def copy (t : FileTree) (source target : String) : Bool × FileTree :=
  match t.read source with
  | none => (false, t)
  | some content =>
    match t.locate source, t.locate target with
    | .ok l, .ok l' => t.write target (if l = l' then .empty else content)
    | _, _ => (false, t)

instance : FileAccess (StateM FileTree) where
  pathExists path := fun t => (t.pathExists path, t)
  isFile path := fun t => (t.isFile path, t)
  read path := fun t => (t.read path, t)
  write path content := fun t => t.write path content
  makeDirectories path := fun t => t.makeDirectories path
  copy source target := fun t => t.copy source target

end FileTree

end FrontEnd
