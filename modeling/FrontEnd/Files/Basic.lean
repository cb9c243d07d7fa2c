/-!
# Paths and access to files

A path is a text whose parts are separated by slashes. It is absolute if it starts with a slash.
Empty parts and parts that are a single dot mean nothing, except for a dot that starts a relative
path. The program asks a file system for what paths lead to, with relative ones read from the
working directory on. Requests that fail say so and nothing more.
-/

namespace FrontEnd

namespace Path

/-- Whether a path starts at the root. -/
def isAbsolute (path : String) : Bool := path.toList.head? == some '/'

/-- Appends a path to a directory. An absolute path replaces the directory, and a separator is
added unless the directory is empty or ends with one. -/
def join (directory path : String) : String :=
  if isAbsolute path then path
  else if directory.isEmpty || directory.toList.getLast? == some '/' then directory ++ path
  else directory ++ "/" ++ path

/-- The length of what a path starts with in front of its parts: the root or a single dot. -/
def rootLength : List Char → Nat
  | '/' :: _ => 1
  | ['.'] => 1
  | '.' :: '/' :: _ => 1
  | _ => 0

/-- Drops separators and single dots off the end of a text of parts, which is given and returned
last character first. -/
def dropIdle : List Char → List Char
  | ['.'] => []
  | '.' :: '/' :: rest => dropIdle rest
  | '/' :: rest => dropIdle rest
  | cs => cs

/-- Drops the last part, its separator and what means nothing in front of it off a text of parts,
last character first. -/
def dropPart (cs : List Char) : List Char := dropIdle (cs.dropWhile (· != '/'))

/-- The parts of a path up to the end of the last one, last character first. -/
def parts (path : List Char) : List Char := dropIdle (path.drop (rootLength path)).reverse

/-- The path without its last part. The root and the empty path have no parent, and the parent of
a single dot is the empty path. -/
def parentChars? (path : List Char) : Option (List Char) :=
  if parts path = [] then (if path.head? = some '.' then some [] else none)
  else some (path.take (rootLength path) ++ (dropPart (parts path)).reverse)

/-- The path without its last part. -/
def parent? (path : String) : Option String := (parentChars? path.toList).map String.ofList

/-- The path up to the end of its last part, and that part, if it is the name of a file. -/
def fileName? (path : String) : Option (String × String) :=
  let cs := path.toList
  let name := ((parts cs).takeWhile (· != '/')).reverse
  if name = [] ∨ name = ['.', '.'] then none
  else some (String.ofList (cs.take (rootLength cs) ++ (parts cs).reverse), String.ofList name)

/-- Whether a file name has an extension: a dot other than in front, with anything behind it. -/
def hasExtension (name : String) : Bool := name.toList.tail.contains '.'

theorem dropIdle_length_le (cs : List Char) : (dropIdle cs).length ≤ cs.length := by
  fun_induction dropIdle cs <;> simp_all <;> omega

/-- Dropping a part leaves less than there was. -/
theorem dropPart_length_lt {cs : List Char} (h : cs ≠ []) : (dropPart cs).length < cs.length := by
  match cs, h with
  | c :: rest, _ =>
    by_cases slash : c = '/'
    · subst slash
      have := dropIdle_length_le rest
      simp [dropPart, dropIdle]
      omega
    · have shorter := dropIdle_length_le (rest.dropWhile (· != '/'))
      have := (List.dropWhile_sublist (l := rest) (· != '/')).length_le
      simp [dropPart, slash] at shorter ⊢
      omega

theorem rootLength_le (path : List Char) : rootLength path ≤ path.length := by
  unfold rootLength
  split <;> simp

/-- A parent is shorter than the path. -/
theorem parentChars?_length_lt {path parent : List Char} (h : parentChars? path = some parent) :
    parent.length < path.length := by
  unfold parentChars? at h
  split at h
  · split at h
    · rename_i dot
      cases h
      cases path <;> simp_all
    · cases h
  · rename_i nonempty
    cases h
    have shorter := dropPart_length_lt nonempty
    have idle := dropIdle_length_le (path.drop (rootLength path)).reverse
    have root := rootLength_le path
    simp [parts] at shorter idle ⊢
    omega

/-- A path and all its parents, innermost first. -/
def lineageChars (path : List Char) : List (List Char) :=
  match h : parentChars? path with
  | some parent =>
    have := parentChars?_length_lt h
    path :: lineageChars parent
  | none => [path]
termination_by path.length

/-- A path and all its parents, innermost first. -/
def lineage (path : String) : List String := (lineageChars path.toList).map String.ofList

end Path

/-- The requests to a file system that a computation can make. -/
class FileAccess (m : Type → Type) where
  /-- Whether there is a file or a directory. -/
  pathExists : String → m Bool
  /-- Whether there is a file. -/
  isFile : String → m Bool
  /-- The content of a file. -/
  read : String → m (Option ByteArray)
  /-- Makes or replaces a file, and says whether that worked. -/
  write : String → ByteArray → m Bool
  /-- Makes a directory and the directories it stands in, and says whether they are all there. -/
  makeDirectories : String → m Bool
  /-- Copies the first file to the second, and says whether that worked. -/
  copy : String → String → m Bool

namespace FileAccess

/-- The text of a file, if it is text. -/
def readText {m : Type → Type} [Monad m] [FileAccess m] (path : String) : m (Option String) := do
  return (← read path).bind String.fromUTF8?

end FileAccess

end FrontEnd
