import FrontEnd.Files.Tree

/-!
# Requests to a file tree

What the requests of a computation give on a file tree, and what they leave of it. Looking at files
leaves the tree as it is.
-/

namespace FrontEnd.FileTree

/-- A computation goes on with what its first part gives, on the tree that this part leaves. -/
theorem run_bind {α β : Type} {x : StateM FileTree α} {files files' : FileTree} {a : α}
    (h : x.run files = (a, files')) (f : α → StateM FileTree β) :
    (x >>= f).run files = (f a).run files' := by
  change (f (x.run files).1).run (x.run files).2 = _
  rw [h]

variable (files : FileTree) (path : String)

theorem run_pathExists :
    (FileAccess.pathExists path : StateM FileTree Bool).run files =
      (files.pathExists path, files) := rfl

theorem run_isFile :
    (FileAccess.isFile path : StateM FileTree Bool).run files = (files.isFile path, files) := rfl

theorem run_read :
    (FileAccess.read path : StateM FileTree (Option ByteArray)).run files =
      (files.read path, files) := rfl

theorem run_readText :
    (FileAccess.readText path : StateM FileTree (Option String)).run files =
      ((files.read path).bind String.fromUTF8?, files) := rfl

theorem run_write (content : ByteArray) :
    (FileAccess.write path content : StateM FileTree Bool).run files =
      files.write path content := rfl

theorem run_makeDirectories :
    (FileAccess.makeDirectories path : StateM FileTree Bool).run files =
      files.makeDirectories path := rfl

theorem run_copy (target : String) :
    (FileAccess.copy path target : StateM FileTree Bool).run files = files.copy path target := rfl

/-! ### Texts -/

/-- Why a path leads to no text: nothing is there, a directory is there, or a file that is no
text. -/
inductive NoText (files : FileTree) (path : String) : Prop where
  | missing (h : files.find? path = none)
  | directory (h : files.find? path = some .directory)
  | notText (content : ByteArray) (hfile : files.find? path = some (.file content))
      (hraw : String.fromUTF8? content = none)

variable {files path}

/-- These are all the reasons why no text is read. -/
theorem noText_iff : files.NoText path ↔ (files.read path).bind String.fromUTF8? = none := by
  unfold read
  constructor
  · rintro (h | h | ⟨content, hfile, hraw⟩)
    · rw [h]
      rfl
    · rw [h]
      rfl
    · rw [hfile]
      exact hraw
  · intro h
    cases hfind : files.find? path with
    | none => exact .missing hfind
    | some e =>
        rw [hfind] at h
        cases e with
        | directory => exact .directory hfind
        | file content => exact .notText content hfind h

end FrontEnd.FileTree
