import FrontEnd.Proofs.Files.Changes
import FrontEnd.Proofs.Files.Requests
import FrontEnd.Settings.Store

/-!
# Loading settings

Loading settings only looks at the files. What it gives is settled by the content of the file that
the path leads to.
-/

namespace FrontEnd.Settings

/-- What loading settings from a file gives. -/
def loaded (files : FileTree) (path : String) : Except Failure Settings :=
  ((load path : StateM FileTree (Except Failure Settings)).run files).1

/-- Loading settings leaves the files as they are. -/
theorem run_load (files : FileTree) (path : String) :
    (load path : StateM FileTree (Except Failure Settings)).run files =
      (loaded files path, files) := by
  have hfiles : ((load path : StateM FileTree (Except Failure Settings)).run files).2 = files := by
    rw [load, FileTree.run_bind (FileTree.run_pathExists files path)]
    cases files.pathExists path with
    | false => rfl
    | true =>
        rw [if_pos rfl, FileTree.run_bind (FileTree.run_readText files path)]
        cases (files.read path).bind String.fromUTF8? with
        | none => rfl
        | some text =>
            dsimp only
            cases ofText? text <;> rfl
  exact Prod.ext rfl hfiles

variable {files : FileTree} {path : String} {content : ByteArray} {s : Settings}

/-- What the content of a settings file gives. -/
def ofContent (content : ByteArray) : Except Failure Settings :=
  match String.fromUTF8? content with
  | none => .error (.files "cannot read the configuration")
  | some text =>
    match ofText? text with
    | none => .error (.settings .malformed)
    | some s => s.checked

theorem loaded_of_missing (h : files.find? path = none) :
    loaded files path = .error (.settings (.missing path)) := by
  have hexists : files.pathExists path = false := by rw [FileTree.pathExists, h]; rfl
  rw [loaded, load, FileTree.run_bind (FileTree.run_pathExists files path), hexists]
  rfl

/-- Where something is, loading settings gives what its text gives. -/
theorem loaded_of_there (h : files.find? path ≠ none) :
    loaded files path =
      match (files.read path).bind String.fromUTF8? with
      | none => .error (.files "cannot read the configuration")
      | some text =>
        match ofText? text with
        | none => .error (.settings .malformed)
        | some s => s.checked := by
  have hexists : files.pathExists path = true := Option.isSome_iff_ne_none.mpr h
  rw [loaded, load, FileTree.run_bind (FileTree.run_pathExists files path), hexists, if_pos rfl,
    FileTree.run_bind (FileTree.run_readText files path)]
  cases (files.read path).bind String.fromUTF8? with
  | none => rfl
  | some text =>
      dsimp only
      cases ofText? text <;> rfl

/-- Loading settings from a file gives what its content gives. -/
theorem loaded_of_read (h : files.read path = some content) :
    loaded files path = ofContent content := by
  have hthere : files.find? path ≠ none :=
    Option.isSome_iff_ne_none.mp (FileTree.pathExists_of_read h)
  rw [loaded_of_there hthere, h]
  rfl

/-- Settings are loaded from a file only. -/
theorem read_of_loaded (h : loaded files path = .ok s) :
    ∃ content, files.read path = some content ∧ ofContent content = .ok s := by
  cases hread : files.read path with
  | some content => exact ⟨content, rfl, loaded_of_read hread ▸ h⟩
  | none =>
      by_cases hthere : files.find? path = none
      · rw [loaded_of_missing hthere] at h
        cases h
      · rw [loaded_of_there hthere, hread] at h
        cases h

/-- A text that is the content of a settings file is read as settings. -/
theorem ofContent_toUTF8 (text : String) :
    ofContent text.toUTF8 =
      match ofText? text with
      | none => .error (.settings .malformed)
      | some s => s.checked := by
  have htext : String.fromUTF8? text.toUTF8 = some text := dif_pos text.isValidUTF8
  rw [ofContent, htext]

/-- A file without content holds no settings. -/
theorem ofContent_empty : ofContent .empty = .error (.settings .malformed) := by
  have hnone : ofText? "" = none := by cbv
  have hempty := ofContent_toUTF8 ""
  rw [hnone] at hempty
  exact hempty

end FrontEnd.Settings
