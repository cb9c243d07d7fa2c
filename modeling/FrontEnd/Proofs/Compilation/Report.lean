import FrontEnd.Compilation
import FrontEnd.Proofs.Files.Changes
import FrontEnd.Proofs.Files.Requests

/-!
# Reports of a compilation

A report writes a document to a file, if it is asked to, after making the directory of the file.
That is all that it changes, and all that can fail.
-/

namespace FrontEnd

/-- Makes the directory of a file, unless that is the working directory. -/
def FileTree.makeRoom (t : FileTree) (path : String) : Bool × FileTree :=
  match Path.parent? path with
  | some parent => if parent.isEmpty then (true, t) else t.makeDirectories parent
  | none => (true, t)

namespace Compilation

/-- Writing the file of a document, when there is room for it. -/
theorem run_writeFile (made : FileTree) (target document : String) :
    (do
        if ← FileAccess.write target document.toUTF8 then return .ok ()
        else return .error (.files "cannot write the token stream") :
      StateM FileTree (Except Failure Unit)).run made =
      match made.write target document.toUTF8 with
      | (false, after) => (.error (.files "cannot write the token stream"), after)
      | (true, after) => (.ok (), after) := by
  cases hwrite : made.write target document.toUTF8 with
  | mk written after =>
      rw [FileTree.run_bind ((FileTree.run_write made target _).trans hwrite)]
      cases written <;> rfl

/-- A document is written to a file if room can be made for it and the file can be written. -/
theorem run_writeDocument (files : FileTree) (target document : String) :
    (writeDocument target document : StateM FileTree (Except Failure Unit)).run files =
      match files.makeRoom target with
      | (false, made) => (.error (.files "cannot make the output directory"), made)
      | (true, made) =>
        match made.write target document.toUTF8 with
        | (false, after) => (.error (.files "cannot write the token stream"), after)
        | (true, after) => (.ok (), after) := by
  unfold writeDocument FileTree.makeRoom
  cases Path.parent? target with
  | none => exact run_writeFile files target document
  | some parent =>
      dsimp only
      by_cases hhere : parent.isEmpty
      · rw [if_pos hhere, if_pos hhere]
        exact run_writeFile files target document
      · rw [if_neg hhere, if_neg hhere]
        cases hmade : files.makeDirectories parent with
        | mk made files₁ =>
            rw [FileTree.run_bind ((FileTree.run_makeDirectories files parent).trans hmade)]
            cases made with
            | false => rfl
            | true => exact run_writeFile files₁ target document

variable (c : Compilation) (tokens : List Token)

/-- What a report writes to standard output beside a document: the listing, or the summary on a line
of its own. -/
def overview (listed : Bool) : String :=
  if listed then c.listing tokens else c.summary tokens.length ++ "\n"

theorem overview_eq (listed : Bool) :
    (if listed then c.listing tokens else "") ++
      (if listed then "" else c.summary tokens.length ++ "\n") = c.overview tokens listed := by
  cases listed with
  | false => exact String.empty_append
  | true => exact String.append_empty

/-- A report without an export writes its overview. -/
theorem run_report_overview (listed : Bool) (output : Option String) (files : FileTree) :
    (c.report ⟨listed, none, output⟩ tokens : StateM FileTree Outcome).run files =
      (⟨c.overview tokens listed, .ok ()⟩, files) := by
  rw [← overview_eq]
  rfl

/-- A report that exports to standard output writes the listing there, if it is asked for, and then
the document. -/
theorem run_report_document (listed : Bool) (format : Format) (files : FileTree) :
    (c.report ⟨listed, some format, none⟩ tokens : StateM FileTree Outcome).run files =
      (⟨(if listed then c.listing tokens else "") ++ endLine (format.document tokens), .ok ()⟩,
        files) := rfl

/-- A report that exports to a file writes the document there, and its overview to standard output.
If the file cannot be written, only the listing is written. -/
theorem run_report_file (listed : Bool) (format : Format) (target : String) (files : FileTree) :
    (c.report ⟨listed, some format, some target⟩ tokens : StateM FileTree Outcome).run files =
      match (writeDocument target (endLine (format.document tokens)) :
        StateM FileTree (Except Failure Unit)).run files with
      | (.ok (), after) => (⟨c.overview tokens listed, .ok ()⟩, after)
      | (.error failure, after) => (⟨if listed then c.listing tokens else "", .error failure⟩,
          after) := by
  cases hwrite : (writeDocument target (endLine (format.document tokens)) :
      StateM FileTree (Except Failure Unit)).run files with
  | mk result after =>
      rw [report]
      dsimp only
      rw [FileTree.run_bind hwrite]
      cases result with
      | error failure => rfl
      | ok done =>
          rw [← overview_eq]
          rfl

/-- What can fail in a report are requests for files. -/
theorem exists_of_report_error (job : Job) (files : FileTree) {failure : Failure}
    (h : ((c.report job tokens : StateM FileTree Outcome).run files).1.result = .error failure) :
    ∃ detail, failure = .files detail := by
  obtain ⟨listed, emit, output⟩ := job
  cases emit with
  | none =>
      rw [run_report_overview] at h
      cases h
  | some format =>
      cases output with
      | none => cases h
      | some target =>
          rw [run_report_file, run_writeDocument] at h
          cases hroom : files.makeRoom target with
          | mk made files₁ =>
              rw [hroom] at h
              cases made with
              | false =>
                  cases h
                  exact ⟨_, rfl⟩
              | true =>
                  dsimp only at h
                  cases hwrite : files₁.write target
                      (endLine (format.document tokens)).toUTF8 with
                  | mk written files₂ =>
                      rw [hwrite] at h
                      cases written with
                      | false =>
                          cases h
                          exact ⟨_, rfl⟩
                      | true => cases h

end Compilation

end FrontEnd
