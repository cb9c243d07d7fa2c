import FrontEnd.Proofs.Settings.Installed

/-!
# Refused settings

Settings are refused if their file is missing, if it cannot be read, if it is malformed, or if the
settings in it break a rule. They are loaded before they are installed, so that nothing has changed
when they are refused.
-/

namespace FrontEnd

/-- Whether a failure can come from loading settings. -/
def Failure.IsOfSettings : Failure → Prop
  | settings _ => True
  | invalid _ => True
  | files detail => detail = "cannot read the configuration"
  | _ => False

namespace Settings

/-- Why the settings at a path are refused, and the failure for it. -/
inductive Refused (files : FileTree) (path : String) : Failure → Prop where
  | missing (h : files.find? path = none) : Refused files path (.settings (.missing path))
  | unreadable (hthere : files.find? path ≠ none) (h : files.NoText path) :
      Refused files path (.files "cannot read the configuration")
  | malformed {text : String} (hread : (files.read path).bind String.fromUTF8? = some text)
      (h : ofText? text = none) : Refused files path (.settings .malformed)
  | invalid {text : String} {s : Settings} {violation : Violation}
      (hread : (files.read path).bind String.fromUTF8? = some text) (hs : ofText? text = some s)
      (h : s.violation? = some violation) : Refused files path (.invalid violation)

variable {files : FileTree} {path source workingDirectory : String} {failure : Failure}

theorem Refused.isOfSettings (h : Refused files path failure) : failure.IsOfSettings := by
  cases h with
  | missing | malformed | invalid => trivial
  | unreadable => rfl

theorem find?_ne_none_of_read {text : String}
    (h : (files.read path).bind String.fromUTF8? = some text) : files.find? path ≠ none := by
  intro hnone
  rw [FileTree.noText_iff.mp (.missing hnone)] at h
  cases h

/-- These are all the reasons why settings are not loaded. -/
theorem refused_iff : Refused files path failure ↔ loaded files path = .error failure := by
  constructor
  · intro h
    cases h with
    | missing h => exact loaded_of_missing h
    | unreadable hthere h => rw [loaded_of_there hthere, FileTree.noText_iff.mp h]
    | malformed hread h =>
        rw [loaded_of_there (find?_ne_none_of_read hread), hread]
        simp only [h]
    | invalid hread hs h =>
        rw [loaded_of_there (find?_ne_none_of_read hread), hread]
        simp only [hs, checked, h]
  · intro h
    by_cases hthere : files.find? path = none
    · rw [loaded_of_missing hthere] at h
      cases h
      exact .missing hthere
    · rw [loaded_of_there hthere] at h
      cases hread : (files.read path).bind String.fromUTF8? with
      | none =>
          rw [hread] at h
          cases h
          exact .unreadable hthere (FileTree.noText_iff.mpr hread)
      | some text =>
          rw [hread] at h
          dsimp only at h
          cases hs : ofText? text with
          | none =>
              rw [hs] at h
              cases h
              exact .malformed hread hs
          | some s =>
              rw [hs] at h
              dsimp only [checked] at h
              cases hviolation : s.violation? with
              | none => rw [hviolation] at h; cases h
              | some violation =>
                  rw [hviolation] at h
                  cases h
                  exact .invalid hread hs hviolation

/-- Refused settings are not installed, and nothing changes. -/
theorem run_install_of_refused (h : Refused files source failure) (workingDirectory : String) :
    (install source workingDirectory : StateM FileTree (Except Failure String)).run files =
      (.error failure, files) := by
  rw [install, FileTree.run_bind (run_load files source), refused_iff.mp h]
  rfl

/-- If an installation fails for settings, they are refused. -/
theorem refused_of_install (hkind : failure.IsOfSettings)
    (h : ((install source workingDirectory :
      StateM FileTree (Except Failure String)).run files).1 = .error failure) :
    Refused files source failure := by
  have hcases := installsAs files source workingDirectory
  cases hrun : (install source workingDirectory :
      StateM FileTree (Except Failure String)).run files with
  | mk result after =>
      rw [hrun] at h hcases
      cases h
      cases hcases with
      | refused hload => exact refused_iff.mpr hload
      | notMade => simp [Failure.IsOfSettings] at hkind
      | notCopied => simp [Failure.IsOfSettings] at hkind

end Settings

end FrontEnd
