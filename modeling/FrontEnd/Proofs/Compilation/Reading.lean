import FrontEnd.Proofs.Compilation.Report
import FrontEnd.Proofs.Settings.Refused

/-!
# What a compilation reads first

A compilation reads its whole source file and scans it before it reports anything. So a source file
that cannot be read, or that is wrong anywhere in it, leaves no trace: nothing is written, and all
files and directories stay as they are, whatever the compilation was asked for. It is the same with
settings that are refused when they are to be installed.
-/

namespace FrontEnd

variable {files : FileTree} {path source : String} {tokens : List Token} {failure : Failure}

/-- Whether a failure is one of the source file. -/
def Failure.IsOfSource : Failure → Prop
  | unreadable _ => True
  | lexical _ => True
  | _ => False

namespace Source

/-- Why the source file at a path cannot be compiled, and the failure for it. -/
inductive Refused (files : FileTree) (path : String) : Failure → Prop where
  | unreadable (h : files.NoText path) : Refused files path (.unreadable path)
  | lexical {source : String} {diagnostic : Diagnostic}
      (hread : (files.read path).bind String.fromUTF8? = some source)
      (h : tokenize source = .error diagnostic) : Refused files path (.lexical diagnostic)

theorem Refused.isOfSource (h : Refused files path failure) : failure.IsOfSource := by
  cases h <;> trivial

/-- A source file cannot be compiled, or it has tokens. -/
theorem refused_or_tokens (files : FileTree) (path : String) :
    (∃ failure, Refused files path failure) ∨
      ∃ source tokens, (files.read path).bind String.fromUTF8? = some source ∧
        tokenize source = .ok tokens := by
  cases hread : (files.read path).bind String.fromUTF8? with
  | none => exact Or.inl ⟨_, .unreadable (FileTree.noText_iff.mpr hread)⟩
  | some source =>
      cases htokens : tokenize source with
      | error diagnostic => exact Or.inl ⟨_, .lexical hread htokens⟩
      | ok tokens => exact Or.inr ⟨source, tokens, rfl, htokens⟩

/-- Reading a source file leaves the files as they are. -/
theorem run_read (files : FileTree) (path : String) :
    (read path : StateM FileTree (Except Failure String)).run files =
      (match (files.read path).bind String.fromUTF8? with
        | some text => .ok text
        | none => .error (.unreadable path), files) := by
  rw [read, FileTree.run_bind (FileTree.run_readText files path)]
  cases (files.read path).bind String.fromUTF8? <;> rfl

end Source

/-- What a writer holds after a compilation, if it held a text before. -/
def Outcome.writtenBehind (o : Outcome) (before : String) : String := before ++ o.output

namespace Compilation

variable (c : Compilation) (job : Job)

/-- A compilation reports the tokens of its source file, if it has tokens. -/
theorem run_of_tokens (hread : (files.read path).bind String.fromUTF8? = some source)
    (htokens : tokenize source = .ok tokens) :
    (c.run path job : StateM FileTree Outcome).run files =
      (c.report job tokens : StateM FileTree Outcome).run files := by
  rw [run, FileTree.run_bind (Source.run_read files path), hread]
  simp only [htokens]

/-- A compilation of a source file that cannot be compiled fails for that, and does nothing else. -/
theorem run_of_refused (h : Source.Refused files path failure) :
    (c.run path job : StateM FileTree Outcome).run files = (⟨"", .error failure⟩, files) := by
  rw [run, FileTree.run_bind (Source.run_read files path)]
  cases h with
  | unreadable h => rw [FileTree.noText_iff.mp h]; rfl
  | lexical hread h =>
      rw [hread]
      simp only [h]
      rfl

/-- If a compilation fails for its source file, that file cannot be compiled. -/
theorem refused_of_run (hkind : failure.IsOfSource)
    (h : ((c.run path job : StateM FileTree Outcome).run files).1.result = .error failure) :
    Source.Refused files path failure := by
  obtain ⟨refusal, hrefused⟩ | ⟨source, tokens, hread, htokens⟩ :=
    Source.refused_or_tokens files path
  · rw [run_of_refused c job hrefused] at h
    cases h
    exact hrefused
  · rw [run_of_tokens c job hread htokens] at h
    obtain ⟨detail, rfl⟩ := exists_of_report_error c tokens job files h
    cases hkind

end Compilation

/-- Failures leave no trace. A compilation fails for its source file exactly if that cannot be read
or is wrong somewhere, and then a writer holds what it held before, whatever was asked for, and all
files and directories are as before. An installation fails for the settings exactly if these are
refused, and then all files and directories are as before as well. -/
theorem untouched_of_refused (files : FileTree) :
    (∀ (c : Compilation) (path : String) (job : Job) (failure : Failure),
      let done := (c.run path job : StateM FileTree Outcome).run files
      (failure.IsOfSource ∧ done.1.result = .error failure ↔
          Source.Refused files path failure) ∧
        (Source.Refused files path failure →
          (∀ before, done.1.writtenBehind before = before) ∧ done.2 = files)) ∧
      ∀ (source workingDirectory : String) (failure : Failure),
        let done := (Settings.install source workingDirectory :
          StateM FileTree (Except Failure String)).run files
        (failure.IsOfSettings ∧ done.1 = .error failure ↔
            Settings.Refused files source failure) ∧
          (Settings.Refused files source failure → done.2 = files) := by
  constructor
  · intro c path job failure done
    have hdone (h : Source.Refused files path failure) :
        done = (⟨"", .error failure⟩, files) := c.run_of_refused job h
    refine ⟨⟨fun h => c.refused_of_run job h.1 h.2, fun h => ?_⟩, fun h => ?_⟩
    · exact ⟨h.isOfSource, by rw [hdone h]⟩
    · rw [hdone h]
      exact ⟨fun before => String.append_empty, rfl⟩
  · intro source workingDirectory failure done
    have hdone (h : Settings.Refused files source failure) : done = (.error failure, files) :=
      Settings.run_install_of_refused h workingDirectory
    refine ⟨⟨fun h => Settings.refused_of_install h.1 h.2, fun h => ?_⟩, fun h => ?_⟩
    · exact ⟨h.isOfSettings, by rw [hdone h]⟩
    · rw [hdone h]

/-- A source file that is wrong at its very end, and settings with a level that is too high. -/
def refusedTree : FileTree :=
  ⟨[(["w"], .directory), (["w", "a.zv"], .file "x = 1 \"".toUTF8),
    (["w", "c.json"], .file "\x7b\"compiler\":\x7b\"optimization_level\":9\x7d\x7d".toUTF8)],
    ["w"]⟩

theorem untouched_of_refused_last :
    let done := ((⟨{}, .disabled⟩ : Compilation).run "a.zv" ⟨true, some .json, some "o/t.json"⟩ :
      StateM FileTree Outcome).run refusedTree
    let installed := (Settings.install "c.json" "." :
      StateM FileTree (Except Failure String)).run refusedTree
    done.1.result = .error (.lexical ⟨.openString, some '"', some "STRING", 1, 8⟩) ∧
      done.1.writtenBehind "before" = "before" ∧ done.2 = refusedTree ∧
      installed.1 = .error (.invalid (.levelTooHigh 9)) ∧ installed.2 = refusedTree := by
  intro done installed
  have hread : (refusedTree.read "a.zv").bind String.fromUTF8? = some "x = 1 \"" := by
    decide +kernel
  have htokens : tokenize "x = 1 \"" =
      .error ⟨.openString, some '"', some "STRING", 1, 8⟩ := by decide +kernel
  have hinvalid : installed.1 = .error (.invalid (.levelTooHigh 9)) := by decide +kernel
  obtain ⟨hcompilations, hinstallations⟩ := untouched_of_refused refusedTree
  obtain ⟨hfails, hsource⟩ := hcompilations ⟨{}, .disabled⟩ "a.zv"
    ⟨true, some .json, some "o/t.json"⟩ (.lexical ⟨.openString, some '"', some "STRING", 1, 8⟩)
  obtain ⟨hrefused, hsettings⟩ := hinstallations "c.json" "." (.invalid (.levelTooHigh 9))
  have hlexical : Source.Refused refusedTree "a.zv" _ := .lexical hread htokens
  obtain ⟨hwritten, hfiles⟩ := hsource hlexical
  exact ⟨(hfails.mpr hlexical).2, hwritten "before", hfiles, hinvalid,
    hsettings (hrefused.mp ⟨trivial, hinvalid⟩)⟩

end FrontEnd
