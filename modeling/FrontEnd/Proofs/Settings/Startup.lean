import FrontEnd.Proofs.Settings.Installed

/-!
# Starting

The program starts with the settings file of the working directory, or with that of the executable,
which is made with the defaults if it is wanted and not there. Starting again right behind that
gives the same settings. It does not if the path to the settings file of the working directory led
nowhere, but leads through one of the directories that were made to a file that was there before.
-/

namespace FrontEnd.Settings

variable {files after : FileTree} {workingDirectory exe : String} {startup : Startup}
  {content : ByteArray}

/-- What a start gives, and the files that it leaves. -/
def started (files : FileTree) (workingDirectory exe : String) :
    Except Failure Startup × FileTree :=
  (loadDefault workingDirectory exe : StateM FileTree (Except Failure Startup)).run files

/-- Where the working directory has a settings file, a start loads it. -/
theorem started_of_isFile (hown : files.isFile (pathIn workingDirectory) = true) (exe : String) :
    started files workingDirectory exe =
      ((loaded files (pathIn workingDirectory)).map (⟨·, pathIn workingDirectory, false⟩),
        files) := by
  rw [started, loadDefault, FileTree.run_bind (FileTree.run_isFile files _), hown, if_pos rfl,
    FileTree.run_bind (run_load files _)]
  rfl

section Shared

variable (hown : files.isFile (pathIn workingDirectory) = false)

include hown

/-- Otherwise it loads the settings file of the executable, if something is there. -/
theorem started_of_pathExists (hshared : files.pathExists (executablePath exe) = true) :
    started files workingDirectory exe =
      ((loaded files (executablePath exe)).map (⟨·, executablePath exe, false⟩), files) := by
  rw [started, loadDefault, FileTree.run_bind (FileTree.run_isFile files _), hown,
    if_neg Bool.false_ne_true]
  dsimp only
  rw [FileTree.run_bind (FileTree.run_pathExists files _), hshared, if_pos rfl,
    FileTree.run_bind (run_load files _)]
  rfl

/-- Otherwise it saves the defaults there, and then loads them. -/
theorem started_of_save (hshared : files.pathExists (executablePath exe) = false)
    {result : Except Failure Unit}
    (hsave : (save {} (executablePath exe) : StateM FileTree (Except Failure Unit)).run files =
      (result, after)) :
    started files workingDirectory exe =
      (result.map fun _ => ⟨{}, executablePath exe, true⟩, after) := by
  rw [started, loadDefault, FileTree.run_bind (FileTree.run_isFile files _), hown,
    if_neg Bool.false_ne_true]
  dsimp only
  rw [FileTree.run_bind (FileTree.run_pathExists files _), hshared, if_neg Bool.false_ne_true,
    FileTree.run_bind hsave]
  cases result with
  | error failure => rfl
  | ok done =>
      dsimp only
      rw [FileTree.run_bind (run_load after _), loaded_of_save hsave]
      rfl

end Shared

/-! ### Starting again -/

/-- Whether a start that succeeds can be repeated: another one right behind it gives the same
settings, makes no file and changes nothing. -/
def Repeats (workingDirectory exe : String) (first : Except Failure Startup × FileTree) : Prop :=
  ∀ startup, first.1 = .ok startup →
    ∃ path, started first.2 workingDirectory exe = (.ok ⟨startup.settings, path, false⟩, first.2)

/-- Whether making a file for the executable has diverted the path to the settings file of the
working directory: it led nowhere, and leads to a file from before that is not the one made. -/
def Diverts (files : FileTree) (workingDirectory exe : String) (after : FileTree) : Prop :=
  files.Uncovers after (pathIn workingDirectory) ∧
    after.locate (pathIn workingDirectory) ≠ after.locate (executablePath exe)

/-- A start that changes nothing and makes no file can be repeated. -/
theorem repeats_of_loaded {path : String} {result : Except Failure Settings}
    (h : started files workingDirectory exe = (result.map (⟨·, path, false⟩), files)) :
    Repeats workingDirectory exe (result.map (⟨·, path, false⟩), files) := by
  intro startup hok
  refine ⟨path, h.trans ?_⟩
  cases result with
  | error failure => cases hok
  | ok s =>
      cases hok
      rfl

/-- A start that makes a file can be repeated, unless it has diverted the path to the settings file
of the working directory. -/
theorem repeats_of_save (hown : files.isFile (pathIn workingDirectory) = false)
    (hshared : files.pathExists (executablePath exe) = false)
    (hsave : (save {} (executablePath exe) : StateM FileTree (Except Failure Unit)).run files =
      (.ok (), after)) (hdiverts : ¬ Diverts files workingDirectory exe after) :
    Repeats workingDirectory exe (.ok ⟨{}, executablePath exe, true⟩, after) := by
  intro startup hok
  cases hok
  have hread := read_of_save hsave
  have hloaded : loaded after (executablePath exe) = .ok {} := loaded_of_save hsave
  cases hfile : after.isFile (pathIn workingDirectory) with
  | false =>
      refine ⟨executablePath exe, ?_⟩
      rw [started_of_pathExists hfile (FileTree.pathExists_of_read hread), hloaded]
      rfl
  | true =>
      obtain ⟨content, hcontent⟩ := FileTree.exists_read_of_isFile hfile
      obtain ⟨l, hl, hentry⟩ := FileTree.read_eq_some_iff.mp hcontent
      by_cases hplace : after.locate (pathIn workingDirectory) = after.locate (executablePath exe)
      · have hsame : after.read (pathIn workingDirectory) = after.read (executablePath exe) := by
          simp only [FileTree.read, FileTree.find?, hplace]
        refine ⟨pathIn workingDirectory, ?_⟩
        rw [started_of_isFile hfile, loaded_of_read (hsame.trans hread), ← loaded_of_read hread,
          hloaded]
        rfl
      · -- The file is from before, and the path led nowhere, since it led to no file.
        have hcreates := creates_of_save hshared hsave
        have hold := hcreates.entry?_of_ne hentry fun h => hplace (hl.trans h.symm)
        refine absurd ⟨⟨?_, l, content, hl, hold⟩, hplace⟩ hdiverts
        cases hbefore : files.locate (pathIn workingDirectory) with
        | error o => exact ⟨o, rfl⟩
        | ok before =>
            obtain rfl : before = l :=
              Except.ok.inj ((hcreates.keepsDirectories.locate hbefore).symm.trans hl)
            have hread := FileTree.read_eq_some_iff.mpr ⟨before, hbefore, hold⟩
            exact absurd hread (FileTree.read_ne_of_not_isFile hown content)

/-! ### What a start does -/

/-- What a start does: it changes nothing if the working directory has a settings file or there is
something at the path of the executable's one. Otherwise it makes that file, with the defaults, and
directories for it. The result is settled by a settings file of the working directory alone, else by
what is at the path of the executable's one, else by whether the defaults can be saved there. A
start can be repeated unless it has diverted the path to the first of these files. -/
structure StartEffects (files : FileTree) (workingDirectory exe : String)
    (first : Except Failure Startup × FileTree) : Prop where
  unchanged : files.isFile (pathIn workingDirectory) = true ∨
    files.pathExists (executablePath exe) = true → first.2 = files
  creates : files.Creates (executablePath exe) ({} : Settings).toText.toUTF8 first.2
  created : ∀ startup, first.1 = .ok startup → (startup.created = true ↔
    files.isFile (pathIn workingDirectory) = false ∧
      files.pathExists (executablePath exe) = false)
  defaults : ∀ startup, first.1 = .ok startup → startup.created = true →
    startup.settings = {} ∧ startup.path = executablePath exe ∧
      first.2.read (executablePath exe) = some ({} : Settings).toText.toUTF8
  own : ∀ content, files.read (pathIn workingDirectory) = some content →
    first.1 = (ofContent content).map (⟨·, pathIn workingDirectory, false⟩)
  shared : files.isFile (pathIn workingDirectory) = false →
    files.pathExists (executablePath exe) = true →
      first.1 = (loaded files (executablePath exe)).map (⟨·, executablePath exe, false⟩)
  saved : files.isFile (pathIn workingDirectory) = false →
    files.pathExists (executablePath exe) = false →
      first.1 = ((save {} (executablePath exe) :
        StateM FileTree (Except Failure Unit)).run files).1.map
          fun _ => ⟨{}, executablePath exe, true⟩
  repeats : ¬ Diverts files workingDirectory exe first.2 → Repeats workingDirectory exe first

/-- Loading a settings file that is there does what a start has to do. -/
theorem startEffects_of_loaded {path : String} {result : Except Failure Settings}
    (h : started files workingDirectory exe = (result.map (⟨·, path, false⟩), files))
    (hthere : files.isFile (pathIn workingDirectory) = true ∨
      files.pathExists (executablePath exe) = true)
    (hown : ∀ content, files.read (pathIn workingDirectory) = some content →
      (result.map (⟨·, path, false⟩) : Except Failure Startup) =
        (ofContent content).map (⟨·, pathIn workingDirectory, false⟩))
    (hshared : files.isFile (pathIn workingDirectory) = false →
      (result.map (⟨·, path, false⟩) : Except Failure Startup) =
        (loaded files (executablePath exe)).map (⟨·, executablePath exe, false⟩)) :
    StartEffects files workingDirectory exe (started files workingDirectory exe) := by
  have hfalse : ∀ startup, result.map (⟨·, path, false⟩ : Settings → Startup) = .ok startup →
      startup.created = false := by
    intro startup hok
    cases result with
    | error failure => cases hok
    | ok s => cases hok; rfl
  rw [h]
  constructor
  · exact fun _ => rfl
  · exact .refl _ _ _
  · intro startup hok
    rw [hfalse startup hok]
    rcases hthere with hthere | hthere <;> simp [hthere]
  · intro startup hok hcreated
    rw [hfalse startup hok] at hcreated
    cases hcreated
  · exact hown
  · exact fun hfile _ => hshared hfile
  · intro hfile hmissing
    rcases hthere with hthere | hthere
    · rw [hfile] at hthere
      cases hthere
    · rw [hmissing] at hthere
      cases hthere
  · exact fun _ => repeats_of_loaded h

/-- Saving the defaults to a settings file does what a start has to do, whether it works or not. -/
theorem startEffects_of_save (hown : files.isFile (pathIn workingDirectory) = false)
    (hshared : files.pathExists (executablePath exe) = false) {result : Except Failure Unit}
    (hsave : (save {} (executablePath exe) : StateM FileTree (Except Failure Unit)).run files =
      (result, after)) :
    StartEffects files workingDirectory exe (started files workingDirectory exe) := by
  have hcreates := creates_of_save hshared hsave
  have hnofile := FileTree.read_ne_of_not_isFile hown
  have hresult : ((save {} (executablePath exe) :
      StateM FileTree (Except Failure Unit)).run files).1 = result := by rw [hsave]
  rw [started_of_save hown hshared hsave]
  constructor
  · simp [hown, hshared]
  · exact hcreates
  · intro startup hok
    cases result with
    | error failure => cases hok
    | ok done =>
        cases hok
        simp [hown, hshared]
  · intro startup hok _
    cases result with
    | error failure => cases hok
    | ok done =>
        obtain rfl := Except.ok.inj hok
        simp [read_of_save hsave]
  · exact fun content hread => absurd hread (hnofile content)
  · simp [hshared]
  · intro _ _
    rw [hresult]
  · intro hdiverts
    cases result with
    | error failure => intro startup hok; cases hok
    | ok done => exact repeats_of_save hown hshared hsave hdiverts

/-- Every start does what it has to do. -/
theorem startEffects_started (files : FileTree) (workingDirectory exe : String) :
    StartEffects files workingDirectory exe (started files workingDirectory exe) := by
  cases hown : files.isFile (pathIn workingDirectory) with
  | true =>
      refine startEffects_of_loaded (started_of_isFile hown exe) (.inl hown) ?_ (by simp [hown])
      intro content hread
      rw [loaded_of_read hread]
  | false =>
      cases hshared : files.pathExists (executablePath exe) with
      | true =>
          refine startEffects_of_loaded (started_of_pathExists hown hshared) (.inr hshared) ?_
            fun _ => rfl
          exact fun content hread => absurd hread (FileTree.read_ne_of_not_isFile hown content)
      | false =>
          cases hsave : (save {} (executablePath exe) :
              StateM FileTree (Except Failure Unit)).run files with
          | mk result after => exact startEffects_of_save hown hshared hsave

/-- A settings file with another level than the default. -/
def coveredText : String := "\x7b\"compiler\":\x7b\"optimization_level\":3\x7d\x7d"

/-- The file in a place that paths through a missing directory and back lead to, once it is made. -/
def coveredTree : FileTree :=
  ⟨[([".config"], .directory), ([".config", "default.json"], .file coveredText.toUTF8)], []⟩

/-- A start that finds no settings file in that tree gives the defaults that it saves. -/
theorem started_covered {path : String} {saved : Except Failure Unit × FileTree}
    (hpath : executablePath exe = path)
    (hown : coveredTree.isFile (pathIn workingDirectory) = false)
    (hshared : coveredTree.pathExists path = false)
    (hsave : (save {} path : StateM FileTree (Except Failure Unit)).run coveredTree = saved)
    (hok : saved.1 = .ok ()) :
    started coveredTree workingDirectory exe = (.ok ⟨{}, path, true⟩, saved.2) := by
  obtain ⟨result, after⟩ := saved
  subst hpath hok
  exact started_of_save hown hshared hsave

/-- A start that makes a directory diverts the path to the settings file of the working directory,
so that other settings are found by the next one, or overwrites settings that are found through the
new directory. -/
theorem not_repeats_covered :
    let first := started coveredTree "a/.." "a/dreamc"
    let other := started coveredTree "w" "a/../dreamc"
    first.1 = .ok ⟨{}, "a/.config/default.json", true⟩ ∧
      (started first.2 "a/.." "a/dreamc").1 =
        .ok ⟨{ compiler := { optimizationLevel := 3 } }, "a/../.config/default.json", false⟩ ∧
      ¬ Repeats "a/.." "a/dreamc" first ∧
      other.1 = .ok ⟨{}, "a/../.config/default.json", true⟩ ∧ ¬ coveredTree.Extends other.2 := by
  let saved (path : String) :=
    (save {} path : StateM FileTree (Except Failure Unit)).run coveredTree
  intro first other
  have hown : pathIn "a/.." = "a/../.config/default.json" := by decide +kernel
  have hfirst : first =
      (.ok ⟨{}, "a/.config/default.json", true⟩, (saved "a/.config/default.json").2) := by
    refine started_covered (by decide +kernel) ?_ (by decide +kernel) rfl (by decide +kernel)
    rw [hown]
    decide +kernel
  have hother : other =
      (.ok ⟨{}, "a/../.config/default.json", true⟩, (saved "a/../.config/default.json").2) :=
    started_covered (by decide +kernel) (by decide +kernel) (by decide +kernel) rfl
      (by decide +kernel)
  have htext : ofContent coveredText.toUTF8 =
      .ok { compiler := { optimizationLevel := 3 } } := by
    rw [ofContent_toUTF8]
    decide +kernel
  -- The path to the settings file of the working directory leads to the file from before.
  have hdiverted : (saved "a/.config/default.json").2.read (pathIn "a/..") =
      some coveredText.toUTF8 := by
    rw [hown]
    decide +kernel
  have hsecond : (started first.2 "a/.." "a/dreamc").1 =
      .ok ⟨{ compiler := { optimizationLevel := 3 } }, "a/../.config/default.json", false⟩ := by
    rw [hfirst, started, run_loadDefault_of_read hdiverted, htext, hown]
    rfl
  refine ⟨by rw [hfirst], hsecond, ?_, by rw [hother], ?_⟩
  · intro h
    obtain ⟨path, hagain⟩ := h ⟨{}, "a/.config/default.json", true⟩ (by rw [hfirst])
    rw [hagain] at hsecond
    cases hsecond
  · -- The file from before holds other settings than the one that was written.
    intro h
    have hread : coveredTree.read ".config/default.json" = some coveredText.toUTF8 := by
      decide +kernel
    have hwritten : (saved "a/../.config/default.json").2.read ".config/default.json" ≠
        some coveredText.toUTF8 := by decide +kernel
    rw [hother] at h
    exact hwritten (h.read hread)

end FrontEnd.Settings
