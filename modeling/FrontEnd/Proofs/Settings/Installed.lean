import FrontEnd.Proofs.Settings.Saved

/-!
# Installed settings

An installed settings file is a copy of its source, which later runs start with, and the source
stays as it is. That holds exactly if the source is not itself the settings file of the working
directory: a file that is copied onto itself is emptied.
-/

namespace FrontEnd.Settings

variable {files after : FileTree} {source workingDirectory path : String} {content : ByteArray}

/-- How an installation can go: the settings are refused and nothing changes, or they are valid and
the directory for them cannot be made, or it is made and the file cannot be copied there, or the
file is copied. -/
inductive InstallsAs (files : FileTree) (source workingDirectory : String) :
    Except Failure String → FileTree → Prop where
  | refused {failure : Failure} (hload : loaded files source = .error failure) :
      InstallsAs files source workingDirectory (.error failure) files
  | notMade {s : Settings} {made : FileTree} (hload : loaded files source = .ok s)
      (hadds : files.AddsDirectories made) :
      InstallsAs files source workingDirectory
        (.error (.files "cannot make the configuration directory")) made
  | notCopied {s : Settings} {made after : FileTree} (hload : loaded files source = .ok s)
      (hadds : files.AddsDirectories made)
      (hcopy : made.copy source (pathIn workingDirectory) = (false, after)) :
      InstallsAs files source workingDirectory
        (.error (.files "cannot copy the configuration")) after
  | copied {s : Settings} {made after : FileTree} (hload : loaded files source = .ok s)
      (hadds : files.AddsDirectories made)
      (hcopy : made.copy source (pathIn workingDirectory) = (true, after)) :
      InstallsAs files source workingDirectory (.ok (pathIn workingDirectory)) after

theorem installsAs (files : FileTree) (source workingDirectory : String) :
    let done := (install source workingDirectory :
      StateM FileTree (Except Failure String)).run files
    InstallsAs files source workingDirectory done.1 done.2 := by
  rw [install, FileTree.run_bind (run_load files source)]
  cases hload : loaded files source with
  | error failure => exact .refused hload
  | ok s =>
      cases hparent : (makeParent (pathIn workingDirectory) : StateM FileTree Bool).run files with
      | mk made files₁ =>
          have hadds := addsDirectories_of_makeParent hparent
          dsimp only
          rw [FileTree.run_bind hparent]
          cases made with
          | false => exact .notMade hload hadds
          | true =>
              cases hcopy : files₁.copy source (pathIn workingDirectory) with
              | mk copied files₂ =>
                  rw [if_pos rfl,
                    FileTree.run_bind ((FileTree.run_copy files₁ source _).trans hcopy)]
                  cases copied with
                  | false => exact .notCopied hload hadds hcopy
                  | true => exact .copied hload hadds hcopy

/-- An installation copies valid settings to the settings file of the working directory, after
making the directory of that file. -/
theorem copy_of_install
    (h : (install source workingDirectory : StateM FileTree (Except Failure String)).run files =
      (.ok path, after)) :
    path = pathIn workingDirectory ∧ ∃ s made, loaded files source = .ok s ∧ files.Extends made ∧
      made.copy source path = (true, after) := by
  have hcases := installsAs files source workingDirectory
  rw [h] at hcases
  cases hcases with
  | copied hload hadds hcopy => exact ⟨rfl, _, _, hload, hadds.extends, hcopy⟩

/-- The program starts with the settings file of the working directory, if it is a file. -/
theorem run_loadDefault_of_read (h : files.read (pathIn workingDirectory) = some content)
    (exe : String) :
    (loadDefault workingDirectory exe : StateM FileTree (Except Failure Startup)).run files =
      ((ofContent content).map (⟨·, pathIn workingDirectory, false⟩), files) := by
  rw [loadDefault, FileTree.run_bind (FileTree.run_isFile files _), FileTree.isFile_of_read h,
    if_pos rfl, FileTree.run_bind (run_load files _), loaded_of_read h]
  rfl

/-- What an installation has to leave behind: the settings file of the working directory has the
content that the source had, the source still has it, and later runs start with the settings that
were loaded from the source, without making a file. -/
structure Installed (files : FileTree) (source workingDirectory : String) (after : FileTree) :
    Prop where
  copied : ∃ content, files.read source = some content ∧
    after.read (pathIn workingDirectory) = some content
  unchanged : after.read source = files.read source
  startup : ∃ s, loaded files source = .ok s ∧ ∀ exe,
    (loadDefault workingDirectory exe : StateM FileTree (Except Failure Startup)).run after =
      (.ok ⟨s, pathIn workingDirectory, false⟩, after)

/-- An installation that succeeds leaves behind what it has to exactly if the source and the
settings file of the working directory are not the same file. -/
theorem installed_iff
    (h : (install source workingDirectory : StateM FileTree (Except Failure String)).run files =
      (.ok path, after)) :
    path = pathIn workingDirectory ∧
      (Installed files source workingDirectory after ↔
        after.locate source ≠ after.locate path) := by
  obtain ⟨rfl, s, made, hload, hextends, hcopy⟩ := copy_of_install h
  obtain ⟨content, hread, hcontent⟩ := read_of_loaded hload
  obtain ⟨kept, written, hkept, hwrite, hsame, hdifferent⟩ := FileTree.write_of_copy hcopy
  obtain rfl : content = kept := Option.some.inj ((hextends.read hread).symm.trans hkept)
  have hwritten := FileTree.read_of_write hwrite
  refine ⟨rfl, fun hinstalled heq => ?_, fun hne => ?_⟩
  · -- The file is empty then, but the settings in it were valid.
    obtain ⟨content', hread', hcopied⟩ := hinstalled.copied
    rw [hwritten, hsame heq] at hcopied
    cases hcopied
    rw [hread] at hread'
    cases hread'
    rw [ofContent_empty] at hcontent
    cases hcontent
  · rw [hdifferent hne] at hwritten
    constructor
    · exact ⟨content, hread, hwritten⟩
    · rw [hread]
      exact FileTree.read_of_write_of_ne hwrite hkept hne
    · refine ⟨s, hload, fun exe => ?_⟩
      rw [run_loadDefault_of_read hwritten, hcontent]
      rfl

/-- The settings file of a working directory, with settings that are the defaults. -/
def installedTree : FileTree :=
  ⟨[(["w"], .directory), (["w", ".config"], .directory),
    (["w", ".config", "default.json"], .file "\x7b\x7d".toUTF8), (["m"], .file "[]".toUTF8)], ["w"]⟩

/-- A file beside the working directory takes the place of the settings file in it. -/
theorem installed_iff_beside :
    let installed :=
      (install "../m" "." : StateM FileTree (Except Failure String)).run installedTree
    installed.1 = .ok "./.config/default.json" ∧
      Installed installedTree "../m" "." installed.2 := by
  intro installed
  have hok : installed.1 = .ok "./.config/default.json" := by decide +kernel
  obtain ⟨hpath, hiff⟩ := installed_iff (Prod.ext hok rfl : installed = (.ok _, installed.2))
  refine ⟨hok, hiff.mpr ?_⟩
  have hsource : installed.2.locate "../m" = .ok ["m"] := by decide +kernel
  have htarget : installed.2.locate "./.config/default.json" =
    .ok ["w", ".config", "default.json"] := by decide +kernel
  rw [hsource, htarget]
  simp

/-- The settings file of the working directory is emptied when it is installed, and later runs
cannot start with it. -/
theorem not_installed_onto_itself :
    let installed := (install ".config/default.json" "." :
      StateM FileTree (Except Failure String)).run installedTree
    installed.1 = .ok "./.config/default.json" ∧
      installedTree.read ".config/default.json" = some "\x7b\x7d".toUTF8 ∧
      installed.2.read "./.config/default.json" = some .empty ∧
      installed.2.read ".config/default.json" = some .empty ∧
      ((loadDefault "." "dreamc" : StateM FileTree (Except Failure Startup)).run installed.2).1 =
        .error (.settings .malformed) ∧
      ¬ Installed installedTree ".config/default.json" "." installed.2 := by
  intro installed
  have hread : installedTree.read ".config/default.json" = some "\x7b\x7d".toUTF8 := by
    decide +kernel
  have hempty : installed.2.read "./.config/default.json" = some .empty := by decide +kernel
  refine ⟨by decide +kernel, hread, hempty, by decide +kernel, by decide +kernel, ?_⟩
  intro h
  obtain ⟨content, hcontent, hcopied⟩ := h.copied
  obtain rfl : "\x7b\x7d".toUTF8 = content := Option.some.inj (hread.symm.trans hcontent)
  cases hempty.symm.trans hcopied

end FrontEnd.Settings
