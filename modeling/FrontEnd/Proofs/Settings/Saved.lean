import FrontEnd.Proofs.Files.Parents
import FrontEnd.Proofs.Settings.Json
import FrontEnd.Proofs.Settings.Loading

/-!
# Saved settings

Saving settings makes the directory of the file and writes the file, so that loading them afterwards
reads the very text that was written. It gives the settings as they were saved, or the first rule
that they break.
-/

namespace FrontEnd.Settings

variable {files after : FileTree} {path : String} {s : Settings}

/-- Making the directory of a file makes directories for the parents of its path, whether it works
or not. -/
theorem addsParents_of_makeParent {made : Bool}
    (h : (makeParent path : StateM FileTree Bool).run files = (made, after)) :
    files.AddsParents path after := by
  unfold makeParent at h
  cases hparent : Path.parent? path with
  | none =>
      rw [hparent] at h
      cases h
      exact .refl files path
  | some parent =>
      rw [hparent] at h
      dsimp only at h
      rw [FileTree.run_makeDirectories] at h
      have hadds := FileTree.addsParents_makeDirectories (t := files) hparent
      rwa [h] at hadds

/-- Making the directory of a file adds directories to the files, whether it works or not. -/
theorem addsDirectories_of_makeParent {made : Bool}
    (h : (makeParent path : StateM FileTree Bool).run files = (made, after)) :
    files.AddsDirectories after :=
  (addsParents_of_makeParent h).addsDirectories

/-- How saving can go: the directory of the file cannot be made, or it is made and the file cannot
be written, or the file is written. -/
inductive SavesAs (files : FileTree) (s : Settings) (path : String) :
    Except Failure Unit → FileTree → Prop where
  | notMade {made : FileTree} (hadds : files.AddsParents path made) :
      SavesAs files s path (.error (.files "cannot make the configuration directory")) made
  | notWritten {made : FileTree} (hadds : files.AddsParents path made) :
      SavesAs files s path (.error (.files "cannot write the configuration")) made
  | written {made after : FileTree} (hadds : files.AddsParents path made)
      (hwrite : made.write path s.toText.toUTF8 = (true, after)) :
      SavesAs files s path (.ok ()) after

theorem savesAs (files : FileTree) (s : Settings) (path : String) :
    let done := (save s path : StateM FileTree (Except Failure Unit)).run files
    SavesAs files s path done.1 done.2 := by
  cases hparent : (makeParent path : StateM FileTree Bool).run files with
  | mk made files₁ =>
      have hadds := addsParents_of_makeParent hparent
      rw [save, FileTree.run_bind hparent]
      cases made with
      | false => exact .notMade hadds
      | true =>
          cases hwrite : files₁.write path s.toText.toUTF8 with
          | mk written files₂ =>
              rw [if_pos rfl,
                FileTree.run_bind ((FileTree.run_write files₁ path _).trans hwrite)]
              cases written with
              | false =>
                  obtain rfl := FileTree.eq_of_write_eq_false hwrite
                  exact .notWritten hadds
              | true => exact .written hadds hwrite

/-- The file of saved settings has the text that they are written as. -/
theorem read_of_save
    (h : (save s path : StateM FileTree (Except Failure Unit)).run files = (.ok (), after)) :
    after.read path = some s.toText.toUTF8 := by
  have hcases := savesAs files s path
  rw [h] at hcases
  cases hcases with
  | written _ hwrite => exact FileTree.read_of_write hwrite

/-- Saving settings where nothing was found makes a file, or directories for it. -/
theorem creates_of_save (hnew : files.pathExists path = false) {result : Except Failure Unit}
    (h : (save s path : StateM FileTree (Except Failure Unit)).run files = (result, after)) :
    files.Creates path s.toText.toUTF8 after := by
  have hnone : files.find? path = none := by simpa [FileTree.pathExists] using hnew
  have hcases := savesAs files s path
  rw [h] at hcases
  cases hcases with
  | notMade hadds => exact hadds.creates _
  | notWritten hadds => exact hadds.creates _
  | written hadds hwrite => exact hadds.creates_of_write hnone hwrite

/-- Settings that were saved are loaded as they are, if they keep every rule. -/
theorem loaded_of_save
    (h : (save s path : StateM FileTree (Except Failure Unit)).run files = (.ok (), after)) :
    loaded after path = s.checked := by
  rw [loaded_of_read (read_of_save h), ofContent_toUTF8, ofText?_toText]

/-- Whether there is something to see in a text: a character that is not white space. -/
def IsVisible (text : String) : Prop := ∃ c ∈ text.toList, isWhiteSpace c = false

theorem isBlankText_eq_false_iff (text : String) : isBlankText text = false ↔ IsVisible text := by
  rw [← Bool.not_eq_true, isBlankText_iff]
  simp [IsVisible]

theorem isBlankText_eq_true_iff (text : String) : isBlankText text = true ↔ ¬ IsVisible text := by
  rw [← isBlankText_eq_false_iff, Bool.not_eq_false]

/-- What checking settings has to give: the settings if they keep every rule, and otherwise the
first rule that they break, on the level, on the default locale or on the fallback locale. -/
structure Verdict (s : Settings) (result : Except Failure Settings) : Prop where
  valid : s.compiler.optimizationLevel ≤ 3 → IsVisible s.language.defaultLocale →
    IsVisible s.language.fallbackLocale → result = .ok s
  level : 3 < s.compiler.optimizationLevel →
    result = .error (.invalid (.levelTooHigh s.compiler.optimizationLevel))
  defaultLocale : s.compiler.optimizationLevel ≤ 3 → ¬ IsVisible s.language.defaultLocale →
    result = .error (.invalid .blankDefaultLocale)
  fallbackLocale : s.compiler.optimizationLevel ≤ 3 → IsVisible s.language.defaultLocale →
    ¬ IsVisible s.language.fallbackLocale → result = .error (.invalid .blankFallbackLocale)

theorem verdict_checked (s : Settings) : s.Verdict s.checked := by
  have hlow (h : s.compiler.optimizationLevel ≤ 3) : ¬ maxLevel < s.compiler.optimizationLevel :=
    UInt8.not_lt.mpr h
  constructor
  · intro hlevel hdefault hfallback
    rw [checked, violation?, if_neg (hlow hlevel), (isBlankText_eq_false_iff _).mpr hdefault,
      (isBlankText_eq_false_iff _).mpr hfallback]
    rfl
  · intro hlevel
    have hhigh : maxLevel < s.compiler.optimizationLevel := hlevel
    rw [checked, violation?, if_pos hhigh]
  · intro hlevel hdefault
    rw [checked, violation?, if_neg (hlow hlevel), (isBlankText_eq_true_iff _).mpr hdefault]
    rfl
  · intro hlevel hdefault hfallback
    rw [checked, violation?, if_neg (hlow hlevel), (isBlankText_eq_false_iff _).mpr hdefault,
      (isBlankText_eq_true_iff _).mpr hfallback]
    rfl

/-- Settings that were saved load back: loading gives the same settings if they keep every rule, and
otherwise the first rule that they break. Whatever the texts in them are, the file can be read. -/
theorem load_of_save
    (h : (save s path : StateM FileTree (Except Failure Unit)).run files = (.ok (), after)) :
    ∃ result, (load path : StateM FileTree (Except Failure Settings)).run after = (result, after) ∧
      s.Verdict result := by
  refine ⟨s.checked, ?_, verdict_checked s⟩
  rw [run_load, loaded_of_save h]

/-- Settings with a quote, a backslash and a control character in the default locale, and nothing to
see in the fallback locale. They are saved, but not accepted when they are loaded. -/
theorem load_of_save_blankFallback :
    let s : Settings := { language := { defaultLocale := "\"\\\x00é", fallbackLocale := "\u3000" } }
    let files : FileTree := ⟨[], []⟩
    let saved := (save s "a/b.json" : StateM FileTree (Except Failure Unit)).run files
    saved.1 = .ok () ∧
      (load "a/b.json" : StateM FileTree (Except Failure Settings)).run saved.2 =
        (.error (.invalid .blankFallbackLocale), saved.2) := by
  intro s files saved
  have hsaved : saved.1 = .ok () := by decide +kernel
  obtain ⟨result, hload, hverdict⟩ := load_of_save (Prod.ext hsaved rfl : saved = (.ok (), saved.2))
  have hresult : result = .error (.invalid .blankFallbackLocale) := by
    apply hverdict.fallbackLocale
    · decide
    · exact ⟨'é', by decide, by decide⟩
    · rw [← isBlankText_eq_true_iff]
      decide
  exact ⟨hsaved, hresult ▸ hload⟩

end FrontEnd.Settings
