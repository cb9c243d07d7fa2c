import FrontEnd.Files.Tree
import FrontEnd.Table

/-!
# Changes of a file tree

Making directories only adds to a tree, and writing a file changes what stands at one place of it.
As long as the directories stay, a path goes on leading to the same place, so that a file that was
written is read back, and any other file is read as before.
-/

namespace FrontEnd.FileTree

variable {t u v : FileTree} {l l' : Location} {e : Entry} {path other : String}
  {content : ByteArray}

theorem entry?_root (t : FileTree) : t.entry? [] = some .directory := if_pos rfl

/-- What is put somewhere other than at the root is there, and nothing else changes. -/
theorem entry?_put (hl : l ≠ []) (t : FileTree) (e : Entry) (l' : Location) :
    FileTree.entry? (t.put l e) l' = if l' = l then some e else t.entry? l' := by
  by_cases hroot : l' = []
  · rw [hroot, entry?_root, entry?_root, if_neg hl.symm]
  · unfold entry?
    rw [if_neg hroot, if_neg hroot, put, Table.lookup_put]

/-! ### Trees with the same directories -/

/-- A tree has the directories of another one, and the same working directory. -/
structure KeepsDirectories (t u : FileTree) : Prop where
  workingDirectory : u.workingDirectory = t.workingDirectory
  directory : ∀ l, t.entry? l = some .directory → u.entry? l = some .directory

/-- A tree has all of another one, and the same working directory. -/
structure Extends (t u : FileTree) : Prop where
  workingDirectory : u.workingDirectory = t.workingDirectory
  entry : ∀ l e, t.entry? l = some e → u.entry? l = some e

theorem Extends.keepsDirectories (h : t.Extends u) : t.KeepsDirectories u :=
  ⟨h.workingDirectory, fun l => h.entry l .directory⟩

/-- A tree has all of another one, and the same working directory. What is new are directories. -/
structure AddsDirectories (t u : FileTree) : Prop where
  workingDirectory : u.workingDirectory = t.workingDirectory
  entry : ∀ l, u.entry? l = t.entry? l ∨ t.entry? l = none ∧ u.entry? l = some .directory

theorem AddsDirectories.extends (h : t.AddsDirectories u) : t.Extends u where
  workingDirectory := h.workingDirectory
  entry l e he := by
    rcases h.entry l with hsame | ⟨hnone, -⟩
    · rw [hsame, he]
    · rw [hnone] at he
      cases he

theorem AddsDirectories.refl (t : FileTree) : t.AddsDirectories t := ⟨rfl, fun _ => Or.inl rfl⟩

/-- Putting something where no directory is keeps all directories. -/
theorem keepsDirectories_put (h : t.entry? l ≠ some .directory) (e : Entry) :
    t.KeepsDirectories (t.put l e) := by
  have hl : l ≠ [] := fun hroot => h (hroot ▸ entry?_root t)
  refine ⟨rfl, fun l' h' => ?_⟩
  have hne : l' ≠ l := fun heq => h (heq ▸ h')
  rw [entry?_put hl, if_neg hne, h']

/-- A step along a path leads from a directory, and to the same place in every tree that has it. -/
theorem KeepsDirectories.walkPart (h : t.KeepsDirectories u) {part : String}
    (hl : t.walkPart l part = .ok l') : u.walkPart l part = .ok l' := by
  unfold FileTree.walkPart at hl ⊢
  cases hentry : t.entry? l with
  | none => rw [hentry] at hl; cases hl
  | some e =>
      cases e with
      | file content => rw [hentry] at hl; cases hl
      | directory =>
          rw [hentry] at hl
          rw [h.directory l hentry]
          exact hl

theorem KeepsDirectories.walk (h : t.KeepsDirectories u) {parts : List String}
    (hl : parts.foldlM t.walkPart l = .ok l') : parts.foldlM u.walkPart l = .ok l' := by
  induction parts generalizing l with
  | nil => exact hl
  | cons part parts ih =>
      rw [List.foldlM_cons] at hl ⊢
      cases hstep : t.walkPart l part with
      | error o => rw [hstep] at hl; cases hl
      | ok next =>
          rw [hstep] at hl
          rw [h.walkPart hstep]
          exact ih hl

/-- A path goes on leading to the same place. -/
theorem KeepsDirectories.locate (h : t.KeepsDirectories u) (hl : t.locate path = .ok l) :
    u.locate path = .ok l := by
  unfold FileTree.locate at hl ⊢
  split at hl
  · cases hl
  · rename_i hempty
    split at hl
    · cases hl
    · rename_i hlong
      rw [if_neg hempty, if_neg hlong, h.workingDirectory]
      exact h.walk hl

/-! ### Reading -/

/-- The content of a file is that of the file at the place that the path leads to. -/
theorem read_eq_some_iff :
    t.read path = some content ↔
      ∃ l, t.locate path = .ok l ∧ t.entry? l = some (.file content) := by
  unfold read find?
  cases t.locate path with
  | error o => simp
  | ok l =>
      cases h : t.entry? l with
      | none => simp [h]
      | some e => cases e <;> simp [h]

theorem isFile_of_read (h : t.read path = some content) : t.isFile path = true := by
  obtain ⟨l, hl, he⟩ := read_eq_some_iff.mp h
  simp only [isFile, find?, hl, he]

theorem read_ne_of_not_isFile (h : t.isFile path = false) (content : ByteArray) :
    t.read path ≠ some content := by
  intro hread
  rw [isFile_of_read hread] at h
  cases h

/-- Every file has a content. -/
theorem exists_read_of_isFile (h : t.isFile path = true) :
    ∃ content, t.read path = some content := by
  unfold isFile at h
  unfold read
  split at h
  · rename_i content hfind
    exact ⟨content, rfl⟩
  · cases h

theorem pathExists_of_read (h : t.read path = some content) : t.pathExists path = true := by
  obtain ⟨l, hl, he⟩ := read_eq_some_iff.mp h
  simp only [pathExists, find?, hl, he, Option.isSome_some]

theorem Extends.read (h : t.Extends u) (hread : t.read path = some content) :
    u.read path = some content := by
  obtain ⟨l, hl, he⟩ := read_eq_some_iff.mp hread
  exact read_eq_some_iff.mpr ⟨l, h.keepsDirectories.locate hl, h.entry l _ he⟩

/-! ### Making directories -/

/-- A tree has all of another one, and the same working directory. What is new are directories, at
places that given paths lead to. -/
structure AddsDirectoriesAt (t : FileTree) (paths : List String) (u : FileTree) : Prop where
  workingDirectory : u.workingDirectory = t.workingDirectory
  entry : ∀ l, u.entry? l = t.entry? l ∨ t.entry? l = none ∧ u.entry? l = some .directory ∧
    ∃ p ∈ paths, u.locate (dropTrailing p) = .ok l

variable {paths : List String}

theorem AddsDirectoriesAt.addsDirectories (h : t.AddsDirectoriesAt paths u) :
    t.AddsDirectories u where
  workingDirectory := h.workingDirectory
  entry l := (h.entry l).imp_right fun ⟨hnone, hdirectory, _⟩ => ⟨hnone, hdirectory⟩

theorem AddsDirectoriesAt.refl (t : FileTree) (paths : List String) :
    t.AddsDirectoriesAt paths t :=
  ⟨rfl, fun _ => .inl rfl⟩

theorem AddsDirectoriesAt.mono {more : List String} (h : t.AddsDirectoriesAt paths u)
    (hmore : ∀ p ∈ paths, p ∈ more) : t.AddsDirectoriesAt more u where
  workingDirectory := h.workingDirectory
  entry l := (h.entry l).imp_right fun ⟨hnone, hdirectory, p, hp, hl⟩ =>
    ⟨hnone, hdirectory, p, hmore p hp, hl⟩

theorem AddsDirectoriesAt.trans (htu : t.AddsDirectoriesAt paths u)
    (huv : u.AddsDirectoriesAt paths v) : t.AddsDirectoriesAt paths v where
  workingDirectory := huv.workingDirectory.trans htu.workingDirectory
  entry l := by
    rcases htu.entry l with hu | ⟨ht, hu, p, hp, hl⟩
    · rw [← hu]
      exact huv.entry l
    · have hkeeps := huv.addsDirectories.extends.keepsDirectories
      exact .inr ⟨ht, hkeeps.directory l hu, p, hp, hkeeps.locate hl⟩

/-- A directory is made at the place that its path leads to. -/
theorem addsDirectoriesAt_of_makeDirectory (h : t.makeDirectory path = .ok u) :
    t.AddsDirectoriesAt [path] u := by
  unfold makeDirectory at h
  split at h
  · cases h
  · rename_i l hl
    split at h
    · cases h
    · rename_i hnone
      cases h
      have hroot : l ≠ [] := fun heq => by rw [heq, entry?_root] at hnone; cases hnone
      have hkeeps : t.KeepsDirectories (t.put l .directory) :=
        keepsDirectories_put (by rw [hnone]; simp) _
      refine ⟨rfl, fun l' => ?_⟩
      rw [entry?_put hroot]
      by_cases heq : l' = l
      · subst heq
        exact .inr ⟨hnone, if_pos rfl, path, List.mem_singleton_self path, hkeeps.locate hl⟩
      · exact .inl (if_neg heq)

/-- Directories are made at places that the paths of the list lead to. -/
theorem addsDirectoriesAt_makeChain (t : FileTree) (paths : List String) :
    t.AddsDirectoriesAt paths (t.makeChain paths).2 := by
  induction paths with
  | nil => exact .refl t []
  | cons path outer ih =>
      have hpath : ∀ p ∈ [path], p ∈ path :: outer := by simp
      have houter : ∀ p ∈ outer, p ∈ path :: outer := fun _ => List.mem_cons_of_mem path
      rw [makeChain]
      split
      · exact .refl t _
      · split
        · rename_i u hmade
          exact (addsDirectoriesAt_of_makeDirectory hmade).mono hpath
        · exact .refl t _
        · -- The outer directories come first, and are kept even if the inner one is not made.
          cases hchain : t.makeChain outer with
          | mk made u =>
              rw [hchain] at ih
              have hadds := ih.mono houter
              cases made with
              | false => exact hadds
              | true =>
                  dsimp only
                  cases hinner : u.makeDirectory path with
                  | error o => exact hadds
                  | ok v =>
                      exact hadds.trans ((addsDirectoriesAt_of_makeDirectory hinner).mono hpath)

/-- A file is written at the place that its path leads to, unless a directory is there. -/
theorem write_eq_true_iff :
    t.write path content = (true, u) ↔
      ∃ l, t.locate path = .ok l ∧ t.entry? l ≠ some .directory ∧ t.put l (.file content) = u := by
  unfold write
  cases t.locate path with
  | error o => simp
  | ok l =>
      cases h : t.entry? l with
      | none => simp [h]
      | some e => cases e <;> simp [h]

/-- A file that cannot be written leaves the tree as it is. -/
theorem eq_of_write_eq_false (h : t.write path content = (false, u)) : u = t := by
  unfold write at h
  cases hl : t.locate path with
  | error o =>
      rw [hl] at h
      cases h
      rfl
  | ok l =>
      rw [hl] at h
      dsimp only at h
      split at h
      · cases h
        rfl
      · cases h

theorem keepsDirectories_of_write (h : t.write path content = (true, u)) :
    t.KeepsDirectories u := by
  obtain ⟨l, -, hentry, rfl⟩ := write_eq_true_iff.mp h
  exact keepsDirectories_put hentry _

/-- What is written is read back. -/
theorem read_of_write (h : t.write path content = (true, u)) : u.read path = some content := by
  have hkeeps := keepsDirectories_of_write h
  obtain ⟨l, hl, hentry, rfl⟩ := write_eq_true_iff.mp h
  have hroot : l ≠ [] := fun heq => hentry (heq ▸ entry?_root t)
  apply read_eq_some_iff.mpr
  exact ⟨l, hkeeps.locate hl, by rw [entry?_put hroot, if_pos rfl]⟩

/-- What is at the other places is not changed by writing. -/
theorem entry?_of_write (h : t.write path content = (true, u)) (hne : u.locate path ≠ .ok l) :
    u.entry? l = t.entry? l := by
  have hkeeps := keepsDirectories_of_write h
  obtain ⟨l', hl', hentry, rfl⟩ := write_eq_true_iff.mp h
  have hroot : l' ≠ [] := fun heq => hentry (heq ▸ entry?_root t)
  have hplaces : l ≠ l' := fun heq => hne (heq ▸ hkeeps.locate hl')
  rw [entry?_put hroot, if_neg hplaces]

/-- A file at another place is not changed by writing. -/
theorem read_of_write_of_ne {kept : ByteArray} (h : t.write path content = (true, u))
    (hread : t.read other = some kept) (hne : u.locate other ≠ u.locate path) :
    u.read other = some kept := by
  obtain ⟨l, hl, he⟩ := read_eq_some_iff.mp hread
  have hplace := (keepsDirectories_of_write h).locate hl
  rw [hplace] at hne
  exact read_eq_some_iff.mpr ⟨l, hplace, (entry?_of_write h hne.symm).trans he⟩

/-- A copy writes the content of the source, unless both paths lead to one place: then it leaves
an empty file there. -/
theorem write_of_copy (h : t.copy path other = (true, u)) :
    ∃ content written, t.read path = some content ∧ t.write other written = (true, u) ∧
      (u.locate path = u.locate other → written = .empty) ∧
      (u.locate path ≠ u.locate other → written = content) := by
  unfold copy at h
  cases hread : t.read path with
  | none => rw [hread] at h; cases h
  | some content =>
      obtain ⟨l, hl, -⟩ := read_eq_some_iff.mp hread
      rw [hread] at h
      dsimp only at h
      rw [hl] at h
      cases hl' : t.locate other with
      | error o => rw [hl'] at h; cases h
      | ok l' =>
          rw [hl'] at h
          dsimp only at h
          have hkeeps := keepsDirectories_of_write h
          refine ⟨content, _, rfl, h, ?_⟩
          rw [hkeeps.locate hl, hkeeps.locate hl']
          constructor
          · intro heq
            rw [if_pos (Except.ok.inj heq)]
          · intro hne
            rw [if_neg fun heq => hne (by rw [heq])]

end FrontEnd.FileTree
