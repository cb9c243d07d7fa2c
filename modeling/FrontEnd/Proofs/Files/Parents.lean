import FrontEnd.Proofs.Files.Changes

/-!
# Parent directories

Making the directory that a file stands in makes directories at the places that the parents of its
path lead to, and nothing else. A path may lead on through a new directory to what was there before.
-/

namespace FrontEnd

namespace Path

/-- What means nothing is dropped off the end of a text of parts. -/
theorem head?_dropIdle_ne (cs : List Char) : (dropIdle cs).head? ≠ some '/' := by
  fun_induction dropIdle cs with
  | case1 => simp
  | case2 rest ih => exact ih
  | case3 rest ih => exact ih
  | case4 cs _ _ hslash =>
      intro h
      obtain ⟨rest, rfl⟩ : ∃ rest, cs = '/' :: rest := by
        cases cs with
        | nil => cases h
        | cons c rest => exact ⟨rest, by rw [Option.some.inj h]⟩
      exact hslash rest rfl

theorem length_take_rootLength (path : List Char) : (path.take (rootLength path)).length ≤ 1 := by
  have hlength : rootLength path ≤ 1 := by
    unfold rootLength
    split <;> simp
  exact Nat.le_trans (List.length_take_le _ _) hlength

/-- A lineage is made of the path that it starts with and of parents of paths. -/
theorem mem_lineageChars {path p : List Char} (h : p ∈ lineageChars path) :
    p = path ∨ ∃ inner, parentChars? inner = some p := by
  fun_induction lineageChars path with
  | case1 path parent hparent _ ih =>
      rcases List.mem_cons.mp h with rfl | h
      · exact .inl rfl
      · rcases ih h with rfl | hinner
        · exact .inr ⟨path, hparent⟩
        · exact .inr hinner
  | case2 path hnone => exact .inl (List.mem_singleton.mp h)

/-- The paths behind a path in its lineage are those of the lineage of its parent. -/
theorem tail_lineageChars (path : List Char) :
    (lineageChars path).tail = (parentChars? path).elim [] lineageChars := by
  rw [lineageChars]
  split
  · rename_i parent hparent
    dsimp only
    rw [List.tail_cons, hparent]
    rfl
  · rename_i hnone
    rw [hnone]
    rfl

theorem tail_lineage {path parent : String} (h : parent? path = some parent) :
    (lineage path).tail = lineage parent := by
  obtain ⟨chars, hchars, rfl⟩ := Option.map_eq_some_iff.mp h
  rw [lineage, lineage, ← List.map_tail, tail_lineageChars, hchars, String.toList_ofList]
  rfl

/-- The paths behind a path in its lineage are parents of paths. -/
theorem exists_inner {path p : String} (h : p ∈ (lineage path).tail) :
    ∃ inner parent, parentChars? inner = some parent ∧ String.ofList parent = p := by
  rw [lineage, ← List.map_tail, tail_lineageChars] at h
  obtain ⟨chars, hchars, rfl⟩ := List.mem_map.mp h
  cases hparent : parentChars? path.toList with
  | none =>
      rw [hparent] at hchars
      cases hchars
  | some parent =>
      rw [hparent] at hchars
      rcases mem_lineageChars hchars with rfl | ⟨inner, hinner⟩
      · exact ⟨_, _, hparent, rfl⟩
      · exact ⟨_, _, hinner, rfl⟩

end Path

namespace FileTree

variable {t u : FileTree} {path p : String}

/-- A path that does not end with a slash behind its first character has no slashes dropped. -/
theorem dropTrailing_eq {c : Char} {rest : List Char} (h : rest.reverse.head? ≠ some '/') :
    dropTrailing (String.ofList (c :: rest)) = String.ofList (c :: rest) := by
  have hkept : rest.reverse.dropWhile (· == '/') = rest.reverse := by
    cases hrest : rest.reverse with
    | nil => rfl
    | cons d ds =>
        rw [hrest] at h
        have hd : ¬ (d == '/') = true := by simpa using h
        exact List.dropWhile_cons_of_neg hd
  rw [dropTrailing, String.toList_ofList]
  dsimp only
  rw [hkept, List.reverse_reverse]

/-- What is kept of a path does not end with a slash, unless it is the root. -/
theorem dropTrailing_append {root kept : List Char} (hroot : root.length ≤ 1)
    (hkept : kept.head? ≠ some '/') :
    dropTrailing (String.ofList (root ++ kept.reverse)) = String.ofList (root ++ kept.reverse) := by
  match root, hroot with
  | [c], _ =>
      rw [List.singleton_append]
      apply dropTrailing_eq
      rwa [List.reverse_reverse]
  | [], _ =>
      rw [List.nil_append]
      cases hparts : kept.reverse with
      | nil => rfl
      | cons c rest =>
          have hsplit : kept = rest.reverse ++ [c] := by
            rw [← List.reverse_cons, ← hparts, List.reverse_reverse]
          apply dropTrailing_eq
          cases hrest : rest.reverse with
          | nil => simp
          | cons d ds =>
              rw [hsplit, hrest] at hkept
              exact hkept

/-- The parents of a path do not end with slashes, unless they are the root. -/
theorem dropTrailing_of_mem (h : p ∈ (Path.lineage path).tail) : dropTrailing p = p := by
  obtain ⟨inner, chars, hparent, rfl⟩ := Path.exists_inner h
  unfold Path.parentChars? at hparent
  split at hparent
  · split at hparent
    · cases hparent
      rfl
    · cases hparent
  · cases hparent
    exact dropTrailing_append (Path.length_take_rootLength inner) (Path.head?_dropIdle_ne _)

/-- A tree has all of another one, and the same working directory. What is new are directories, at
places that the parents of a path lead to. -/
structure AddsParents (t : FileTree) (path : String) (u : FileTree) : Prop where
  workingDirectory : u.workingDirectory = t.workingDirectory
  entry : ∀ l, u.entry? l = t.entry? l ∨ t.entry? l = none ∧ u.entry? l = some .directory ∧
    ∃ p ∈ (Path.lineage path).tail, u.locate p = .ok l

theorem AddsParents.addsDirectories (h : t.AddsParents path u) : t.AddsDirectories u where
  workingDirectory := h.workingDirectory
  entry l := (h.entry l).imp_right fun ⟨hnone, hdirectory, _⟩ => ⟨hnone, hdirectory⟩

theorem AddsParents.refl (t : FileTree) (path : String) : t.AddsParents path t :=
  ⟨rfl, fun _ => .inl rfl⟩

/-- Making the directory that a file stands in makes directories for the parents of its path. -/
theorem addsParents_makeDirectories {parent : String} (h : Path.parent? path = some parent) :
    t.AddsParents path (t.makeDirectories parent).2 := by
  have hadds := addsDirectoriesAt_makeChain t (Path.lineage parent)
  refine ⟨hadds.workingDirectory, fun l => ?_⟩
  refine (hadds.entry l).imp_right fun ⟨hnone, hdirectory, p, hp, hl⟩ => ?_
  have hmem : p ∈ (Path.lineage path).tail := Path.tail_lineage h ▸ hp
  rw [dropTrailing_of_mem hmem] at hl
  exact ⟨hnone, hdirectory, p, hmem, hl⟩

/-! ### Files in new directories -/

/-- Whether a path that led nowhere leads to a file now that was there before. -/
def Uncovers (t u : FileTree) (path : String) : Prop :=
  (∃ o, t.locate path = .error o) ∧
    ∃ l content, u.locate path = .ok l ∧ t.entry? l = some (.file content)

/-- What happens at a place when a file is made in a directory that is made for it: nothing, or a
directory is made that a parent of the path leads to, or the file is written that the path leads to.
It is new unless the path has led nowhere. -/
inductive CreatesAt (t : FileTree) (path : String) (content : ByteArray) (u : FileTree)
    (l : Location) : Prop
  | nothing (h : u.entry? l = t.entry? l)
  | parent {p : String} (hp : p ∈ (Path.lineage path).tail) (hl : u.locate p = .ok l)
      (hnew : t.entry? l = none) (h : u.entry? l = some .directory)
  | file (hl : u.locate path = .ok l) (hnew : t.entry? l = none ∨ t.Uncovers u path)
      (h : u.entry? l = some (.file content))

/-- A tree comes from another one by making a file, or directories for it. -/
structure Creates (t : FileTree) (path : String) (content : ByteArray) (u : FileTree) : Prop where
  workingDirectory : u.workingDirectory = t.workingDirectory
  entry : ∀ l, t.CreatesAt path content u l

/-- All directories are kept. -/
theorem Creates.keepsDirectories {content : ByteArray} (h : t.Creates path content u) :
    t.KeepsDirectories u where
  workingDirectory := h.workingDirectory
  directory l hl := by
    cases h.entry l with
    | nothing hsame => rw [hsame, hl]
    | parent _ _ hnew => rw [hnew] at hl; cases hl
    | file hplace hnew _ =>
        rcases hnew with hnew | ⟨-, l', old, hl', hold⟩
        · rw [hnew] at hl
          cases hl
        · obtain rfl : l' = l := Except.ok.inj (hl'.symm.trans hplace)
          rw [hold] at hl
          cases hl

/-- A file at another place than the one that is made was there before. -/
theorem Creates.entry?_of_ne {l : Location} {content other : ByteArray}
    (h : t.Creates path content u) (hl : u.entry? l = some (.file other))
    (hne : u.locate path ≠ .ok l) : t.entry? l = some (.file other) := by
  cases h.entry l with
  | nothing hsame => rw [← hsame, hl]
  | parent _ _ _ hdirectory => rw [hdirectory] at hl; cases hl
  | file hplace => exact absurd hplace hne

theorem Creates.refl (t : FileTree) (path : String) (content : ByteArray) :
    t.Creates path content t :=
  ⟨rfl, fun _ => .nothing rfl⟩

/-- What is new are directories for the parents of the path. -/
theorem AddsParents.creates (h : t.AddsParents path u) (content : ByteArray) :
    t.Creates path content u where
  workingDirectory := h.workingDirectory
  entry l := by
    rcases h.entry l with hsame | ⟨hnew, hdirectory, p, hp, hl⟩
    · exact .nothing hsame
    · exact .parent hp hl hnew hdirectory

/-- A file that is written where nothing was found is new, unless its path has led nowhere. -/
theorem AddsParents.creates_of_write {made : FileTree} {content : ByteArray}
    (h : t.AddsParents path made) (hnone : t.find? path = none)
    (hwrite : made.write path content = (true, u)) : t.Creates path content u := by
  have hkeeps := keepsDirectories_of_write hwrite
  refine ⟨hkeeps.workingDirectory.trans h.workingDirectory, fun l => ?_⟩
  by_cases hl : u.locate path = .ok l
  · obtain ⟨l', hmade, hentry, -⟩ := write_eq_true_iff.mp hwrite
    obtain rfl : l' = l := Except.ok.inj ((hkeeps.locate hmade).symm.trans hl)
    obtain ⟨l'', hl'', hfile⟩ := read_eq_some_iff.mp (read_of_write hwrite)
    obtain rfl : l'' = l' := Except.ok.inj (hl''.symm.trans hl)
    refine .file hl ?_ hfile
    cases hbefore : t.locate path with
    | ok before =>
        -- The path leads to the same place as before, and nothing was there.
        have hplace := h.addsDirectories.extends.keepsDirectories.locate hbefore
        obtain rfl : before = l'' := Except.ok.inj (hplace.symm.trans hmade)
        rw [find?, hbefore] at hnone
        exact .inl hnone
    | error o =>
        cases hold : t.entry? l'' with
        | none => exact .inl rfl
        | some e =>
            cases e with
            | directory =>
                exact absurd (h.addsDirectories.extends.entry l'' _ hold) hentry
            | file old => exact .inr ⟨⟨o, hbefore⟩, l'', old, hl, hold⟩
  · have hsame := entry?_of_write hwrite hl
    rcases h.entry l with hkept | ⟨hnew, hdirectory, p, hp, hplace⟩
    · exact .nothing (hsame.trans hkept)
    · exact .parent hp (hkeeps.locate hplace) hnew (hsame.trans hdirectory)

end FileTree

end FrontEnd
