import FrontEnd.Proofs.Compilation.Reading
import FrontEnd.Proofs.Export.Json
import FrontEnd.Proofs.Export.Toml

/-!
# Documents on standard output

A compilation that exports to standard output ends the last line of the document there, and the
records of all tokens are read back from what is written. But the document stands alone only if no
listing is asked for as well, because a listing is written in front of it.
-/

namespace FrontEnd

/-- Whether a text ends with one newline, behind a character of another sort. -/
def EndsOnce (cs : List Char) : Prop := ∃ body c, c ≠ '\n' ∧ cs = body ++ [c, '\n']

theorem EndsOnce.append {cs : List Char} (h : EndsOnce cs) (front : List Char) :
    EndsOnce (front ++ cs) := by
  obtain ⟨body, c, hc, rfl⟩ := h
  exact ⟨front ++ body, c, hc, (List.append_assoc _ _ _).symm⟩

/-- Parts that are written between brackets end with the closing one. -/
theorem Json.exists_spread_eq (indent depth : Nat) (opening closing : Char)
    (parts : List (List Char)) :
    ∃ body, spread indent depth opening closing parts = body ++ [closing] := by
  unfold spread
  split
  · exact ⟨[opening], rfl⟩
  · exact ⟨_, rfl⟩

/-- A string ends with a quotation mark. -/
theorem Toml.exists_quoted_eq (cs : List Char) :
    ∃ body mark, mark ≠ '\n' ∧ quoted cs = body ++ [mark] := by
  unfold quoted quotedAs
  split
  · exact ⟨_, '"', by decide, rfl⟩
  · exact ⟨_, '\'', by decide, rfl⟩
  · exact ⟨_ ++ ['"', '"'], '"', by decide, (List.append_assoc _ ['"', '"'] ['"']).symm⟩
  · exact ⟨_ ++ ['\'', '\''], '\'', by decide, (List.append_assoc _ ['\'', '\''] ['\'']).symm⟩

namespace Record

/-- The document of records in JSON ends with a bracket. -/
theorem exists_jsonDocument_eq (records : List Record) :
    ∃ body, (jsonDocument records).toList = body ++ [']'] := by
  rw [jsonDocument, String.toList_ofList]
  exact Json.exists_spread_eq 4 0 '[' ']' _

/-- The table of a record ends with one newline, behind the text of its token. -/
theorem endsOnce_writeToml (r : Record) : EndsOnce r.writeToml := by
  obtain ⟨body, mark, hmark, hquoted⟩ := Toml.exists_quoted_eq r.text.toList
  have htext : EndsOnce (Toml.quoted r.text.toList ++ ['\n']) := by
    rw [hquoted, List.append_assoc]
    exact ⟨body, mark, hmark, rfl⟩
  obtain ⟨front, hfront⟩ :
      ∃ front, r.writeToml = front ++ (Toml.quoted r.text.toList ++ ['\n']) :=
    ⟨_, List.append_assoc _ _ _⟩
  rw [hfront]
  exact htext.append front

/-- The document of records in TOML ends with one newline. -/
theorem endsOnce_tomlDocument (records : List Record) :
    EndsOnce (tomlDocument records).toList := by
  cases records with
  | nil => exact ⟨"tokens = [".toList, ']', by decide, by decide⟩
  | cons r records =>
      rw [tomlDocument, List.isEmpty_cons, if_neg Bool.false_ne_true, String.toList_ofList]
      induction records generalizing r with
      | nil =>
          rw [List.map_singleton, List.intercalate_singleton]
          exact r.endsOnce_writeToml
      | cons s records ih =>
          rw [List.map_cons, List.map_cons, List.intercalate_cons_cons, ← List.map_cons]
          exact (ih s).append _

end Record

namespace Format

/-- A text is nothing but the document of some tokens with its last line ended once, and the records
of the tokens are read back from it. -/
structure OnlyDocument (format : Format) (tokens : List Token) (text : String) : Prop where
  document : text = format.document tokens ∨ text = format.document tokens ++ "\n"
  endsOnce : EndsOnce text.toList
  read : format.read? text = some (tokens.map .ofToken)

/-- A document with its last line ended is nothing but the document. -/
theorem onlyDocument_endLine (format : Format) (tokens : List Token) :
    format.OnlyDocument tokens (Compilation.endLine (format.document tokens)) := by
  cases format with
  | json =>
      obtain ⟨body, hbody⟩ := Record.exists_jsonDocument_eq (tokens.map .ofToken)
      have hend : Compilation.endLine (json.document tokens) = json.document tokens ++ "\n" := by
        have hlast : (json.document tokens).toList.getLast? = some ']' := by
          rw [document, write, hbody, List.getLast?_concat]
        rw [Compilation.endLine, hlast, if_neg (by decide)]
      rw [hend]
      refine ⟨Or.inr rfl, ?_, ?_⟩
      · refine ⟨body, ']', by decide, ?_⟩
        rw [String.toList_append, document, write, hbody, List.append_assoc]
        rfl
      · exact Record.ofJsonDocument?_append_space (tokens.map .ofToken)
          (List.forall_mem_singleton.mpr rfl)
  | toml =>
      have hends := Record.endsOnce_tomlDocument (tokens.map .ofToken)
      have hend : Compilation.endLine (toml.document tokens) = toml.document tokens := by
        obtain ⟨body, c, -, hbody⟩ := hends
        rw [Compilation.endLine, document, write, hbody, if_pos (by simp)]
      rw [hend]
      exact ⟨Or.inl rfl, hends, Record.ofTomlDocument?_tomlDocument (tokens.map .ofToken)⟩

end Format

namespace Compilation

variable {files : FileTree} {path source : String} {tokens : List Token}

/-- A compilation that exports to standard output writes a listing there if it is asked for one, and
behind it the document. -/
theorem run_emitting (hread : (files.read path).bind String.fromUTF8? = some source)
    (htokens : tokenize source = .ok tokens) (c : Compilation) (format : Format) (listed : Bool) :
    (c.run path ⟨listed, some format, none⟩ : StateM FileTree Outcome).run files =
      (⟨(if listed then c.listing tokens else "") ++ endLine (format.document tokens), .ok ()⟩,
        files) := by
  rw [run_of_tokens c _ hread htokens, run_report_document]

/-- A listing is longer than a line end. -/
theorem one_lt_length_listing (c : Compilation) (tokens : List Token) :
    1 < (c.listing tokens).length := by
  have hrule : rule.length = 43 := by decide
  simp only [listing, String.length_append, hrule]
  omega

/-- A listing in front of a document leaves a text that is not the document alone. -/
theorem not_onlyDocument_listing (c : Compilation) (format : Format) (tokens : List Token) :
    ¬ format.OnlyDocument tokens (c.listing tokens ++ endLine (format.document tokens)) := by
  intro h
  have hlong := c.one_lt_length_listing tokens
  have hline : (format.document tokens).length ≤ (endLine (format.document tokens)).length := by
    rw [endLine]
    split
    · exact le_rfl
    · rw [String.length_append]
      exact Nat.le_add_right _ _
  have hnewline : "\n".length = 1 := rfl
  rcases h.document with hd | hd
  all_goals
    have hlength := congrArg String.length hd
    simp only [String.length_append, hnewline] at hlength
    omega

/-- Standard output under an export. When a source file that has tokens is exported to standard
output, in either format, the compilation succeeds, leaves all files as they are, and writes nothing
but the document, from which the records of all tokens are read back, exactly if no listing is asked
for as well. -/
theorem onlyDocument_iff (hread : (files.read path).bind String.fromUTF8? = some source)
    (htokens : tokenize source = .ok tokens) (c : Compilation) (format : Format) (listed : Bool) :
    let done := (c.run path ⟨listed, some format, none⟩ : StateM FileTree Outcome).run files
    done.1.result = .ok () ∧ done.2 = files ∧
      (format.OnlyDocument tokens done.1.output ↔ listed = false) := by
  intro done
  have hdone : done = _ := run_emitting hread htokens c format listed
  rw [hdone]
  refine ⟨rfl, rfl, fun h => ?_, fun h => ?_⟩
  · cases listed with
    | false => rfl
    | true => exact absurd h (c.not_onlyDocument_listing format tokens)
  · rw [h, if_neg Bool.false_ne_true, String.empty_append]
    exact format.onlyDocument_endLine tokens

/-- A file tree with a source file of two lines. -/
def sourceTree : FileTree := ⟨[(["w"], .directory), (["w", "a.zv"], .file "x\n".toUTF8)], ["w"]⟩

/-- Without a listing, the records of a source file with two lines are read back from what its
export wrote. -/
theorem onlyDocument_iff_unlisted :
    let tokens : List Token :=
      [⟨.ident, "x", 1, 1⟩, ⟨.linebreak, "\n", 1, 2⟩, ⟨.endOfText, "", 2, 1⟩]
    let done := ((⟨{}, ⟨none⟩⟩ : Compilation).run "a.zv" ⟨false, some .toml, none⟩ :
      StateM FileTree Outcome).run sourceTree
    (sourceTree.read "a.zv").bind String.fromUTF8? = some "x\n" ∧
      tokenize "x\n" = .ok tokens ∧ Format.toml.OnlyDocument tokens done.1.output := by
  intro tokens done
  have hread : (sourceTree.read "a.zv").bind String.fromUTF8? = some "x\n" := by decide +kernel
  have htokens : tokenize "x\n" = .ok tokens := by decide +kernel
  obtain ⟨-, -, hiff⟩ := onlyDocument_iff hread htokens ⟨{}, ⟨none⟩⟩ .toml false
  exact ⟨hread, htokens, hiff.mpr rfl⟩

/-- With a listing, the export of the same source file succeeds, but nothing is read back from what
it wrote. -/
theorem not_onlyDocument_listed :
    let tokens : List Token :=
      [⟨.ident, "x", 1, 1⟩, ⟨.linebreak, "\n", 1, 2⟩, ⟨.endOfText, "", 2, 1⟩]
    let done := ((⟨{}, ⟨none⟩⟩ : Compilation).run "a.zv" ⟨true, some .json, none⟩ :
      StateM FileTree Outcome).run sourceTree
    (sourceTree.read "a.zv").bind String.fromUTF8? = some "x\n" ∧
      tokenize "x\n" = .ok tokens ∧ done.1.result = .ok () ∧
      Format.json.read? done.1.output = none ∧ ¬ Format.json.OnlyDocument tokens done.1.output := by
  intro tokens done
  have hread : (sourceTree.read "a.zv").bind String.fromUTF8? = some "x\n" := by decide +kernel
  have htokens : tokenize "x\n" = .ok tokens := by decide +kernel
  have hdone : done = _ := run_emitting hread htokens ⟨{}, ⟨none⟩⟩ .json true
  -- The headline of the listing is no JSON.
  obtain ⟨rest, hrest⟩ : ∃ rest, done.1.output.toList = 'T' :: rest := by
    rw [hdone]
    simp only [if_pos, listing, String.toList_append, List.append_assoc]
    exact ⟨_, rfl⟩
  have hnone : Format.json.read? done.1.output = none := by
    rw [Format.read?, Record.ofJsonDocument?, Json.read?, hrest, Json.marks?_eq_none rfl rfl]
    rfl
  refine ⟨hread, htokens, by rw [hdone], hnone, fun h => ?_⟩
  have hsome := h.read
  rw [hnone] at hsome
  cases hsome

end Compilation

end FrontEnd
