import FrontEnd.Export.Format
import FrontEnd.Proofs.Toml.Statements

/-!
# Reading exported TOML back

Exported records are read back as they are: the document is read as one statement for every line
that is not empty, and the statements build one table for every record.
-/

namespace FrontEnd.Record

open Toml (Node Statement Draft IsLine)

/-- The members of a record's table. -/
def tomlFields (r : Record) : List (String × Node) :=
  [("line", .integer r.line.toNat), ("type", .string r.kind.name), ("value", .string r.text)]

/-- The statements that build a record's table. -/
def tomlStatements (r : Record) : List Statement :=
  .openElement [] "tokens" :: r.tomlFields.map fun field => .assign [] field.1 field.2

/-- The lines of a record with the statements that they hold. -/
def tomlLines (r : Record) : List (List Char × Option Statement) :=
  [Toml.elementLine "tokens".toList,
    Toml.assignmentLine "line".toList (Digits.decimal r.line.toNat) (.integer r.line.toNat),
    Toml.assignmentLine "type".toList (Toml.quoted r.kind.name.toList) (.string r.kind.name),
    Toml.assignmentLine "value".toList (Toml.quoted r.text.toList) (.string r.text)]

theorem tomlLines_chars (r : Record) : r.tomlLines.flatMap Prod.fst = r.writeToml := by
  have hl : "[[tokens]]\nline = ".toList =
      ['[', '['] ++ "tokens".toList ++ [']', ']', '\n'] ++ "line".toList ++ [' ', '=', ' '] := rfl
  have ht : "\ntype = ".toList = ['\n'] ++ "type".toList ++ [' ', '=', ' '] := rfl
  have hv : "\nvalue = ".toList = ['\n'] ++ "value".toList ++ [' ', '=', ' '] := rfl
  unfold writeToml
  rw [hl, ht, hv]
  simp only [tomlLines, Toml.elementLine, Toml.assignmentLine, List.flatMap_cons,
    List.flatMap_nil, List.append_assoc, List.append_nil]

theorem tomlLines_statements (r : Record) :
    r.tomlLines.filterMap Prod.snd = r.tomlStatements := by
  simp [tomlLines, tomlStatements, tomlFields, Toml.elementLine, Toml.assignmentLine]

/-- A text given to a key makes a line. -/
theorem isLine_text {name : List Char} (hn : Toml.IsBareKey name) (s : String) :
    IsLine (Toml.assignmentLine name (Toml.quoted s.toList) (.string s)) := by
  have h := Toml.isLine_string hn s.toList
  rwa [String.ofList_toList] at h

/-- Every line of a record is read as the statement that it holds. -/
theorem isLine_of_mem_tomlLines {r : Record} {l : List Char × Option Statement}
    (hl : l ∈ r.tomlLines) : IsLine l := by
  simp only [tomlLines, List.mem_cons, List.not_mem_nil, or_false] at hl
  rcases hl with rfl | rfl | rfl | rfl
  · exact Toml.isLine_elementLine (by decide)
  · exact Toml.isLine_integer (by decide) (Toml.fits_toNat r.line)
  · exact isLine_text (by decide) r.kind.name
  · exact isLine_text (by decide) r.text

/-- The lines of a document hold the statements of its records. -/
theorem exists_lines (records : List Record) :
    ∃ lines : List (List Char × Option Statement),
      lines.flatMap Prod.fst = List.intercalate ['\n'] (records.map writeToml) ∧
      lines.filterMap Prod.snd = records.flatMap tomlStatements ∧
      ∀ l ∈ lines, IsLine l := by
  induction records with
  | nil => exact ⟨[], rfl, rfl, by simp⟩
  | cons r records ih =>
      obtain ⟨lines, hchars, hstatements, hlines⟩ := ih
      cases records with
      | nil =>
          refine ⟨r.tomlLines, ?_, ?_, fun l hl => isLine_of_mem_tomlLines hl⟩
          · simp [tomlLines_chars]
          · simp [tomlLines_statements]
      | cons s records =>
          refine ⟨r.tomlLines ++ (['\n'], none) :: lines, ?_, ?_, ?_⟩
          · simp [tomlLines_chars, hchars]
          · simp [tomlLines_statements, hstatements]
          · intro l hl
            rcases List.mem_append.mp hl with hl | hl
            · exact isLine_of_mem_tomlLines hl
            · rcases List.mem_cons.mp hl with rfl | hl
              · exact Toml.isLine_empty
              · exact hlines l hl

/-- A document under construction after the tables of some records, the last one first. -/
def tomlDraft : List (List (String × Node)) → Draft
  | [] => ⟨.root, []⟩
  | latest :: earlier => ⟨⟨.opened, [("tokens", .tables latest earlier)]⟩, ["tokens"]⟩

/-- The statements of a record add its table. -/
theorem run_tomlStatements (r : Record) (done : List (List (String × Node))) :
    r.tomlStatements.foldlM Draft.run (tomlDraft done) =
      some (tomlDraft (r.tomlFields :: done)) := by
  cases done with
  | nil => rfl
  | cons latest earlier => rfl

/-- The statements of records add their tables in order. -/
theorem run_statements (records : List Record) (done : List (List (String × Node))) :
    (records.flatMap tomlStatements).foldlM Draft.run (tomlDraft done) =
      some (tomlDraft ((records.map tomlFields).reverse ++ done)) := by
  induction records generalizing done with
  | nil => rfl
  | cons r records ih =>
      rw [List.flatMap_cons, List.foldlM_append, run_tomlStatements]
      simp [ih]

/-- A record is read back from its table. -/
theorem ofToml?_tomlFields (r : Record) : ofToml? (.table .opened r.tomlFields) = some r := by
  simp [ofToml?, Node.members?, tomlFields, List.lookup_cons, ofFields?, lineOfToml?, kindOfToml?,
    textOfToml?, line?_toNat, Kind.ofName?_name]

theorem mapM_ofToml? (records : List Record) :
    ((records.map tomlFields).map (Node.table .opened)).mapM ofToml? = some records := by
  have hread : (records.map (Node.table .opened ∘ tomlFields)).mapM ofToml? =
      some (records.map id) :=
    Reader.mapM_map_eq_some fun r _ => ofToml?_tomlFields r
  rw [List.map_map, hread, List.map_id]

/-- A document of some records starts with a bracket. -/
theorem exists_document (r : Record) (records : List Record) :
    ∃ tail, List.intercalate ['\n'] ((r :: records).map writeToml) = '[' :: tail := by
  have hr : ∃ tail, r.writeToml = '[' :: tail := by
    rw [← tomlLines_chars]
    exact ⟨_, rfl⟩
  obtain ⟨tail, hr⟩ := hr
  cases records with
  | nil => exact ⟨tail, by simp [hr]⟩
  | cons s records =>
      refine ⟨tail ++ '\n' :: List.intercalate ['\n'] ((s :: records).map writeToml), ?_⟩
      simp [hr]

/-- A document of some records is read as the tables of the records. -/
theorem read?_tomlDocument (r : Record) (records : List Record) :
    Toml.read? (tomlDocument (r :: records)) =
      some (tomlDraft ((r :: records).map tomlFields).reverse).document.members := by
  obtain ⟨lines, hchars, hstatements, hlines⟩ := exists_lines (r :: records)
  obtain ⟨tail, htail⟩ := exists_document r records
  have hread := (Toml.reads_statements hlines).all?
  have hmark : Toml.dropMark ('[' :: tail) = '[' :: tail := rfl
  have hrun := run_statements (r :: records) []
  rw [List.append_nil] at hrun
  rw [Toml.read?, tomlDocument, List.isEmpty_cons, if_neg Bool.false_ne_true,
    String.toList_ofList, htail, hmark, ← htail, ← hchars, hread, hstatements]
  simp only [Option.bind_eq_bind, Option.bind_some]
  rw [show (⟨.root, []⟩ : Draft) = tomlDraft [] from rfl, hrun]
  rfl

/-- Records that are written as a document are read back as they are. -/
theorem ofTomlDocument?_tomlDocument (records : List Record) :
    ofTomlDocument? (tomlDocument records) = some records := by
  cases records with
  | nil => decide +kernel
  | cons r records =>
      have hne : ((r :: records).map tomlFields).reverse ≠ [] := by simp
      obtain ⟨latest, earlier, h⟩ := List.exists_cons_of_ne_nil hne
      have hitems : (latest :: earlier).reverse = (r :: records).map tomlFields := by
        rw [← h, List.reverse_reverse]
      rw [ofTomlDocument?, read?_tomlDocument, h]
      calc
        ((latest :: earlier).reverse.map (Node.table .opened)).mapM ofToml? =
            (((r :: records).map tomlFields).map (Node.table .opened)).mapM ofToml? := by
          rw [hitems]
        _ = some (r :: records) := mapM_ofToml? (r :: records)

end FrontEnd.Record

namespace FrontEnd.Format

end FrontEnd.Format
