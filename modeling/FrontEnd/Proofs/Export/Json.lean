import FrontEnd.Export.Format
import FrontEnd.Proofs.Json.Rendering

/-!
# Reading exported JSON back

Exported records are read back as they are: the document is a rendering of an array with one object
for every record.
-/

namespace FrontEnd.Record

open Json (Rendering Value)

/-- The members of a record's object. -/
def jsonMembers (r : Record) : List (String × Rendering) :=
  [("line", .decimal r.line.toNat), ("type", .quoted r.kind.name.toList),
    ("value", .quoted r.text.toList)]

/-- The rendering of a record as an object. -/
def rendering (r : Record) : Rendering := .object 4 1 r.jsonMembers

/-- The rendering of records as an array. -/
def documentRendering (records : List Record) : Rendering :=
  .array 4 0 (records.map rendering)

/-- The document of some records is the text of their rendering. -/
theorem jsonDocument_eq (records : List Record) :
    jsonDocument records = String.ofList (documentRendering records).chars := by
  have hw : writeJson = Rendering.chars ∘ rendering := rfl
  rw [jsonDocument, hw, ← List.map_map]
  rfl

/-- A record is read back from its object. -/
theorem ofJson?_rendering (r : Record) : ofJson? r.rendering.value = some r := by
  have hf : r.rendering.value.fields? ["line", "type", "value"] =
      some (r.jsonMembers.map fun m => some m.2.value) :=
    Rendering.fields?_object 4 1 r.jsonMembers _ rfl (by decide)
  simp [ofJson?, hf, jsonMembers, Rendering.decimal, Rendering.quoted,
    Json.natural?_decimal, line?_toNat, kindOfJson?, Kind.ofName?_name, Value.text?]

theorem mapM_ofJson? (records : List Record) :
    ((records.map rendering).map Rendering.value).mapM ofJson? = some records := by
  have hread : (records.map (Rendering.value ∘ rendering)).mapM ofJson? = some (records.map id) :=
    Reader.mapM_map_eq_some fun r _ => ofJson?_rendering r
  rw [List.map_map, hread, List.map_id]

/-- Records that are written as a document are read back as they are, also with white space behind
the document. -/
theorem ofJsonDocument?_append_space (records : List Record) {space : List Char}
    (hs : ∀ c ∈ space, Json.isSpace c = true) :
    ofJsonDocument? (jsonDocument records ++ String.ofList space) = some records := by
  rw [ofJsonDocument?, jsonDocument_eq, ← String.ofList_append, Rendering.read?_append_space _ hs]
  exact mapM_ofJson? records

end FrontEnd.Record

namespace FrontEnd.Format

end FrontEnd.Format
