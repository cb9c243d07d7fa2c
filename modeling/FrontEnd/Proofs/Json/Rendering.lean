import FrontEnd.Proofs.Json.Marks

/-!
# Renderings of JSON values

A rendering is a text with its marks and the value that they stand for. Renderings of items and of
members make up renderings of arrays and of objects in the spread layout, and every rendering is
read back as its value.
-/

namespace FrontEnd.Json

/-- Whether marks stand for a value: with no value in hand, putting them together puts the value in
hand. -/
def Means (ms : List Mark) (v : Value) : Prop :=
  ∀ stack rest, assemble stack none (ms ++ rest) = assemble stack (some v) rest

/-- A text with its marks and the value that they stand for. -/
structure Rendering where
  chars : List Char
  marks : List Mark
  value : Value
  spells : Spells chars marks
  means : Means marks value

theorem intercalate_cons {α : Type} (sep x : List α) (xs : List (List α)) :
    List.intercalate sep (x :: xs) = x ++ xs.flatMap (sep ++ ·) := by
  induction xs generalizing x with
  | nil => simp
  | cons y ys ih => rw [List.intercalate_cons_cons, ih, List.flatMap_cons, List.append_assoc,
      List.append_assoc]

/-! ### The marks of arrays and objects -/

/-- What stands for a value does not start with the end of an array. -/
theorem Means.ne_closeArray {ms : List Mark} {v : Value} (h : Means ms v) (rest tail : List Mark) :
    ms ++ rest ≠ .closeArray :: tail := by
  have hv := h [] []
  cases ms with
  | nil => simp [assemble] at hv
  | cons m ms =>
      intro he
      obtain ⟨rfl, -⟩ := List.cons.inj he
      simp [assemble] at hv

theorem assemble_comma_array (items : List Value) (v : Value) (stack : List Frame)
    (ms : List Mark) :
    assemble (.array items :: stack) (some v) (.comma :: ms) =
      assemble (.array (v :: items) :: stack) none ms := by
  rw [assemble.eq_def]

theorem assemble_comma_object (members : List (List CodePoint × Value)) (key next : List CodePoint)
    (v : Value) (stack : List Frame) (ms : List Mark) :
    assemble (.object members key :: stack) (some v) (.comma :: .string next :: .colon :: ms) =
      assemble (.object ((key, v) :: members) next :: stack) none ms := by
  rw [assemble.eq_def]

/-- Behind one item of an array the other items are put in place, and the array is in hand. -/
theorem assemble_items (items : List Rendering) (v : Value) (done : List Value)
    (stack : List Frame) (rest : List Mark) :
    assemble (.array done :: stack) (some v)
        ((items.map Rendering.marks).flatMap ([.comma] ++ ·) ++ .closeArray :: rest) =
      assemble stack (some (.array (done.reverse ++ v :: items.map Rendering.value))) rest := by
  induction items generalizing v done with
  | nil => simp [assemble]
  | cons item items ih =>
      rw [List.map_cons, List.flatMap_cons, List.append_assoc, List.append_assoc,
        List.singleton_append, assemble_comma_array, item.means, ih]
      simp

/-- The marks of items between the marks of an array stand for the array. -/
theorem means_array (items : List Rendering) :
    Means (.openArray :: List.intercalate [.comma] (items.map Rendering.marks) ++ [.closeArray])
      (.array (items.map Rendering.value)) := by
  intro stack rest
  cases items with
  | nil => simp [assemble]
  | cons item items =>
      rw [List.map_cons, intercalate_cons, List.append_assoc, List.singleton_append,
        List.cons_append, List.append_assoc, assemble, item.means, assemble_items]
      · rfl
      · exact item.means.ne_closeArray _

/-- The marks of a member with a key. -/
def keyedMarks (m : List CodePoint × Rendering) : List Mark := .string m.1 :: .colon :: m.2.marks

/-- A member with a key. -/
def keyedValue (m : List CodePoint × Rendering) : List CodePoint × Value := (m.1, m.2.value)

/-- Behind one member of an object the other members are put in place, and the object is in
hand. -/
theorem assemble_members (members : List (List CodePoint × Rendering)) (key : List CodePoint)
    (v : Value) (done : List (List CodePoint × Value)) (stack : List Frame) (rest : List Mark) :
    assemble (.object done key :: stack) (some v)
        ((members.map keyedMarks).flatMap ([.comma] ++ ·) ++ .closeObject :: rest) =
      assemble stack (some (.object (done.reverse ++ (key, v) :: members.map keyedValue)))
        rest := by
  induction members generalizing key v done with
  | nil => simp [assemble]
  | cons m members ih =>
      rw [List.map_cons, List.flatMap_cons, List.append_assoc, List.append_assoc, keyedMarks,
        List.singleton_append, List.cons_append, List.cons_append, assemble_comma_object,
        m.2.means, ih]
      simp [keyedValue]

/-- The marks of members between the marks of an object stand for the object. -/
theorem means_object (members : List (List CodePoint × Rendering)) :
    Means (.openObject :: List.intercalate [.comma] (members.map keyedMarks) ++ [.closeObject])
      (.object (members.map keyedValue)) := by
  intro stack rest
  cases members with
  | nil => simp [assemble]
  | cons m members =>
      rw [List.map_cons, intercalate_cons, List.append_assoc, List.singleton_append, keyedMarks,
        List.cons_append, List.append_assoc, List.cons_append, List.cons_append, assemble,
        m.2.means, assemble_members]
      rfl

/-- The marks of a named member. -/
def memberMarks (m : String × Rendering) : List Mark :=
  .string (scalars m.1.toList) :: .colon :: m.2.marks

/-- A named member. -/
def memberValue (m : String × Rendering) : List CodePoint × Value :=
  (scalars m.1.toList, m.2.value)

/-- The marks of named members between the marks of an object stand for the object. -/
theorem means_namedObject (members : List (String × Rendering)) :
    Means (.openObject :: List.intercalate [.comma] (members.map memberMarks) ++ [.closeObject])
      (.object (members.map memberValue)) := by
  have h := means_object (members.map fun m => (scalars m.1.toList, m.2))
  rwa [List.map_map, List.map_map] at h

/-! ### The texts of arrays and objects -/

theorem isSpaces_newline (indent depth : Nat) : IsSpaces (newline indent depth) := by
  intro c hc
  rcases List.mem_cons.mp hc with rfl | hc
  · rfl
  · rw [List.eq_of_mem_replicate hc]
    rfl

section Spread

variable (indent depth : Nat) {opening closing : Char} {o c : Mark}

/-- The parts behind the first one, each behind a comma and on a line of its own, and the closing
bracket on a line of its own. -/
theorem spells_parts (hc : ∀ after, mark.Reads [closing] c after)
    (hs : isSpace closing = false) {parts : List (List Char × List Mark)}
    (hp : ∀ p ∈ parts, Spells p.1 p.2) :
    Spells ((parts.map Prod.fst).flatMap ((',' :: newline indent (depth + 1)) ++ ·) ++
        (newline indent depth ++ [closing]))
      ((parts.map Prod.snd).flatMap ([.comma] ++ ·) ++ [c]) := by
  induction parts with
  | nil => exact (spells_nil.mark hc (by simp [hs])).space (isSpaces_newline indent depth)
  | cons p parts ih =>
      have hparts := ih fun q hq => hp q (List.mem_cons_of_mem p hq)
      have hpart := (hp p List.mem_cons_self).append hparts (by cases parts <;> rfl)
      have hcomma : ∀ after, mark.Reads [','] .comma after := fun _ => rfl
      have h := (hpart.space (isSpaces_newline indent (depth + 1))).mark hcomma rfl
      simpa using h

/-- Parts that spell marks make up a text in the spread layout that spells all of them. -/
theorem spells_spread (ho : ∀ after, mark.Reads [opening] o after)
    (hc : ∀ after, mark.Reads [closing] c after) (hos : isSpace opening = false)
    (hcs : isSpace closing = false) {parts : List (List Char × List Mark)}
    (hp : ∀ p ∈ parts, Spells p.1 p.2) :
    Spells (spread indent depth opening closing (parts.map Prod.fst))
      (o :: List.intercalate [.comma] (parts.map Prod.snd) ++ [c]) := by
  cases parts with
  | nil => exact (spells_nil.mark hc (by simp [hcs])).mark ho (by simp [hos])
  | cons p parts =>
      have hparts := spells_parts indent depth hc hcs
        fun q hq => hp q (List.mem_cons_of_mem p hq)
      have hpart := (hp p List.mem_cons_self).append hparts (by cases parts <;> rfl)
      have h := (hpart.space (isSpaces_newline indent (depth + 1))).mark ho (by simp [hos])
      rw [List.map_cons, List.map_cons, intercalate_cons, spread, List.isEmpty_cons,
        if_neg Bool.false_ne_true, intercalate_cons]
      simpa using h

end Spread

namespace Rendering

/-- A text as a string. -/
def quoted (cs : List Char) : Rendering where
  chars := Json.quoted cs
  marks := [.string (scalars cs)]
  value := .string (scalars cs)
  spells := by simpa using spells_nil.string (stringSpelled_quoted cs)
  means := fun stack rest => by rw [List.singleton_append, assemble]

/-- A number in decimal digits. -/
def decimal (n : Nat) : Rendering where
  chars := Digits.decimal n
  marks := [.number (Digits.decimal n)]
  value := .number (Digits.decimal n)
  spells := spells_number (numberSpelled_decimal n)
  means := fun stack rest => by rw [List.singleton_append, assemble]

/-- A truth value. -/
def boolean (b : Bool) : Rendering where
  chars := Json.boolean b
  marks := [.boolean b]
  value := .boolean b
  spells := by
    have hb : ∀ after, mark.Reads (Json.boolean b) (.boolean b) after := by
      intro after
      cases b <;> rfl
    have h := spells_nil.mark hb (by cases b <;> rfl)
    rwa [List.append_nil] at h
  means := fun stack rest => by rw [List.singleton_append, assemble]

/-- Items in an array whose brackets stand at `depth`. -/
def array (indent depth : Nat) (items : List Rendering) : Rendering where
  chars := Json.array indent depth (items.map chars)
  marks := .openArray :: List.intercalate [.comma] (items.map marks) ++ [.closeArray]
  value := .array (items.map value)
  spells := by
    have hp : ∀ p ∈ items.map fun i => (i.chars, i.marks), Spells p.1 p.2 := by
      intro p hp
      obtain ⟨i, -, rfl⟩ := List.mem_map.mp hp
      exact i.spells
    have hopen : ∀ after, mark.Reads ['['] .openArray after := fun _ => rfl
    have hclose : ∀ after, mark.Reads [']'] .closeArray after := fun _ => rfl
    have h := spells_spread indent depth hopen hclose rfl rfl hp
    simpa [Json.array, Function.comp_def] using h
  means := means_array items

/-- The text of a named member. -/
def memberChars (m : String × Rendering) : List Char :=
  Json.quoted m.1.toList ++ ':' :: ' ' :: m.2.chars

/-- A named member spells its name, a colon and its value. -/
theorem spells_member (m : String × Rendering) : Spells (memberChars m) (memberMarks m) := by
  have hspace : IsSpaces [' '] := List.forall_mem_singleton.mpr rfl
  have hcolon : ∀ after, mark.Reads [':'] .colon after := fun _ => rfl
  exact ((m.2.spells.space hspace).mark hcolon rfl).string (stringSpelled_quoted m.1.toList)

/-- Named members in an object whose braces stand at `depth`. -/
def object (indent depth : Nat) (members : List (String × Rendering)) : Rendering where
  chars := Json.object indent depth (members.map fun m => (m.1, m.2.chars))
  marks := .openObject :: List.intercalate [.comma] (members.map memberMarks) ++ [.closeObject]
  value := .object (members.map memberValue)
  spells := by
    have hp : ∀ p ∈ members.map fun m => (memberChars m, memberMarks m), Spells p.1 p.2 := by
      intro p hp
      obtain ⟨m, -, rfl⟩ := List.mem_map.mp hp
      exact spells_member m
    have hopen : ∀ after, mark.Reads ['\x7b'] .openObject after := fun _ => rfl
    have hclose : ∀ after, mark.Reads ['\x7d'] .closeObject after := fun _ => rfl
    have h := spells_spread indent depth hopen hclose rfl rfl hp
    simpa [Json.object, memberChars, Function.comp_def] using h
  means := means_namedObject members

/-- The text of a rendering is read back as its value, also with white space behind it. -/
theorem read?_append_space (r : Rendering) {space : List Char} (hs : IsSpaces space) :
    Json.read? (String.ofList (r.chars ++ space)) = some r.value := by
  have hmarks := (r.spells.append_space hs).marks?
  have hmeans := r.means [] []
  rw [List.append_nil] at hmeans
  rw [Json.read?, String.toList_ofList, hmarks, Option.bind_some, hmeans]
  simp [assemble]

/-- The text of a rendering is read back as its value. -/
theorem read? (r : Rendering) : Json.read? (String.ofList r.chars) = some r.value := by
  have hnone : ∀ c ∈ [], isSpace c = true := List.forall_mem_nil _
  have h := r.read?_append_space hnone
  rwa [List.append_nil] at h

end Rendering

/-- A number is read from its decimal digits. -/
theorem natural?_decimal (n : Nat) :
    (Value.number (Digits.decimal n)).natural? = some n := by
  have hd : (Digits.decimal n).all Char.isDigit = true :=
    List.all_eq_true.mpr (Digits.isDigit_decimal n)
  rw [Value.natural?, if_pos hd, Digits.decimal, Nat.ofDigitChars_ten_toDigits]

/-! ### The fields of an object -/

/-- The names of members are read back. -/
theorem mapM_text?_memberValue (members : List (String × Rendering)) :
    ((members.map memberValue).mapM fun m => (CodePoint.text? m.1).map (·, m.2)) =
      some (members.map fun m => (m.1, m.2.value)) := by
  apply Reader.mapM_map_eq_some
  intro m _
  simp [memberValue]

/-- Among members with different names one has a given name. -/
theorem filter_name {members : List (String × Rendering)} (hn : (members.map Prod.fst).Nodup)
    {m : String × Rendering} (hm : m ∈ members) :
    (members.map fun m => (m.1, m.2.value)).filter (·.1 == m.1) = [(m.1, m.2.value)] := by
  induction members with
  | nil => cases hm
  | cons n members ih =>
      rw [List.map_cons, List.nodup_cons] at hn
      rcases List.mem_cons.mp hm with rfl | hm
      · have hrest : (members.map fun m => (m.1, m.2.value)).filter (·.1 == m.1) = [] := by
          rw [List.filter_eq_nil_iff]
          intro p hp
          obtain ⟨q, hq, rfl⟩ := List.mem_map.mp hp
          have hne : q.1 ≠ m.1 := fun he => hn.1 (List.mem_map.mpr ⟨q, hq, he⟩)
          simp [hne]
        rw [List.map_cons, List.filter_cons_of_pos (by simp), hrest]
      · have hne : n.1 ≠ m.1 := fun he => hn.1 (List.mem_map.mpr ⟨m, hm, he.symm⟩)
        rw [List.map_cons, List.filter_cons_of_neg (by simp [hne]), ih hn.2 hm]

/-- An object that gives every field once gives the values of its members. -/
theorem fields?_object {members : List (String × Rendering)}
    (hn : (members.map Prod.fst).Nodup) :
    (Value.object (members.map memberValue)).fields? (members.map Prod.fst) =
      some (members.map fun m => some m.2.value) := by
  rw [Value.fields?, mapM_text?_memberValue, Option.bind_eq_bind, Option.bind_some]
  apply Reader.mapM_map_eq_some
  intro m hm
  rw [filter_name hn hm]

/-- The text of an object is read as the values of its members, by their names. -/
theorem Rendering.fields?_object (indent depth : Nat) (members : List (String × Rendering))
    (names : List String) (hnames : members.map Prod.fst = names) (hn : names.Nodup) :
    (Rendering.object indent depth members).value.fields? names =
      some (members.map fun m => some m.2.value) := by
  subst hnames
  exact Json.fields?_object hn

end FrontEnd.Json
