import FrontEnd.Message
import FrontEnd.Proofs.Text.Run

/-!
# Pieces of a template

From left to right, a template falls into text without percent signs, doubled percent signs,
placeholders, and percent signs that are ordinary text. It is filled piece by piece: each
placeholder takes the argument with the same number, if there is one, and what is filled in is
never read again. Whatever a template is filled with, no characters get into it but those of its
arguments.
-/

namespace FrontEnd.Template

/-! ### Filling -/

/-- A character other than a percent sign is copied. -/
theorem fillChars_cons {c : Char} (hc : c ≠ '%') (args : List String) (rest : List Char) :
    fillChars args (c :: rest) = c :: fillChars args rest := by
  rw [fillChars.eq_def]
  split <;> simp_all

/-- Text without percent signs is copied. -/
theorem fillChars_append {front : List Char} (hfront : '%' ∉ front) (args : List String)
    (rest : List Char) : fillChars args (front ++ rest) = front ++ fillChars args rest := by
  induction front with
  | nil => rfl
  | cons c front ih =>
      have hc : c ≠ '%' := (List.ne_of_not_mem_cons hfront).symm
      have hrest := List.not_mem_of_not_mem_cons hfront
      rw [List.cons_append, fillChars_cons hc, ih hrest, List.cons_append]

/-- A filled template has no characters but its own and those of its arguments. -/
theorem mem_fillChars {args : List String} {template : List Char} {c : Char}
    (h : c ∈ fillChars args template) : c ∈ template ∨ ∃ arg ∈ args, c ∈ arg.toList := by
  fun_induction fillChars args template <;> grind

/-! ### Pieces -/

/-- A piece of a template. -/
inductive Piece where
  /-- Text without percent signs. -/
  | text (chars : List Char)
  /-- A percent sign that is written twice. -/
  | doubled
  /-- A place for an argument. -/
  | placeholder (letter : Char)
  /-- A percent sign that is ordinary text. -/
  | lone
deriving DecidableEq, Repr

namespace Piece

/-- The characters of a piece. -/
def chars : Piece → List Char
  | text chars => chars
  | doubled => ['%', '%']
  | placeholder letter => ['%', letter]
  | lone => ['%']

/-- Whether a piece is one of its sort. -/
def Valid : Piece → Prop
  | text chars => chars ≠ [] ∧ '%' ∉ chars
  | placeholder letter => isConversion letter = true
  | doubled | lone => True

instance : (p : Piece) → Decidable p.Valid
  | text chars => inferInstanceAs (Decidable (chars ≠ [] ∧ '%' ∉ chars))
  | placeholder letter => inferInstanceAs (Decidable (isConversion letter = true))
  | doubled | lone => inferInstanceAs (Decidable True)

/-- Whether a character goes with a percent sign in front of it. -/
def joins (c : Char) : Bool := c == '%' || isConversion c

/-- Whether a piece ends where the text behind it starts: an ordinary percent sign is not followed
by a character that goes with it. -/
def Apart (after : List Char) : Piece → Prop
  | lone => startsWith joins after = false
  | text _ | doubled | placeholder _ => True

instance (after : List Char) : (p : Piece) → Decidable (p.Apart after)
  | lone => inferInstanceAs (Decidable (startsWith joins after = false))
  | text _ | doubled | placeholder _ => inferInstanceAs (Decidable True)

/-- Whether a piece is a placeholder. -/
def isPlaceholder : Piece → Bool
  | placeholder _ => true
  | text _ | doubled | lone => false

/-- The text that a piece becomes. A placeholder without an argument stays as it is written. -/
def filled (argument : Option String) : Piece → List Char
  | text chars => chars
  | doubled => ['%']
  | placeholder letter => (argument.map String.toList).getD ['%', letter]
  | lone => ['%']

end Piece

/-- The characters of pieces in a row. -/
def piecesChars (pieces : List Piece) : List Char := pieces.flatMap Piece.chars

/-- The number of placeholders among some pieces. -/
def placeholders (pieces : List Piece) : Nat := pieces.countP Piece.isPlaceholder

/-- Whether pieces in a row are what the text falls into that they make up together with the text
behind them. -/
def PiecesFit : List Piece → List Char → Prop
  | [], _ => True
  | p :: pieces, after => p.Valid ∧ p.Apart (piecesChars pieces ++ after) ∧ PiecesFit pieces after

instance decidablePiecesFit :
    (pieces : List Piece) → (after : List Char) → Decidable (PiecesFit pieces after)
  | [], _ => inferInstanceAs (Decidable True)
  | p :: pieces, after =>
    have := decidablePiecesFit pieces after
    inferInstanceAs (Decidable (p.Valid ∧ p.Apart (piecesChars pieces ++ after) ∧ _))

/-- Whether a template falls into some pieces. -/
def FallsInto (template : String) (pieces : List Piece) : Prop :=
  piecesChars pieces = template.toList ∧ PiecesFit pieces []

instance (template : String) (pieces : List Piece) : Decidable (FallsInto template pieces) :=
  inferInstanceAs (Decidable (_ ∧ _))

/-- The text that pieces become when `n` placeholders stand in front of them. -/
def filledFrom (args : List String) (n : Nat) : List Piece → List Char
  | [] => []
  | p :: pieces =>
    p.filled args[n]? ++ filledFrom args (if p.isPlaceholder then n + 1 else n) pieces

/-- The text that the pieces of a template become. -/
def filledPieces (args : List String) (pieces : List Piece) : String :=
  String.ofList (filledFrom args 0 pieces)

/-- A text with every percent sign written twice. -/
def doublePercents (text : String) : String :=
  String.ofList (text.toList.flatMap fun c => if c = '%' then ['%', '%'] else [c])

@[simp] theorem piecesChars_cons (p : Piece) (pieces : List Piece) :
    piecesChars (p :: pieces) = p.chars ++ piecesChars pieces := List.flatMap_cons

@[simp] theorem piecesChars_append (front back : List Piece) :
    piecesChars (front ++ back) = piecesChars front ++ piecesChars back := List.flatMap_append

/-- Behind a piece, the placeholders are counted on. -/
theorem add_placeholders_cons (n : Nat) (p : Piece) (pieces : List Piece) :
    n + placeholders (p :: pieces) =
      (if p.isPlaceholder then n + 1 else n) + placeholders pieces := by
  rw [placeholders, List.countP_cons, placeholders]
  split <;> omega

variable {args : List String} {template : String} {pieces front back : List Piece}
  {after : List Char}

/-! ### One piece -/

/-- A doubled percent sign becomes one. -/
theorem fillChars_doubled (args : List String) (after : List Char) :
    fillChars args ('%' :: '%' :: after) = '%' :: fillChars args after := by
  rw [fillChars]

/-- A percent sign that goes with no character behind it is copied. -/
theorem fillChars_lone (args : List String) (h : startsWith Piece.joins after = false) :
    fillChars args ('%' :: after) = '%' :: fillChars args after := by
  cases after with
  | nil => rfl
  | cons c after =>
      have hc : Piece.joins c = false := h
      simp only [Piece.joins, isConversion, Bool.or_eq_false_iff, beq_eq_false_iff_ne] at hc
      rw [fillChars] <;> simp_all

/-- A placeholder takes the first argument, if there is one. -/
theorem fillChars_placeholder {letter : Char} (h : isConversion letter = true)
    (args : List String) (after : List Char) :
    fillChars args ('%' :: letter :: after) =
      (args.head?.map String.toList).getD ['%', letter] ++ fillChars args.tail after := by
  rw [isConversion, Bool.or_eq_true, beq_iff_eq, beq_iff_eq] at h
  rcases h with rfl | rfl <;> cases args <;> rw [fillChars] <;> rfl

/-- One step through a template: a piece is filled, and takes an argument if it is a
placeholder. -/
theorem fillChars_piece {p : Piece} (hvalid : p.Valid) (hapart : p.Apart after)
    (args : List String) :
    fillChars args (p.chars ++ after) =
      p.filled args.head? ++ fillChars (if p.isPlaceholder then args.tail else args) after := by
  cases p with
  | text chars => exact fillChars_append hvalid.2 args after
  | doubled => exact fillChars_doubled args after
  | placeholder letter => exact fillChars_placeholder hvalid args after
  | lone => exact fillChars_lone args hapart

/-! ### Pieces in a row -/

/-- Pieces in a row are filled one by one, and the text behind them with the arguments that they
leave. -/
theorem fillChars_pieces (h : PiecesFit pieces after) (args : List String) (n : Nat) :
    fillChars (args.drop n) (piecesChars pieces ++ after) =
      filledFrom args n pieces ++ fillChars (args.drop (n + placeholders pieces)) after := by
  induction pieces generalizing n with
  | nil => rfl
  | cons p pieces ih =>
      obtain ⟨hvalid, hapart, hrest⟩ := h
      have hargs : (if p.isPlaceholder then (args.drop n).tail else args.drop n) =
          args.drop (if p.isPlaceholder then n + 1 else n) := by
        split
        · exact List.tail_drop
        · rfl
      rw [piecesChars_cons, List.append_assoc, fillChars_piece hvalid hapart, hargs, ih hrest,
        List.head?_drop, filledFrom, add_placeholders_cons, List.append_assoc]

/-- A template is filled piece by piece. -/
theorem fill_of_fallsInto (h : FallsInto template pieces) (args : List String) :
    fill template args = filledPieces args pieces := by
  have hfill := fillChars_pieces h.2 args 0
  rw [List.append_nil, List.drop_zero, fillChars, List.append_nil, h.1] at hfill
  rw [fill, filledPieces, hfill]

/-- Arguments behind those that the pieces take do not matter. -/
theorem filledFrom_append_args (args more : List String) (n : Nat)
    (h : n + placeholders pieces ≤ args.length) :
    filledFrom (args ++ more) n pieces = filledFrom args n pieces := by
  induction pieces generalizing n with
  | nil => rfl
  | cons p pieces ih =>
      rw [add_placeholders_cons] at h
      rw [filledFrom, filledFrom, ih _ h]
      cases p with
      | placeholder letter =>
          have hn : n + 1 + placeholders pieces ≤ args.length := h
          rw [List.getElem?_append_left (by omega)]
      | text chars => rfl
      | doubled => rfl
      | lone => rfl

theorem Piece.chars_ne_nil {p : Piece} (h : p.Valid) : p.chars ≠ [] := by
  cases p with
  | text chars => exact h.1
  | doubled => exact List.cons_ne_nil _ _
  | placeholder letter => exact List.cons_ne_nil _ _
  | lone => exact List.cons_ne_nil _ _

/-- Only an ordinary percent sign at the end can go with the text behind the pieces. -/
theorem PiecesFit.of_getLast? (h : PiecesFit pieces []) (hlast : pieces.getLast? ≠ some .lone)
    (after : List Char) : PiecesFit pieces after := by
  induction pieces with
  | nil => trivial
  | cons p pieces ih =>
      obtain ⟨hvalid, hapart, hrest⟩ := h
      cases pieces with
      | nil =>
          refine ⟨hvalid, ?_, trivial⟩
          cases p with
          | lone => exact absurd rfl hlast
          | text chars => trivial
          | doubled => trivial
          | placeholder letter => trivial
      | cons q pieces =>
          rw [List.getLast?_cons_cons] at hlast
          refine ⟨hvalid, ?_, ih hrest hlast⟩
          cases p with
          | lone =>
              have hne : piecesChars (q :: pieces) ≠ [] := by
                rw [piecesChars_cons]
                exact List.append_ne_nil_of_left_ne_nil (Piece.chars_ne_nil hrest.1) _
              have hstart : startsWith Piece.joins (piecesChars (q :: pieces) ++ []) = false :=
                hapart
              rw [startsWith_append_of_ne_nil hne] at hstart
              exact (startsWith_append_of_ne_nil hne _ _).trans hstart
          | text chars => trivial
          | doubled => trivial
          | placeholder letter => trivial

/-- Every text falls into pieces. -/
theorem exists_piecesFit (cs : List Char) :
    ∃ pieces, piecesChars pieces = cs ∧ PiecesFit pieces [] := by
  induction hn : cs.length using Nat.strongRecOn generalizing cs with
  | _ n ih =>
      rcases cs with - | ⟨c, cs⟩
      · exact ⟨[], rfl, trivial⟩
      have hcs := ih cs.length (by rw [← hn, List.length_cons]; exact Nat.lt_succ_self _) cs rfl
      by_cases hc : c = '%'
      · subst hc
        cases hstart : startsWith Piece.joins cs with
        | false =>
            obtain ⟨pieces, rfl, hfit⟩ := hcs
            exact ⟨.lone :: pieces, rfl, trivial, by simpa [Piece.Apart] using hstart, hfit⟩
        | true =>
            -- The character behind the percent sign goes with it.
            rcases cs with - | ⟨d, cs⟩
            · cases hstart
            have hlt : cs.length < n := by
              rw [← hn, List.length_cons, List.length_cons]
              omega
            obtain ⟨pieces, rfl, hfit⟩ := ih cs.length hlt cs rfl
            have hd : Piece.joins d = true := hstart
            rw [Piece.joins, Bool.or_eq_true, beq_iff_eq] at hd
            rcases hd with rfl | hd
            · exact ⟨.doubled :: pieces, rfl, trivial, trivial, hfit⟩
            · exact ⟨.placeholder d :: pieces, rfl, hd, trivial, hfit⟩
      · obtain ⟨pieces, rfl, hfit⟩ := hcs
        refine ⟨.text [c] :: pieces, rfl, ⟨List.cons_ne_nil _ _, ?_⟩, trivial, hfit⟩
        simpa using Ne.symm hc

theorem exists_fallsInto (template : String) : ∃ pieces, FallsInto template pieces :=
  exists_piecesFit template.toList

/-- Two templates in a row are filled one after the other, if the first one takes all of the first
arguments and does not end with an ordinary percent sign. -/
theorem fill_append (h : FallsInto template pieces) (hlast : pieces.getLast? ≠ some .lone)
    (hargs : placeholders pieces = args.length) (next : String) (more : List String) :
    fill (template ++ next) (args ++ more) = fill template args ++ fill next more := by
  have hfill := fillChars_pieces (h.2.of_getLast? hlast next.toList) (args ++ more) 0
  rw [List.drop_zero, Nat.zero_add, hargs, List.drop_left, h.1,
    filledFrom_append_args _ _ _ (by omega)] at hfill
  rw [fill_of_fallsInto h, fill, fill, String.toList_append, hfill, String.ofList_append,
    filledPieces]

/-- A text with its percent signs doubled is a template for that text. -/
theorem fill_doublePercents (text : String) (args : List String) :
    fill (doublePercents text) args = text := by
  have hchars (cs : List Char) :
      fillChars args (cs.flatMap fun c => if c = '%' then ['%', '%'] else [c]) = cs := by
    induction cs with
    | nil => rfl
    | cons c cs ih =>
        rw [List.flatMap_cons]
        by_cases hc : c = '%'
        · rw [if_pos hc, List.cons_append, List.cons_append, List.nil_append, fillChars_doubled,
            ih, hc]
        · rw [if_neg hc, List.cons_append, List.nil_append, fillChars_cons hc, ih]
  rw [fill, doublePercents, String.toList_ofList, hchars, String.ofList_toList]

/-- Filling a template. Every template falls into pieces, and whatever pieces it falls into, it
becomes these pieces one by one: text as it is, one percent sign for two, an ordinary one as it is,
and a placeholder as the argument with its number, or as it is written if there is none. So if it
takes all of its arguments and does not end with an ordinary percent sign, a template behind it is
filled with the arguments behind them. A text becomes a template for itself, with any arguments, by
doubling its percent signs. -/
theorem fill_compositional (template : String) (args : List String) :
    (∃ pieces, FallsInto template pieces) ∧
      (∀ pieces, FallsInto template pieces →
        fill template args = filledPieces args pieces ∧
          (pieces.getLast? ≠ some .lone → placeholders pieces = args.length →
            ∀ next more,
              fill (template ++ next) (args ++ more) = fill template args ++ fill next more)) ∧
      fill (doublePercents template) args = template := by
  refine ⟨exists_fallsInto template, fun pieces h => ?_, fill_doublePercents template args⟩
  exact ⟨fill_of_fallsInto h args, fun hlast hargs next more => fill_append h hlast hargs next more⟩

/-- An argument that looks like a placeholder is not read again. -/
example :
    FallsInto "5% %s%%d" [.text ['5'], .lone, .text [' '], .placeholder 's', .doubled, .text ['d']] ∧
      fill "5% %s%%d" ["%s"] = "5% %s%d" := by decide

end FrontEnd.Template
