import Mathlib.Data.List.Chain
import FrontEnd.Proofs.Message.Pieces

/-!
# Words in a template

A template may be put together from words that were not written as templates. Filling it keeps the
words in front of its placeholder exactly if none of their percent signs goes with the character
behind it. Behind the placeholder nothing is left to be filled in, so there only a percent sign that
is written twice is not kept.
-/

namespace FrontEnd.Template

/-- Whether no percent sign of a text has one of some characters behind it. -/
def Unfollowed (followers cs : List Char) : Prop :=
  cs.IsChain fun c d => c = '%' → d ∉ followers

instance (followers cs : List Char) : Decidable (Unfollowed followers cs) :=
  inferInstanceAs (Decidable (cs.IsChain _))

/-- The text that pieces become without arguments. -/
def unfilled (pieces : List Piece) : List Char := pieces.flatMap (Piece.filled none)

variable {args : List String} {pieces front back : List Piece} {followers : List Char}

/-! ### Percent signs and what follows them -/

theorem unfollowed_of_not_mem {cs : List Char} (h : '%' ∉ cs) : Unfollowed followers cs := by
  induction cs with
  | nil => exact List.isChain_nil
  | cons c cs ih =>
      refine List.isChain_cons.mpr ⟨fun d _ hc => ?_, ih (List.not_mem_of_not_mem_cons h)⟩
      exact absurd hc.symm (List.ne_of_not_mem_cons h)

/-- A percent sign has one of some characters behind it exactly if both make up a piece. -/
theorem unfollowed_iff (hpercent : '%' ∈ followers) (hjoins : followers.all Piece.joins = true)
    (h : PiecesFit pieces []) :
    Unfollowed followers (piecesChars pieces) ↔
      ∀ p ∈ pieces, ∀ c ∈ followers, p.chars ≠ ['%', c] := by
  constructor
  · intro hchain p hp c hc hchars
    obtain ⟨front, back, rfl⟩ := List.append_of_mem hp
    rw [piecesChars_append, piecesChars_cons, hchars] at hchain
    have hpair := (List.isChain_append.mp hchain).2.1
    exact (List.isChain_cons_cons.mp hpair).1 rfl hc
  · intro hpieces
    induction pieces with
    | nil => exact List.isChain_nil
    | cons p pieces ih =>
        obtain ⟨hvalid, hapart, hrest⟩ := h
        have hp := hpieces p List.mem_cons_self
        have hchain := ih hrest fun q hq => hpieces q (List.mem_cons_of_mem _ hq)
        rw [piecesChars_cons]
        refine List.isChain_append.mpr ⟨?_, hchain, ?_⟩
        · cases p with
          | text chars => exact unfollowed_of_not_mem hvalid.2
          | doubled => exact absurd rfl (hp '%' hpercent)
          | placeholder letter =>
              exact List.isChain_pair.mpr fun _ hmem => hp letter hmem rfl
          | lone => exact List.isChain_singleton _
        · -- Only an ordinary percent sign ends with one, and no follower stands behind it.
          intro c hc d hd hpercent' hmem
          subst hpercent'
          cases p with
          | text chars => exact hvalid.2 (List.mem_of_getLast? hc)
          | doubled => exact hp '%' hpercent rfl
          | placeholder letter =>
              cases hc
              cases hvalid
          | lone =>
              rw [Piece.Apart, List.append_nil, startsWith, hd, Option.any_some] at hapart
              rw [List.all_eq_true.mp hjoins d hmem] at hapart
              cases hapart

theorem Piece.chars_eq_pair_iff {p : Piece} (h : p.Valid) {c : Char} :
    p.chars = ['%', c] ↔ (p = .doubled ∧ c = '%') ∨ p = .placeholder c := by
  cases p with
  | text chars =>
      refine iff_of_false (fun hchars => h.2 ?_) (by simp)
      rw [show chars = ['%', c] from hchars]
      exact List.mem_cons_self
  | doubled => simp [Piece.chars, eq_comm]
  | placeholder letter => simp [Piece.chars]
  | lone => simp [Piece.chars]

theorem PiecesFit.valid (h : PiecesFit pieces []) : ∀ p ∈ pieces, p.Valid := by
  induction pieces with
  | nil => intro p hp; cases hp
  | cons q pieces ih =>
      intro p hp
      rcases List.mem_cons.mp hp with rfl | hp
      · exact h.1
      · exact ih h.2.2 p hp

/-- No percent sign is written twice exactly if no piece is one that is. -/
theorem unfollowed_percent_iff (h : PiecesFit pieces []) :
    Unfollowed ['%'] (piecesChars pieces) ↔ .doubled ∉ pieces := by
  rw [unfollowed_iff (by decide) (by decide) h]
  constructor
  · intro hpieces hmem
    exact hpieces _ hmem '%' (by decide) rfl
  · intro hnot p hp c hc hchars
    rcases (Piece.chars_eq_pair_iff (h.valid p hp)).mp hchars with ⟨rfl, -⟩ | rfl
    · exact hnot hp
    · cases List.mem_singleton.mp hc
      exact absurd (h.valid _ hp) (by decide)

/-- No percent sign goes with the character behind it exactly if the pieces are texts and ordinary
percent signs. -/
theorem unfollowed_joins_iff (h : PiecesFit pieces []) :
    Unfollowed ['%', 'd', 's'] (piecesChars pieces) ↔
      .doubled ∉ pieces ∧ placeholders pieces = 0 := by
  rw [unfollowed_iff (by decide) (by decide) h, placeholders, List.countP_eq_zero]
  constructor
  · intro hpieces
    refine ⟨fun hmem => hpieces _ hmem '%' (by decide) rfl, fun p hp hplaceholder => ?_⟩
    cases p with
    | placeholder letter =>
        have hletter : isConversion letter = true := h.valid _ hp
        rw [isConversion, Bool.or_eq_true, beq_iff_eq, beq_iff_eq] at hletter
        exact hpieces _ hp letter (by simp [hletter]) rfl
    | text chars => cases hplaceholder
    | doubled => cases hplaceholder
    | lone => cases hplaceholder
  · rintro ⟨hnot, hnone⟩ p hp c hc hchars
    rcases (Piece.chars_eq_pair_iff (h.valid p hp)).mp hchars with ⟨rfl, -⟩ | rfl
    · exact hnot hp
    · exact hnone _ hp rfl

/-! ### Pieces without arguments -/

theorem unfilled_cons (p : Piece) (pieces : List Piece) :
    unfilled (p :: pieces) = p.filled none ++ unfilled pieces := List.flatMap_cons

theorem unfilled_append (front back : List Piece) :
    unfilled (front ++ back) = unfilled front ++ unfilled back := List.flatMap_append

theorem filledFrom_eq_unfilled (args : List String) {n : Nat} (h : args.length ≤ n) :
    filledFrom args n pieces = unfilled pieces := by
  induction pieces generalizing n with
  | nil => rfl
  | cons p pieces ih =>
      have hn : args.length ≤ if p.isPlaceholder then n + 1 else n := by
        split <;> omega
      rw [filledFrom, List.getElem?_eq_none h, ih hn, unfilled_cons]

/-- Pieces without a placeholder take no argument. -/
theorem filledFrom_of_placeholders (args : List String) (n : Nat) (h : placeholders pieces = 0) :
    filledFrom args n pieces = unfilled pieces := by
  induction pieces with
  | nil => rfl
  | cons p pieces ih =>
      rw [placeholders, List.countP_eq_zero] at h
      have hp := h p List.mem_cons_self
      have hrest := ih (List.countP_eq_zero.mpr fun q hq => h q (List.mem_cons_of_mem _ hq))
      rw [filledFrom, if_neg hp, hrest, unfilled_cons]
      cases p with
      | placeholder letter => exact absurd rfl hp
      | text chars => rfl
      | doubled => rfl
      | lone => rfl

theorem filledFrom_append (args : List String) (n : Nat) (front back : List Piece) :
    filledFrom args n (front ++ back) =
      filledFrom args n front ++ filledFrom args (n + placeholders front) back := by
  induction front generalizing n with
  | nil => rfl
  | cons p front ih =>
      rw [List.cons_append, filledFrom, filledFrom, ih, add_placeholders_cons, List.append_assoc]

/-- Without arguments, pieces lose one character for every percent sign that is written twice. -/
theorem length_unfilled_add (pieces : List Piece) :
    (unfilled pieces).length + pieces.count .doubled = (piecesChars pieces).length := by
  induction pieces with
  | nil => rfl
  | cons p pieces ih =>
      rw [unfilled_cons, List.length_append, piecesChars_cons, List.length_append, ← ih,
        List.count_cons]
      cases p <;> simp [Piece.filled, Piece.chars] <;> omega

/-- Without arguments and doubled percent signs, pieces stay as they are. -/
theorem unfilled_eq (h : .doubled ∉ pieces) : unfilled pieces = piecesChars pieces := by
  induction pieces with
  | nil => rfl
  | cons p pieces ih =>
      rw [unfilled_cons, piecesChars_cons, ih (List.not_mem_of_not_mem_cons h)]
      cases p with
      | doubled => exact absurd List.mem_cons_self h
      | text chars => rfl
      | placeholder letter => rfl
      | lone => rfl

/-! ### A placeholder between two words -/

variable {word next arg : String}

theorem PiecesFit.of_startsWith (h : PiecesFit pieces []) {after : List Char}
    (ha : startsWith Piece.joins after = false) : PiecesFit pieces after := by
  induction pieces with
  | nil => trivial
  | cons p pieces ih =>
      obtain ⟨hvalid, hapart, hrest⟩ := h
      refine ⟨hvalid, ?_, ih hrest⟩
      cases p with
      | lone =>
          rw [List.append_nil] at hapart
          exact startsWith_append hapart ha
      | text chars => trivial
      | doubled => trivial
      | placeholder letter => trivial

theorem PiecesFit.append {after : List Char} (hfront : PiecesFit front (piecesChars back ++ after))
    (hback : PiecesFit back after) : PiecesFit (front ++ back) after := by
  induction front with
  | nil => exact hback
  | cons p front ih =>
      obtain ⟨hvalid, hapart, hrest⟩ := hfront
      refine ⟨hvalid, ?_, ih hrest⟩
      rwa [List.append_eq, piecesChars_append, List.append_assoc]

theorem exists_first_placeholder (h : placeholders pieces ≠ 0) :
    ∃ front letter rest, pieces = front ++ .placeholder letter :: rest ∧
      placeholders front = 0 := by
  have hsome : (pieces.find? Piece.isPlaceholder).isSome = true :=
    List.find?_isSome.mpr (List.countP_pos_iff.mp (Nat.pos_of_ne_zero h))
  obtain ⟨p, hp⟩ := Option.isSome_iff_exists.mp hsome
  obtain ⟨hplaceholder, front, rest, rfl, hfront⟩ := List.find?_eq_some_iff_append.mp hp
  cases p with
  | placeholder letter =>
      exact ⟨front, letter, rest, rfl, List.countP_eq_zero.mpr (by simpa using hfront)⟩
  | text chars => cases hplaceholder
  | doubled => cases hplaceholder
  | lone => cases hplaceholder

/-- The pieces between two words: a placeholder for a number with a space on either side. -/
def numberBetween : List Piece := [.text [' '], .placeholder 'd', .text [' ']]

theorem fallsInto_between (hword : FallsInto word front) (hnext : FallsInto next back) :
    FallsInto (word ++ " %d " ++ next) (front ++ (numberBetween ++ back)) := by
  have hnumber : PiecesFit numberBetween [] := by decide
  have hmiddle : PiecesFit (numberBetween ++ back) [] :=
    PiecesFit.append (hnumber.of_getLast? (by decide) _) hnext.2
  have hfirst : PiecesFit front (piecesChars (numberBetween ++ back) ++ []) :=
    hword.2.of_startsWith rfl
  refine ⟨?_, hfirst.append hmiddle⟩
  rw [piecesChars_append, piecesChars_append, hword.1, hnext.1, String.toList_append,
    String.toList_append, List.append_assoc]
  rfl

/-- Behind a word without a placeholder, the argument stands in its own place. -/
theorem fill_between_of_placeholders (hword : FallsInto word front) (hnext : FallsInto next back)
    (h : placeholders front = 0) (arg : String) :
    (fill (word ++ " %d " ++ next) [arg]).toList =
      unfilled front ++ (' ' :: (arg.toList ++ ' ' :: unfilled back)) := by
  have hback : filledFrom [arg] 1 back = unfilled back := filledFrom_eq_unfilled [arg] le_rfl
  rw [fill_of_fallsInto (fallsInto_between hword hnext), filledPieces, String.toList_ofList,
    filledFrom_append, filledFrom_of_placeholders [arg] 0 h, h, ← hback]
  rfl

/-- A placeholder in the word takes the argument, and the one behind the word stays. -/
theorem fill_between_of_placeholder {letter : Char} {rest : List Piece}
    (hword : FallsInto word (front ++ .placeholder letter :: rest)) (hnext : FallsInto next back)
    (h : placeholders front = 0) (arg : String) :
    (fill (word ++ " %d " ++ next) [arg]).toList =
      unfilled front ++ (arg.toList ++ (unfilled rest ++
        (' ' :: '%' :: 'd' :: ' ' :: unfilled back))) := by
  have hbehind : filledFrom [arg] 1 (rest ++ (numberBetween ++ back)) =
      unfilled (rest ++ (numberBetween ++ back)) := filledFrom_eq_unfilled [arg] le_rfl
  rw [fill_of_fallsInto (fallsInto_between hword hnext), filledPieces, String.toList_ofList,
    List.append_assoc, filledFrom_append, filledFrom_of_placeholders [arg] 0 h, h,
    List.cons_append, filledFrom]
  change _ ++ (arg.toList ++ filledFrom [arg] 1 (rest ++ (numberBetween ++ back))) = _
  rw [hbehind, unfilled_append]
  rfl

theorem toList_between (hword : FallsInto word front) (hnext : FallsInto next back) (arg : String) :
    (word ++ " " ++ arg ++ " " ++ next).toList =
      piecesChars front ++ (' ' :: (arg.toList ++ ' ' :: piecesChars back)) := by
  simp only [String.toList_append, List.append_assoc, hword.1, hnext.1]
  rfl

/-- Behind a word without a placeholder, both words are kept exactly if no percent sign is written
twice in them. -/
theorem fill_between_eq_iff_of_placeholders (hword : FallsInto word front)
    (hnext : FallsInto next back) (h : placeholders front = 0) (arg : String) :
    fill (word ++ " %d " ++ next) [arg] = word ++ " " ++ arg ++ " " ++ next ↔
      .doubled ∉ front ∧ .doubled ∉ back := by
  rw [← String.toList_inj, fill_between_of_placeholders hword hnext h,
    toList_between hword hnext]
  constructor
  · intro heq
    have hfront := length_unfilled_add front
    have hback := length_unfilled_add back
    have hlength := congrArg List.length heq
    simp only [List.length_append, List.length_cons] at hlength
    exact ⟨List.count_eq_zero.mp (by omega), List.count_eq_zero.mp (by omega)⟩
  · rintro ⟨hfront, hback⟩
    rw [unfilled_eq hfront, unfilled_eq hback]

/-- A word with a placeholder is not kept, since the argument stands there in its place. -/
theorem fill_between_ne_of_placeholders {c : Char} {cs : List Char} (harg : arg.toList = c :: cs)
    (hc : c ≠ '%') (hword : FallsInto word front) (hnext : FallsInto next back)
    (h : placeholders front ≠ 0) :
    fill (word ++ " %d " ++ next) [arg] ≠ word ++ " " ++ arg ++ " " ++ next := by
  intro heq
  obtain ⟨before, letter, rest, rfl, hbefore⟩ := exists_first_placeholder h
  rw [← String.toList_inj, fill_between_of_placeholder hword hnext hbefore,
    toList_between hword hnext, piecesChars_append, piecesChars_cons, List.append_assoc] at heq
  have hkept : before.count .doubled = 0 := by
    have hfront := length_unfilled_add before
    have hrest := length_unfilled_add rest
    have hback := length_unfilled_add back
    have hlength := congrArg List.length heq
    simp only [List.length_append, List.length_cons, Piece.chars, List.length_nil] at hlength
    omega
  -- The pieces in front of the placeholder are kept, so the argument stands where it stood.
  rw [unfilled_eq (List.count_eq_zero.mp hkept), List.append_cancel_left_eq, harg] at heq
  exact hc (List.cons.inj heq).1

/-- The words of a template are kept, with the argument between them, exactly if no percent sign of
the first word goes with the character behind it, and none of the second word is written twice. -/
theorem fill_between_eq_iff {c : Char} {cs : List Char} (harg : arg.toList = c :: cs)
    (hc : c ≠ '%') (word next : String) :
    fill (word ++ " %d " ++ next) [arg] = word ++ " " ++ arg ++ " " ++ next ↔
      Unfollowed ['%', 'd', 's'] word.toList ∧ Unfollowed ['%'] next.toList := by
  obtain ⟨front, hword⟩ := exists_fallsInto word
  obtain ⟨back, hnext⟩ := exists_fallsInto next
  rw [← hword.1, ← hnext.1, unfollowed_joins_iff hword.2, unfollowed_percent_iff hnext.2]
  by_cases h : placeholders front = 0
  · rw [fill_between_eq_iff_of_placeholders hword hnext h]
    simp [h]
  · refine iff_of_false ?_ (fun hkept => h hkept.1.2)
    exact fill_between_ne_of_placeholders harg hc hword hnext h

end FrontEnd.Template
