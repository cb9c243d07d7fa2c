import FrontEnd.Proofs.Lexeme.LookAhead
import FrontEnd.Proofs.Scanner.Requests
import FrontEnd.Proofs.Text.Moves

/-!
# How far a scanner looks ahead

An answer of a scanner is settled by the text up to two characters behind the place where the
scanner then stands. Over any other text that agrees with it up to there, the same scanner gives the
same answer and goes to the same place.
-/

namespace FrontEnd

namespace Scanner

variable {cs as : List Char}

/-- Behind the same text, the answer is the same in front of all texts that agree on what the
scanner passes and on two characters behind it, and so is the gap. -/
theorem answer_append_of_lt {before : List Char}
    (h : (answer before (cs ++ as)).2 + 1 < cs.length) (bs : List Char) :
    Gap.width? 0 (cs ++ bs) = Gap.width? 0 (cs ++ as) ∧
      answer before (cs ++ bs) = answer before (cs ++ as) := by
  cases hw : Gap.width? 0 (cs ++ as) with
  | none =>
      -- What stays open is passed to the end of the text.
      rw [answer_open before hw, List.length_append] at h
      omega
  | some gap =>
      have hle : gap ≤ (answer before (cs ++ as)).2 := le_answer _ hw
      have htake : ∀ n ≤ cs.length, ∀ ds, (cs ++ ds).take n = cs.take n :=
        fun n hn ds => List.take_append_of_le_length hn
      have hwidth : Gap.width? 0 (cs ++ bs) = some gap :=
        Gap.width?_append_of_lt hw (by omega) bs
      obtain ⟨c, rest, hrest⟩ : ∃ c rest, cs.drop gap = c :: rest :=
        List.exists_cons_of_ne_nil (by simpa using by omega)
      have hdrop : ∀ ds, (cs ++ ds).drop gap = c :: (rest ++ ds) := by
        intro ds
        rw [List.drop_append_of_le_length (by omega), hrest, List.cons_append]
      have hlength : rest.length + 1 = cs.length - gap := by
        rw [← List.length_drop, hrest, List.length_cons]
      have hreach := answer_reach before hw (hdrop as)
      have hscan : Lexeme.scan c (rest ++ bs) = Lexeme.scan c (rest ++ as) :=
        Lexeme.scan_append_of_lt (by omega) bs
      refine ⟨hwidth, ?_⟩
      cases hs : Lexeme.scan c (rest ++ as) with
      | ok l =>
          rw [answer_lexeme before hwidth (hdrop bs) (hscan.trans hs),
            answer_lexeme before hw (hdrop as) hs, htake gap (by omega), htake gap (by omega)]
      | error f =>
          have hreported := (Lexeme.scan_within hs).reported_le
          rw [hs, Lexeme.reach] at hreach
          rw [answer_fault before hwidth (hdrop bs) (hscan.trans hs),
            answer_fault before hw (hdrop as) hs, htake _ (by omega), htake _ (by omega)]

/-- The scanner in front of another text, behind the same one. -/
def facing (s : Scanner) (unread : List Char) : Scanner :=
  ⟨⟨s.cursor.passed, unread, s.cursor.place⟩, s.start, s.finished⟩

/-- In front of a text that agrees with the one that is left on what the scanner passes and on two
more characters, the next answer is the same, and what it leaves of that text is still to read. -/
theorem next_facing {s : Scanner} (hs : s.cursor.Placed) (hu : s.cursor.unread = cs ++ as)
    (hlt : (answer s.before (cs ++ as)).2 + 1 < cs.length) (bs : List Char) :
    (s.facing (cs ++ bs)).next =
      (s.next.1, s.next.2.facing (cs.drop (answer s.before (cs ++ as)).2 ++ bs)) := by
  let t := s.facing (cs ++ bs)
  have ht : t.cursor.Placed := hs
  obtain ⟨hwidth, hsame⟩ := answer_append_of_lt hlt bs
  have hpass : ∀ n < cs.length, t.cursor.pass n =
      ⟨(s.cursor.pass n).passed, cs.drop n ++ bs, (s.cursor.pass n).place⟩ :=
    fun n hn => Cursor.pass_append_of_le hu (Nat.le_of_lt hn) bs
  have hanswer : t.next.1 = s.next.1 := by
    rw [(next_eq_answer ht).1, (next_eq_answer hs).1, hu]
    exact congrArg Prod.fst hsame
  have hcursor : t.next.2.cursor =
      ⟨s.next.2.cursor.passed, cs.drop (answer s.before (cs ++ as)).2 ++ bs,
        s.next.2.cursor.place⟩ := by
    rw [(next_eq_answer ht).2, (next_eq_answer hs).2, hu, ← hpass _ (by omega)]
    exact congrArg (fun r => t.cursor.pass r.2) hsame
  have hstart : t.next.2.start = s.next.2.start := by
    cases hw : Gap.width? 0 (cs ++ as) with
    | none => rw [next_start_open (hwidth.trans hw), next_start_open (hu ▸ hw)]; rfl
    | some gap =>
        have hle : gap ≤ (answer s.before (cs ++ as)).2 := le_answer _ hw
        have hplace := congrArg Cursor.place (hpass gap (by omega))
        rw [next_start (hwidth.trans hw), next_start (hu ▸ hw)]
        exact hplace
  have hfinished : t.next.2.finished = s.next.2.finished :=
    (next_finished t).trans (next_finished s).symm
  calc t.next = (t.next.1, ⟨t.next.2.cursor, t.next.2.start, t.next.2.finished⟩) := rfl
    _ = _ := by rw [hanswer, hcursor, hstart, hfinished, facing]

/-- The scanner in the same state over another text: it stands at the same offset, line and column,
and its token starts at the same place. -/
def onto (s : Scanner) (other : String) : Scanner :=
  { s with cursor := (Cursor.ofString other).restore s.cursor.place }

/-- Over a text that starts with what a scanner has passed, the scanner stands behind that. -/
theorem onto_eq_facing {s : Scanner} (hs : s.cursor.Placed) {other : String}
    {rest : List Char} (h : other.toList = s.before ++ rest) : s.onto other = s.facing rest := by
  have hc : Cursor.StandsIn other.toList ⟨s.cursor.passed, rest, s.cursor.place⟩ := ⟨hs, h.symm⟩
  rw [onto]
  exact congrArg (fun c => { s with cursor := c }) (hc.restore_place (.ofList _))

/-- Let any requests be made to a scanner in front of a text, and let two characters or more be left
behind the place where it stands after giving its next answer. Over every other text that agrees
with the first one up to there and on two more characters, the scanner in the same state gives the
same answer and ends in the same state: at the same offset, line and column, with the same start of
its token. -/
theorem next_onto (source other : String) (requests : List Request) :
    let s := (ofString source).performAll requests
    let q := s.next.2.cursor
    2 ≤ q.unread.length → q.passed.reverse ++ q.unread.take 2 <+: other.toList →
      (s.onto other).next = (s.next.1, s.next.2.onto other) := by
  intro s q hlength hprefix
  have hs : s.cursor.Placed := (reads_performAll source requests).placed
  obtain ⟨bs, hbs⟩ := hprefix
  let n := (answer s.before s.cursor.unread).2
  let cs := s.cursor.unread.take (n + 2)
  have hcursor : q = s.cursor.pass n := (next_eq_answer hs).2
  have hu : s.cursor.unread = cs ++ s.cursor.unread.drop (n + 2) :=
    (List.take_append_drop _ _).symm
  have hn : (answer s.before (cs ++ s.cursor.unread.drop (n + 2))).2 = n := by rw [← hu]
  have hlt : (answer s.before (cs ++ s.cursor.unread.drop (n + 2))).2 + 1 < cs.length := by
    rw [hcursor, Cursor.unread_pass, List.length_drop] at hlength
    rw [hn, List.length_take]
    omega
  -- Behind the answer, the two characters in common are what is left of the common text.
  have hunread : q.unread.take 2 = cs.drop n := by
    rw [hcursor, Cursor.unread_pass, List.drop_take, Nat.add_sub_cancel_left]
  have hbefore : s.next.2.before = s.before ++ cs.take n := by
    change q.passed.reverse = s.cursor.passed.reverse ++ cs.take n
    rw [hcursor, Cursor.passed_pass, List.reverse_append, List.reverse_reverse, List.take_take,
      Nat.min_eq_left (Nat.le_add_right n 2)]
  have hother : other.toList = s.next.2.before ++ (cs.drop n ++ bs) := by
    rw [← hbs, hunread, List.append_assoc]
    rfl
  have hother' : other.toList = s.before ++ (cs ++ bs) := by
    rw [hother, hbefore, List.append_assoc, ← List.append_assoc _ _ bs, List.take_append_drop]
  calc (s.onto other).next = (s.facing (cs ++ bs)).next := by rw [onto_eq_facing hs hother']
    _ = (s.next.1, s.next.2.facing (cs.drop n ++ bs)) := by
      rw [next_facing hs hu hlt bs, hn]
    _ = (s.next.1, s.next.2.onto other) := by
      have hq : s.next.2.cursor.Placed := (reads_performAll source requests).next.placed
      rw [onto_eq_facing hq hother]

/-- An exponent without digits is reported between its sign and a name. The text goes on behind the
name with a semicolon, or with a semicolon and an open string. -/
theorem next_onto_exponent :
    let s := (ofString "a\n/* é */2e+x;").performAll [.next, .next]
    let other := "a\n/* é */2e+x;\""
    s.next.2.cursor.place = ⟨13, 2, 11⟩ ∧
      (s.onto other).next = (s.next.1, s.next.2.onto other) :=
  ⟨by decide +kernel, next_onto _ _ _ (by decide +kernel) (by decide +kernel)⟩

end Scanner

end FrontEnd
