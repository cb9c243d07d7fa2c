/-!
# Control sequences

A terminal takes some characters as commands: the controls, and the sequences that an escape
character starts. The plain form of a text is what is left without them, for output that does not
go to a terminal. Of the controls only white space is kept, and a text of visible characters is
its own plain form.
-/

namespace FrontEnd.Terminal

/-- Where in a sequence a character stands. -/
inductive Phase where
  /-- Outside of sequences. -/
  | ground
  /-- Behind an escape character. -/
  | escape
  /-- In a sequence of an escape character and intermediate characters. -/
  | designator
  /-- In a control sequence, up to its final character. -/
  | control
  /-- At the start of a device control string. -/
  | device
  /-- Among the parameters of a device control string. -/
  | deviceParameter
  /-- Among the intermediate characters of a device control string. -/
  | deviceIntermediate
  /-- In the body of a string that is not a system command. -/
  | body
  /-- In the string of a system command. -/
  | command
deriving DecidableEq, Repr

/-- The controls that lay out text: tab, line feed, form feed and carriage return. -/
def isLayout (c : Char) : Bool := c == '\t' || c == '\n' || c == '\x0c' || c == '\r'

/-- The characters that are shown as they are: all but the ASCII controls. -/
def isVisible (c : Char) : Bool := ' ' ≤ c && c != '\x7f'

/-- Whether a character ends the body of a string: the byte 9C does, also in the encoding of a
character. -/
def endsBody (c : Char) : Bool := (String.utf8EncodeChar c).contains 0x9c

/-- The phase that the character behind an escape character leads to. -/
def afterEscape (c : Char) : Option Phase :=
  if c < '0' then some .designator
  else
    match c with
    | '[' => some .control
    | ']' => some .command
    | 'P' => some .device
    | 'X' | '^' | '_' => some .body
    | c => if c < '\x7f' then some .ground else none

/-- The phase that a visible character of a sequence leads to, if it is another one. -/
def advance (phase : Phase) (c : Char) : Option Phase :=
  match phase with
  | .ground => if c < '\x7f' then none else some .ground
  | .escape => afterEscape c
  | .designator => if '0' ≤ c ∧ c < '\x7f' then some .ground else none
  | .control => if '@' ≤ c ∧ c < '\x7f' then some .ground else none
  | .device =>
    if c < '0' then some .deviceIntermediate
    else if c < '@' then some .deviceParameter
    else if c < '\x7f' then some .body
    else none
  | .deviceParameter =>
    if c < '0' then some .deviceIntermediate
    else if c < '<' then none
    else if c < '\x7f' then some .body
    else none
  | .deviceIntermediate => if '0' ≤ c ∧ c < '\x7f' then some .body else none
  | .body => if endsBody c then some .ground else none
  | .command => none

/-- Whether white space in a phase is text. In strings it is not. -/
def showsLayout : Phase → Bool
  | .ground | .escape | .designator | .control => true
  | _ => false

/-- What a character does in a phase: the phase it leads to, if it is another one, and whether the
character is text. -/
def react (phase : Phase) (c : Char) : Option Phase × Bool :=
  if c = '\x1b' then (some .escape, false)
  else if c = '\x18' ∨ c = '\x1a' then (some .ground, false)
  else if isVisible c then (advance phase c, phase == .ground)
  else if c = '\x07' ∧ phase = .command then (some .ground, false)
  else (none, isLayout c && showsLayout phase)

/-- A phase, and whether the last character was text. White space in a sequence only interrupts
it: what follows is text as well, and at the next control the sequence goes on. -/
structure Progress where
  phase : Phase
  inText : Bool
deriving DecidableEq, Repr

namespace Progress

/-- At the start of a text. -/
def start : Progress := ⟨.ground, true⟩

/-- Takes a character as part of the sequence. -/
def take (phase : Phase) (c : Char) : Progress × Bool :=
  let (next, shown) := react phase c
  (⟨next.getD phase, shown⟩, shown)

/-- Takes a character, and says whether it is text. -/
def step (p : Progress) (c : Char) : Progress × Bool :=
  if p.inText then
    match react .ground c with
    | (next, true) => (⟨next.getD p.phase, true⟩, true)
    | (next, false) => take (next.getD p.phase) c
  else take p.phase c

end Progress

/-- The text that is left of characters without their control sequences. -/
def plainFrom (p : Progress) : List Char → List Char
  | [] => []
  | c :: rest =>
    let (q, shown) := p.step c
    if shown then c :: plainFrom q rest else plainFrom q rest

/-- The plain form of a text. -/
def plain (text : String) : String := String.ofList (plainFrom .start text.toList)

theorem step_start_of_isVisible {c : Char} (visible : isVisible c = true) :
    Progress.start.step c = (.start, true) := by
  have noEscape : c ≠ '\x1b' := by rintro rfl; exact absurd visible (by decide)
  have noCancel : ¬(c = '\x18' ∨ c = '\x1a') := by
    rintro (rfl | rfl) <;> exact absurd visible (by decide)
  by_cases ascii : c < '\x7f' <;>
    simp [Progress.step, Progress.start, react, noEscape, noCancel, visible, advance, ascii]

/-- Behind a finished sequence a text goes on as from its start. -/
theorem plainFrom_ground (inText : Bool) (cs : List Char) :
    plainFrom ⟨.ground, inText⟩ cs = plainFrom .start cs := by
  have same (c : Char) : Progress.step ⟨.ground, inText⟩ c = Progress.start.step c := by
    cases inText with
    | true => rfl
    | false =>
      unfold Progress.step Progress.start Progress.take react
      by_cases escape : c = '\x1b'
      · simp [escape]
      · by_cases cancel : c = '\x18' ∨ c = '\x1a'
        · simp [escape, cancel]
        · by_cases visible : isVisible c = true
          · simp [escape, cancel, visible]
          · cases isLayout c <;> simp [escape, cancel, visible, showsLayout]
  cases cs with
  | nil => rfl
  | cons c cs => simp only [plainFrom, same]

/-- Visible characters stay as they are, whatever follows them. -/
theorem plainFrom_start_append {cs : List Char} (visible : ∀ c ∈ cs, isVisible c = true)
    (rest : List Char) : plainFrom .start (cs ++ rest) = cs ++ plainFrom .start rest := by
  induction cs with
  | nil => rfl
  | cons c cs ih =>
    have first := step_start_of_isVisible (visible c (by simp))
    have others := ih fun d hd => visible d (by simp [hd])
    simp [plainFrom, first, others]

/-- A text of visible characters is its own plain form. -/
theorem plain_eq_self {text : String} (visible : ∀ c ∈ text.toList, isVisible c = true) :
    plain text = text := by
  have kept := plainFrom_start_append visible []
  simp only [List.append_nil, plainFrom] at kept
  rw [plain, kept, String.ofList_toList]

end FrontEnd.Terminal
