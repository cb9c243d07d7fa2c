import FrontEnd.Text.Cursor
import FrontEnd.Token.Basic
import FrontEnd.Lexeme.Scan

/-!
# Scanners

A scanner reads the tokens of a text one after another. It can be asked for the next token at any
time, also after a diagnostic: its cursor stays where the diagnostic was raised. Pulling tokens as
a stream leaves out the closing token and ends for good at the first diagnostic.
-/

namespace FrontEnd

/-- A cursor, the place where the token read last starts, and whether the stream has ended. -/
structure Scanner where
  cursor : Cursor
  start : Place
  finished : Bool
deriving DecidableEq, Repr

namespace Scanner

/-- The scanner in front of a text. -/
def ofList (cs : List Char) : Scanner := ⟨.ofList cs, .start, false⟩

/-- The scanner in front of a text. -/
def ofString (s : String) : Scanner := ofList s.toList

/-- Moves back to the front of the text and starts the stream anew. -/
def reset (s : Scanner) : Scanner := ofList s.cursor.text

/-- Passes a gap of the given width; the next token starts behind it. -/
def enter (s : Scanner) (gap : Nat) : Scanner :=
  ⟨s.cursor.pass gap, (s.cursor.pass gap).place, s.finished⟩

/-- Reads the lexeme that starts with `c` at the scanner's place. -/
def readLexeme (s : Scanner) (c : Char) (rest : List Char) : Except Diagnostic Token × Scanner :=
  match Lexeme.scan c rest with
  | .ok l =>
    (.ok ⟨l.kind, l.text, s.start.line, s.start.column⟩, { s with cursor := s.cursor.pass l.width })
  | .error f =>
    (.error (.ofCause f.cause f.character (s.cursor.pass f.reported).place.line
      (s.cursor.pass f.reported).place.column), { s with cursor := s.cursor.pass f.passed })

/-- Reads the token that starts at the scanner's place, or the closing token at the end. -/
def readToken (s : Scanner) : Except Diagnostic Token × Scanner :=
  match s.cursor.unread with
  | [] => (.ok (.endOfText s.start.line s.start.column), s)
  | c :: rest => s.readLexeme c rest

/-- Passes everything that is left and reports the block comment that it is part of. -/
def openComment (s : Scanner) : Except Diagnostic Token × Scanner :=
  let cursor := s.cursor.pass s.cursor.unread.length
  (.error (.ofCause .openComment (some '*') cursor.place.line cursor.place.column),
    { s with cursor := cursor })

/-- Reads the next token. At the end of the text that is the closing token, every time. -/
def next (s : Scanner) : Except Diagnostic Token × Scanner :=
  match Gap.width? 0 s.cursor.unread with
  | none => s.openComment
  | some gap => (s.enter gap).readToken

/-- Reading a token other than the closing one uses up at least its first character. -/
theorem readToken_unread_lt {s t : Scanner} {token : Token} (read : s.readToken = (.ok token, t))
    (more : token.isEnd = false) : t.cursor.unread.length < s.cursor.unread.length := by
  unfold readToken at read
  split at read
  · cases read
    simp [Token.isEnd, Token.endOfText] at more
  · rename_i c rest front
    unfold readLexeme at read
    split at read
    · cases read
      rw [Cursor.unread_pass, List.length_drop, front]
      exact Nat.sub_lt (Nat.succ_pos _) (Lexeme.width_pos _)
    · cases read

/-- Reading a token other than the closing one uses up text. -/
theorem next_unread_lt {s t : Scanner} {token : Token} (read : s.next = (.ok token, t))
    (more : token.isEnd = false) : t.cursor.unread.length < s.cursor.unread.length := by
  unfold next at read
  split at read
  · cases read
  · have shorter := readToken_unread_lt read more
    simp [enter] at shorter
    omega

/-- Reads tokens up to and including the closing one, after those already read (last first). -/
def readAll (tokens : List Token) (s : Scanner) : Except Diagnostic (List Token) × Scanner :=
  match read : s.next with
  | (.error d, t) => (.error d, t)
  | (.ok token, t) =>
    if more : token.isEnd = false then
      have := next_unread_lt read more
      readAll (token :: tokens) t
    else (.ok (token :: tokens).reverse, t)
termination_by s.cursor.unread.length

/-- Reads all tokens from here to the end of the text. -/
def tokens (s : Scanner) : Except Diagnostic (List Token) × Scanner := s.readAll []

/-- Pulls one item off the stream. -/
def pull (s : Scanner) : Option (Except Diagnostic Token) × Scanner :=
  if s.finished then (none, s)
  else
    match s.next with
    | (.error d, t) => (some (.error d), { t with finished := true })
    | (.ok token, t) =>
      if token.isEnd then (none, { t with finished := true }) else (some (.ok token), t)

/-- Pulls at most `n` items off the stream. -/
def pullUpTo : Nat → Scanner → List (Except Diagnostic Token) × Scanner
  | 0, s => ([], s)
  | n + 1, s =>
    match s.pull with
    | (none, t) => ([], t)
    | (some item, t) =>
      let (items, u) := pullUpTo n t
      (item :: items, u)

/-- A pulled token uses up text. -/
theorem pull_unread_lt {s t : Scanner} {token : Token} (read : s.pull = (some (.ok token), t)) :
    t.cursor.unread.length < s.cursor.unread.length := by
  unfold pull at read
  split at read
  · cases read
  · split at read
    · cases read
    · split at read
      · cases read
      · rename_i found more
        cases read
        exact next_unread_lt found (by simpa using more)

/-- Pulls the stream to its end, after the tokens already pulled (last first). -/
def collectAll (tokens : List Token) (s : Scanner) : Except Diagnostic (List Token) × Scanner :=
  match read : s.pull with
  | (none, t) => (.ok tokens.reverse, t)
  | (some (.error d), t) => (.error d, t)
  | (some (.ok token), t) =>
    have := pull_unread_lt read
    collectAll (token :: tokens) t
termination_by s.cursor.unread.length

/-- Pulls the stream to its end: its tokens, or its diagnostic. -/
def collect (s : Scanner) : Except Diagnostic (List Token) × Scanner := s.collectAll []

end Scanner

/-- The tokens of a text, the closing token last, or what is wrong with the text. -/
def tokenize (source : String) : Except Diagnostic (List Token) :=
  (Scanner.ofString source).tokens.1

end FrontEnd
