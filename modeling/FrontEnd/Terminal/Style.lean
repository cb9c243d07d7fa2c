import FrontEnd.Table
import FrontEnd.Terminal.Sequence

/-!
# Styled text

Text is styled by control sequences around it. Styled text is written as it is if the environment
asks for colors, and in its plain form otherwise.
-/

namespace FrontEnd.Terminal

/-- The roles that parts of a text have for their looks. -/
inductive Style where
  /-- The title of a part of the text. -/
  | heading
  /-- The word that announces a problem. -/
  | problem
  /-- What is to be typed as it stands. -/
  | literal
  /-- What is wrong. -/
  | invalid
deriving DecidableEq, Repr

namespace Style

/-- The sequences that turn a style on, out of bold (1), underlined (4), red (31) and
yellow (33). -/
def on : Style → String
  | heading => "\x1b[1m\x1b[4m"
  | problem => "\x1b[1m\x1b[31m"
  | literal => "\x1b[1m"
  | invalid => "\x1b[33m"

/-- The sequence that turns every style off. -/
def off : String := "\x1b[0m"

/-- A text in a style. -/
def paint (style : Style) (text : String) : String := style.on ++ text ++ off

/-- The sequence that turns a style on is not text. -/
theorem plainFrom_on (style : Style) (cs : List Char) :
    plainFrom .start (style.on.toList ++ cs) = plainFrom .start cs := by
  rw [← plainFrom_ground false cs]
  cases style <;> rfl

/-- The plain form of a styled text is the text, if its characters are visible. -/
theorem plain_paint (style : Style) {text : String}
    (visible : ∀ c ∈ text.toList, isVisible c = true) : plain (style.paint text) = text := by
  have closed : plainFrom .start off.toList = [] := rfl
  rw [plain, paint, String.toList_append, String.toList_append, List.append_assoc,
    plainFrom_on, plainFrom_start_append visible, closed, List.append_nil, String.ofList_toList]

end Style

/-- The variable that, when filled, turns colors off. -/
def colorOff : String := "NO_COLOR"

/-- The variable that, when filled, turns colors on for output that goes to no terminal. -/
def colorOn : String := "CLICOLOR_FORCE"

/-- Whether the environment asks for colors. -/
def usesColor (env : Environment) : Bool := !env.isFilled colorOff && env.isFilled colorOn

/-- A styled text as it is written. -/
def written (env : Environment) (text : String) : String :=
  if usesColor env then text else plain text

end FrontEnd.Terminal
