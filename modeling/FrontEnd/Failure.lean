import FrontEnd.Diagnostic
import FrontEnd.Export.Format
import FrontEnd.Settings.Basic

/-!
# Failures

What can go wrong in a run of the program, from its settings to its output.
-/

namespace FrontEnd

/-- Why settings cannot be loaded. -/
inductive Settings.Problem where
  | missing (path : String)
  | malformed
  /-- Another reason, in the words given. -/
  | stated (text : String)
deriving DecidableEq, Repr

/-- The words for a problem. -/
def Settings.Problem.message : Settings.Problem → String
  | missing path => "Configuration file not found: " ++ path
  | malformed => "Failed to parse configuration"
  | stated text => text

/-- Why a run of the program failed. -/
inductive Failure where
  /-- The settings cannot be loaded. -/
  | settings (problem : Settings.Problem)
  /-- The settings break a rule. -/
  | invalid (violation : Settings.Violation)
  /-- The source file cannot be read. -/
  | unreadable (path : String)
  /-- There is no source file. -/
  | noSource
  /-- The source text is wrong. -/
  | lexical (diagnostic : Diagnostic)
  /-- There is no such export format. -/
  | unknownFormat (name : String)
  /-- The file system refused a request. -/
  | files (detail : String)
deriving DecidableEq, Repr

/-- The plain English line for a failure. -/
def Failure.message : Failure → String
  | settings problem => "Configuration error: " ++ problem.message
  | invalid violation => "Validation error: " ++ violation.message
  | unreadable path => "Cannot open file: " ++ path
  | noSource => "No source file specified"
  | lexical diagnostic => diagnostic.display
  | unknownFormat name => "Export error: " ++ Format.unknownMessage name
  | files detail => "IO error: " ++ detail

/-- The line for a failure with its phrases translated. -/
def Failure.describe (l : Localization) : Failure → String
  | lexical diagnostic => l.text "Lexical Error" ++ ": " ++ diagnostic.localized l.translator
  | unreadable path => l.text "Error" ++ ": " ++ l.text "Cannot open file" ++ ": " ++ path
  | noSource => l.text "Error" ++ ": " ++ l.text "No source file specified"
  | failure => l.text "Error" ++ ": " ++ failure.message

end FrontEnd
