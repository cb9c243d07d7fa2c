import FrontEnd.CommandLine.Parameter
import FrontEnd.Terminal.Style

/-!
# Help and version texts

The help text is styled text. It lists the options in two columns: how an option is given, and what
it does.
-/

namespace FrontEnd.CommandLine

open Terminal (Style)

/-- The text for a request of the version. -/
def versionText : String := "dreamc 0.2.0\n"

/-- A number of spaces. -/
def blanks (count : Nat) : String := String.ofList (List.replicate count ' ')

/-- The column at which descriptions start. -/
def descriptionColumn : Nat := 33

/-- A description whose further lines start in its column as well. -/
def indented (description : String) : String :=
  String.join (description.toList.map fun c =>
    if c = '\n' then "\n" ++ blanks descriptionColumn else c.toString)

/-- What an option does. -/
def summary : Parameter → String
  | .source => "Source file to compile"
  | .tokens => "Show tokenization result"
  | .emit => "Serialize the token stream [possible values: json, toml]"
  | .output => "Write the serialized token stream to a file"
  | .locale => "Set locale (e.g., zh_CN, en_US)"
  | .config => "Set default config (without a source file) or use a config file for this run"
  | .localeDir => "Directory holding message catalogs"
  | .verbose => "Enable verbose output"
  | .noColor => "Disable color output"
  | .help => "Print help"
  | .version => "Print version"

/-- The environment variable of an option as its name and value, if it has one. -/
def variableText (env : Environment) (p : Parameter) : String :=
  match p.environmentName? with
  | some name => " [env: " ++ name ++ "=" ++ (env name).getD "" ++ "]"
  | none => ""

/-- How an option is given. -/
def invocation (p : Parameter) : String :=
  let short :=
    match p.short? with
    | some letter => Style.literal.paint (String.ofList ['-', letter]) ++ ", "
    | none => "    "
  let long :=
    match p.long? with
    | some name => Style.literal.paint ("--" ++ name)
    | none => ""
  "  " ++ short ++ long ++ p.placeholder

/-- The lines of the help text for one option. -/
def optionText (env : Environment) (p : Parameter) : String :=
  let given := invocation p
  given ++ blanks (descriptionColumn - (Terminal.plain given).length) ++
    indented (summary p ++ variableText env p)

/-- The options in the order of the help text. -/
def listedOptions : List Parameter := Parameter.all.filter (·.long?.isSome)

/-- The text for a request of help, as styled text. -/
def helpText (env : Environment) : String :=
  String.join <| List.map (· ++ "\n") <|
    [ "The DreamLang compiler",
      "",
      Style.heading.paint "Usage:" ++ " " ++ Style.literal.paint "dreamc" ++
        " [OPTIONS] [SOURCE]",
      "",
      Style.heading.paint "Arguments:",
      "  [SOURCE]  " ++ summary .source,
      "",
      Style.heading.paint "Options:" ] ++
    listedOptions.map (optionText env)

end FrontEnd.CommandLine
