import FrontEnd.Export.Format

/-!
# Parameters of the command

The command takes one source file and a number of options. Some options take a value, and some can
also be set by an environment variable.
-/

namespace FrontEnd.CommandLine

/-- What can be given on the command line. -/
inductive Parameter where
  | source
  | tokens
  | emit
  | output
  | locale
  | config
  | localeDir
  | verbose
  | noColor
  | help
  | version
deriving DecidableEq, Repr

namespace Parameter

/-- The parameters in the order in which they are looked up in the environment. -/
def all : List Parameter :=
  [source, tokens, emit, output, locale, config, localeDir, verbose, noColor, help, version]

/-- The long name of an option. -/
def long? : Parameter → Option String
  | source => none
  | tokens => some "tokens"
  | emit => some "emit"
  | output => some "output"
  | locale => some "locale"
  | config => some "config"
  | localeDir => some "locale-dir"
  | verbose => some "verbose"
  | noColor => some "no-color"
  | help => some "help"
  | version => some "version"

/-- The letter of an option. -/
def short? : Parameter → Option Char
  | tokens => some 't'
  | emit => some 'e'
  | output => some 'o'
  | locale => some 'l'
  | config => some 'c'
  | verbose => some 'v'
  | help => some 'h'
  | version => some 'V'
  | _ => none

/-- The environment variable that stands in for an option. -/
def environmentName? : Parameter → Option String
  | locale => some "DREAMC_LOCALE"
  | config => some "DREAMC_CONFIG"
  | localeDir => some "DREAMC_LOCALE_DIR"
  | verbose => some "DREAMC_VERBOSE"
  | noColor => some "DREAMC_NO_COLOR"
  | _ => none

/-- Whether an option takes a value. -/
def takesValue : Parameter → Bool
  | source | emit | output | locale | config | localeDir => true
  | _ => false

/-- What stands for the value of an option behind its name. -/
def placeholder : Parameter → String
  | emit => " <EMIT>"
  | output => " <OUTPUT>"
  | locale => " <LOCALE>"
  | config => " <CONFIG>"
  | localeDir => " <LOCALE_DIR>"
  | _ => ""

/-- How messages name a parameter. -/
def label (p : Parameter) : String :=
  match p.long? with
  | some name => "--" ++ name ++ p.placeholder
  | none => "[SOURCE]"

/-- Whether a value is one that a parameter takes. Only a locale may be empty. -/
def accepts : Parameter → String → Bool
  | locale, _ => true
  | emit, value => value == Format.json.name || value == Format.toml.name
  | source, value | output, value | config, value | localeDir, value => !value.isEmpty
  | _, value => value == "true" || value == "false"

/-- The option with a long name. -/
def ofLong? (name : String) : Option Parameter := all.find? fun p => p.long? == some name

/-- The option with a letter. -/
def ofShort? (letter : Char) : Option Parameter := all.find? fun p => p.short? == some letter

end Parameter

end FrontEnd.CommandLine
