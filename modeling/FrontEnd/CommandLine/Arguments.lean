import FrontEnd.CommandLine.Parameter
import FrontEnd.Terminal.Style

/-!
# Reading the command line

Arguments are read from left to right. A value is put aside when it is met and checked when the
next parameter is reached, or at the end; options that are not given are then looked up in the
environment, and last the combination is checked. The first thing that is wrong ends the reading,
and so does a request for help or for the version.
-/

namespace FrontEnd.CommandLine

/-- What is wrong with a command line. -/
inductive Rejection where
  | unexpected (argument : String)
  | repeated (p : Parameter)
  | missingValue (p : Parameter)
  | invalidValue (p : Parameter) (value : String)
  | unneededValue (p : Parameter) (value : String)
  | missingParameter
deriving DecidableEq, Repr

open Terminal (Style)

/-- A part of a message in a style and in quotes. -/
def quoted (style : Style) (text : String) : String := "'" ++ style.paint text ++ "'"

/-- What a message says of a rejection. -/
def Rejection.reason : Rejection → String
  | unexpected argument => "unexpected argument " ++ quoted .invalid argument ++ " found"
  | repeated p => "the argument " ++ quoted .invalid p.label ++ " cannot be used multiple times"
  | missingValue p =>
    "a value is required for " ++ quoted .invalid p.label ++ " but none was supplied"
  | invalidValue p value =>
    "invalid value " ++ quoted .invalid value ++ " for " ++ quoted .literal p.label
  | unneededValue p value =>
    "unexpected value " ++ quoted .invalid value ++ " for " ++ quoted .literal p.label ++
      " found; no more were expected"
  | missingParameter => "the following required arguments were not provided:"

/-- The first line of the message for a rejection, as styled text. -/
def Rejection.message (r : Rejection) : String := Style.problem.paint "error:" ++ " " ++ r.reason

/-- Why reading a command line ends before its arguments are known. -/
inductive Stop where
  | help
  | version
  | rejected (r : Rejection)
deriving DecidableEq, Repr

/-- The parameters given so far with their values, and the one put aside, which may still be
waiting for its value. -/
structure Progress where
  given : List (Parameter × String) := []
  aside : Option (Parameter × Option String) := none
deriving DecidableEq, Repr

namespace Progress

/-- The value of a parameter that was given. -/
def value? (s : Progress) (p : Parameter) : Option String := s.given.lookup p

/-- Takes a value for a parameter. -/
def take (s : Progress) (p : Parameter) (value : String) : Except Stop Progress :=
  if (s.value? p).isSome then .error (.rejected (.repeated p))
  else if p.accepts value then .ok { s with given := (p, value) :: s.given }
  else if value.isEmpty then .error (.rejected (.missingValue p))
  else .error (.rejected (.invalidValue p value))

/-- Takes the parameter put aside, if any. -/
def settle (s : Progress) : Except Stop Progress :=
  match s.aside with
  | none => .ok s
  | some (p, none) => .error (.rejected (.missingValue p))
  | some (p, some value) => ({ s with aside := none } : Progress).take p value

/-- Takes an option without a value. -/
def takeFlag (s : Progress) (p : Parameter) : Except Stop Progress := do
  let s ← s.settle
  match p with
  | .help => .error .help
  | .version => .error .version
  | p => s.take p "true"

/-- Takes an option with the value attached to it, or puts it aside until its value is met. -/
def takeOption (s : Progress) (p : Parameter) (attached : Option String) :
    Except Stop Progress := do
  let s ← s.settle
  match attached with
  | some value => s.take p value
  | none => return { s with aside := some (p, none) }

/-- Whether the source file is known already. -/
def hasSource (s : Progress) : Bool :=
  (s.value? .source).isSome || (s.aside.map (·.1)) == some .source

/-- Puts a source file aside. There is only one. -/
def takeSource (s : Progress) (argument : String) : Except Stop Progress := do
  if s.hasSource then .error (.rejected (.unexpected argument))
  else
    let s ← s.settle
    return { s with aside := some (.source, some argument) }

/-- Reads a long option from behind its dashes. -/
def takeLong (s : Progress) (text : List Char) : Except Stop Progress :=
  let name := String.ofList (text.takeWhile (· != '='))
  let attached := (text.dropWhile (· != '=')).tail?.map String.ofList
  match Parameter.ofLong? name with
  | none => .error (.rejected (.unexpected ("--" ++ name)))
  | some p =>
    if p.takesValue then s.takeOption p attached
    else
      match attached with
      | some value => .error (.rejected (.unneededValue p value))
      | none => s.takeFlag p

/-- Reads a bundle of letters. A letter that takes a value takes the rest of the bundle, without
an equals sign in front, if there is any. -/
def takeShort (s : Progress) : List Char → Except Stop Progress
  | [] => .ok s
  | letter :: rest =>
    match Parameter.ofShort? letter with
    | none => .error (.rejected (.unexpected (String.ofList ['-', letter])))
    | some p =>
      if p.takesValue then
        match rest with
        | [] => s.takeOption p none
        | '=' :: value => s.takeOption p (some (String.ofList value))
        | value => s.takeOption p (some (String.ofList value))
      else
        match s.takeFlag p with
        | .ok s => takeShort s rest
        | .error stop => .error stop

/-- Reads an argument that is no option: the value that is waited for, or the source file. -/
def takePlain (s : Progress) (argument : String) : Except Stop Progress :=
  match s.aside with
  | some (p, none) => .ok { s with aside := some (p, some argument) }
  | _ => s.takeSource argument

/-- Reads the arguments; behind a double dash none of them is an option. -/
def takeAll (s : Progress) (plain : Bool) : List String → Except Stop Progress
  | [] => s.settle
  | argument :: rest => do
    if plain then (← s.takeSource argument).takeAll true rest
    else
      match argument.toList with
      | ['-', '-'] => s.takeAll true rest
      | '-' :: '-' :: text => (← s.takeLong text).takeAll false rest
      | '-' :: letter :: text => (← s.takeShort (letter :: text)).takeAll false rest
      | _ => (← s.takePlain argument).takeAll false rest

/-- Looks parameters that are not given up in the environment. -/
def takeEnvironment (env : Environment) (s : Progress) : List Parameter → Except Stop Progress
  | [] => .ok s
  | p :: rest => do
    if (s.value? p).isSome then s.takeEnvironment env rest
    else
      match p.environmentName?.bind env with
      | some value => (← s.take p value).takeEnvironment env rest
      | none => s.takeEnvironment env rest

end Progress

/-- The arguments of the command. -/
structure Arguments where
  source : Option String
  tokens : Bool
  emit : Option Format
  output : Option String
  locale : Option String
  config : Option String
  localeDir : Option String
  verbose : Bool
  noColor : Bool
deriving DecidableEq, Repr

/-- Reads a command line. A document can only be written to a file if there is one. -/
def arguments (env : Environment) (args : List String) : Except Stop Arguments := do
  let s ← ({} : Progress).takeAll false args
  let s ← s.takeEnvironment env Parameter.all
  if (s.value? .output).isSome && (s.value? .emit).isNone then
    .error (.rejected .missingParameter)
  else
    return {
      source := s.value? .source
      tokens := s.value? .tokens == some "true"
      emit := (s.value? .emit).bind Format.ofName?
      output := s.value? .output
      locale := s.value? .locale
      config := s.value? .config
      localeDir := s.value? .localeDir
      verbose := s.value? .verbose == some "true"
      noColor := s.value? .noColor == some "true" }

end FrontEnd.CommandLine
