import FrontEnd.Catalog.Parsing
import FrontEnd.Files.Basic

/-!
# Catalogs of a message domain

The catalog files of a domain lie in one directory for each locale. One locale at a time is
active, with the messages of its file; before any is loaded that is the locale `C` without
messages. A locale with a territory, such as `zh_CN`, may use the file of its bare language.
-/

namespace FrontEnd

/-- Where the catalog files of a domain are, the active locale, and its messages. -/
structure Catalog where
  domain : String
  directory : String
  locale : String
  messages : Messages
deriving DecidableEq, Repr

namespace Catalog

/-- The locale before any catalog file is loaded. -/
def initialLocale : String := "C"

/-- The catalogs of a domain before any file is loaded. -/
def unloaded (domain directory : String) : Catalog := ⟨domain, directory, initialLocale, .empty⟩

/-- The path of the catalog file of a locale. -/
def path (c : Catalog) (locale : String) : String :=
  Path.join (Path.join (Path.join c.directory locale) "LC_MESSAGES") (c.domain ++ ".mo")

/-- The language of a locale: the part before its first underscore, if it has one. -/
def language? (locale : String) : Option String :=
  if locale.toList.contains '_' then some (String.ofList (locale.toList.takeWhile (· != '_')))
  else none

/-- The files that may serve a locale, best first. -/
def candidates (c : Catalog) (locale : String) : List String :=
  c.path locale :: (language? locale).toList.map c.path

variable {m : Type → Type} [Monad m] [FileAccess m]

/-- The messages of the first file of a list that can be read and is well formed. -/
def load : List String → m (Option Messages)
  | [] => return none
  | path :: rest => do
    match (← FileAccess.read path).map parse with
    | some (.ok messages) => return some messages
    | _ => load rest

/-- Makes a locale active, and says whether it is. The locale that is active already is not loaded
again, and a locale without a usable file changes nothing. -/
def select (c : Catalog) (locale : String) : m (Bool × Catalog) := do
  if locale = c.locale then return (true, c)
  else
    match ← load (c.candidates locale) with
    | some messages => return (true, { c with locale := locale, messages := messages })
    | none => return (false, c)

/-- The text for a message key; a key that has none is its own text. -/
def text (c : Catalog) (key : String) : String := (c.messages.find? key).getD key

/-- Whether a count takes the singular. Languages whose locale starts with `zh` have one form for
all counts. -/
def isSingular (c : Catalog) (n : Nat) : Bool := n == 1 || ['z', 'h'].isPrefixOf c.locale.toList

/-- The first plural form: the text up to the first zero character. -/
def firstForm (forms : String) : String := String.ofList (forms.toList.takeWhile (· != '\x00'))

/-- The second plural form, if there is one. -/
def secondForm? (forms : String) : Option String :=
  match forms.toList.dropWhile (· != '\x00') with
  | [] => none
  | _ :: rest => some (String.ofList (rest.takeWhile (· != '\x00')))

/-- The form of a plural entry for a count, unless it is empty. -/
def form? (c : Catalog) (forms : String) (n : Nat) : Option String :=
  let form := if c.isSingular n then firstForm forms else (secondForm? forms).getD (firstForm forms)
  if form.isEmpty then none else some form

/-- The text for a pair of keys and a count. Without a plural entry the keys are looked up on their
own. -/
def pluralText (c : Catalog) (singular plural : String) (n : Nat) : String :=
  match (c.messages.find? (singular ++ "\x00" ++ plural)).bind (c.form? · n) with
  | some form => form
  | none => if c.isSingular n then c.text singular else c.text plural

end Catalog

end FrontEnd
