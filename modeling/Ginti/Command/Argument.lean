import Ginti.Text.DecimalDigit
import Ginti.Text.Quoted

namespace Ginti.Command

/-- The options that change what a run shows or how it ends. -/
inductive Flag where
  | regex
  | trace
  | noTokens
  | noSymbols
  | nestedScopes
  | context
  | strict
  deriving DecidableEq, Repr

/-- All options: the request for help and the flags. None of them takes a value. -/
inductive Switch where
  | help
  | flag (flag : Flag)
  deriving DecidableEq, Repr

namespace Switch

/-- The options in the order in which the usage names them. -/
def all : List Switch :=
  [help, flag .regex, flag .trace, flag .noTokens, flag .noSymbols, flag .nestedScopes,
    flag .context, flag .strict]

/-- The full spelling of an option. -/
def long : Switch → String
  | help => "--help"
  | flag .regex => "--regex"
  | flag .trace => "--trace"
  | flag .noTokens => "--no-tokens"
  | flag .noSymbols => "--no-symbols"
  | flag .nestedScopes => "--nested-scopes"
  | flag .context => "--context"
  | flag .strict => "--strict"

/-- The name of an option in messages, with its one-letter form if it has one. -/
def shown : Switch → String
  | help => "-h/--help"
  | s => s.long

/-- The option with exactly this spelling. -/
def ofSpelling? (text : List Char) : Option Switch :=
  if text = ['-', 'h'] then some help else all.find? (·.long.toList = text)

/-- The options that a spelling may abbreviate. -/
def abbreviatedBy (text : List Char) : List Switch :=
  all.filter fun s => text.isPrefixOf s.long.toList

end Switch

/-- What can be wrong with the arguments. -/
inductive UsageError where
  | unrecognized (arguments : List String)
  | ambiguous (argument : String) (candidates : List Switch)
  | ignoredValue (switch : Switch) (value : List Char)
  deriving DecidableEq, Repr

def UsageError.message : UsageError → String
  | unrecognized arguments => "unrecognized arguments: " ++ String.intercalate " " arguments
  | ambiguous argument candidates =>
    "ambiguous option: " ++ argument ++ " could match " ++
      String.intercalate ", " (candidates.map Switch.long)
  | ignoredValue switch value =>
    "argument " ++ switch.shown ++ ": ignored explicit argument " ++
      String.ofList (Text.quote value)

/-- How an argument reads on its own. -/
inductive Word where
  /-- An argument that is no option. -/
  | operand (text : String)
  /-- An option, possibly with a value behind an equals sign. -/
  | switch (switch : Switch) (value : Option (List Char))
  /-- The one-letter form of the request for help with more letters behind it, directly or
      behind an equals sign. -/
  | cluster (letters : List Char)
  /-- An argument that looks like an option but is none. -/
  | unknown (text : String)
  deriving DecidableEq, Repr

/-- A non-empty run of decimal digits and nothing else. -/
def isDigits (text : List Char) : Bool :=
  !text.isEmpty && text.all Text.isDecimalDigit

/-- The part of a negative number after its sign: digits, or a point with digits after it and
    perhaps before it. A line feed may follow. -/
def isUnsigned (text : List Char) : Bool :=
  let body := if text.getLast? = some '\n' then text.dropLast else text
  match body.dropWhile Text.isDecimalDigit with
  | '.' :: decimals => isDigits decimals
  | _ => isDigits body

/-- The part of an argument before an equals sign, and the part after it if there is one. -/
def splitValue (text : List Char) : List Char × Option (List Char) :=
  match text.dropWhile (· ≠ '=') with
  | _ :: value => (text.takeWhile (· ≠ '='), some value)
  | [] => (text, none)

/-- What starts with a dash and is no option is an operand if it looks like a negative number or
    has a space in it. -/
def leftover (argument : String) (afterDash : List Char) : Word :=
  if isUnsigned afterDash || afterDash.contains ' ' then .operand argument
  else .unknown argument

/-- Reads one argument. An exact spelling wins, then an exact spelling before an equals sign,
    then an abbreviation, which has to be of one option only. What follows the one-letter form
    is read as letters, unless there is nothing behind the equals sign. -/
def Word.read (argument : String) : Except UsageError Word :=
  match argument.toList with
  | '-' :: afterDash =>
    let text := '-' :: afterDash
    let (name, value) := splitValue text
    match Switch.ofSpelling? text, afterDash, Switch.ofSpelling? name with
    | some exact, _, _ => .ok (.switch exact none)
    | none, [], _ => .ok (.operand argument)
    | none, ['h', '='], _ => .ok (.switch .help (some []))
    | none, 'h' :: '=' :: letters, _ => .ok (.cluster letters)
    | none, _, some exact => .ok (.switch exact value)
    | none, '-' :: _, none =>
      match Switch.abbreviatedBy name with
      | [] => .ok (leftover argument afterDash)
      | [only] => .ok (.switch only value)
      | candidates => .error (.ambiguous argument candidates)
    | none, 'h' :: letters, none => .ok (.cluster letters)
    | none, _, none => .ok (leftover argument afterDash)
  | _ => .ok (.operand argument)

end Ginti.Command
