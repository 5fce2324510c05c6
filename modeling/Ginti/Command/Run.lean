import Ginti.Command.File
import Ginti.Command.Settings
import Ginti.Excerpt
import Ginti.Lexer.Run
import Ginti.Listing
import Ginti.Symbol.Collect
import Ginti.Text.Utf8

namespace Ginti.Command

/-- Why a run breaks off. -/
inductive Failure where
  | noArgument
  | nulInName
  | cannotOpen (error : OpenError)
  | undecodable (error : Text.Utf8.DecodeError)
  deriving DecidableEq, Repr

def Failure.message : Failure → String
  | noArgument => "list index out of range"
  | nulInName => "embedded null byte"
  | cannotOpen e => e.message
  | undecodable e => e.message

/-- A run ends with a status or breaks off. -/
inductive Ending where
  | exit (status : Nat)
  | broken (failure : Failure)
  deriving DecidableEq, Repr

/-- What a run has written on either stream, and how it ended. -/
structure Outcome where
  stdout : String
  stderr : String
  ending : Ending
  deriving DecidableEq, Repr

/-- A run that breaks off has written nothing. -/
def Outcome.broken (failure : Failure) : Outcome :=
  ⟨"", "", .broken failure⟩

def usage : List String :=
  [ "usage: gintic [-h] [--regex] [--trace] [--no-tokens] [--no-symbols]",
    "              [--nested-scopes] [--context] [--strict]",
    "              [input]" ]

def helpLines : List String :=
  usage ++
  [ "",
    "Tokenize a Ginti source file and collect its declarations",
    "",
    "positional arguments:",
    "  input            the Ginti source file to read [default: source.txt]",
    "",
    "options:",
    "  -h, --help       show this help message and exit",
    "  --regex          list the regular expressions used by the lexer",
    "  --trace          show the character-by-character state trace of each token",
    "  --no-tokens      do not list the tokens",
    "  --no-symbols     do not print the symbol table",
    "  --nested-scopes  track scope through nested blocks",
    "  --context        show the offending source line with each error",
    "  --strict         exit with status 1 if any error was reported" ]

/-- An error in the use of the command: the usage and one message, on the error stream. -/
def Outcome.misuse (message : String) : Outcome :=
  ⟨"", Listing.toText (usage ++ ["gintic: error: " ++ message]), .exit 2⟩

def Refusal.outcome : Refusal → Outcome
  | help => ⟨Listing.toText helpLines, "", .exit 0⟩
  | misuse error => .misuse error.message

/-- The source in a file. A name with a NUL in it names nothing and is not even tried. -/
def readSource (openFile : String → Except OpenError (List UInt8)) (filename : String) :
    Except Failure Source :=
  if filename.toList.contains '\x00' then .error .nulInName
  else
    match openFile filename with
    | .error e => .error (.cannotOpen e)
    | .ok bytes =>
      match Text.Utf8.decode bytes with
      | .error e => .error (.undecodable e)
      | .ok text => .ok (.ofText filename (String.ofList text))

/-- Everything reported about a source: the lexical problems, then the invalid declarations. -/
def allDiagnostics (nested : Bool) (source : Source) : List Diagnostic :=
  source.diagnostics ++ SymbolTable.diagnosticsOf nested source.tokens

/-- The sections that the settings ask for, always in the same order. -/
def sections (s : Settings) (source : Source) : List String :=
  let shownIf (wanted : Bool) (lines : List String) := if wanted then lines else []
  shownIf s.regex Listing.patterns ++
  shownIf s.tokens (Listing.tokens source.tokens) ++
  shownIf s.trace (Listing.trace source.tokens) ++
  shownIf s.symbols (Listing.symbols (.ofTokens s.nestedScopes source.tokens))

/-- The diagnostics as the settings ask for them. -/
def errorLines (s : Settings) (source : Source) (ds : List Diagnostic) : List String :=
  ds.map fun d => if s.context then d.renderIn source else d.render

/-- The complete run on a source. -/
def Settings.report (s : Settings) (source : Source) : Outcome :=
  let ds := allDiagnostics s.nestedScopes source
  { stdout := Listing.toText (sections s source)
    stderr := Listing.toText (errorLines s source ds)
    ending := .exit (if s.strict && !ds.isEmpty then 1 else 0) }

/-- The run once the input has been read, or could not be. That a file cannot be opened counts
    as an error in the use of the command. -/
def Settings.finish (s : Settings) : Except Failure Source → Outcome
  | .error (.cannotOpen e) => .misuse e.message
  | .error failure => .broken failure
  | .ok source => s.report source

/-- The file that the listing command opens, unless it refuses its arguments. -/
def listedFile? (arguments : List String) : Option String :=
  (Settings.ofArguments arguments).toOption.map Settings.input

/-- The listing command. Arguments are settled before any file is opened. -/
def list (openFile : String → Except OpenError (List UInt8)) (arguments : List String) :
    Outcome :=
  match Settings.ofArguments arguments with
  | .error refusal => refusal.outcome
  | .ok settings => settings.finish (readSource openFile settings.input)

/-- The tokens of a source, one line each, and its problems on the error stream. -/
def dumpSource (source : Source) : Outcome :=
  { stdout := Listing.toText (source.tokens.map Listing.token)
    stderr := Diagnostic.log source.diagnostics
    ending := .exit 0 }

/-- The token command. Its first argument is a file name whatever it looks like, and the others
    do not count. -/
def dump (openFile : String → Except OpenError (List UInt8)) : List String → Outcome
  | [] => .broken .noArgument
  | filename :: _ =>
    match readSource openFile filename with
    | .error failure => .broken failure
    | .ok source => dumpSource source

end Ginti.Command
