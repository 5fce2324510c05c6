import Ginti.Symbol.Table
import Ginti.Text.Blank

namespace Ginti.Listing

/-- The line of a token. Its text is shown as it is, without escapes. -/
def token (t : Token) : String :=
  "Token[" ++ t.category.label ++ ", '" ++ t.text ++ "', line=" ++ toString t.position.line ++
    ", col=" ++ toString t.position.column ++ "]"

/-- One line for each token, between a header and the number of tokens. -/
def tokens (ts : List Token) : List String :=
  "---- Token List ----" :: ts.map token ++ ["Total tokens: " ++ toString ts.length]

/-- The line of a symbol. A type that is not there is shown as null. -/
def symbol (s : Symbol) : String :=
  let type := (s.type.map TypeKeyword.spelling).getD "null"
  "Symbol[name=" ++ s.name ++ ", type=" ++ type ++ ", scope=" ++ s.scope.listed ++ "]"

/-- One line for each declared name, in the order of the table. -/
def symbols (t : SymbolTable) : List String :=
  "---- Symbol Table ----" :: t.symbols.map symbol

/-- The states of a trace: the characters numbered from a given number on. -/
def states (number : Nat) : List Char → List String
  | [] => []
  | c :: rest => ("State" ++ toString number ++ "(" ++ String.singleton c ++ ")") ::
      states (number + 1) rest

def traceLine (t : Token) : String :=
  "Token '" ++ t.text ++ "': " ++ String.intercalate " -> " (states 1 t.text.toList) ++
    " -> Accept"

/-- A token has a trace if its text has anything but padding. -/
def isTraced (t : Token) : Bool :=
  !(Text.trim t.text.toList).isEmpty

/-- One line for each token that has a trace. -/
def trace (ts : List Token) : List String :=
  "---- DFA State Simulation for Each Token ----" :: (ts.filter isTraced).map traceLine

/-- The characters that have a meaning of their own in a regular expression. -/
def specialChars : List Char :=
  "()[]\x7b\x7d?*+-|^$\\.&~# \t\n\r\x0b\x0c".toList

/-- A spelling as a regular expression that matches it alone. -/
def escapeSpelling (spelling : String) : String :=
  String.ofList <| spelling.toList.flatMap fun c =>
    if specialChars.contains c then ['\\', c] else [c]

/-- A group that matches any of the spellings of a vocabulary. -/
def alternatives (vocabulary : Vocabulary) : String :=
  "(" ++ String.intercalate "|" (vocabulary.spellings.map escapeSpelling) ++ ")"

/-- The classes of lexemes with the regular expressions that describe them. -/
def patternRows : List (String × String) :=
  [ ("Keyword", alternatives .keywords),
    ("Identifier", Pattern.identifier.regex),
    ("Number", Pattern.number.regex),
    ("Operator", alternatives .operators),
    ("Separator", alternatives .separators),
    ("Single-line Comment", Pattern.lineComment.regex),
    ("Multi-line Comment", Pattern.blockComment.regex),
    ("String Literal", Pattern.stringLiteral.regex),
    ("Character Literal", Pattern.charLiteral.regex) ]

/-- Spaces after a text up to a least width. -/
def padRight (width : Nat) (text : String) : String :=
  text ++ String.ofList (List.replicate (width - text.length) ' ')

/-- The width of the column of labels: the longest of them and a colon. -/
def labelWidth : Nat :=
  (patternRows.map (·.1.length)).foldl max 0 + 1

/-- The rows of patterns in two columns, between a header and a rule. -/
def patterns : List String :=
  "---- Regular Expressions Used ----" ::
    patternRows.map (fun (label, regex) => padRight labelWidth (label ++ ":") ++ " " ++ regex) ++
    [String.ofList (List.replicate 34 '-')]

/-- The lines of a listing as a text: each is followed by a line feed. -/
def toText (lines : List String) : String :=
  String.join (lines.map (· ++ "\n"))

end Ginti.Listing
