import Ginti.Text.Blank

namespace Ginti

/-- The shapes of lexemes that no list of spellings gives. What a pattern matches at the front of a
    text is never empty. -/
inductive Pattern where
  | whitespace
  | lineComment
  | blockComment
  | stringLiteral
  | charLiteral
  | number
  | identifier
  deriving DecidableEq, Repr

namespace Pattern

/-- Up to and including the first closing mark of a block comment, which may be any number of
    characters and lines away. -/
def throughCommentEnd : List Char → Option (List Char)
  | '*' :: '/' :: _ => some ['*', '/']
  | c :: rest => (throughCommentEnd rest).map (c :: ·)
  | [] => none

/-- Up to and including the next double quote of the line. -/
def throughQuote : List Char → Option (List Char)
  | '"' :: _ => some ['"']
  | '\n' :: _ => none
  | c :: rest => (throughQuote rest).map (c :: ·)
  | [] => none

/-- A point with one to five digits after it, or nothing. -/
def fraction : List Char → List Char
  | '.' :: rest =>
    match (rest.takeWhile Char.isDigit).take 5 with
    | [] => []
    | digits => '.' :: digits
  | _ => []

/-- The characters of an identifier after its first: the ASCII letters and digits, and the
    underscore. -/
def isNameChar (c : Char) : Bool :=
  c.isAlphanum || c == '_'

/-- A non-empty run of in-line blanks. -/
def blanks? (text : List Char) : Option (List Char) :=
  match text.takeWhile Text.isBlank with
  | [] => none
  | run => some run

/-- Two slashes and the rest of the line. -/
def lineComment? : List Char → Option (List Char)
  | '/' :: '/' :: rest => some ('/' :: '/' :: rest.takeWhile (· ≠ '\n'))
  | _ => none

/-- A slash and a star, through the first closing mark after them. -/
def blockComment? : List Char → Option (List Char)
  | '/' :: '*' :: rest => (throughCommentEnd rest).map ('/' :: '*' :: ·)
  | _ => none

/-- A double quote, through the next one on the line. -/
def stringLiteral? : List Char → Option (List Char)
  | '"' :: rest => (throughQuote rest).map ('"' :: ·)
  | _ => none

/-- One character between single quotes. The character may be a quote, and may not be a line
    feed. -/
def charLiteral? : List Char → Option (List Char)
  | '\'' :: c :: '\'' :: _ => if c = '\n' then none else some ['\'', c, '\'']
  | _ => none

/-- A non-empty run of ASCII digits with an optional fraction. -/
def number? (text : List Char) : Option (List Char) :=
  match text.takeWhile Char.isDigit with
  | [] => none
  | digits => some (digits ++ fraction (text.dropWhile Char.isDigit))

/-- An ASCII lower-case letter and the name characters after it. -/
def identifier? : List Char → Option (List Char)
  | c :: rest => if c.isLower then some (c :: rest.takeWhile isNameChar) else none
  | [] => none

/-- The text that the pattern matches at the front, if any. -/
def match? : Pattern → List Char → Option (List Char)
  | whitespace => blanks?
  | lineComment => lineComment?
  | blockComment => blockComment?
  | stringLiteral => stringLiteral?
  | charLiteral => charLiteral?
  | number => number?
  | identifier => identifier?

/-- The regular expression that describes the pattern, as listings show it. The blanks have no
    entry there. -/
def regex : Pattern → String
  | whitespace =>
    "[\\t\\n\\x0b\\x0c\\r\\x1c-\\x1f \\u1680\\u2000-\\u2006\\u2008-\\u200a" ++
      "\\u2028\\u2029\\u205f\\u3000]+"
  | lineComment => "//.*"
  | blockComment => "/\\*.*?\\*/"
  | stringLiteral => "\".*?\""
  | charLiteral => "'.'"
  | number => "[0-9]+(?:\\.[0-9]\x7b1,5\x7d)?"
  | identifier => "[a-z][a-zA-Z0-9_]*"

end Pattern

/-- A valid name is an ASCII lower-case letter followed by name characters, with nothing before
    or after. -/
def isName : List Char → Bool
  | c :: rest => c.isLower && rest.all Pattern.isNameChar
  | [] => false

end Ginti
