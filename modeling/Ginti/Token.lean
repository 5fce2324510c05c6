import Ginti.Position

namespace Ginti

/-- The classes of lexemes. Both kinds of comment are one category. -/
inductive Category where
  | keyword
  | identifier
  | number
  | operator
  | separator
  | comment
  | stringLiteral
  | charLiteral
  | unknown
  deriving DecidableEq, Repr

namespace Category

def all : List Category :=
  [keyword, identifier, number, operator, separator, comment, stringLiteral, charLiteral, unknown]

/-- The name under which listings show the category. -/
def label : Category → String
  | keyword => "Keyword"
  | identifier => "Identifier"
  | number => "Number"
  | operator => "Operator"
  | separator => "Separator"
  | comment => "Comment"
  | stringLiteral => "StringLiteral"
  | charLiteral => "CharLiteral"
  | unknown => "Unknown"

def ofLabel? (label : String) : Option Category :=
  all.find? (·.label == label)

end Category

/-- A lexeme with its category and the position of its first character. -/
structure Token where
  category : Category
  text : String
  position : Position
  deriving DecidableEq, Repr

end Ginti
