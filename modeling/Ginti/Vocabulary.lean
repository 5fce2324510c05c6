namespace Ginti

/-- The keywords that name a type. One of them before an identifier declares a variable of
    that type. -/
inductive TypeKeyword where
  | ginti
  | pointWalaNumber
  | sachGhoot
  | harf
  deriving DecidableEq, Repr

namespace TypeKeyword

def all : List TypeKeyword :=
  [ginti, pointWalaNumber, sachGhoot, harf]

def spelling : TypeKeyword → String
  | ginti => "Ginti"
  | pointWalaNumber => "PointWalaNumber"
  | sachGhoot => "SachGhoot"
  | harf => "harf"

/-- The type that a text names, if it names one. -/
def ofSpelling? (text : String) : Option TypeKeyword :=
  all.find? (·.spelling == text)

end TypeKeyword

/-- All keywords: those that name a type, and the one that begins a print statement. -/
inductive Keyword where
  | type (type : TypeKeyword)
  | dekhao
  deriving DecidableEq, Repr

namespace Keyword

/-- The keywords that begin statements. -/
def statements : List Keyword :=
  [dekhao]

def all : List Keyword :=
  TypeKeyword.all.map type ++ statements

def spelling : Keyword → String
  | type t => t.spelling
  | dekhao => "dekhao"

end Keyword

inductive Operator where
  | add
  | sub
  | mul
  | div
  | mod
  | pow
  | assign
  deriving DecidableEq, Repr

namespace Operator

def all : List Operator :=
  [add, sub, mul, div, mod, pow, assign]

def spelling : Operator → String
  | add => "+"
  | sub => "-"
  | mul => "*"
  | div => "/"
  | mod => "%"
  | pow => "^"
  | assign => "="

end Operator

inductive Separator where
  | leftParen
  | rightParen
  | leftCurly
  | rightCurly
  | leftSquare
  | rightSquare
  | semicolon
  | comma
  deriving DecidableEq, Repr

namespace Separator

def all : List Separator :=
  [leftParen, rightParen, leftCurly, rightCurly, leftSquare, rightSquare, semicolon, comma]

def spelling : Separator → String
  | leftParen => "("
  | rightParen => ")"
  | leftCurly => "\x7b"
  | rightCurly => "\x7d"
  | leftSquare => "["
  | rightSquare => "]"
  | semicolon => ";"
  | comma => ","

end Separator

/-- The groups of spellings that can be looked for together. -/
inductive Vocabulary where
  | keywords
  | typeKeywords
  | statementKeywords
  | operators
  | separators
  deriving DecidableEq, Repr

/-- The spellings of a group in the order in which they are tried. -/
def Vocabulary.spellings : Vocabulary → List String
  | keywords => Keyword.all.map Keyword.spelling
  | typeKeywords => TypeKeyword.all.map TypeKeyword.spelling
  | statementKeywords => Keyword.statements.map Keyword.spelling
  | operators => Operator.all.map Operator.spelling
  | separators => Separator.all.map Separator.spelling

/-- A vocabulary stands for its spellings where any spellings may be given. -/
instance : Coe Vocabulary (List String) :=
  ⟨Vocabulary.spellings⟩

/-- The first of some spellings that the text starts with. -/
def firstSpelling? (spellings : List String) (text : List Char) : Option String :=
  spellings.find? (·.toList.isPrefixOf text)

end Ginti
