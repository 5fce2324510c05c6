namespace Ginti.Text

/-- The code points that end a line when they stand alone: line feed, vertical tab, form feed,
    carriage return, next line, line separator and paragraph separator. -/
def lineBreaks : List Char :=
  ['\n', '\x0b', '\x0c', '\r', '\u0085', '\u2028', '\u2029']

def isLineBreak (c : Char) : Bool :=
  lineBreaks.contains c

/-- Puts a character in front of the first piece. -/
def consFirst (c : Char) : List (List Char) → List (List Char)
  | [] => [[c]]
  | piece :: pieces => (c :: piece) :: pieces

/-- The pieces between the terminators, in order. A carriage return with a line feed behind it
    counts as one terminator. A text with `n` terminators has `n + 1` pieces, so a text that ends in
    a terminator has an empty last piece. -/
def splitAtBreaks : List Char → List (List Char)
  | [] => [[]]
  | '\r' :: '\n' :: rest => [] :: splitAtBreaks rest
  | c :: rest =>
    if isLineBreak c then [] :: splitAtBreaks rest else consFirst c (splitAtBreaks rest)

/-- Drops empty lines from the end but always keeps the first line. -/
def dropTrailingEmpty : List (List Char) → List (List Char)
  | [] => []
  | first :: rest => first :: (rest.reverse.dropWhile List.isEmpty).reverse

/-- The lines of a text. Terminators at its end start no new lines, and even the empty text has
    one line. -/
def lines (text : List Char) : List (List Char) :=
  dropTrailingEmpty (splitAtBreaks text)

end Ginti.Text
