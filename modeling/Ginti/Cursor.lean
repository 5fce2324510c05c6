import Ginti.Position
import Ginti.Pattern
import Ginti.Text.Quoted
import Ginti.Vocabulary

namespace Ginti

/-- A spot in some lines. The spot may be anywhere, also past the end of its line or past the
    last line; there is nothing in front of it then. -/
structure Cursor extends Spot where
  lines : List (List Char)
  deriving DecidableEq, Repr

namespace Cursor

/-- The start of some lines. -/
def start (lines : List (List Char)) : Cursor :=
  ⟨⟨0, 0⟩, lines⟩

/-- The line that the cursor is on; past the last line it is empty. -/
def current (c : Cursor) : List Char :=
  (c.lines[c.line]?).getD []

/-- What is left of the line. -/
def rest (c : Cursor) : List Char :=
  c.current.drop c.col

def atLineEnd (c : Cursor) : Bool :=
  c.current.length ≤ c.col

def onLastLine (c : Cursor) : Bool :=
  c.lines.length ≤ c.line + 1

/-- There is more to read unless the cursor is at the end of the last line. -/
def hasMore (c : Cursor) : Bool :=
  !(c.atLineEnd && c.onLastLine)

/-- The same line, some characters further on. -/
def advance (c : Cursor) (count : Nat) : Cursor :=
  { c with col := c.col + count }

/-- The end of the line. From a column past the end this moves back. -/
def skipLine (c : Cursor) : Cursor :=
  { c with col := c.current.length }

/-- The start of the next line, which can be reached only from the end of a line that is not
    the last. -/
def nextLine? (c : Cursor) : Option Cursor :=
  if c.atLineEnd && c.hasMore then some { c with line := c.line + 1, col := 0 } else none

/-- The next few characters, or fewer near the end of the line. -/
def peek (c : Cursor) (count : Nat) : List Char :=
  c.rest.take count

/-- Exactly so many characters, and the cursor after them. -/
def read? (c : Cursor) (count : Nat) : Option (List Char × Cursor) :=
  let text := c.peek count
  if text.length = count then some (text, c.advance count) else none

/-- The cursor after a given text, if that is what comes next. -/
def accept? (c : Cursor) (text : List Char) : Option Cursor :=
  if text.isPrefixOf c.rest then some (c.advance text.length) else none

/-- What a pattern matches, and the cursor after it. -/
def match? (c : Cursor) (pattern : Pattern) : Option (List Char × Cursor) :=
  (pattern.match? c.rest).map fun text => (text, c.advance text.length)

/-- The first of some spellings that comes next, and the cursor after it. -/
def spelling? (c : Cursor) (spellings : List String) : Option (String × Cursor) :=
  (firstSpelling? spellings c.rest).map fun text => (text, c.advance text.toList.length)

/-- The form in which messages name a cursor: its line counted from one and what is left of
    the line. -/
def describe (c : Cursor) : String :=
  "<Scanner L" ++ toString (c.line + 1) ++ " " ++ String.ofList (Text.quote c.rest) ++ ">"

end Cursor
end Ginti
