import Ginti.Cursor
import Ginti.Source
import Ginti.Token

namespace Ginti

/-- Where the next token to be collected starts. -/
structure Mark where
  spot : Spot
  deriving DecidableEq, Repr

/-- Why no token could be collected. -/
inductive CollectError where
  /-- The stop is not further on in the line of the start. -/
  | noText (start stop : Spot)
  /-- The line of the mark does not exist. -/
  | noLine (line : Nat)
  deriving DecidableEq, Repr

def CollectError.message : CollectError → String
  | noText start stop =>
    "Cannot collect a token from " ++ start.describe ++ " to " ++ stop.describe
  | noLine _ => LookupError.outOfRange.message

/-- A mark at the place of a cursor. -/
def Cursor.mark (c : Cursor) : Mark :=
  ⟨c.toSpot⟩

/-- The token between a mark and a cursor further on in the same line, and the mark moved to
    the cursor. -/
def Mark.collect (m : Mark) (category : Category) (c : Cursor) :
    Except CollectError (Token × Mark) :=
  if m.spot.line ≠ c.line ∨ c.col ≤ m.spot.col then .error (.noText m.spot c.toSpot)
  else
    match c.lines[m.spot.line]? with
    | none => .error (.noLine m.spot.line)
    | some line =>
      let text := (line.drop m.spot.col).take (c.col - m.spot.col)
      .ok (⟨category, String.ofList text, m.spot.position⟩, c.mark)

end Ginti
