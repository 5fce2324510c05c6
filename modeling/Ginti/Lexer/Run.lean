import Ginti.Lexer.Step
import Ginti.Source

namespace Ginti

/-- The events from a cursor on. -/
def Cursor.events (order : Precedence) (c : Cursor) : List Event :=
  match _hstep : c.step order with
  | .finish => []
  | .go happened next => happened ++ next.events order
  | .fail e => [.failure e]
termination_by c.remaining
decreasing_by exact Cursor.step_progress _hstep

namespace Source

/-- A cursor at the start of a source. Columns count from the first character of a line that is
    not padding, so the cursor goes over the trimmed lines. -/
def cursor (s : Source) : Cursor :=
  .start s.trimmed

/-- The events of a source when rules and spellings are tried in a given order. -/
def eventsBy (order : Precedence) (s : Source) : List Event :=
  s.cursor.events order

/-- All events from the first line of a source to its last. -/
def events (s : Source) : List Event :=
  s.eventsBy .standard

/-- The tokens of a source. -/
def tokens (s : Source) : List Token :=
  Event.tokens s.events

/-- The lexical problems of a source as they are reported. -/
def diagnostics (s : Source) : List Diagnostic :=
  (Event.problems s.events).map Problem.diagnostic

end Source
end Ginti
