import Ginti.Fault
import Ginti.Mark

namespace Ginti

/-- What happens during a run, in the order of the source. -/
inductive Event where
  | token (token : Token)
  | problem (problem : Problem)
  /-- No token could be collected where a rule had accepted one. -/
  | failure (error : CollectError)
  deriving DecidableEq, Repr

namespace Event

def token? : Event → Option Token
  | token t => some t
  | _ => none

def problem? : Event → Option Problem
  | problem p => some p
  | _ => none

/-- The tokens among some events. -/
def tokens (events : List Event) : List Token :=
  events.filterMap token?

/-- The problems among some events. -/
def problems (events : List Event) : List Problem :=
  events.filterMap problem?

end Event

end Ginti
