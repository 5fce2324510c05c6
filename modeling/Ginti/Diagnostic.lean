import Ginti.Position

namespace Ginti

/-- A message about one position. Every diagnostic reports an error. -/
structure Diagnostic where
  message : String
  position : Position
  deriving DecidableEq, Repr

namespace Diagnostic

/-- The diagnostic as one entry of an error log. -/
def render (d : Diagnostic) : String :=
  "Error at line " ++ toString d.position.line ++ ", column " ++ toString d.position.column ++
    ": " ++ d.message

/-- The error log of some diagnostics: each entry in turn, followed by a line feed. -/
def log (ds : List Diagnostic) : String :=
  String.join (ds.map fun d => d.render ++ "\n")

end Diagnostic
end Ginti
