import Ginti.Diagnostic

namespace Ginti

/-- The part of the work that finds a fault. -/
inductive Stage where
  | scanning
  | declaration
  deriving DecidableEq, Repr

/-- The faults without what they are about. -/
inductive FaultKind where
  | unterminatedString
  | invalidChar
  | unrecognized
  | invalidIdentifier
  deriving DecidableEq, Repr

/-- A fault together with the text that it is about, if any. -/
inductive Fault where
  /-- A string literal is not closed on its line. -/
  | unterminatedString
  /-- A single quote does not open a literal of one character. -/
  | invalidChar
  /-- No lexeme starts with this character. -/
  | unrecognized (char : String)
  /-- A declared name does not have the form of an identifier. -/
  | invalidIdentifier (name : String)
  deriving DecidableEq, Repr

namespace Fault

def stage : Fault → Stage
  | invalidIdentifier _ => .declaration
  | _ => .scanning

/-- The text of a fault. What it is about is inserted as it is. -/
def message : Fault → String
  | unterminatedString => "Unterminated string literal"
  | invalidChar => "Invalid character literal"
  | unrecognized char => "Unrecognized token: " ++ char
  | invalidIdentifier name =>
    "Invalid identifier: '" ++ name ++ "'. Must match ^[a-z][a-zA-Z0-9_]*$"

end Fault

/-- The name of a field that a fault needs and that was not given. -/
structure MissingField where
  name : String
  deriving DecidableEq, Repr

/-- The missing name in quotes, since that is all there is to say. -/
def MissingField.message (e : MissingField) : String :=
  "'" ++ e.name ++ "'"

/-- Builds a fault from named fields. Fields that the fault has no use for are ignored. -/
def FaultKind.fill (kind : FaultKind) (field? : String → Option String) :
    Except MissingField Fault :=
  let field (name : String) : Except MissingField String :=
    match field? name with
    | some value => .ok value
    | none => .error ⟨name⟩
  match kind with
  | unterminatedString => .ok .unterminatedString
  | invalidChar => .ok .invalidChar
  | unrecognized => (field "char").map .unrecognized
  | invalidIdentifier => (field "name").map .invalidIdentifier

/-- A fault and the position where it was found. -/
structure Problem where
  fault : Fault
  position : Position
  deriving DecidableEq, Repr

namespace Problem

def message (p : Problem) : String :=
  p.fault.message

/-- The report that a problem gives rise to. -/
def diagnostic (p : Problem) : Diagnostic :=
  ⟨p.message, p.position⟩

end Problem
end Ginti
