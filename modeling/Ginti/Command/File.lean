import Ginti.Text.Quoted

namespace Ginti.Command

/-- The reasons why a file cannot be opened. -/
inductive OpenFailure where
  | missing
  | denied
  | notDirectory
  | isDirectory
  | nameTooLong
  deriving DecidableEq, Repr

namespace OpenFailure

/-- The number of the system error. -/
def code : OpenFailure → Nat
  | missing => 2
  | denied => 13
  | notDirectory => 20
  | isDirectory => 21
  | nameTooLong => 36

def reason : OpenFailure → String
  | missing => "No such file or directory"
  | denied => "Permission denied"
  | notDirectory => "Not a directory"
  | isDirectory => "Is a directory"
  | nameTooLong => "File name too long"

end OpenFailure

/-- A file that could not be opened, by the name that was asked for. -/
structure OpenError where
  failure : OpenFailure
  name : String
  deriving DecidableEq, Repr

def OpenError.message (e : OpenError) : String :=
  "[Errno " ++ toString e.failure.code ++ "] " ++ e.failure.reason ++ ": " ++
    String.ofList (Text.quote e.name.toList)

end Ginti.Command
