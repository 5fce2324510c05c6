import Ginti.Command.Run

namespace Ginti.Command

/-- Reads the bytes of a file. -/
def readBytes (name : String) : IO (Except OpenError (List UInt8)) := do
  if name.toList.contains '\x00' then return .error ⟨.missing, name⟩
  try
    let bytes ← IO.FS.readBinFile name
    return .ok bytes.toList
  catch e =>
    match e with
    | .noFileOrDirectory .. => return .error ⟨.missing, name⟩
    | .permissionDenied .. => return .error ⟨.denied, name⟩
    | .inappropriateType .. => return .error ⟨.isDirectory, name⟩
    | _ => throw e

/-- Writes what a run has to say and returns its status. -/
def Outcome.write (o : Outcome) : IO UInt32 := do
  IO.print o.stdout
  IO.eprint o.stderr
  match o.ending with
  | .exit status => return status.toUInt32
  | .broken failure =>
    IO.eprintln failure.message
    return 1

/-- The files of the system as a run sees them that opens none but the given one. -/
def openFiles : Option String → IO (String → Except OpenError (List UInt8))
  | none => return fun name => .error ⟨.missing, name⟩
  | some name => do
    let opened ← readBytes name
    return fun _ => opened

/-- The listing command on the files of the system. -/
def runList (arguments : List String) : IO UInt32 := do
  let openFile ← openFiles (listedFile? arguments)
  (list openFile arguments).write

/-- The token command on the files of the system. -/
def runDump (arguments : List String) : IO UInt32 := do
  let openFile ← openFiles arguments.head?
  (dump openFile arguments).write

end Ginti.Command

def main (arguments : List String) : IO UInt32 :=
  Ginti.Command.runList arguments
