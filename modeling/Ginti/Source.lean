import Ginti.MachineIndex
import Ginti.Text.Blank
import Ginti.Text.LineBreak
import Ginti.Text.Quoted

namespace Ginti

/-- A named sequence of lines. Lines that come from a text hold no terminators; lines given one
    by one may. -/
structure Source where
  filename : String
  lines : List String
  deriving DecidableEq, Repr

/-- Why a question about the lines has no answer. -/
inductive LookupError where
  | outOfRange
  /-- The index is no machine index. -/
  | tooLarge
  | notFound
  deriving DecidableEq, Repr

def LookupError.message : LookupError → String
  | outOfRange => "list index out of range"
  | tooLarge => "cannot fit 'int' into an index-sized integer"
  | notFound => ""

namespace Source

/-- The name of a source that comes from no file. -/
def anonymous : String :=
  "<string>"

/-- The source whose lines are the physical lines of a text. -/
def ofText (filename text : String) : Source :=
  ⟨filename, (Text.lines text.toList).map String.ofList⟩

/-- The lines as they are scanned, without the padding at their ends. -/
def trimmed (s : Source) : List (List Char) :=
  s.lines.map (Text.trim ·.toList)

/-- The line with an index counted from zero; a negative index counts back from the end. -/
def get (s : Source) (index : Int) : Except LookupError String :=
  let fromStart := if index < 0 then index + s.lines.length else index
  if !isMachineIndex index then .error .tooLarge
  else if fromStart < 0 then .error .outOfRange
  else
    match s.lines[fromStart.toNat]? with
    | some line => .ok line
    | none => .error .outOfRange

/-- The lines with indices from `start` up to, and not including, `stop`. -/
def slice (s : Source) (start stop : Nat) : List String :=
  (s.lines.take stop).drop start

def contains (s : Source) (line : String) : Bool :=
  s.lines.contains line

/-- The index of the first line equal to the given one. -/
def find (s : Source) (line : String) : Except LookupError Nat :=
  match s.lines.idxOf? line with
  | some index => .ok index
  | none => .error .notFound

def count (s : Source) (line : String) : Nat :=
  s.lines.count line

def reversed (s : Source) : List String :=
  s.lines.reverse

/-- The short form in which messages name a source. -/
def describe (s : Source) : String :=
  "SourceCode.from_file(" ++ String.ofList (Text.quote s.filename.toList) ++ ")"

end Source
end Ginti
