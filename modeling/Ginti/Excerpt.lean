import Ginti.Diagnostic
import Ginti.MachineIndex
import Ginti.Source

namespace Ginti

/-- Spaces in front of a text up to a least width. Longer texts are left as they are. -/
def padLeft (width : Nat) (text : String) : String :=
  String.ofList (List.replicate (width - text.length) ' ') ++ text

/-- What stands before the text of a quoted source line. -/
def lineGutter (line : Int) : String :=
  padLeft 5 (toString line) ++ " | "

/-- What stands before the spaces of the caret line. -/
def caretGutter : String :=
  "      | "

/-- The quoted line and the caret under one of its columns. Columns count the code points of the
    trimmed line, so the trimmed line is what is shown. -/
def excerpt (line : List Char) (position : Position) : String :=
  "\n" ++ lineGutter position.line ++ String.ofList line ++ "\n" ++ caretGutter ++
    String.ofList (List.replicate (position.column - 1).toNat ' ') ++ "^"

/-- The diagnostic with its file name, and with an excerpt if the source has such a line. -/
def Diagnostic.renderIn (source : Source) (d : Diagnostic) : String :=
  let line := d.position.line
  let summary := source.filename ++ ":" ++ toString line ++ ":" ++ toString d.position.column ++
    ": " ++ d.message
  if 0 < line then
    match source.lines[(line - 1).toNat]? with
    | some text => summary ++ excerpt (Text.trim text.toList) d.position
    | none => summary
  else summary

/-- Why no excerpt can be drawn. -/
inductive ExcerptError where
  /-- The distance to the caret is no machine index. -/
  | tooLarge
  /-- The caret line does not fit into memory. -/
  | noMemory
  deriving DecidableEq, Repr

def ExcerptError.message : ExcerptError → String
  | tooLarge => "cannot fit 'int' into an index-sized integer"
  | noMemory => ""

/-- The most spaces that a caret line is given: as many as 64 GiB hold at a byte each. How many a
    run really has memory for is up to its machine and not to the source, so what is proved about
    excerpts takes the limit as a condition on the length of lines. -/
def caretLimit : Int :=
  0x1000000000

/-- The diagnostic in its source for positions made by hand, whose column can be too far away
    for a caret. Without an excerpt the column does not matter. -/
def Diagnostic.tryRenderIn (source : Source) (d : Diagnostic) : Except ExcerptError String :=
  let distance := d.position.column - 1
  if 0 < d.position.line && d.position.line ≤ source.lines.length then
    if !isMachineIndex distance then .error .tooLarge
    else if caretLimit < distance then .error .noMemory
    else .ok (d.renderIn source)
  else .ok (d.renderIn source)

end Ginti
