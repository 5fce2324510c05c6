import Ginti.Lexer.Rule
import Ginti.MachineIndex
import Ginti.Mark

namespace Ginti

/-- What a rule says at a cursor: a category with the cursor after the lexeme, nothing, or a
    problem at the place of the cursor. -/
def Cursor.attempt (order : Precedence) (c : Cursor) (rule : Rule) :
    Except Problem (Option (Category × Cursor)) :=
  match rule.judge order c.rest with
  | .pass => .ok none
  | .accept category lexeme => .ok (some (category, c.advance lexeme.length))
  | .reject fault => .error ⟨fault, c.position⟩

/-- One cursor and any number of marks, driven call by call. -/
structure Session where
  cursor : Cursor
  marks : List Mark
  deriving Repr

/-- The calls that a session understands. -/
inductive Call where
  /-- Accept exactly this text. -/
  | accept (text : String)
  /-- Look at some characters without moving. -/
  | peek (count : Nat)
  /-- Read exactly so many characters. -/
  | read (count : Nat)
  | skipLine
  | nextLine
  | currentLine
  | pattern (pattern : Pattern)
  | skipBlanks
  /-- Try one of the rules. -/
  | attempt (rule : Rule)
  /-- Look for one of some spellings, in their order. -/
  | spelling (spellings : List String)
  | spot
  /-- Make a mark at the cursor. -/
  | mark
  | markSpot (index : Nat)
  | collect (index : Nat) (category : Category)
  | describe
  deriving DecidableEq, Repr

/-- The answers to calls. -/
inductive Answer where
  | nothing
  | flag (value : Bool)
  | text (value : String)
  | category (value : Category)
  | number (value : Nat)
  | spot (value : Spot)
  | token (value : Token)
  | problem (value : Problem)
  | collectError (value : CollectError)
  /-- The column is no machine index, so no pattern can be matched there. -/
  | columnTooLarge
  /-- There is no mark with this number. -/
  | noMark
  deriving DecidableEq, Repr

namespace Session

/-- A session at a spot, which may be anywhere, without marks. -/
def start (lines : List (List Char)) (spot : Spot) : Session :=
  ⟨⟨spot, lines⟩, []⟩

/-- The session after its cursor may have moved: a text that was found is the answer. -/
def found (s : Session) : Option (List Char × Cursor) → Answer × Session
  | some (text, next) => (.text (String.ofList text), { s with cursor := next })
  | none => (.nothing, s)

/-- The session after its cursor may have moved: whether it did is the answer. -/
def moved (s : Session) : Option Cursor → Answer × Session
  | some next => (.flag true, { s with cursor := next })
  | none => (.flag false, s)

/-- The answer that matching a pattern gives, provided that the column is a machine index. -/
def matching (s : Session) (answer : Answer × Session) : Answer × Session :=
  if isMachineIndex s.cursor.col then answer else (.columnTooLarge, s)

/-- The session after a rule was tried at its cursor. -/
def attempt (s : Session) (rule : Rule) : Answer × Session :=
  match s.cursor.attempt .standard rule with
  | .ok (some (category, next)) => (.category category, { s with cursor := next })
  | .ok none => (.nothing, s)
  | .error problem => (.problem problem, s)

/-- The answer to one call and the session after it. -/
def call (s : Session) : Call → Answer × Session
  | .accept text => s.moved (s.cursor.accept? text.toList)
  | .peek count => (.text (String.ofList (s.cursor.peek count)), s)
  | .read count => s.found (s.cursor.read? count)
  | .skipLine => (.nothing, { s with cursor := s.cursor.skipLine })
  | .nextLine => s.moved s.cursor.nextLine?
  | .currentLine => (.text (String.ofList s.cursor.current), s)
  | .pattern pattern => s.matching (s.found (s.cursor.match? pattern))
  | .skipBlanks => s.matching (s.moved ((s.cursor.match? .whitespace).map Prod.snd))
  | .attempt rule => if rule.isPattern then s.matching (s.attempt rule) else s.attempt rule
  | .spelling spellings =>
    match s.cursor.spelling? spellings with
    | some (spelling, next) => (.text spelling, { s with cursor := next })
    | none => (.nothing, s)
  | .spot => (.spot s.cursor.toSpot, s)
  | .mark => (.number s.marks.length, { s with marks := s.marks ++ [s.cursor.mark] })
  | .markSpot index =>
    match s.marks[index]? with
    | some mark => (.spot mark.spot, s)
    | none => (.noMark, s)
  | .collect index category =>
    match s.marks[index]? with
    | some mark =>
      match mark.collect category s.cursor with
      | .ok (token, mark) => (.token token, { s with marks := s.marks.set index mark })
      | .error e => (.collectError e, s)
    | none => (.noMark, s)
  | .describe => (.text s.cursor.describe, s)

/-- The answer to each of some calls in turn, with the session after it. -/
def calls (s : Session) : List Call → List (Answer × Session)
  | [] => []
  | c :: cs =>
    let answered := s.call c
    answered :: calls answered.2 cs

end Session
end Ginti
