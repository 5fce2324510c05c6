import Ginti.Lexer.Step

namespace Ginti

/-- The result of asking for the next token: the problems met, the token unless there is none
    left, and the cursor from which to go on. -/
structure Pull where
  problems : List Problem
  token : Option Token
  cursor : Cursor
  deriving DecidableEq, Repr

namespace Cursor

/-- Goes on until a token is found or the source ends. An unknown character is reported
    together with its token, an abandoned line before the next token. -/
def pull (order : Precedence) (c : Cursor) : Pull :=
  match _hstep : c.step order with
  | .go happened next =>
    match Event.tokens happened with
    | token :: _ => ⟨Event.problems happened, some token, next⟩
    | [] =>
      let later := next.pull order
      { later with problems := Event.problems happened ++ later.problems }
  | _ => ⟨[], none, c⟩
termination_by c.remaining
decreasing_by exact step_progress _hstep

/-- A number of pulls in a row. Once the tokens are used up, further pulls find nothing. -/
def pulls (order : Precedence) : Nat → Cursor → List Pull
  | 0, _ => []
  | count + 1, c =>
    let first := c.pull order
    first :: pulls order count first.cursor

end Cursor
end Ginti
