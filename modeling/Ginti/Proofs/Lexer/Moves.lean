import Ginti.Lexer.Run
import Ginti.Proofs.Grammar.Decision

namespace Ginti.Cursor

/-- The steps that a cursor can take. The events of a step are at the cursor, and what it passes
    over is the front of the rest of the line. -/
inductive Moves (order : Precedence) (c : Cursor) : Step → Prop where
  | finish (hrest : c.rest = []) (hlast : c.lines.length ≤ c.line + 1) :
      c.Moves order .finish
  | nextLine (hrest : c.rest = []) (hline : c.line + 1 < c.lines.length) :
      c.Moves order (.go [] { c with line := c.line + 1, col := 0 })
  | blanks {run rest : List Char} (hsplit : c.rest = run ++ rest) (hne : run ≠ [])
      (hrun : Grammar.Run Text.isBlank run rest) :
      c.Moves order (.go [] (c.advance run.length))
  | lexeme {category : Category} {lexeme rest : List Char} (hsplit : c.rest = lexeme ++ rest)
      (hne : lexeme ≠ []) (hstart : ∀ ch ∈ c.rest.head?, Text.isBlank ch = false)
      (hverdict : order.judge c.rest = .accept category lexeme) :
      c.Moves order
        (.go [.token ⟨category, String.ofList lexeme, c.position⟩] (c.advance lexeme.length))
  | unknown {char : Char} {rest : List Char} (hsplit : c.rest = char :: rest)
      (hstart : Text.isBlank char = false) (hverdict : order.judge c.rest = .pass) :
      c.Moves order
        (.go [.problem ⟨.unrecognized (String.ofList [char]), c.position⟩,
          .token ⟨.unknown, String.ofList [char], c.position⟩] (c.advance 1))
  | dropped {fault : Fault} (hne : c.rest ≠ [])
      (hstart : ∀ ch ∈ c.rest.head?, Text.isBlank ch = false)
      (hverdict : order.judge c.rest = .reject fault) :
      c.Moves order (.go [.problem ⟨fault, c.position⟩] c.skipLine)

variable {order : Precedence} {c : Cursor}

theorem atLineEnd_iff_rest : c.atLineEnd = true ↔ c.rest = [] := by
  simp [atLineEnd, rest]

theorem lines_get_of_rest (hne : c.rest ≠ []) : c.lines[c.line]? = some c.current := by
  cases hline : c.lines[c.line]? with
  | none => simp [rest, current, hline] at hne
  | some line => simp [current, hline]

/-- Collecting over the front of the rest of the line gives just that text. -/
theorem collect_advance {lexeme rest : List Char} (hsplit : c.rest = lexeme ++ rest)
    (hne : lexeme ≠ []) (category : Category) :
    c.mark.collect category (c.advance lexeme.length) =
      .ok (⟨category, String.ofList lexeme, c.position⟩, (c.advance lexeme.length).mark) := by
  have hlength : 0 < lexeme.length := List.length_pos_iff.mpr hne
  have hline : c.lines[c.line]? = some c.current := lines_get_of_rest (by simp [hsplit, hne])
  have hplace : ¬ (c.line ≠ c.line ∨ c.col + lexeme.length ≤ c.col) := by omega
  have htext : (c.current.drop c.col).take (c.col + lexeme.length - c.col) = lexeme := by
    change c.rest.take _ = lexeme
    rw [hsplit, Nat.add_sub_cancel_left, List.take_left]
  simp only [Mark.collect, mark, advance, if_neg hplace, hline, htext]

/-- The token that is collected over a lexeme is the lexeme at the place of the cursor. There is
    text between the two cursors, so collecting cannot fail. -/
theorem emit_advance {lexeme rest : List Char} (hsplit : c.rest = lexeme ++ rest)
    (hne : lexeme ≠ []) (category : Category) (before : List Event) :
    c.emit category before (c.advance lexeme.length) =
      .go (before ++ [.token ⟨category, String.ofList lexeme, c.position⟩])
        (c.advance lexeme.length) := by
  rw [emit, collect_advance hsplit hne]

/-- A lexeme that the rules accept is the front of the text and has some text. -/
theorem split_of_accept (horder : order.Complete) {text lexeme : List Char} {category : Category}
    (hverdict : order.judge text = .accept category lexeme) :
    ∃ rest, text = lexeme ++ rest ∧ lexeme ≠ [] := by
  have hfirst := (order.firstVerdict_eq_iff horder order.rules).mp hverdict
  obtain ⟨r, -, -, hdecides⟩ := hfirst.exists_rule (by simp)
  cases hdecides with
  | accept htext hfits => exact ⟨_, htext, hfits.ne_nil⟩

/-- Where something is left of the line, one character can be read. -/
theorem read?_one {char : Char} {rest : List Char} (hsplit : c.rest = char :: rest) :
    c.read? 1 = some ([char], c.advance 1) := by
  simp [read?, peek, hsplit]

/-- The step over one lexeme is one of the moves, and it is none that fails: there is a character
    left to read. -/
theorem stepLexeme_moves (horder : order.Complete) (hne : c.rest ≠ [])
    (hstart : ∀ ch ∈ c.rest.head?, Text.isBlank ch = false) :
    c.Moves order (c.stepLexeme order) := by
  unfold stepLexeme
  split
  · next category lexeme hverdict =>
    obtain ⟨rest, htext, hlexeme⟩ := split_of_accept horder hverdict
    rw [emit_advance htext hlexeme]
    exact .lexeme htext hlexeme hstart hverdict
  · next fault hverdict => exact .dropped hne hstart hverdict
  · next hverdict =>
    obtain ⟨char, rest, hsplit⟩ := List.exists_cons_of_ne_nil hne
    have hfront : c.rest = [char] ++ rest := hsplit
    have hemit := emit_advance hfront (by simp) .unknown
      [.problem ⟨.unrecognized (String.ofList [char]), c.position⟩]
    rw [List.length_singleton] at hemit
    simp only [read?_one hsplit, hemit]
    exact .unknown hsplit (hstart char (by rw [hsplit]; rfl)) hverdict

/-- Whatever the place of the cursor, a step is one of the moves. -/
theorem step_moves (horder : order.Complete) (c : Cursor) : c.Moves order (c.step order) := by
  unfold step
  by_cases hend : c.atLineEnd = true
  · have hrest : c.rest = [] := atLineEnd_iff_rest.mp hend
    by_cases hlast : c.lines.length ≤ c.line + 1
    · have hmore : c.hasMore = false := by simp [hasMore, onLastLine, hend, hlast]
      simp only [hmore, Bool.false_eq_true, if_false]
      exact .finish hrest hlast
    · have hmore : c.hasMore = true := by simp [hasMore, onLastLine, hlast]
      simp only [hmore, if_true, nextLine?, hend, Bool.and_true]
      exact .nextLine hrest (by omega)
  · have hne : c.rest ≠ [] := fun hrest => hend (atLineEnd_iff_rest.mpr hrest)
    have hmore : c.hasMore = true := by simp [hasMore, hend]
    simp only [hmore, if_true, nextLine?, hend, Bool.false_and, Bool.false_eq_true, if_false]
    cases hrun : c.rest.takeWhile Text.isBlank with
    | nil =>
      have hmatch : c.match? .whitespace = none := by
        simp [match?, Pattern.match?, Pattern.blanks?, hrun]
      rw [hmatch]
      apply stepLexeme_moves horder hne
      obtain ⟨rest, hsplit, hstop⟩ := Grammar.takeWhile_eq_iff.mp hrun
      rw [hsplit]
      exact hstop.stops
    | cons ch run =>
      have hmatch : c.match? .whitespace = some (ch :: run, c.advance (ch :: run).length) := by
        simp [match?, Pattern.match?, Pattern.blanks?, hrun]
      rw [hmatch]
      obtain ⟨rest, hsplit, hstop⟩ := Grammar.takeWhile_eq_iff.mp hrun
      exact .blanks hsplit (by simp) hstop

/-- A step never fails: a token can be collected wherever a rule accepts a lexeme. -/
theorem step_ne_fail (horder : order.Complete) (c : Cursor) (e : CollectError) :
    c.step order ≠ .fail e := by
  intro hfail
  have hmoves := step_moves horder c
  rw [hfail] at hmoves
  cases hmoves

theorem events_of_finish (hstep : c.step order = .finish) : c.events order = [] := by
  rw [events]
  split <;> simp_all

/-- What happens in a run is what happens in its first step, and then in the rest of it. -/
theorem events_of_go {happened : List Event} {next : Cursor}
    (hstep : c.step order = .go happened next) :
    c.events order = happened ++ next.events order := by
  rw [events]
  split <;> simp_all

end Ginti.Cursor
