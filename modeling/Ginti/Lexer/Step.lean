import Ginti.Lexer.Event
import Ginti.Lexer.Rule

namespace Ginti

/-- What one step does: it ends the run, goes on from another cursor, or cannot go on. -/
inductive Step where
  | finish
  | go (events : List Event) (next : Cursor)
  | fail (error : CollectError)
  deriving DecidableEq, Repr

namespace Cursor

/-- Collects the token between a cursor and a later one, after the given events. -/
def emit (c : Cursor) (category : Category) (before : List Event) (next : Cursor) : Step :=
  match c.mark.collect category next with
  | .ok (token, _) => .go (before ++ [.token token]) next
  | .error e => .fail e

/-- Reads one lexeme. A character that starts none becomes a token of its own and is reported; a
    broken literal is reported and costs the rest of its line. -/
def stepLexeme (order : Precedence) (c : Cursor) : Step :=
  match order.judge c.rest with
  | .accept category lexeme => c.emit category [] (c.advance lexeme.length)
  | .reject fault => .go [.problem ⟨fault, c.position⟩] c.skipLine
  | .pass =>
    match c.read? 1 with
    | some (char, next) =>
      c.emit .unknown [.problem ⟨.unrecognized (String.ofList char), c.position⟩] next
    | none => .fail (.noText c.toSpot c.toSpot)

/-- Goes to the next line, over some blanks, or over one lexeme. -/
def step (order : Precedence) (c : Cursor) : Step :=
  if c.hasMore then
    match c.nextLine? with
    | some next => .go [] next
    | none =>
      match c.match? .whitespace with
      | some (_, next) => .go [] next
      | none => c.stepLexeme order
  else .finish

/-- What is still in front of a cursor: lines, and characters on its line. -/
def remaining (c : Cursor) : Nat × Nat :=
  (c.lines.length - c.line, c.current.length - c.col)

/-- A collected token is in one line and has text. -/
theorem emit_go {c next after : Cursor} {category : Category} {before events : List Event}
    (h : c.emit category before next = .go events after) :
    after = next ∧ next.line = c.line ∧ c.col < next.col := by
  unfold emit at h
  split at h
  · next token _ hcollect =>
    simp only [Step.go.injEq] at h
    unfold Mark.collect at hcollect
    split at hcollect
    · cases hcollect
    · next hplace =>
      simp only [mark, ne_eq, not_or, Decidable.not_not, Nat.not_le] at hplace
      exact ⟨h.2.symm, hplace.1.symm, hplace.2⟩
  · cases h

/-- Moving on within a line that is not used up leaves less of it. -/
theorem remaining_lt_of_col {c next : Cursor} (hlines : next.lines = c.lines)
    (hline : next.line = c.line) (hend : c.col < c.current.length) (hcol : c.col < next.col) :
    Prod.Lex (· < ·) (· < ·) next.remaining c.remaining := by
  have hcurrent : next.current = c.current := by simp [current, hlines, hline]
  simp only [remaining, hlines, hline, hcurrent]
  exact .right _ (by omega)

/-- The step over one lexeme moves on within its line. -/
theorem stepLexeme_progress {order : Precedence} {c next : Cursor} {events : List Event}
    (hend : c.col < c.current.length) (h : c.stepLexeme order = .go events next) :
    Prod.Lex (· < ·) (· < ·) next.remaining c.remaining := by
  unfold stepLexeme at h
  split at h
  · obtain ⟨rfl, hline, hcol⟩ := emit_go h
    exact remaining_lt_of_col rfl hline hend hcol
  · simp only [Step.go.injEq] at h
    obtain ⟨-, rfl⟩ := h
    exact remaining_lt_of_col rfl rfl hend hend
  · split at h
    · next hread =>
      obtain ⟨rfl, hline, hcol⟩ := emit_go h
      have hlines : next.lines = c.lines := by
        simp only [read?] at hread
        split at hread <;> cases hread
        rfl
      exact remaining_lt_of_col hlines hline hend hcol
    · cases h

/-- Every step that goes on leaves less to be read: fewer lines, or as many and less of the first.
    A run is finite because of it. -/
theorem step_progress {order : Precedence} {c next : Cursor} {events : List Event}
    (h : c.step order = .go events next) :
    Prod.Lex (· < ·) (· < ·) next.remaining c.remaining := by
  unfold step at h
  split at h
  · next hmore =>
    split at h
    · next hnext =>
      simp only [Step.go.injEq] at h
      obtain ⟨-, rfl⟩ := h
      simp only [nextLine?, hmore, Bool.and_true, Option.ite_none_right_eq_some,
        Option.some.injEq] at hnext
      obtain ⟨hend, rfl⟩ := hnext
      simp only [hasMore, hend, Bool.true_and, onLastLine, Bool.not_eq_eq_eq_not, Bool.not_true,
        decide_eq_false_iff_not, Nat.not_le] at hmore
      exact .left _ _ (by simp only; omega)
    · next hnext =>
      have hend : c.col < c.current.length := by
        simpa [nextLine?, hmore, atLineEnd] using hnext
      split at h
      · next blanks after hmatch =>
        simp only [Step.go.injEq] at h
        obtain ⟨-, rfl⟩ := h
        simp only [match?, Option.map_eq_some_iff, Prod.mk.injEq] at hmatch
        obtain ⟨text, hblanks, rfl, rfl⟩ := hmatch
        refine remaining_lt_of_col rfl rfl hend ?_
        cases text with
        | nil =>
          simp only [Pattern.match?, Pattern.blanks?] at hblanks
          split at hblanks <;> simp_all
        | cons _ _ => simp [advance]
      · exact stepLexeme_progress hend h
  · cases h

end Cursor
end Ginti
