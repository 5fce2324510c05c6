import Mathlib.Data.List.Forall2
import Ginti.Proofs.Grammar.Division
import Ginti.Proofs.Lexer.Moves

namespace Ginti

open Grammar

namespace Grammar

/-- Blanks in front of a text are pieces of their own. -/
theorem Divides.blanks_append {run text : List Char} {pieces : List Piece}
    (hrun : ∀ c ∈ run, Text.isBlank c = true) (htail : Divides text pieces) :
    Divides (run ++ text) (run.map .blank ++ pieces) := by
  induction run with
  | nil => exact htail
  | cons c run ih =>
    exact .blank (hrun c (by simp)) (ih fun d hd => hrun d (List.mem_cons_of_mem c hd))

/-- Blanks give rise to nothing and move what follows. -/
theorem eventsOf_placeLine_blanks (line col : Nat) (run : List Char) (pieces : List Piece) :
    eventsOf (placeLine line col (run.map .blank ++ pieces)) =
      eventsOf (placeLine line (col + run.length) pieces) := by
  induction run generalizing col with
  | nil => rfl
  | cons c run ih =>
    have hlength : col + (c :: run).length = col + 1 + run.length := by
      rw [List.length_cons]
      omega
    rw [hlength, ← ih (col + 1)]
    rfl

end Grammar

namespace Cursor

theorem rest_advance {c : Cursor} {front rest : List Char} (hsplit : c.rest = front ++ rest) :
    (c.advance front.length).rest = rest := by
  change c.current.drop (c.col + front.length) = rest
  rw [← List.drop_drop]
  change c.rest.drop front.length = rest
  rw [hsplit, List.drop_left]

theorem rest_skipLine (c : Cursor) : c.skipLine.rest = [] := by
  change c.current.drop c.current.length = []
  simp

/-- What the run from a cursor does: it goes over the pieces of what is left of the line and
    then over the lines after it. -/
theorem events_divided (c : Cursor) :
    ∃ pieces divisions, Divides c.rest pieces ∧
      List.Forall₂ Divides (c.lines.drop (c.line + 1)) divisions ∧
      c.events .standard =
        eventsOf (placeLine c.line c.col pieces ++ placeAll (c.line + 1) divisions) := by
  induction c using Cursor.events.induct .standard with
  | case1 c hstep =>
    have hmoves := c.step_moves Precedence.standard_complete
    rw [hstep] at hmoves
    cases hmoves with
    | finish hrest hlast =>
      refine ⟨[], [], ?_, ?_, ?_⟩
      · rw [hrest]
        exact .done
      · rw [List.drop_eq_nil_of_le hlast]
        exact .nil
      · exact events_of_finish hstep
  | case3 c e hstep => exact absurd hstep (c.step_ne_fail Precedence.standard_complete e)
  | case2 c happened next hstep ih =>
    -- The pieces after the step are those of the rest of the run, on this line or the next.
    obtain ⟨pieces, divisions, hpieces, hdivisions, hevents⟩ := ih
    have hmoves := c.step_moves Precedence.standard_complete
    rw [hstep] at hmoves
    rw [events_of_go hstep, hevents]
    cases hmoves with
    | nextLine hrest hline =>
      refine ⟨[], pieces :: divisions, ?_, ?_, rfl⟩
      · rw [hrest]
        exact .done
      · have hnext : c.lines[c.line + 1] = (Cursor.mk ⟨c.line + 1, 0⟩ c.lines).rest := by
          simp [rest, current, hline]
        rw [List.drop_eq_getElem_cons hline, hnext]
        exact .cons hpieces hdivisions
    | @blanks run rest hsplit _ hrun =>
      refine ⟨run.map .blank ++ pieces, divisions, ?_, hdivisions, ?_⟩
      · rw [hsplit]
        rw [rest_advance hsplit] at hpieces
        exact hpieces.blanks_append hrun.inside
      · rw [eventsOf_append, eventsOf_append, eventsOf_placeLine_blanks]
        rfl
    | @lexeme category lexeme rest hsplit _ hstart hverdict =>
      refine ⟨.lexeme category lexeme :: pieces, divisions, ?_, hdivisions, rfl⟩
      rw [rest_advance hsplit] at hpieces
      exact .lexeme hstart (judge_standard_eq_iff.mp hverdict) hsplit hpieces
    | @unknown char rest hsplit hstart hverdict =>
      refine ⟨.unknown char :: pieces, divisions, ?_, hdivisions, rfl⟩
      have hfront : c.rest = [char] ++ rest := hsplit
      rw [← List.length_singleton (a := char), rest_advance hfront] at hpieces
      rw [hsplit] at hverdict ⊢
      exact .unknown hstart (judge_standard_eq_iff.mp hverdict) hpieces
    | @dropped fault hne hstart hverdict =>
      refine ⟨[.dropped fault c.rest], divisions, ?_, hdivisions, ?_⟩
      · exact .dropped hstart (judge_standard_eq_iff.mp hverdict)
      · rw [rest_skipLine] at hpieces
        rw [hpieces.unique .done]
        rfl

end Cursor

/-- The events of a source are those of the divisions of its trimmed lines. -/
theorem Source.events_divided (s : Source) :
    ∃ divisions, List.Forall₂ Divides s.trimmed divisions ∧
      s.events = eventsOf (placeAll 0 divisions) := by
  obtain ⟨pieces, divisions, hpieces, hdivisions, hevents⟩ := s.cursor.events_divided
  change s.events = _ at hevents
  simp only [cursor, Cursor.start, Cursor.rest, Cursor.current] at hpieces hdivisions hevents
  cases hlines : s.trimmed with
  | nil =>
    simp only [hlines] at hpieces hdivisions
    cases hdivisions
    cases hpieces.unique .done
    exact ⟨[], .nil, hevents⟩
  | cons line lines =>
    simp only [hlines, List.drop_zero] at hpieces hdivisions
    exact ⟨pieces :: divisions, .cons hpieces hdivisions, hevents⟩

/-- Lines are divided in one way only. -/
theorem Grammar.divisions_unique {lines : List (List Char)} {first second : List (List Piece)}
    (hfirst : List.Forall₂ Divides lines first) (hsecond : List.Forall₂ Divides lines second) :
    first = second := by
  have hunique : Relator.RightUnique Divides := fun _ _ _ => Divides.unique
  exact hunique.forall₂ hfirst hsecond

/-- A run reads each line as the grammar divides it, so all about a source can be learnt from the
    divisions of its trimmed lines. -/
theorem Source.events_of_divides {s : Source} {divisions : List (List Piece)}
    (h : List.Forall₂ Divides s.trimmed divisions) :
    s.events = eventsOf (placeAll 0 divisions) := by
  obtain ⟨others, hothers, hevents⟩ := s.events_divided
  rw [hevents, divisions_unique hothers h]

/-- The grammar decides the whole run: the trimmed lines of a source have one division, and the
    tokens and the diagnostics are those of its pieces, in their order. -/
theorem Source.lexes_as_divided (s : Source) :
    ∃ divisions, (∀ others, List.Forall₂ Divides s.trimmed others ↔ others = divisions) ∧
      s.events = eventsOf (placeAll 0 divisions) ∧
      s.tokens = Event.tokens (eventsOf (placeAll 0 divisions)) ∧
      s.diagnostics = (Event.problems (eventsOf (placeAll 0 divisions))).map Problem.diagnostic := by
  obtain ⟨divisions, hdivisions, hevents⟩ := s.events_divided
  refine ⟨divisions, fun others => ⟨fun hothers => ?_, ?_⟩, hevents, ?_, ?_⟩
  · have hunique : Relator.RightUnique Divides := fun _ _ _ => Divides.unique
    exact hunique.forall₂ hothers hdivisions
  · rintro rfl
    exact hdivisions
  · rw [tokens, hevents]
  · rw [diagnostics, hevents]

end Ginti
