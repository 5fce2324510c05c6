import Ginti.Proofs.Lexer.Reach

namespace Ginti

namespace Cursor

/-- The step from a cursor reads a lexeme: the line is not used up, and no blanks come next. -/
structure AtLexeme (c : Cursor) : Prop where
  hasMore : c.hasMore = true
  sameLine : c.nextLine? = none
  noBlanks : c.match? .whitespace = none

/-- The step from a cursor asks for a token of a category, between the cursor and another one:
    over a lexeme that the rules accept, or over one character where no rule applies. -/
inductive Collects (order : Precedence) (c : Cursor) : Category → Cursor → Prop where
  | lexeme {category : Category} {lexeme : List Char} (hat : c.AtLexeme)
      (hverdict : order.judge c.rest = .accept category lexeme) :
      c.Collects order category (c.advance lexeme.length)
  | unknown {text : List Char} {next : Cursor} (hat : c.AtLexeme)
      (hverdict : order.judge c.rest = .pass) (hread : c.read? 1 = some (text, next)) :
      c.Collects order .unknown next

variable {order : Precedence} {c next : Cursor} {category : Category}

theorem AtLexeme.step_eq (hat : c.AtLexeme) : c.step order = c.stepLexeme order := by
  simp only [step, hat.hasMore, if_true, hat.sameLine, hat.noBlanks]

/-- These are the tokens that steps ask for. -/
theorem Collects.step_eq (h : c.Collects order category next) :
    ∃ before, c.step order = c.emit category before next := by
  cases h with
  | lexeme hat hverdict => exact ⟨[], by rw [hat.step_eq, stepLexeme, hverdict]⟩
  | @unknown text next hat hverdict hread =>
    refine ⟨[.problem ⟨.unrecognized (String.ofList text), c.position⟩], ?_⟩
    rw [hat.step_eq, stepLexeme, hverdict]
    simp only [hread]

theorem AtLexeme.rest_ne_nil (hat : c.AtLexeme) : c.rest ≠ [] := by
  intro hrest
  have hnext := hat.sameLine
  simp [nextLine?, atLineEnd_iff_rest.mpr hrest, hat.hasMore] at hnext

/-- Where a token is asked for, it lies over some text in front of the cursor. -/
theorem Collects.exists_split (horder : order.Complete) (h : c.Collects order category next) :
    ∃ lexeme rest, c.rest = lexeme ++ rest ∧ lexeme ≠ [] ∧ next = c.advance lexeme.length := by
  cases h with
  | lexeme hat hverdict =>
    obtain ⟨rest, hsplit, hne⟩ := split_of_accept horder hverdict
    exact ⟨_, rest, hsplit, hne, rfl⟩
  | unknown hat hverdict hread =>
    obtain ⟨char, rest, hsplit⟩ := List.exists_cons_of_ne_nil hat.rest_ne_nil
    rw [read?_one hsplit] at hread
    cases hread
    exact ⟨[char], rest, hsplit, List.cons_ne_nil _ _, rfl⟩

theorem col_add_length_le {front rest : List Char} (hsplit : c.rest = front ++ rest)
    (hne : front ≠ []) : c.col + front.length ≤ c.current.length := by
  have hlength := congrArg List.length hsplit
  have hpos := List.length_pos_iff.mpr hne
  rw [Cursor.rest, List.length_drop, List.length_append] at hlength
  omega

/-- The cursor of a run over some lines: on one of them, or at the start if there are none, and
    not past the end of its line. -/
structure Within (c : Cursor) (lines : List (List Char)) : Prop where
  lines_eq : c.lines = lines
  line_lt : c.line < max 1 lines.length
  col_le : c.col ≤ c.current.length

theorem start_within (lines : List (List Char)) : (start lines).Within lines where
  lines_eq := rfl
  line_lt := Nat.lt_of_lt_of_le Nat.zero_lt_one (Nat.le_max_left _ _)
  col_le := Nat.zero_le _

/-- Moving over what is in front of it keeps a cursor within its lines. -/
theorem Within.advance {lines : List (List Char)} {front rest : List Char} (h : c.Within lines)
    (hsplit : c.rest = front ++ rest) (hne : front ≠ []) :
    (c.advance front.length).Within lines where
  lines_eq := h.lines_eq
  line_lt := h.line_lt
  col_le := col_add_length_le hsplit hne

/-- A token that is asked for is collected, from a line that exists. -/
theorem Collects.collected {lines : List (List Char)} (horder : order.Complete)
    (hwithin : c.Within lines) (h : c.Collects order category next) :
    c.mark.spot.line < lines.length ∧ c.mark.spot.line = next.line ∧
      c.mark.spot.col < next.col ∧
      ∃ token, c.mark.collect category next = .ok (token, next.mark) := by
  obtain ⟨lexeme, rest, hsplit, hne, rfl⟩ := h.exists_split horder
  have hline : c.lines[c.line]? = some c.current := lines_get_of_rest (by simp [hsplit, hne])
  have hlt := (List.getElem?_eq_some_iff.mp hline).1
  rw [hwithin.lines_eq] at hlt
  refine ⟨hlt, rfl, ?_, _, collect_advance hsplit hne category⟩
  exact Nat.lt_add_of_pos_right (List.length_pos_iff.mpr hne)

/-- A step keeps the cursor within the lines. -/
theorem Moves.within {lines : List (List Char)} {happened : List Event} (h : c.Within lines)
    (hmoves : c.Moves order (.go happened next)) : next.Within lines := by
  cases hmoves with
  | nextLine _ hline =>
    refine ⟨h.lines_eq, ?_, Nat.zero_le _⟩
    rw [h.lines_eq] at hline
    exact Nat.lt_of_lt_of_le hline (Nat.le_max_right _ _)
  | blanks hsplit hne _ => exact h.advance hsplit hne
  | lexeme hsplit hne _ _ => exact h.advance hsplit hne
  | @unknown char rest hsplit _ _ =>
    have hfront : c.rest = [char] ++ rest := hsplit
    exact h.advance hfront (List.cons_ne_nil _ _)
  | dropped _ _ _ => exact ⟨h.lines_eq, h.line_lt, Nat.le_refl _⟩

/-- A step that goes on goes to a later spot. -/
theorem Moves.before {happened : List Event} (hmoves : c.Moves order (.go happened next)) :
    c.toSpot.Before next.toSpot := by
  cases hmoves with
  | nextLine _ _ => exact .inl (Nat.lt_succ_self _)
  | blanks _ hne _ => exact .inr ⟨rfl, Nat.lt_add_of_pos_right (List.length_pos_iff.mpr hne)⟩
  | lexeme _ hne _ _ => exact .inr ⟨rfl, Nat.lt_add_of_pos_right (List.length_pos_iff.mpr hne)⟩
  | unknown _ _ _ => exact .inr ⟨rfl, Nat.lt_succ_self _⟩
  | dropped hne _ _ =>
    have hlength : 0 < c.rest.length := List.length_pos_iff.mpr hne
    rw [rest, List.length_drop] at hlength
    have hcol : c.col < c.current.length := by omega
    exact .inr ⟨rfl, hcol⟩

/-- No move fails. -/
theorem Moves.failure_not_mem {happened : List Event} {e : CollectError}
    (hmoves : c.Moves order (.go happened next)) : .failure e ∉ happened := by
  cases hmoves <;> simp

/-- A run stays within the lines. -/
theorem Reaches.within {lines : List (List Char)} {d : Cursor} (horder : order.Complete)
    (hreach : c.Reaches order d) (h : c.Within lines) : d.Within lines := by
  induction hreach with
  | refl => exact h
  | @tail b d _ hstep ih =>
    obtain ⟨happened, hstep⟩ := hstep
    have hmoves := b.step_moves horder
    rw [hstep] at hmoves
    exact hmoves.within ih

/-- A run comes to an end, at the end of the last line. -/
theorem exists_reaches_finish (horder : order.Complete) (c : Cursor) :
    ∃ last, c.Reaches order last ∧ last.step order = .finish ∧ last.rest = [] ∧
      last.lines.length ≤ last.line + 1 := by
  induction c using Cursor.events.induct order with
  | case1 c hstep =>
    have hmoves := c.step_moves horder
    rw [hstep] at hmoves
    cases hmoves with
    | finish hrest hlast => exact ⟨c, .refl, hstep, hrest, hlast⟩
  | case2 c happened next hstep ih =>
    obtain ⟨last, hreach, hlast⟩ := ih
    exact ⟨last, .head ⟨happened, hstep⟩ hreach, hlast⟩
  | case3 c e hstep => exact absurd hstep (c.step_ne_fail horder e)

end Cursor

open Cursor

/-- Nothing fails while a source is lexed: wherever a token is collected there is some text. -/
theorem Source.failure_not_mem_events (s : Source) (e : CollectError) : .failure e ∉ s.events := by
  intro he
  have hcomplete := Precedence.standard_complete
  obtain ⟨c, happened, next, _, hstep, hmem⟩ := exists_step_of_mem_events hcomplete he
  have hmoves := c.step_moves hcomplete
  rw [hstep] at hmoves
  exact hmoves.failure_not_mem hmem

/-- A run over a source that comes to its end and does not fail on the way. -/
structure Source.RunsSafely (s : Source) : Prop where
  /-- The cursor stays on a line and does not go past the end of the line. -/
  within : ∀ c, s.cursor.Reaches .standard c →
    c.lines = s.trimmed ∧ c.line < max 1 s.lines.length ∧ c.col ≤ c.current.length
  /-- Each step goes to a later spot. -/
  progress : ∀ c happened next, s.cursor.Reaches .standard c →
    c.step .standard = .go happened next → c.toSpot.Before next.toSpot
  ends : ∃ last, s.cursor.Reaches .standard last ∧ last.step .standard = .finish ∧
    last.rest = [] ∧ s.lines.length ≤ last.line + 1
  /-- Where a step asks for a token, the line of the mark exists, the mark is before the cursor
      on the same line, and the token is collected. -/
  collects : ∀ c category next, s.cursor.Reaches .standard c →
    c.Collects .standard category next →
      (∃ before, c.step .standard = c.emit category before next) ∧
        c.mark.spot.line < s.lines.length ∧ c.mark.spot.line = next.line ∧
        c.mark.spot.col < next.col ∧
        ∃ token, c.mark.collect category next = .ok (token, next.mark)
  /-- Where no rule applies there is a character to read. -/
  reads : ∀ c, s.cursor.Reaches .standard c → c.AtLexeme →
    Precedence.standard.judge c.rest = .pass → ∃ char, c.read? 1 = some ([char], c.advance 1)
  step_ok : ∀ c e, s.cursor.Reaches .standard c → c.step .standard ≠ .fail e
  no_failure : ∀ e, .failure e ∉ s.events

/-- Lexing always ends and never fails, whatever the lines of the source. -/
theorem Source.runs_safely (s : Source) : s.RunsSafely := by
  have hcomplete := Precedence.standard_complete
  have hlength : s.trimmed.length = s.lines.length := List.length_map _
  have hwithin {c : Cursor} (hreach : s.cursor.Reaches .standard c) : c.Within s.trimmed :=
    hreach.within hcomplete (start_within s.trimmed)
  constructor
  case within =>
    intro c hreach
    obtain ⟨hlines, hline, hcol⟩ := hwithin hreach
    rw [hlength] at hline
    exact ⟨hlines, hline, hcol⟩
  case progress =>
    intro c happened next _ hstep
    have hmoves := c.step_moves hcomplete
    rw [hstep] at hmoves
    exact hmoves.before
  case ends =>
    obtain ⟨last, hreach, hfinish, hrest, hlast⟩ := s.cursor.exists_reaches_finish hcomplete
    rw [(hwithin hreach).lines_eq, hlength] at hlast
    exact ⟨last, hreach, hfinish, hrest, hlast⟩
  case collects =>
    intro c category next hreach hcollects
    have hcollected := hcollects.collected hcomplete (hwithin hreach)
    rw [hlength] at hcollected
    exact ⟨hcollects.step_eq, hcollected⟩
  case reads =>
    intro c _ hat _
    obtain ⟨char, rest, hsplit⟩ := List.exists_cons_of_ne_nil hat.rest_ne_nil
    exact ⟨char, read?_one hsplit⟩
  case step_ok => exact fun c e _ => c.step_ne_fail hcomplete e
  case no_failure => exact s.failure_not_mem_events

end Ginti
