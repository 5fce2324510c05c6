import Mathlib.Logic.Relation
import Ginti.Proofs.Lexer.Outputs

namespace Ginti

open Grammar

namespace Cursor

/-- One step goes from a cursor to the other. -/
def StepsTo (order : Precedence) (c d : Cursor) : Prop :=
  ∃ happened, c.step order = .go happened d

/-- Some steps, or none, go from a cursor to the other. -/
def Reaches (order : Precedence) : Cursor → Cursor → Prop :=
  Relation.ReflTransGen (StepsTo order)

/-- What happens in a step from a cursor on the way happens in the run. -/
theorem mem_events_of_reaches {order : Precedence} {c d next : Cursor} {happened : List Event}
    {e : Event} (hreach : c.Reaches order d) (hstep : d.step order = .go happened next)
    (he : e ∈ happened) : e ∈ c.events order := by
  induction hreach using Relation.ReflTransGen.head_induction_on with
  | refl =>
    rw [events_of_go hstep]
    exact List.mem_append_left _ he
  | head hfirst _ ih =>
    obtain ⟨before, hbefore⟩ := hfirst
    rw [events_of_go hbefore]
    exact List.mem_append_right _ ih

/-- Everything that happens in a run happens in one of its steps. -/
theorem exists_step_of_mem_events {order : Precedence} (horder : order.Complete) {c : Cursor}
    {e : Event} (he : e ∈ c.events order) :
    ∃ d happened next, c.Reaches order d ∧ d.step order = .go happened next ∧ e ∈ happened := by
  induction c using Cursor.events.induct order with
  | case1 c hstep =>
    rw [events_of_finish hstep] at he
    cases he
  | case2 c happened next hstep ih =>
    rw [events_of_go hstep] at he
    obtain hnow | hlater := List.mem_append.mp he
    · exact ⟨c, happened, next, .refl, hstep, hnow⟩
    · obtain ⟨d, later, after, hreach, hd, hmem⟩ := ih hlater
      exact ⟨d, later, after, .head ⟨happened, hstep⟩ hreach, hd, hmem⟩
  | case3 c e hstep => exact absurd hstep (c.step_ne_fail horder e)

/-- Where a rule refuses what is in front of the cursor, the step reports the fault and drops the
    rest of the line. -/
theorem step_of_reject {c : Cursor} {fault : Fault}
    (hverdict : Precedence.standard.judge c.rest = .reject fault) :
    c.step .standard = .go [.problem ⟨fault, c.position⟩] c.skipLine := by
  have hbegins := judge_standard_eq_iff.mp hverdict
  have hmoves := c.step_moves Precedence.standard_complete
  generalize c.step .standard = step at hmoves ⊢
  cases hmoves with
  | finish hrest _ => exact absurd hrest (hbegins.ne_nil (by simp))
  | nextLine hrest _ => exact absurd hrest (hbegins.ne_nil (by simp))
  | @blanks run rest hsplit hne hrun =>
    obtain ⟨ch, run, rfl⟩ := List.exists_cons_of_ne_nil hne
    have hblank := hrun.inside ch (by simp)
    obtain ⟨-, hhead⟩ | ⟨-, hhead⟩ := hbegins.quote_of_reject
    · rw [hsplit] at hhead
      cases hhead
      cases hblank
    · rw [hsplit] at hhead
      cases hhead
      cases hblank
  | lexeme _ _ _ hother => cases hverdict.symm.trans hother
  | unknown _ _ hother => cases hverdict.symm.trans hother
  | dropped _ _ hother =>
    cases hverdict.symm.trans hother
    rfl

/-- A step that reports a fault other than an unrecognized character is one where a rule refuses
    what is in front of the cursor. -/
theorem reject_of_problem {c next : Cursor} {happened : List Event} {problem : Problem}
    (hstep : c.step .standard = .go happened next) (hproblem : .problem problem ∈ happened)
    (hfault : ∀ char, problem.fault ≠ .unrecognized char) :
    Precedence.standard.judge c.rest = .reject problem.fault ∧
      problem.position = c.position := by
  have hmoves := c.step_moves Precedence.standard_complete
  rw [hstep] at hmoves
  cases hmoves with
  | nextLine => cases hproblem
  | blanks => cases hproblem
  | lexeme => simp at hproblem
  | unknown =>
    simp only [List.mem_cons, Event.problem.injEq, reduceCtorEq, List.not_mem_nil, or_false] at hproblem
    subst hproblem
    exact absurd rfl (hfault _)
  | dropped _ _ hverdict =>
    simp only [List.mem_singleton, Event.problem.injEq] at hproblem
    subst hproblem
    exact ⟨hverdict, rfl⟩

end Cursor

/-- The scan of line `n` is given up at column `col`, both counted from zero: the run arrives
    there, and a rule refuses the rest of the line. -/
def Source.AbandonedAt (s : Source) (n col : Nat) : Prop :=
  ∃ c fault, s.cursor.Reaches .standard c ∧ c.toSpot = ⟨n, col⟩ ∧
    Precedence.standard.judge c.rest = .reject fault

namespace Source.LaidOut

variable {s : Source} {placed : List (Spot × Piece)}

theorem problem_mem_events_iff (h : s.LaidOut placed) {problem : Problem} :
    .problem problem ∈ s.events ↔
      ∃ x ∈ placed, ∃ fault, x.2.fault? = some fault ∧ problem = ⟨fault, x.1.position⟩ := by
  rw [← Event.mem_problems_iff, h.events, problems_eventsOf, List.mem_filterMap]
  simp only [problemAt?_eq_some_iff]

/-- A line is given up where one of its pieces is dropped. -/
theorem abandonedAt_iff (h : s.LaidOut placed) {n col : Nat} :
    s.AbandonedAt n col ↔
      ∃ x ∈ placed, x.1 = ⟨n, col⟩ ∧ ∃ fault text, x.2 = .dropped fault text := by
  constructor
  · intro habandoned
    obtain ⟨c, fault, hreach, hspot, hverdict⟩ := habandoned
    have hstep := Cursor.step_of_reject hverdict
    have hmem : .problem ⟨fault, c.position⟩ ∈ s.events :=
      Cursor.mem_events_of_reaches hreach hstep List.mem_cons_self
    obtain ⟨⟨spot, piece⟩, hx, found, hfound, hproblem⟩ := h.problem_mem_events_iff.mp hmem
    obtain ⟨rfl, hposition⟩ := Problem.mk.inj hproblem
    have hsame : spot = ⟨n, col⟩ := (Spot.position_injective hposition).symm.trans hspot
    have hbegins := judge_standard_eq_iff.mp hverdict
    refine ⟨_, hx, hsame, ?_⟩
    cases piece with
    | blank => cases hfound
    | lexeme => cases hfound
    | unknown char =>
      have hunrecognized := (Option.some.inj hfound).symm
      exact absurd hunrecognized (hbegins.fault_ne_unrecognized _)
    | dropped other text => exact ⟨other, text, rfl⟩
  · intro hpiece
    obtain ⟨x, hx, hspot, fault, text, hdropped⟩ := hpiece
    obtain ⟨line, -, hbegins⟩ := h.begins_of_dropped hx hdropped
    have hfault : x.2.fault? = some fault := congrArg Piece.fault? hdropped
    have hmem := h.problem_mem_events_iff.mpr ⟨x, hx, fault, hfault, rfl⟩
    obtain ⟨c, happened, next, hreach, hstep, hproblem⟩ :=
      Cursor.exists_step_of_mem_events Precedence.standard_complete hmem
    obtain ⟨hverdict, hposition⟩ :=
      Cursor.reject_of_problem hstep hproblem hbegins.fault_ne_unrecognized
    have hcursor : c.toSpot = x.1 := (Spot.position_injective hposition).symm
    exact ⟨c, fault, hreach, hcursor.trans hspot, hverdict⟩

end Source.LaidOut
end Ginti
