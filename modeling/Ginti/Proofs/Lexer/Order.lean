import Ginti.Proofs.Lexer.Outputs

namespace Ginti

open Grammar

theorem Position.not_before_iff {p q : Position} : ¬ q.Before p ↔ p.Before q ∨ p = q := by
  obtain ⟨line, column⟩ := p
  obtain ⟨line', column'⟩ := q
  simp only [Before, Position.mk.injEq]
  omega

namespace Event

/-- A report made before a token is about nothing behind the token, and one made after it is. -/
def InOrder : Event → Event → Prop
  | problem p, token t => ¬ t.position.Before p.position
  | token t, problem p => t.position.Before p.position
  | _, _ => True

variable {before after : List Event} {t : Token} {p : Problem}

/-- The problems up to a token of a run in order are those that were met before it. -/
theorem filter_problems_of_token (h : (before ++ token t :: after).Pairwise InOrder) :
    (problems (before ++ token t :: after)).filter
        (fun p => p.position.Before t.position ∨ p.position = t.position) = problems before := by
  obtain ⟨-, hafter, hacross⟩ := List.pairwise_append.mp h
  have hsplit : problems (before ++ token t :: after) = problems before ++ problems after :=
    problems_append _ _
  have hearly : ∀ p ∈ problems before, p.position.Before t.position ∨ p.position = t.position := by
    intro p hp
    have hordered := hacross _ (mem_problems_iff.mp hp) _ List.mem_cons_self
    exact Position.not_before_iff.mp hordered
  have hlate : ∀ p ∈ problems after,
      ¬ (p.position.Before t.position ∨ p.position = t.position) := by
    intro p hp
    have hordered := List.rel_of_pairwise_cons hafter (mem_problems_iff.mp hp)
    exact fun hle => Position.not_before_iff.mpr hle hordered
  rw [hsplit, List.filter_append, List.filter_eq_self.mpr (by simpa using hearly),
    List.filter_eq_nil_iff.mpr (by simpa using hlate), List.append_nil]

/-- As many tokens lie before a problem of a run in order as come before it. -/
theorem countP_tokens_of_problem (h : (before ++ problem p :: after).Pairwise InOrder) :
    (tokens (before ++ problem p :: after)).countP (fun t => t.position.Before p.position) =
      (tokens before).length := by
  obtain ⟨-, hafter, hacross⟩ := List.pairwise_append.mp h
  have hsplit : tokens (before ++ problem p :: after) = tokens before ++ tokens after :=
    tokens_append _ _
  have hearly : ∀ t ∈ tokens before, t.position.Before p.position := by
    intro t ht
    exact hacross _ (mem_tokens_iff.mp ht) _ List.mem_cons_self
  have hlate : ∀ t ∈ tokens after, ¬ t.position.Before p.position := by
    intro t ht
    exact List.rel_of_pairwise_cons hafter (mem_tokens_iff.mp ht)
  rw [hsplit, List.countP_append, List.countP_eq_length.mpr (by simpa using hearly),
    List.countP_eq_zero.mpr (by simpa using hlate), Nat.add_zero]

end Event

/-- What a piece gives rise to is at its spot. -/
theorem Grammar.Piece.position_of_mem_events (piece : Piece) (spot : Spot) :
    (∀ t, .token t ∈ piece.events spot → t.position = spot.position) ∧
      ∀ p, .problem p ∈ piece.events spot → p.position = spot.position := by
  cases piece <;> simp +contextual [Piece.events]

/-- The report about an unknown character comes before its token. -/
theorem Grammar.Piece.events_inOrder (piece : Piece) (spot : Spot) :
    (piece.events spot).Pairwise Event.InOrder := by
  cases piece with
  | unknown char =>
    refine .cons ?_ (List.pairwise_singleton _ _)
    intro e he
    rw [List.mem_singleton.mp he]
    exact Position.not_before_iff.mpr (.inr rfl)
  | _ => simp [Piece.events]

/-- The events of a source come in order. -/
theorem Source.events_inOrder (s : Source) : s.events.Pairwise Event.InOrder := by
  obtain ⟨placed, h⟩ := s.exists_laidOut
  rw [h.events, eventsOf, List.pairwise_flatMap]
  refine ⟨fun x _ => x.2.events_inOrder x.1, h.layout.spots_pairwise.imp ?_⟩
  intro x y hxy e he e' he'
  obtain ⟨htoken, hproblem⟩ := x.2.position_of_mem_events x.1
  obtain ⟨htoken', hproblem'⟩ := y.2.position_of_mem_events y.1
  have hbefore := hxy.position
  cases e with
  | token t =>
    cases e' with
    | problem p =>
      rw [Event.InOrder, htoken t he, hproblem' p he']
      exact hbefore
    | _ => trivial
  | problem p =>
    cases e' with
    | token t =>
      rw [Event.InOrder, hproblem p he, htoken' t he']
      exact Position.not_before_iff.mpr (.inl hbefore)
    | _ => trivial
  | failure => trivial

end Ginti
