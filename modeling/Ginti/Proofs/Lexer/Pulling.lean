import Ginti.Lexer.Pull
import Ginti.Proofs.Lexer.Order
import Ginti.Proofs.Lexer.Reports

namespace Ginti

open Grammar

/-- All that happens during a pull, in order. -/
def Pull.events (p : Pull) : List Event :=
  p.problems.map .problem ++ p.token.toList.map .token

@[simp]
theorem Pull.tokens_events (p : Pull) : Event.tokens p.events = p.token.toList := by
  rw [events, Event.tokens_append, Event.tokens_map_problem]
  cases p.token <;> rfl

@[simp]
theorem Pull.problems_events (p : Pull) : Event.problems p.events = p.problems := by
  rw [events, Event.problems_append, Event.problems_map_problem]
  cases p.token <;> simp [Event.problems, Event.problem?]

theorem Pull.tokens_flatMap (pulls : List Pull) :
    Event.tokens (pulls.flatMap events) = pulls.filterMap Pull.token := by
  induction pulls with
  | nil => rfl
  | cons p pulls ih =>
    rw [List.flatMap_cons, Event.tokens_append, tokens_events, ih, List.filterMap_cons]
    cases p.token <;> rfl

theorem Pull.problems_flatMap (pulls : List Pull) :
    Event.problems (pulls.flatMap events) = pulls.flatMap Pull.problems := by
  induction pulls with
  | nil => rfl
  | cons p pulls ih =>
    rw [List.flatMap_cons, Event.problems_append, problems_events, ih, List.flatMap_cons]

/-- What a pull reports to the user. -/
def Pull.diagnostics (p : Pull) : List Diagnostic :=
  p.problems.map Problem.diagnostic

namespace Cursor

variable {c next : Cursor} {happened : List Event}

theorem pull_of_finish {order : Precedence} (hstep : c.step order = .finish) :
    c.pull order = ⟨[], none, c⟩ := by
  rw [pull]
  split <;> simp_all

theorem pull_of_token {order : Precedence} {token : Token}
    (hstep : c.step order = .go happened next) (htokens : Event.tokens happened = [token]) :
    c.pull order = ⟨Event.problems happened, some token, next⟩ := by
  rw [pull]
  split <;> simp_all

/-- A step without a token is followed by another, and its problems are reported with the later
    ones. -/
theorem pull_of_no_token {order : Precedence} (hstep : c.step order = .go happened next)
    (htokens : Event.tokens happened = []) :
    c.pull order = { next.pull order with
      problems := Event.problems happened ++ (next.pull order).problems } := by
  rw [pull]
  split <;> simp_all

/-- A token and what was reported on the way to it. An unknown token is among that. -/
structure Finds (events : List Event) (problems : List Problem) (token : Token) : Prop where
  events_eq : events = problems.map .problem ++ [.token token]
  unknown : token.category = .unknown → ⟨.unrecognized token.text, token.position⟩ ∈ problems

theorem Finds.tokens_eq {events : List Event} {problems : List Problem} {token : Token}
    (h : Finds events problems token) : Event.tokens events = [token] := by
  rw [h.events_eq, Event.tokens_append, Event.tokens_map_problem]
  rfl

theorem Finds.problems_eq {events : List Event} {problems : List Problem} {token : Token}
    (h : Finds events problems token) : Event.problems events = problems := by
  rw [h.events_eq, Event.problems_append, Event.problems_map_problem]
  exact List.append_nil _

/-- A step reports some problems and finds one token or none. -/
theorem Moves.finds (hmoves : c.Moves .standard (.go happened next)) :
    ∃ problems : List Problem, happened = problems.map .problem ∨
      ∃ token, Finds happened problems token := by
  cases hmoves with
  | nextLine => exact ⟨[], .inl rfl⟩
  | blanks => exact ⟨[], .inl rfl⟩
  | lexeme _ _ _ hverdict =>
    have hknown := (judge_standard_eq_iff.mp hverdict).category_ne_unknown
    exact ⟨[], .inr ⟨_, rfl, fun hunknown => absurd hunknown hknown⟩⟩
  | unknown => exact ⟨[_], .inr ⟨_, rfl, fun _ => List.mem_cons_self⟩⟩
  | dropped => exact ⟨[_], .inl rfl⟩

/-- What a pull from a cursor gives: the next token of the run, or what is left of the run if it
    has no more tokens. -/
inductive Pulls (c : Cursor) : Pull → Prop where
  | token {events : List Event} {problems : List Problem} {token : Token} {next : Cursor}
      (hfinds : Finds events problems token)
      (hevents : c.events .standard = events ++ next.events .standard) :
      c.Pulls ⟨problems, some token, next⟩
  | last {problems : List Problem} {last : Cursor}
      (hevents : c.events .standard = problems.map .problem)
      (hfinish : last.step .standard = .finish) : c.Pulls ⟨problems, none, last⟩

/-- A pull is a stretch of the run up to its next token, or all that is left of the run. -/
theorem pull_pulls (c : Cursor) : c.Pulls (c.pull .standard) := by
  induction c using Cursor.events.induct .standard with
  | case1 c hstep =>
    rw [pull_of_finish hstep]
    exact .last (events_of_finish hstep) hstep
  | case2 c happened next hstep ih =>
    have hmoves := c.step_moves Precedence.standard_complete
    rw [hstep] at hmoves
    have hevents := events_of_go hstep
    obtain ⟨problems, rfl | ⟨token, hfinds⟩⟩ := hmoves.finds
    · rw [pull_of_no_token hstep (Event.tokens_map_problem _), Event.problems_map_problem]
      generalize next.pull .standard = later at ih ⊢
      cases ih with
      | @token events after token beyond hfinds hlater =>
        have hfront : Finds (problems.map .problem ++ events) (problems ++ after) token := by
          refine ⟨?_, fun hunknown => List.mem_append_right _ (hfinds.unknown hunknown)⟩
          rw [hfinds.events_eq, List.map_append, List.append_assoc]
        refine .token hfront ?_
        rw [hevents, hlater, List.append_assoc]
      | last hlater hfinish =>
        refine .last ?_ hfinish
        rw [hevents, hlater, List.map_append]
    · rw [pull_of_token hstep hfinds.tokens_eq, hfinds.problems_eq]
      exact .token hfinds hevents
  | case3 c e hstep => exact absurd hstep (c.step_ne_fail Precedence.standard_complete e)

theorem pulls_of_finish {order : Precedence} (hstep : c.step order = .finish) (count : Nat) :
    c.pulls order count = List.replicate count ⟨[], none, c⟩ := by
  induction count with
  | zero => rfl
  | succ count ih => rw [pulls, pull_of_finish hstep, ih, List.replicate_succ]

/-- Pulls in a row from a run: each takes the next token with what comes before it, the first
    one past the last token takes the rest, and nothing is left for the others. -/
inductive Draws : List Event → List Pull → Prop where
  | nil {events : List Event} : Draws events []
  | token {events rest : List Event} {problems : List Problem} {token : Token} {next : Cursor}
      {later : List Pull} (hfinds : Finds events problems token) (tail : Draws rest later) :
      Draws (events ++ rest) (⟨problems, some token, next⟩ :: later)
  | last {problems : List Problem} {last : Cursor} {idle : Nat} :
      Draws (problems.map .problem) (⟨problems, none, last⟩ :: List.replicate idle ⟨[], none, last⟩)

/-- Pulls in a row draw on the events of the run one after the other. -/
theorem draws_pulls (c : Cursor) (count : Nat) :
    Draws (c.events .standard) (c.pulls .standard count) := by
  induction count generalizing c with
  | zero => exact .nil
  | succ count ih =>
    have hpull := c.pull_pulls
    rw [pulls]
    generalize c.pull .standard = first at hpull ⊢
    cases hpull with
    | token hfinds hevents =>
      rw [hevents]
      exact .token hfinds (ih _)
    | last hevents hfinish =>
      rw [hevents, pulls_of_finish hfinish]
      exact .last

theorem length_pulls (order : Precedence) (c : Cursor) (count : Nat) :
    (c.pulls order count).length = count := by
  induction count generalizing c with
  | zero => rfl
  | succ count ih => rw [pulls, List.length_cons, ih]

/-- The first of some pulls do not depend on how many follow. -/
theorem take_pulls (order : Precedence) (c : Cursor) {i count : Nat} (h : i ≤ count) :
    (c.pulls order count).take i = c.pulls order i := by
  induction i generalizing c count with
  | zero => rfl
  | succ i ih =>
    obtain ⟨count, rfl⟩ := Nat.exists_eq_add_of_lt h
    rw [pulls, pulls, List.take_succ_cons, ih _ (by omega)]

namespace Draws

variable {events : List Event} {pulls : List Pull} {i : Nat} {p : Pull}

/-- The pulls find the tokens of the run in order, and nothing once they are used up. -/
theorem token_eq (h : Draws events pulls) (hp : pulls[i]? = some p) :
    p.token = (Event.tokens events)[i]? := by
  induction h generalizing i with
  | nil => simp at hp
  | token hfinds _ ih =>
    rw [Event.tokens_append, hfinds.tokens_eq]
    cases i with
    | zero =>
      cases hp
      rfl
    | succ i => exact ih hp
  | last =>
    rw [Event.tokens_map_problem, List.getElem?_nil]
    cases i with
    | zero =>
      cases hp
      rfl
    | succ i =>
      rw [List.getElem?_cons_succ, List.getElem?_replicate] at hp
      split at hp <;> cases hp
      rfl

/-- Nothing is reported after the pull that has found no more tokens. -/
theorem problems_eq_nil (h : Draws events pulls) (hp : pulls[i]? = some p)
    (hi : (Event.tokens events).length < i) : p.problems = [] := by
  induction h generalizing i with
  | nil => simp at hp
  | token hfinds _ ih =>
    rw [Event.tokens_append, hfinds.tokens_eq, List.length_append, List.length_singleton] at hi
    obtain ⟨i, rfl⟩ := Nat.exists_eq_add_of_lt hi
    exact ih hp (by omega)
  | last =>
    obtain ⟨i, rfl⟩ := Nat.exists_eq_add_of_lt hi
    rw [List.getElem?_cons_succ, List.getElem?_replicate] at hp
    split at hp <;> cases hp
    rfl

/-- However many have been pulled, they are the first tokens of the run. -/
theorem filterMap_token (h : Draws events pulls) :
    pulls.filterMap Pull.token = (Event.tokens events).take pulls.length := by
  induction h with
  | nil => simp
  | token hfinds _ ih => simp [Event.tokens_append, hfinds.tokens_eq, ih]
  | last => simp

/-- What pulls take is the front of the run. -/
theorem exists_rest (h : Draws events pulls) :
    ∃ rest, events = pulls.flatMap Pull.events ++ rest := by
  induction h with
  | nil => exact ⟨_, rfl⟩
  | token hfinds _ ih =>
    obtain ⟨rest, hrest⟩ := ih
    refine ⟨rest, ?_⟩
    rw [List.flatMap_cons, List.append_assoc, ← hrest, hfinds.events_eq]
    rfl
  | last => exact ⟨[], by simp [Pull.events]⟩

/-- Once there are more pulls than tokens, everything has been reported. -/
theorem flatMap_problems (h : Draws events pulls)
    (hlength : (Event.tokens events).length < pulls.length) :
    pulls.flatMap Pull.problems = Event.problems events := by
  induction h with
  | nil => exact absurd hlength (Nat.not_lt_zero _)
  | token hfinds _ ih =>
    rw [Event.tokens_append, hfinds.tokens_eq, List.length_append, List.length_singleton,
      List.length_cons] at hlength
    rw [List.flatMap_cons, ih (by omega), Event.problems_append, hfinds.problems_eq]
  | last => simp

/-- What has been reported by the time of a token is what there is to report up to it. -/
theorem flatMap_problems_of_le (h : Draws events pulls) (hordered : events.Pairwise Event.InOrder)
    (hlength : pulls.length ≤ (Event.tokens events).length) :
    pulls.flatMap Pull.problems = (Event.problems events).filter fun x =>
      ∃ t ∈ ((Event.tokens events).take pulls.length).getLast?,
        x.position.Before t.position ∨ x.position = t.position := by
  obtain rfl | ⟨before, p, rfl⟩ := List.eq_nil_or_concat' pulls
  · simp
  · have hp : (before ++ [p])[before.length]? = some p := List.getElem?_concat_length
    rw [List.length_append, List.length_singleton] at hlength ⊢
    have htoken := h.token_eq hp
    obtain ⟨t, ht⟩ : ∃ t, (Event.tokens events)[before.length]? = some t :=
      ⟨_, List.getElem?_eq_getElem (by omega)⟩
    rw [ht] at htoken
    obtain ⟨rest, hrest⟩ := h.exists_rest
    have hsplit : events =
        (before.flatMap Pull.events ++ p.problems.map .problem) ++ .token t :: rest := by
      rw [hrest]
      simp [Pull.events, htoken]
    have hlast : ((Event.tokens events).take (before.length + 1)).getLast? = some t := by
      simp [List.getLast?_take, ht]
    simp only [hlast, Option.mem_def, Option.some.injEq, exists_eq_left']
    rw [hsplit] at hordered
    have hfilter := Event.filter_problems_of_token hordered
    rw [← hsplit, Event.problems_append, Pull.problems_flatMap,
      Event.problems_map_problem] at hfilter
    rw [hfilter, List.flatMap_append, List.flatMap_singleton]

theorem take (h : Draws events pulls) (i : Nat) : Draws events (pulls.take i) := by
  induction h generalizing i with
  | nil =>
    rw [List.take_nil]
    exact .nil
  | token hfinds _ ih =>
    cases i with
    | zero => exact .nil
    | succ i => exact .token hfinds (ih i)
  | last =>
    cases i with
    | zero => exact .nil
    | succ i =>
      rw [List.take_succ_cons, List.take_replicate]
      exact .last

/-- The pull that reports a problem is the one that comes to the first token behind it. -/
theorem countP_tokens_of_mem (h : Draws events pulls) (hordered : events.Pairwise Event.InOrder)
    (hp : pulls[i]? = some p) {x : Problem} (hx : x ∈ p.problems) :
    (Event.tokens events).countP (fun t => t.position.Before x.position) = i := by
  have hi : i ≤ (Event.tokens events).length := by
    by_contra hnot
    rw [h.problems_eq_nil hp (Nat.not_le.mp hnot)] at hx
    cases hx
  have hlength := (List.getElem?_eq_some_iff.mp hp).1
  have hearlier : (Event.tokens ((pulls.take i).flatMap Pull.events)).length = i := by
    rw [Pull.tokens_flatMap, (h.take i).filterMap_token, List.length_take, List.length_take]
    omega
  obtain ⟨rest, hrest⟩ := h.exists_rest
  obtain ⟨before, after, hproblems⟩ := List.append_of_mem hx
  have hsplit : events = ((pulls.take i).flatMap Pull.events ++ before.map .problem) ++
      .problem x :: (after.map .problem ++ p.token.toList.map .token ++
        (pulls.drop (i + 1)).flatMap Pull.events ++ rest) := by
    have hpulls : pulls.flatMap Pull.events = (pulls.take i).flatMap Pull.events ++
        (p.events ++ (pulls.drop (i + 1)).flatMap Pull.events) := by
      rw [← List.flatMap_cons, ← List.flatMap_append, ← (List.getElem?_eq_some_iff.mp hp).2,
        List.cons_getElem_drop_succ, List.take_append_drop]
    rw [hrest, hpulls, Pull.events, hproblems]
    simp
  rw [hsplit] at hordered
  have hcount := Event.countP_tokens_of_problem hordered
  rwa [← hsplit, Event.tokens_append, Event.tokens_map_problem, List.append_nil, hearlier] at hcount

/-- An unknown token is reported by the pull that finds it. -/
theorem unknown_mem (h : Draws events pulls) (hp : p ∈ pulls) {t : Token} (ht : p.token = some t)
    (hunknown : t.category = .unknown) : ⟨.unrecognized t.text, t.position⟩ ∈ p.problems := by
  induction h with
  | nil => cases hp
  | token hfinds _ ih =>
    obtain rfl | hlater := List.mem_cons.mp hp
    · cases ht
      exact hfinds.unknown hunknown
    · exact ih hlater
  | last =>
    obtain rfl | hlater := List.mem_cons.mp hp
    · cases ht
    · rw [List.eq_of_mem_replicate hlater] at ht
      cases ht

end Draws

end Cursor

namespace Source

/-- So many pulls in a row from the start of a source. -/
def pulls (s : Source) (count : Nat) : List Pull :=
  s.cursor.pulls .standard count

/-- What so many pulls from a source have found and reported. -/
structure PullsAgree (s : Source) (count : Nat) : Prop where
  length : (s.pulls count).length = count
  tokens : (s.pulls count).filterMap Pull.token = s.tokens.take count
  /-- Up to the last token, what has been reported is all there is up to the token pulled last. -/
  reports : count ≤ s.tokens.length →
    (s.pulls count).flatMap Pull.diagnostics = s.diagnostics.filter fun d =>
      ∃ t ∈ (s.tokens.take count).getLast?, d.position.Before t.position ∨ d.position = t.position
  drained : s.tokens.length < count → (s.pulls count).flatMap Pull.diagnostics = s.diagnostics
  /-- Past the last token there is nothing to find, and after that nothing to report. -/
  each : ∀ i p, (s.pulls count)[i]? = some p →
    p.token = s.tokens[i]? ∧ (s.tokens.length < i → p.diagnostics = [])
  /-- An unknown token and its report come together. -/
  unknown : ∀ p ∈ s.pulls count, ∀ t ∈ p.token, t.category = .unknown →
    t.unknownReport ∈ p.diagnostics
  /-- A report comes with the pull that goes beyond all the tokens before it. Where a line is given
      up, this is the pull that comes to the next token or to the end. -/
  behind : ∀ d ∈ s.diagnostics, ∀ i p, (s.pulls count)[i]? = some p →
    (d ∈ p.diagnostics ↔ i = s.tokens.countP fun t => t.position.Before d.position)

section Pulls

variable {s : Source} {count i : Nat} {p : Pull}

theorem draws_pulls (s : Source) (count : Nat) : Cursor.Draws s.events (s.pulls count) :=
  s.cursor.draws_pulls count

theorem length_pulls (s : Source) (count : Nat) : (s.pulls count).length = count :=
  Cursor.length_pulls .standard s.cursor count

theorem flatMap_diagnostics_pulls (s : Source) (count : Nat) :
    (s.pulls count).flatMap Pull.diagnostics =
      ((s.pulls count).flatMap Pull.problems).map Problem.diagnostic := by
  rw [List.map_flatMap]
  rfl

/-- One pull more than there are tokens has reported everything. -/
theorem diagnostics_pulls_of_lt (h : s.tokens.length < count) :
    (s.pulls count).flatMap Pull.diagnostics = s.diagnostics := by
  rw [flatMap_diagnostics_pulls, (s.draws_pulls count).flatMap_problems (by rwa [length_pulls])]
  rfl

/-- A report belongs to the pull whose number is the number of tokens in front of it. -/
theorem countP_tokens_of_mem_pulls (hp : (s.pulls count)[i]? = some p) {d : Diagnostic}
    (hd : d ∈ p.diagnostics) : i = s.tokens.countP fun t => t.position.Before d.position := by
  obtain ⟨x, hx, rfl⟩ := List.mem_map.mp hd
  exact ((s.draws_pulls count).countP_tokens_of_mem s.events_inOrder hp hx).symm

/-- A pull is the same however many follow. -/
theorem getElem?_pulls_of_le {more : Nat} (hmore : count ≤ more)
    (hp : (s.pulls count)[i]? = some p) : (s.pulls more)[i]? = some p := by
  rw [pulls, ← Cursor.take_pulls .standard s.cursor hmore, List.getElem?_take] at hp
  split at hp
  · exact hp
  · cases hp

end Pulls

/-- Pulling the tokens of a source agrees with its whole run, however often it is pulled. -/
theorem pulls_agree (s : Source) (count : Nat) : s.PullsAgree count := by
  have hdraws := s.draws_pulls count
  have hlength := s.length_pulls count
  constructor
  case length => exact hlength
  case tokens =>
    have htokens := hdraws.filterMap_token
    rwa [hlength] at htokens
  case reports =>
    intro hcount
    have hproblems := hdraws.flatMap_problems_of_le s.events_inOrder (by rwa [hlength])
    rw [flatMap_diagnostics_pulls, hproblems, hlength, diagnostics, List.filter_map]
    rfl
  case drained => exact diagnostics_pulls_of_lt
  case each =>
    intro i p hp
    refine ⟨hdraws.token_eq hp, fun hi => ?_⟩
    rw [Pull.diagnostics, hdraws.problems_eq_nil hp hi, List.map_nil]
  case unknown =>
    intro p hp t ht hunknown
    exact List.mem_map.mpr ⟨_, hdraws.unknown_mem hp ht hunknown, rfl⟩
  case behind =>
    intro d hd i p hp
    refine ⟨countP_tokens_of_mem_pulls hp, fun hi => ?_⟩
    -- Some pull reports it if there are enough of them, and that can only be this one.
    have hmore : s.tokens.length < max count (s.tokens.length + 1) := by omega
    rw [← diagnostics_pulls_of_lt hmore] at hd
    obtain ⟨q, hq, hdq⟩ := List.mem_flatMap.mp hd
    obtain ⟨j, hj⟩ := List.mem_iff_getElem?.mp hq
    have hsame : j = i := (countP_tokens_of_mem_pulls hj hdq).trans hi.symm
    rw [hsame, getElem?_pulls_of_le (Nat.le_max_left _ _) hp] at hj
    cases hj
    exact hdq

end Source
end Ginti
