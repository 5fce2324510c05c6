import Ginti.Session
import Ginti.Proofs.Grammar.Ranking
import Ginti.Proofs.Lexer.Moves

namespace Ginti

namespace Vocabulary

variable {v : Vocabulary} {text : List Char}

/-- No spelling of a vocabulary starts another one of it. -/
theorem eq_of_starts {a b : String} (ha : a ∈ v.spellings) (hb : b ∈ v.spellings)
    (h : a.toList <+: b.toList) : a = b := by
  have hfree : ∀ a ∈ v.spellings, ∀ b ∈ v.spellings, a.toList <+: b.toList → a = b := by
    cases v <;> decide
  exact hfree a ha b hb h

/-- No two spellings of a vocabulary stand at the front of one text. -/
theorem eq_of_both_start {a b : String} (ha : a ∈ v.spellings) (hb : b ∈ v.spellings)
    (hafront : a.toList <+: text) (hbfront : b.toList <+: text) : a = b := by
  obtain hab | hba := List.prefix_or_prefix_of_prefix hafront hbfront
  · exact eq_of_starts ha hb hab
  · exact (eq_of_starts hb ha hba).symm

/-- The order in which the spellings of a vocabulary are tried does not matter. -/
theorem firstSpelling?_eq_of_perm {spellings : List String} (hperm : spellings.Perm v.spellings) :
    firstSpelling? spellings text = firstSpelling? v.spellings text := by
  cases hfind : firstSpelling? v.spellings text with
  | none =>
    refine List.find?_eq_none.mpr fun a ha => ?_
    exact List.find?_eq_none.mp hfind a (hperm.mem_iff.mp ha)
  | some a =>
    have ha : a ∈ v.spellings := List.mem_of_find?_eq_some hfind
    have hafront : a.toList.isPrefixOf text = true := by simpa using List.find?_some hfind
    cases hother : firstSpelling? spellings text with
    | none =>
      exact absurd hafront (List.find?_eq_none.mp hother a (hperm.mem_iff.mpr ha))
    | some b =>
      have hb : b ∈ v.spellings := hperm.mem_iff.mp (List.mem_of_find?_eq_some hother)
      have hbfront : b.toList.isPrefixOf text = true := by simpa using List.find?_some hother
      rw [eq_of_both_start hb ha (List.isPrefixOf_iff_prefix.mp hbfront)
        (List.isPrefixOf_iff_prefix.mp hafront)]

end Vocabulary

namespace Cursor

variable {order other : Precedence} {c : Cursor}

/-- Of an order, a step uses only what the rules together say. -/
theorem step_congr (h : order.judge c.rest = other.judge c.rest) :
    c.step order = c.step other := by
  rw [step, step, stepLexeme, stepLexeme, h]

/-- Orders that decide alike about all texts have the same runs. -/
theorem events_congr (horder : order.Complete)
    (h : ∀ text, order.judge text = other.judge text) (c : Cursor) :
    c.events order = c.events other := by
  induction c using Cursor.events.induct order with
  | case1 c hstep =>
    have hother := (step_congr (h c.rest)).symm.trans hstep
    rw [events_of_finish hstep, events_of_finish hother]
  | case2 c happened next hstep ih =>
    have hother := (step_congr (h c.rest)).symm.trans hstep
    rw [events_of_go hstep, events_of_go hother, ih]
  | case3 c e hstep => exact absurd hstep (c.step_ne_fail horder e)

/-- A rule finds a lexeme or a problem only where it applies. -/
theorem opens_of_attempt (horder : order.Complete) {r : Rule}
    (h : c.attempt order r ≠ .ok none) : r.Opens c.rest := by
  obtain ⟨hopens, -⟩ | ⟨-, hpass⟩ :=
    (r.judge_eq_iff horder).mp (Eq.refl (r.judge order c.rest))
  · exact hopens
  · rw [attempt, hpass] at h
    exact absurd rfl h

theorem prefix_of_accept? {text : List Char} (h : c.accept? text ≠ none) : text <+: c.rest := by
  rw [← List.isPrefixOf_iff_prefix]
  by_contra hno
  rw [accept?, if_neg hno] at h
  exact h rfl

end Cursor

/-- An order under which everything is read as under the standard one, since hardly ever more than
    one rule or spelling applies. -/
structure Precedence.ReadsAlike (order : Precedence) : Prop where
  /-- Tokens and problems come in the same sequence. -/
  events : ∀ s : Source, s.eventsBy order = s.events
  tokens : ∀ s : Source, Event.tokens (s.eventsBy order) = s.tokens
  diagnostics : ∀ s : Source,
    (Event.problems (s.eventsBy order)).map Problem.diagnostic = s.diagnostics
  /-- Of two rules that find a lexeme or a problem at the same place, one outranks the other. -/
  rules_apart : ∀ (c : Cursor) (a b : Rule), c.attempt order a ≠ .ok none →
    c.attempt order b ≠ .ok none → a = b ∨ a.Outranks b ∨ b.Outranks a
  /-- At each place at most one spelling of a vocabulary comes next. -/
  spellings_apart : ∀ (c : Cursor) (v : Vocabulary), ∀ a ∈ v.spellings, ∀ b ∈ v.spellings,
    c.accept? a.toList ≠ none → c.accept? b.toList ≠ none → a = b
  spelling : ∀ (c : Cursor) (v : Vocabulary) (spellings : List String),
    spellings.Perm v.spellings → c.spelling? spellings = c.spelling? v.spellings

/-- Rules and spellings may be tried in any order in which comments come before operators and
    keywords before identifiers. -/
theorem Precedence.Rearranges.reads_alike {order : Precedence} (h : order.Rearranges) :
    order.ReadsAlike := by
  have hevents (s : Source) : s.eventsBy order = s.events :=
    Cursor.events_congr h.complete h.judge_eq s.cursor
  constructor
  case events => exact hevents
  case tokens => exact fun s => congrArg Event.tokens (hevents s)
  case diagnostics =>
    exact fun s => congrArg (fun es => (Event.problems es).map Problem.diagnostic) (hevents s)
  case rules_apart =>
    intro c a b ha hb
    exact (Cursor.opens_of_attempt h.complete ha).eq_or_outranks
      (Cursor.opens_of_attempt h.complete hb)
  case spellings_apart =>
    intro c v a ha b hb haccept hbaccept
    exact Vocabulary.eq_of_both_start ha hb (Cursor.prefix_of_accept? haccept)
      (Cursor.prefix_of_accept? hbaccept)
  case spelling =>
    intro c v spellings hperm
    rw [Cursor.spelling?, Vocabulary.firstSpelling?_eq_of_perm hperm, Cursor.spelling?]

/-- An order that tries no rule at the place that it has in the standard one. -/
def Precedence.shuffled : Precedence where
  rules :=
    [.keyword, .identifier, .separator, .blockComment, .charLiteral, .lineComment, .operator,
      .number, .stringLiteral]
  keywords := Keyword.all.reverse
  operators := Operator.all.reverse
  separators := Separator.all.reverse

/-- All but the two precedences may be turned around at once. -/
theorem Precedence.shuffled_reads_alike :
    shuffled.Rearranges ∧ shuffled ≠ standard ∧ shuffled.ReadsAlike := by
  have hrearranges : shuffled.Rearranges := by
    constructor
    case rules => decide
    case keywords => exact List.reverse_perm _
    case operators => exact List.reverse_perm _
    case separators => exact List.reverse_perm _
    case ranked =>
      intro a b
      cases a <;> cases b <;> decide
  exact ⟨hrearranges, by decide, Rearranges.reads_alike hrearranges⟩

end Ginti
