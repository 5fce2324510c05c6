import Ginti.Proofs.Grammar.Decision

namespace Ginti

namespace Rule

variable {a b : Rule} {text : List Char}

/-- The precedences that matter: both kinds of comment go before operators, and keywords go before
    identifiers. -/
def Outranks (a b : Rule) : Prop :=
  (a = lineComment ∨ a = blockComment) ∧ b = operator ∨ a = keyword ∧ b = identifier

instance (a b : Rule) : Decidable (a.Outranks b) :=
  inferInstanceAs (Decidable (_ ∨ _))

/-- Rules whose lexemes may start alike are told by one of them. -/
def family : Rule → Rule
  | lineComment | blockComment => operator
  | keyword => identifier
  | r => r

/-- The characters other than digits and lower-case letters that lead to rules, with the family of
    the rules. -/
def leads : List (Char × Rule) :=
  [('"', stringLiteral), ('\'', charLiteral), ('+', operator), ('-', operator), ('*', operator),
    ('/', operator), ('%', operator), ('^', operator), ('=', operator), ('(', separator),
    (')', separator), ('\x7b', separator), ('\x7d', separator), ('[', separator),
    (']', separator), (';', separator), (',', separator), ('G', identifier), ('P', identifier),
    ('S', identifier)]

/-- The family of the rules that a first character leads to. -/
def familyOf? (c : Char) : Option Rule :=
  if c.isLower then some identifier
  else if c.isDigit then some number
  else leads.lookup c

theorem isLower_of_isDigit {c : Char} (h : c.isDigit = true) : c.isLower = false := by
  rw [← Bool.not_eq_true]
  intro hlower
  have hletter := Grammar.isLower_iff.mp hlower
  have hdigit := Grammar.isDigit_iff.mp h
  have hle : 'a' ≤ '9' := Char.le_trans hletter.1 hdigit.2
  exact absurd hle (by decide)

/-- A rule applies only behind a first character of its family. -/
theorem Opens.exists_lead {r : Rule} (h : r.Opens text) :
    ∃ c ∈ text.head?, familyOf? c = some r.family := by
  cases r with
  | lineComment =>
    obtain ⟨rest, rfl⟩ := h
    exact ⟨'/', rfl, rfl⟩
  | blockComment =>
    obtain ⟨rest, rfl, -⟩ := h
    exact ⟨'/', rfl, rfl⟩
  | stringLiteral =>
    obtain ⟨rest, rfl⟩ := h
    exact ⟨'"', rfl, rfl⟩
  | charLiteral =>
    obtain ⟨rest, rfl⟩ := h
    exact ⟨'\'', rfl, rfl⟩
  | number =>
    obtain ⟨d, hd, hdigit⟩ := h
    refine ⟨d, hd, ?_⟩
    rw [familyOf?, isLower_of_isDigit hdigit, hdigit]
    rfl
  | operator =>
    obtain ⟨o, rest, rfl⟩ := h
    cases o <;> exact ⟨_, rfl, rfl⟩
  | separator =>
    obtain ⟨s, rest, rfl⟩ := h
    cases s <;> exact ⟨_, rfl, rfl⟩
  | keyword =>
    obtain ⟨k, rest, rfl⟩ := h
    rcases k with ⟨_ | _⟩ | _ <;> exact ⟨_, rfl, rfl⟩
  | identifier =>
    obtain ⟨c, hc, hlower⟩ := h
    exact ⟨c, hc, if_pos hlower⟩

/-- Within a family only the two kinds of comment are not ranked. -/
theorem eq_or_outranks_of_family (h : a.family = b.family) :
    a = b ∨ a.Outranks b ∨ b.Outranks a ∨
      a = lineComment ∧ b = blockComment ∨ a = blockComment ∧ b = lineComment := by
  revert h
  cases a <;> cases b <;> decide

theorem not_opens_both_comments (hline : lineComment.Opens text) : ¬ blockComment.Opens text := by
  rintro ⟨after, rfl, -⟩
  obtain ⟨rest, hrest⟩ := hline
  cases hrest

/-- Two rules apply to the same text only if one of them outranks the other. -/
theorem Opens.eq_or_outranks (ha : a.Opens text) (hb : b.Opens text) :
    a = b ∨ a.Outranks b ∨ b.Outranks a := by
  obtain ⟨c, hc, hafamily⟩ := ha.exists_lead
  obtain ⟨d, hd, hbfamily⟩ := hb.exists_lead
  cases Option.mem_unique hc hd
  have hfamily : a.family = b.family := Option.some.inj (hafamily.symm.trans hbfamily)
  obtain hsame | hrank | hrank | ⟨rfl, rfl⟩ | ⟨rfl, rfl⟩ := eq_or_outranks_of_family hfamily
  · exact .inl hsame
  · exact .inr (.inl hrank)
  · exact .inr (.inr hrank)
  · exact absurd hb (not_opens_both_comments ha)
  · exact absurd ha (not_opens_both_comments hb)

/-- The rule that decides about a text: it applies, and no rule does that outranks it. -/
structure Wins (r : Rule) (text : List Char) : Prop where
  opens : r.Opens text
  unmatched : ∀ q : Rule, q.Outranks r → ¬ q.Opens text

/-- At most one rule wins, since of two that apply one outranks the other. -/
theorem Wins.unique (ha : a.Wins text) (hb : b.Wins text) : a = b := by
  obtain hsame | hrank | hrank := ha.opens.eq_or_outranks hb.opens
  · exact hsame
  · exact absurd ha.opens (hb.unmatched a hrank)
  · exact absurd hb.opens (ha.unmatched b hrank)

theorem Decides.unique {v w : Verdict} (hopens : a.Opens text) (hv : a.Decides text v)
    (hw : a.Decides text w) : v = w := by
  have hjudge {verdict : Verdict} (h : a.Decides text verdict) :
      a.judge .standard text = verdict :=
    (a.judge_eq_iff Precedence.standard_complete).mpr (.inl ⟨hopens, h⟩)
  exact (hjudge hv).symm.trans (hjudge hw)

end Rule

namespace Grammar

variable {text : List Char} {verdict : Verdict}

/-- The verdict of the rule that wins, or `pass` if no rule applies. -/
inductive Settles (text : List Char) : Verdict → Prop where
  | pass (hcloses : ∀ r : Rule, ¬ r.Opens text) : Settles text .pass
  | won {r : Rule} {verdict : Verdict} (hwins : r.Wins text) (hdecides : r.Decides text verdict) :
      Settles text verdict

/-- There is one verdict about a text, which is told without any order of the rules. -/
theorem Settles.unique {other : Verdict} (h : Settles text verdict) (hother : Settles text other) :
    verdict = other := by
  cases h with
  | pass hcloses =>
    cases hother with
    | pass _ => rfl
    | won hwins _ => exact absurd hwins.opens (hcloses _)
  | won hwins hdecides =>
    cases hother with
    | pass hcloses => exact absurd hwins.opens (hcloses _)
    | won hothers hdecided =>
      cases hwins.unique hothers
      exact hdecides.unique hwins.opens hdecided

/-- The rule that decides has the rules in front of it passed over. -/
theorem FirstDecides.exists_split {rs : List Rule} (h : FirstDecides text rs verdict) :
    (verdict = .pass ∧ ∀ r ∈ rs, ¬ r.Opens text) ∨
      ∃ before r after, rs = before ++ r :: after ∧ (∀ q ∈ before, ¬ q.Opens text) ∧
        r.Opens text ∧ r.Decides text verdict := by
  induction h with
  | none => exact .inl ⟨rfl, by simp⟩
  | @here r rs _ hopens hdecides => exact .inr ⟨[], r, rs, rfl, by simp, hopens, hdecides⟩
  | @later r rs _ hcloses _ ih =>
    obtain ⟨rfl, hothers⟩ | ⟨before, q, after, rfl, hbefore, hq⟩ := ih
    · exact .inl ⟨rfl, List.forall_mem_cons.mpr ⟨hcloses, hothers⟩⟩
    · exact .inr ⟨r :: before, q, after, rfl, List.forall_mem_cons.mpr ⟨hcloses, hbefore⟩, hq⟩

end Grammar

/-- An order that tries the standard rules and spellings in any other sequence, except that it
    keeps the precedences that matter. -/
structure Precedence.Rearranges (order : Precedence) : Prop where
  rules : order.rules.Perm standard.rules
  keywords : order.keywords.Perm standard.keywords
  operators : order.operators.Perm standard.operators
  separators : order.separators.Perm standard.separators
  ranked : ∀ a b : Rule, a.Outranks b → order.rules.idxOf a < order.rules.idxOf b

namespace Precedence.Rearranges

variable {order : Precedence} {text : List Char}

theorem complete (h : order.Rearranges) : order.Complete where
  operators o := h.operators.mem_iff.mpr (standard_complete.operators o)
  separators s := h.separators.mem_iff.mpr (standard_complete.separators s)
  keywords k := h.keywords.mem_iff.mpr (standard_complete.keywords k)

theorem mem_rules (h : order.Rearranges) (r : Rule) : r ∈ order.rules := by
  rw [h.rules.mem_iff]
  cases r <;> decide

/-- A rule that outranks another is tried before it in any rearranged order. -/
theorem mem_of_outranks (h : order.Rearranges) {a b : Rule} {before after : List Rule}
    (hsplit : order.rules = before ++ b :: after) (hrank : a.Outranks b) : a ∈ before := by
  have hlt := h.ranked a b hrank
  by_contra ha
  rw [hsplit, List.idxOf_append_of_notMem ha] at hlt
  by_cases hb : b ∈ before
  · have hshort := List.idxOf_lt_length_of_mem hb
    rw [List.idxOf_append_of_mem hb] at hlt
    omega
  · rw [List.idxOf_append_of_notMem hb, List.idxOf_cons_self] at hlt
    omega

/-- Whichever rule is tried first, the same rule wins. -/
theorem settles_judge (h : order.Rearranges) : Grammar.Settles text (order.judge text) := by
  have hfirst := (order.firstVerdict_eq_iff h.complete order.rules).mp (Eq.refl (order.judge text))
  obtain ⟨hpass, hcloses⟩ | ⟨before, r, after, hsplit, hbefore, hopens, hdecides⟩ :=
    hfirst.exists_split
  · rw [hpass]
    exact .pass fun r => hcloses r (h.mem_rules r)
  · -- A rule that outranks the one that decides was tried before it, and did not apply.
    refine .won ⟨hopens, fun q hq => ?_⟩ hdecides
    exact hbefore q (h.mem_of_outranks hsplit hq)

end Precedence.Rearranges

/-- The standard order keeps the precedences that matter. -/
theorem Precedence.standard_rearranges : standard.Rearranges where
  rules := .refl _
  keywords := .refl _
  operators := .refl _
  separators := .refl _
  ranked a b := by cases a <;> cases b <;> decide

/-- Any rearranged order decides about any text as the standard one does. -/
theorem Precedence.Rearranges.judge_eq {order : Precedence} (h : order.Rearranges)
    (text : List Char) : order.judge text = standard.judge text :=
  h.settles_judge.unique standard_rearranges.settles_judge

end Ginti
