import Ginti.Proofs.Grammar.Lexeme

namespace Ginti

namespace Rule

def category : Rule → Category
  | lineComment | blockComment => .comment
  | stringLiteral => .stringLiteral
  | charLiteral => .charLiteral
  | number => .number
  | operator => .operator
  | separator => .separator
  | keyword => .keyword
  | identifier => .identifier

/-- The fault of a text to which the rule applies and that has no lexeme of the rule. Only the
    quotes commit to their literals. -/
def fault? : Rule → Option Fault
  | stringLiteral => some .unterminatedString
  | charLiteral => some .invalidChar
  | _ => none

/-- The beginnings of a text to which a rule applies. -/
def Opens : Rule → List Char → Prop
  | lineComment, text => ['/', '/'] <+: text
  | blockComment, text => ∃ after, text = '/' :: '*' :: after ∧ ['*', '/'] <:+: after
  | stringLiteral, text => ['"'] <+: text
  | charLiteral, text => ['\''] <+: text
  | number, text => ∃ d ∈ text.head?, d.isDigit = true
  | operator, text => ∃ o : Operator, o.spelling.toList <+: text
  | separator, text => ∃ s : Separator, s.spelling.toList <+: text
  | keyword, text => ∃ k : Keyword, k.spelling.toList <+: text
  | identifier, text => ∃ c ∈ text.head?, c.isLower = true

/-- The lexemes of a rule. What follows a lexeme matters only where the longest one is meant;
    a keyword may be followed by anything. -/
def Fits : Rule → List Char → List Char → Prop
  | lineComment, lexeme, rest => Grammar.IsLineComment lexeme rest
  | blockComment, lexeme, _ => Grammar.IsBlockComment lexeme
  | stringLiteral, lexeme, _ => Grammar.IsStringLiteral lexeme
  | charLiteral, lexeme, _ => Grammar.IsCharLiteral lexeme
  | number, lexeme, rest => Grammar.IsNumber lexeme rest
  | operator, lexeme, _ => ∃ o : Operator, lexeme = o.spelling.toList
  | separator, lexeme, _ => ∃ s : Separator, lexeme = s.spelling.toList
  | keyword, lexeme, _ => ∃ k : Keyword, lexeme = k.spelling.toList
  | identifier, lexeme, rest => Grammar.IsIdentifier lexeme rest

/-- What an applicable rule decides: the text begins with a lexeme of the rule, or it has none
    and that is a fault. -/
inductive Decides (r : Rule) (text : List Char) : Verdict → Prop where
  | accept {lexeme rest : List Char} (htext : text = lexeme ++ rest)
      (hfits : r.Fits lexeme rest) : r.Decides text (.accept r.category lexeme)
  | reject {fault : Fault} (hfault : r.fault? = some fault)
      (hnone : ∀ lexeme rest, text = lexeme ++ rest → ¬ r.Fits lexeme rest) :
      r.Decides text (.reject fault)

end Rule

namespace Grammar

def rules : List Rule :=
  [.lineComment, .blockComment, .stringLiteral, .charLiteral, .number, .operator, .separator,
    .keyword, .identifier]

/-- The first of some rules that applies decides. The verdict is `pass` if none does. -/
inductive FirstDecides (text : List Char) : List Rule → Verdict → Prop where
  | none : FirstDecides text [] .pass
  | here {r : Rule} {rs : List Rule} {verdict : Verdict} (hopens : r.Opens text)
      (hdecides : r.Decides text verdict) : FirstDecides text (r :: rs) verdict
  | later {r : Rule} {rs : List Rule} {verdict : Verdict} (hcloses : ¬ r.Opens text)
      (hrest : FirstDecides text rs verdict) : FirstDecides text (r :: rs) verdict

/-- What a text begins with, decided by the first applicable rule. -/
def Begins (text : List Char) (verdict : Verdict) : Prop :=
  FirstDecides text rules verdict

end Grammar

/-- No operator is spelled like the beginning of another, so the order in which they are tried does
    not matter. -/
theorem Operator.eq_of_prefix {a b : Operator} (h : a.spelling.toList <+: b.spelling.toList) :
    a = b := by
  revert h
  cases a <;> cases b <;> decide

theorem Separator.eq_of_prefix {a b : Separator} (h : a.spelling.toList <+: b.spelling.toList) :
    a = b := by
  revert h
  cases a <;> cases b <;> decide

theorem Keyword.eq_of_prefix {a b : Keyword} (h : a.spelling.toList <+: b.spelling.toList) :
    a = b := by
  revert h
  rcases a with ⟨_ | _⟩ | _ <;> rcases b with ⟨_ | _⟩ | _ <;> decide

theorem prefix_of_firstSpelling? {α : Type} {spelling : α → String} {members : List α}
    {text : List Char} {found : String}
    (hfind : firstSpelling? (members.map spelling) text = some found) :
    ∃ a, found = spelling a ∧ (spelling a).toList <+: text := by
  have hprefix := List.find?_some hfind
  obtain ⟨a, -, rfl⟩ := List.mem_map.mp (List.mem_of_find?_eq_some hfind)
  exact ⟨a, rfl, List.isPrefixOf_iff_prefix.mp hprefix⟩

/-- If no spelling of a vocabulary starts another one, the order in which they are tried does
    not matter: the one that the text starts with is found. -/
theorem firstSpelling?_eq_some_iff {α : Type} {spelling : α → String} {members : List α}
    (hall : ∀ a, a ∈ members)
    (hfree : ∀ a b, (spelling a).toList <+: (spelling b).toList → a = b)
    {text : List Char} {found : String} :
    firstSpelling? (members.map spelling) text = some found ↔
      ∃ a, found = spelling a ∧ (spelling a).toList <+: text := by
  refine ⟨prefix_of_firstSpelling?, ?_⟩
  intro hspelling
  obtain ⟨a, rfl, hprefix⟩ := hspelling
  cases hfind : firstSpelling? (members.map spelling) text with
  | none =>
    have hno := List.find?_eq_none.mp hfind _ (List.mem_map_of_mem (hall a))
    exact absurd (List.isPrefixOf_iff_prefix.mpr hprefix) hno
  | some other =>
    obtain ⟨b, rfl, hother⟩ := prefix_of_firstSpelling? hfind
    obtain hab | hba := List.prefix_or_prefix_of_prefix hprefix hother
    · rw [hfree a b hab]
    · rw [hfree b a hba]

/-- An order of trial that leaves out no spelling. -/
structure Precedence.Complete (order : Precedence) : Prop where
  operators : ∀ o, o ∈ order.operators
  separators : ∀ s, s ∈ order.separators
  keywords : ∀ k, k ∈ order.keywords

theorem Precedence.standard_complete : Precedence.standard.Complete where
  operators o := by cases o <;> decide
  separators s := by cases s <;> decide
  keywords k := by rcases k with ⟨_ | _⟩ | _ <;> decide

namespace Rule

variable {order : Precedence} {text : List Char}

private theorem exists_first_closing {after : List Char} (h : ['*', '/'] <:+: after) :
    ∃ body rest, after = body ++ '*' :: '/' :: rest ∧ ¬ ['*', '/'] <:+: body := by
  induction after with
  | nil => simp at h
  | cons c after ih =>
    by_cases hprefix : ['*', '/'] <+: c :: after
    · obtain ⟨rest, hrest⟩ := hprefix
      exact ⟨[], rest, hrest.symm, by simp⟩
    · obtain hnow | hlater := List.infix_cons_iff.mp h
      · exact absurd hnow hprefix
      · obtain ⟨body, rest, rfl, hbody⟩ := ih hlater
        refine ⟨c :: body, rest, rfl, ?_⟩
        rw [List.infix_cons_iff, not_or]
        exact ⟨fun hnow => hprefix (hnow.trans (List.prefix_append (c :: body) _)), hbody⟩

private theorem exists_spelling_prefix_iff {α : Type} {spelling : α → String} :
    (∃ a, (spelling a).toList <+: text) ↔
      ∃ lexeme rest, text = lexeme ++ rest ∧ ∃ a, lexeme = (spelling a).toList := by
  constructor
  · intro hprefix
    obtain ⟨a, rest, htext⟩ := hprefix
    exact ⟨_, rest, htext.symm, a, rfl⟩
  · intro hlexeme
    obtain ⟨_, rest, htext, a, rfl⟩ := hlexeme
    exact ⟨a, rest, htext.symm⟩

/-- A rule without a fault of its own applies exactly where the text begins with one of its
    lexemes. -/
theorem opens_iff_exists_fits {r : Rule} (hfault : r.fault? = none) :
    r.Opens text ↔ ∃ lexeme rest, text = lexeme ++ rest ∧ r.Fits lexeme rest := by
  cases r with
  | lineComment =>
    constructor
    · intro hopens
      obtain ⟨after, rfl⟩ := hopens
      have hmatch : Pattern.lineComment? ('/' :: '/' :: after) = some _ := rfl
      exact ⟨_, Grammar.lineComment?_eq_some_iff.mp hmatch⟩
    · intro hlexeme
      obtain ⟨_, rest, rfl, body, rfl, -⟩ := hlexeme
      exact ⟨body ++ rest, rfl⟩
  | blockComment =>
    constructor
    · intro hopens
      obtain ⟨after, rfl, hclosing⟩ := hopens
      obtain ⟨body, rest, rfl, hbody⟩ := exists_first_closing hclosing
      exact ⟨'/' :: '*' :: (body ++ ['*', '/']), rest, by simp, body, rfl, hbody⟩
    · intro hlexeme
      obtain ⟨_, rest, rfl, body, rfl, -⟩ := hlexeme
      exact ⟨body ++ '*' :: '/' :: rest, by simp, body, rest, by simp⟩
  | stringLiteral => cases hfault
  | charLiteral => cases hfault
  | number =>
    constructor
    · intro hopens
      obtain ⟨d, hd, hdigit⟩ := hopens
      obtain ⟨after, rfl⟩ := List.head?_eq_some_iff.mp hd
      have hsome : Pattern.number? (d :: after) ≠ none := by
        simp [Pattern.number?, hdigit]
      obtain ⟨lexeme, hmatch⟩ := Option.ne_none_iff_exists'.mp hsome
      exact ⟨lexeme, Grammar.number?_eq_some_iff.mp hmatch⟩
    · intro hlexeme
      obtain ⟨_, rest, rfl, whole, fraction, rfl, hwhole, hrun, -⟩ := hlexeme
      obtain ⟨d, whole, rfl⟩ := List.exists_cons_of_ne_nil hwhole
      exact ⟨d, rfl, hrun.inside d (by simp)⟩
  | operator => exact exists_spelling_prefix_iff
  | separator => exact exists_spelling_prefix_iff
  | keyword => exact exists_spelling_prefix_iff
  | identifier =>
    constructor
    · intro hopens
      obtain ⟨c, hc, hlower⟩ := hopens
      obtain ⟨after, rfl⟩ := List.head?_eq_some_iff.mp hc
      have hmatch : Pattern.identifier? (c :: after) = some _ := if_pos hlower
      exact ⟨_, Grammar.identifier?_eq_some_iff.mp hmatch⟩
    · intro hlexeme
      obtain ⟨_, rest, rfl, c, tail, rfl, hlower, -⟩ := hlexeme
      exact ⟨c, rfl, hlower⟩

/-- A rule that only matches accepts what it matches, and passes on anything else. -/
private theorem ofMatch_eq_iff (r : Rule) {found : Option (List Char)} (hfault : r.fault? = none)
    (hfound : ∀ lexeme, found = some lexeme ↔ ∃ rest, text = lexeme ++ rest ∧ r.Fits lexeme rest)
    {verdict : Verdict} :
    Verdict.ofMatch r.category found = verdict ↔
      r.Opens text ∧ r.Decides text verdict ∨ ¬ r.Opens text ∧ verdict = .pass := by
  cases found with
  | none =>
    have hcloses : ¬ r.Opens text := by
      rw [opens_iff_exists_fits hfault]
      intro hlexeme
      obtain ⟨lexeme, hlexeme⟩ := hlexeme
      cases (hfound lexeme).mpr hlexeme
    simp [hcloses, Verdict.ofMatch, eq_comm]
  | some lexeme =>
    obtain ⟨rest, htext, hfits⟩ := (hfound lexeme).mp rfl
    have hopen : r.Opens text := (opens_iff_exists_fits hfault).mpr ⟨lexeme, rest, htext, hfits⟩
    simp only [hopen, true_and, not_true_eq_false, false_and, or_false, Verdict.ofMatch]
    constructor
    · rintro rfl
      exact .accept htext hfits
    · intro hverdict
      obtain ⟨hother, hotherFits⟩ | ⟨hsome, -⟩ := hverdict
      · have hsame := (hfound _).mpr ⟨_, hother, hotherFits⟩
        rw [Option.some.inj hsame]
      · rw [hfault] at hsome
        cases hsome

/-- A rule for literals also rejects a text behind its quote that it cannot match. -/
private theorem ofLiteral_eq_iff (r : Rule) (pattern : Pattern) {quote : Char} {fault : Fault}
    (hfault : r.fault? = some fault) (hopens : r.Opens text ↔ text.head? = some quote)
    (hfound : ∀ lexeme, pattern.match? text = some lexeme ↔
      ∃ rest, text = lexeme ++ rest ∧ r.Fits lexeme rest) {verdict : Verdict} :
    Verdict.ofLiteral quote r.category pattern fault text = verdict ↔
      r.Opens text ∧ r.Decides text verdict ∨ ¬ r.Opens text ∧ verdict = .pass := by
  unfold Verdict.ofLiteral
  rw [hopens]
  split
  · next hquote =>
    simp only [hquote, true_and, not_true_eq_false, false_and, or_false]
    cases hmatch : pattern.match? text with
    | none =>
      have hnone : ∀ lexeme rest, text = lexeme ++ rest → ¬ r.Fits lexeme rest := by
        intro lexeme rest htext hfits
        have hsome := (hfound lexeme).mpr ⟨rest, htext, hfits⟩
        rw [hmatch] at hsome
        cases hsome
      constructor
      · rintro rfl
        exact .reject hfault hnone
      · intro hverdict
        obtain ⟨htext, hfits⟩ | ⟨hsome, -⟩ := hverdict
        · exact absurd hfits (hnone _ _ htext)
        · rw [Option.some.inj (hfault.symm.trans hsome)]
    | some lexeme =>
      obtain ⟨rest, htext, hfits⟩ := (hfound lexeme).mp hmatch
      constructor
      · rintro rfl
        exact .accept htext hfits
      · intro hverdict
        obtain ⟨hother, hotherFits⟩ | ⟨-, hnone⟩ := hverdict
        · have hsame := (hfound _).mpr ⟨_, hother, hotherFits⟩
          rw [Option.some.inj (hmatch.symm.trans hsame)]
        · exact absurd hfits (hnone _ _ htext)
  · next hquote => simp [hquote, eq_comm]

/-- Among spellings none of which begins another, the one that is found is the one that stands in
    front. -/
private theorem firstSpelling?_map_toList_iff {α : Type} {spelling : α → String}
    {members : List α} (hall : ∀ a, a ∈ members)
    (hfree : ∀ a b, (spelling a).toList <+: (spelling b).toList → a = b) (lexeme : List Char) :
    (firstSpelling? (members.map spelling) text).map String.toList = some lexeme ↔
      ∃ rest, text = lexeme ++ rest ∧ ∃ a, lexeme = (spelling a).toList := by
  simp only [Option.map_eq_some_iff, firstSpelling?_eq_some_iff hall hfree]
  constructor
  · intro hspelling
    obtain ⟨_, ⟨a, rfl, rest, rfl⟩, rfl⟩ := hspelling
    exact ⟨rest, rfl, a, rfl⟩
  · intro hlexeme
    obtain ⟨rest, rfl, a, rfl⟩ := hlexeme
    exact ⟨_, ⟨a, rfl, rest, rfl⟩, rfl⟩

private theorem singleton_prefix_iff {c : Char} : [c] <+: text ↔ text.head? = some c := by
  rw [List.head?_eq_some_iff]
  constructor
  · intro hprefix
    obtain ⟨rest, rfl⟩ := hprefix
    exact ⟨rest, rfl⟩
  · intro hhead
    obtain ⟨rest, rfl⟩ := hhead
    exact ⟨rest, rfl⟩

/-- A rule gives the verdict that its description asks for, whatever the order in which the
    spellings are tried. -/
theorem judge_eq_iff (horder : order.Complete) (r : Rule) {verdict : Verdict} :
    r.judge order text = verdict ↔
      r.Opens text ∧ r.Decides text verdict ∨ ¬ r.Opens text ∧ verdict = .pass := by
  cases r with
  | lineComment => exact ofMatch_eq_iff .lineComment rfl fun _ => Grammar.lineComment?_eq_some_iff
  | blockComment =>
    exact ofMatch_eq_iff .blockComment rfl fun _ => Grammar.blockComment?_eq_some_iff
  | stringLiteral =>
    exact ofLiteral_eq_iff .stringLiteral .stringLiteral rfl singleton_prefix_iff
      fun _ => Grammar.stringLiteral?_eq_some_iff
  | charLiteral =>
    exact ofLiteral_eq_iff .charLiteral .charLiteral rfl singleton_prefix_iff
      fun _ => Grammar.charLiteral?_eq_some_iff
  | number => exact ofMatch_eq_iff .number rfl fun _ => Grammar.number?_eq_some_iff
  | operator =>
    exact ofMatch_eq_iff .operator rfl
      (firstSpelling?_map_toList_iff horder.operators fun _ _ => Operator.eq_of_prefix)
  | separator =>
    exact ofMatch_eq_iff .separator rfl
      (firstSpelling?_map_toList_iff horder.separators fun _ _ => Separator.eq_of_prefix)
  | keyword =>
    exact ofMatch_eq_iff .keyword rfl
      (firstSpelling?_map_toList_iff horder.keywords fun _ _ => Keyword.eq_of_prefix)
  | identifier => exact ofMatch_eq_iff .identifier rfl fun _ => Grammar.identifier?_eq_some_iff

theorem Fits.ne_nil {r : Rule} {lexeme rest : List Char} (h : r.Fits lexeme rest) :
    lexeme ≠ [] := by
  cases r with
  | lineComment =>
    obtain ⟨body, rfl, -⟩ := h
    simp
  | blockComment =>
    obtain ⟨body, rfl, -⟩ := h
    simp
  | stringLiteral =>
    obtain ⟨body, rfl, -⟩ := h
    simp
  | charLiteral =>
    obtain ⟨c, rfl, -⟩ := h
    simp
  | number =>
    obtain ⟨whole, fraction, rfl, hwhole, -⟩ := h
    simp [hwhole]
  | operator =>
    obtain ⟨o, rfl⟩ := h
    cases o <;> decide
  | separator =>
    obtain ⟨s, rfl⟩ := h
    cases s <;> decide
  | keyword =>
    obtain ⟨k, rfl⟩ := h
    rcases k with ⟨_ | _⟩ | _ <;> decide
  | identifier =>
    obtain ⟨c, tail, rfl, -⟩ := h
    simp

end Rule

/-- Trying rules in turn gives what the first applicable one decides, whatever their order is. -/
theorem Precedence.firstVerdict_eq_iff {order : Precedence} (horder : order.Complete)
    {text : List Char} (rules : List Rule) {verdict : Verdict} :
    order.firstVerdict text rules = verdict ↔ Grammar.FirstDecides text rules verdict := by
  induction rules with
  | nil =>
    constructor
    · rintro rfl
      exact .none
    · intro hfirst
      cases hfirst
      rfl
  | cons r rs ih =>
    have hjudge {v : Verdict} : r.judge order text = v ↔
        r.Opens text ∧ r.Decides text v ∨ ¬ r.Opens text ∧ v = .pass := r.judge_eq_iff horder
    unfold Precedence.firstVerdict
    split
    · next hpass =>
      obtain ⟨hopens, hdecides⟩ | ⟨hcloses, -⟩ := hjudge.mp hpass
      · cases hdecides
      · rw [ih]
        refine ⟨.later hcloses, fun hfirst => ?_⟩
        cases hfirst with
        | here hopens _ => exact absurd hopens hcloses
        | later _ hrest => exact hrest
    · next hverdict =>
      obtain ⟨hopens, -⟩ | ⟨-, hpass⟩ := hjudge.mp (Eq.refl (r.judge order text))
      · rw [hjudge]
        constructor
        · intro hverdict
          obtain ⟨-, hdecides⟩ | ⟨hcloses, -⟩ := hverdict
          · exact .here hopens hdecides
          · exact absurd hopens hcloses
        · intro hfirst
          cases hfirst with
          | here _ hdecides => exact .inl ⟨hopens, hdecides⟩
          | later hcloses _ => exact absurd hopens hcloses
      · exact absurd hpass hverdict

namespace Grammar

/-- The rules of the lexer decide as the grammar says. -/
theorem judge_standard_eq_iff {text : List Char} {verdict : Verdict} :
    Precedence.standard.judge text = verdict ↔ Begins text verdict :=
  Precedence.standard.firstVerdict_eq_iff Precedence.standard_complete rules

/-- A verdict other than to pass is that of an applicable rule. -/
theorem FirstDecides.exists_rule {text : List Char} {rs : List Rule} {verdict : Verdict}
    (h : FirstDecides text rs verdict) (hverdict : verdict ≠ .pass) :
    ∃ r ∈ rs, r.Opens text ∧ r.Decides text verdict := by
  induction h with
  | none => exact absurd rfl hverdict
  | here hopens hdecides => exact ⟨_, by simp, hopens, hdecides⟩
  | later _ _ ih =>
    obtain ⟨r, hr, hrule⟩ := ih hverdict
    exact ⟨r, List.mem_cons_of_mem _ hr, hrule⟩

/-- Rules that could not decide as it was decided do not apply, and the ones after them decide. -/
theorem FirstDecides.of_append {text : List Char} {before rs : List Rule} {verdict : Verdict}
    (h : FirstDecides text (before ++ rs) verdict)
    (hbefore : ∀ r ∈ before, ¬ r.Decides text verdict) :
    (∀ r ∈ before, ¬ r.Opens text) ∧ FirstDecides text rs verdict := by
  induction before with
  | nil => exact ⟨by simp, h⟩
  | cons r before ih =>
    cases h with
    | here _ hdecides => exact absurd hdecides (hbefore r List.mem_cons_self)
    | later hcloses hrest =>
      obtain ⟨hothers, hdecided⟩ := ih hrest fun q hq => hbefore q (List.mem_cons_of_mem r hq)
      exact ⟨List.forall_mem_cons.mpr ⟨hcloses, hothers⟩, hdecided⟩

end Grammar
end Ginti
