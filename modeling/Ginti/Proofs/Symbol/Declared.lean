import Ginti.Proofs.Symbol.Latest
import Ginti.Proofs.Symbol.Nesting
import Ginti.Symbol.Collect

namespace Ginti

/-- What a token does to the open scopes if it is a brace. -/
def Token.brace? (t : Token) : Option ScopeMove :=
  if t.category = .separator then
    if t.text = Separator.leftCurly.spelling then some .enter
    else if t.text = Separator.rightCurly.spelling then some .exit
    else none
  else none

/-- The braces among some tokens, in order. -/
def braces (tokens : List Token) : List ScopeMove :=
  tokens.filterMap Token.brace?

/-- The last of some tokens that is of one of the categories. -/
def lastOf? (categories : List Category) (tokens : List Token) : Option Token :=
  tokens.reverse.find? fun t => t.category ∈ categories

/-- A declaration site is an identifier before which the nearest keyword or identifier is a
    keyword that names a type. -/
def IsSite (tokens : List Token) (i : Fin tokens.length) : Prop :=
  tokens[i].category = .identifier ∧
    ∃ keyword ∈ lastOf? [.keyword, .identifier] (tokens.take i),
      keyword.category = .keyword ∧ keyword.text ∈ Vocabulary.typeKeywords.spellings

instance (tokens : List Token) : DecidablePred (IsSite tokens) :=
  fun _ => inferInstanceAs (Decidable (_ ∧ _))

/-- The places of the declaring identifiers, in order. -/
def sites (tokens : List Token) : List (Fin tokens.length) :=
  (List.finRange tokens.length).filter fun i => IsSite tokens i

theorem mem_sites_iff {tokens : List Token} {i : Fin tokens.length} :
    i ∈ sites tokens ↔ IsSite tokens i := by
  simp [sites]

theorem sites_pairwise (tokens : List Token) : (sites tokens).Pairwise (· < ·) :=
  (List.pairwise_lt_finRange _).filter _

@[simp]
theorem braces_concat (tokens : List Token) (token : Token) :
    braces (tokens ++ [token]) = braces tokens ++ token.brace?.toList := by
  simp only [braces, List.filterMap_append, List.filterMap_cons, List.filterMap_nil]
  cases token.brace? <;> rfl

@[simp]
theorem lastOf?_concat (categories : List Category) (tokens : List Token) (token : Token) :
    lastOf? categories (tokens ++ [token]) =
      if token.category ∈ categories then some token else lastOf? categories tokens := by
  rw [lastOf?, List.reverse_concat, List.find?_cons]
  by_cases h : token.category ∈ categories
  · simp [h]
  · simp [h, lastOf?]

theorem TypeKeyword.ofSpelling?_eq_some_iff {text : String} {type : TypeKeyword} :
    ofSpelling? text = some type ↔ text = type.spelling := by
  constructor
  · intro h
    have hspelling := List.find?_some h
    exact (beq_iff_eq.mp hspelling).symm
  · rintro rfl
    cases type <;> rfl

theorem TypeKeyword.ofSpelling?_isSome_iff {text : String} :
    (ofSpelling? text).isSome ↔ text ∈ Vocabulary.typeKeywords.spellings := by
  simp only [ofSpelling?, List.find?_isSome, Vocabulary.spellings, List.mem_map, beq_iff_eq]

/-- The type keyword that waits for its identifier after some tokens. -/
def pendingAfter (tokens : List Token) : Option TypeKeyword :=
  (lastOf? [.keyword, .identifier] tokens).bind fun t =>
    if t.category = .keyword then TypeKeyword.ofSpelling? t.text else none

/-- A keyword replaces the type that waits, and an identifier uses it up. Other tokens have no
    bearing on it. -/
@[simp]
theorem pendingAfter_concat (tokens : List Token) (token : Token) :
    pendingAfter (tokens ++ [token]) =
      if token.category = .keyword then TypeKeyword.ofSpelling? token.text
      else if token.category = .identifier then none else pendingAfter tokens := by
  rw [pendingAfter, lastOf?_concat]
  by_cases hkeyword : token.category = .keyword
  · simp [hkeyword]
  · by_cases hidentifier : token.category = .identifier
    · simp [hidentifier]
    · simp [hkeyword, hidentifier, pendingAfter]

/-- The declaration that a token makes after some others. -/
def declarationAfter (nested : Bool) (before : List Token) (token : Token) : Declaration :=
  ⟨token, pendingAfter before, (ScopeStack.after nested (braces before)).current⟩

/-- What a token declares behind some others. -/
def declaredAfter? (nested : Bool) (before : List Token) (token : Token) : Option Declaration :=
  if token.category = .identifier ∧ (pendingAfter before).isSome then
    some (declarationAfter nested before token)
  else none

namespace DeclarationState

/-- The state of the pass after some tokens, told from the tokens. -/
def after (nested : Bool) (tokens : List Token) : DeclarationState :=
  ⟨.after nested (braces tokens), pendingAfter tokens⟩

/-- A token takes the pass from one such state to the next, and declares what it does after the
    tokens before it. -/
theorem next_after (nested : Bool) (before : List Token) (token : Token) :
    (after nested before).next token =
      (declaredAfter? nested before token, after nested (before ++ [token])) := by
  obtain ⟨category, text, position⟩ := token
  cases category with
  | separator =>
    by_cases hleft : text = Separator.leftCurly.spelling
    · simp [next, after, declaredAfter?, Token.brace?, hleft, ScopeStack.move]
    · by_cases hright : text = Separator.rightCurly.spelling
      · subst hright
        simp [next, after, declaredAfter?, Token.brace?, hleft, ScopeStack.move]
      · simp [next, after, declaredAfter?, Token.brace?, hleft, hright]
  | keyword => simp [next, after, declaredAfter?, Token.brace?]
  | identifier =>
    cases hpending : pendingAfter before with
    | none => simp [next, after, declaredAfter?, Token.brace?, hpending]
    | some type => simp [next, after, declaredAfter?, Token.brace?, hpending, declarationAfter]
  | _ => simp [next, after, declaredAfter?, Token.brace?]

/-- The pass finds the declarations among the tokens that are left, each as the tokens before it
    say. -/
theorem declarations_after (nested : Bool) (before tokens : List Token) :
    (after nested before).declarations tokens =
      (List.finRange tokens.length).filterMap fun i : Fin tokens.length =>
        declaredAfter? nested (before ++ tokens.take i) tokens[i] := by
  induction tokens generalizing before with
  | nil => rfl
  | cons token tokens ih =>
    rw [declarations, next_after]
    simp only [ih, List.length_cons, List.finRange_succ, List.filterMap_cons, List.filterMap_map]
    cases hdeclared : declaredAfter? nested before token with
    | none => simp [hdeclared, Function.comp_def]
    | some d => simp [hdeclared, Function.comp_def]

end DeclarationState

/-- What an identifier at some place would declare there. -/
def declarationAt (nested : Bool) (tokens : List Token) (i : Fin tokens.length) : Declaration :=
  declarationAfter nested (tokens.take i) tokens[i]

/-- A type waits exactly if the nearest keyword or identifier is a keyword that names a type. -/
theorem pendingAfter_isSome_iff {tokens : List Token} :
    (pendingAfter tokens).isSome ↔
      ∃ keyword ∈ lastOf? [.keyword, .identifier] tokens,
        keyword.category = .keyword ∧ keyword.text ∈ Vocabulary.typeKeywords.spellings := by
  unfold pendingAfter
  cases lastOf? [.keyword, .identifier] tokens with
  | none => simp
  | some keyword =>
    by_cases h : keyword.category = .keyword
    · simp [h, TypeKeyword.ofSpelling?_isSome_iff]
    · simp [h]

theorem declaredAfter?_take (nested : Bool) (tokens : List Token) (i : Fin tokens.length) :
    declaredAfter? nested (tokens.take i) tokens[i] =
      if IsSite tokens i then some (declarationAt nested tokens i) else none := by
  simp only [declaredAfter?, pendingAfter_isSome_iff]
  rfl

/-- A program makes one declaration at each of its sites. -/
theorem declarations_eq_map_sites (nested : Bool) (tokens : List Token) :
    declarations nested tokens = (sites tokens).map (declarationAt nested tokens) := by
  change (DeclarationState.after nested []).declarations tokens = _
  rw [DeclarationState.declarations_after, sites, ← List.filterMap_eq_map, List.filterMap_filter]
  simp only [List.nil_append, declaredAfter?_take, decide_eq_true_eq, Function.comp_apply]

/-- The report about a token that is declared and is no name. -/
def Token.invalidReport (t : Token) : Diagnostic :=
  ⟨"Invalid identifier: '" ++ t.text ++ "'. Must match ^[a-z][a-zA-Z0-9_]*$", t.position⟩

/-- The last of the sites that declare a name, which has to be a valid one. -/
structure IsLastSite (tokens : List Token) (name : String) (i : Fin tokens.length) : Prop where
  site : IsSite tokens i
  valid : IsName tokens[i].text
  text : tokens[i].text = name
  last : ∀ j, IsSite tokens j → tokens[j].text = name → j ≤ i

/-- What a symbol has to be like to be the one declared at a site. -/
structure Symbol.IsDeclaredAt (s : Symbol) (nested : Bool) (tokens : List Token)
    (i : Fin tokens.length) : Prop where
  name : s.name = tokens[i].text
  /-- The nearest keyword before the site names the type. -/
  type : ∃ keyword type, lastOf? [.keyword] (tokens.take i) = some keyword ∧
    keyword.text = TypeKeyword.spelling type ∧ s.type = some type
  /-- Flat tracking looks at the last brace before the site. -/
  flat_scope : nested = false →
    (s.scope = .block ↔ (braces (tokens.take i)).getLast? = some .enter)
  /-- Nested tracking looks for a run of tokens up to the site with more opening braces in it
      than closing ones. -/
  nested_scope : nested = true →
    (s.scope = .block ↔ ∃ run, run <:+ tokens.take i ∧
      (braces run).count .exit < (braces run).count .enter)

/-- If the last keyword or identifier is a keyword, then it is the last keyword. -/
theorem lastOf?_keyword {tokens : List Token} {t : Token}
    (hlast : lastOf? [.keyword, .identifier] tokens = some t) (hkeyword : t.category = .keyword) :
    lastOf? [.keyword] tokens = some t := by
  induction tokens using List.reverseRecOn with
  | nil => cases hlast
  | append_singleton tokens token ih =>
    rw [lastOf?_concat] at hlast ⊢
    by_cases hcategory : token.category = .keyword
    · simpa [hcategory] using hlast
    · by_cases hidentifier : token.category = .identifier
      · simp only [hidentifier, List.mem_cons, true_or, or_true, if_true, Option.some.injEq] at hlast
        subst hlast
        exact absurd hkeyword hcategory
      · simp only [List.mem_cons, List.not_mem_nil, hcategory, hidentifier, or_self, if_false] at hlast ⊢
        exact ih hlast

/-- In front of a site there is a keyword, and the last one names the type that waits. -/
theorem IsSite.exists_keyword {tokens : List Token} {i : Fin tokens.length}
    (h : IsSite tokens i) :
    ∃ keyword type, lastOf? [.keyword] (tokens.take i) = some keyword ∧
      keyword.text = TypeKeyword.spelling type ∧ pendingAfter (tokens.take i) = some type := by
  obtain ⟨-, keyword, hlast, hcategory, htext⟩ := h
  obtain ⟨type, htype⟩ := Option.isSome_iff_exists.mp (TypeKeyword.ofSpelling?_isSome_iff.mpr htext)
  refine ⟨keyword, type, lastOf?_keyword hlast hcategory, ?_, ?_⟩
  · exact TypeKeyword.ofSpelling?_eq_some_iff.mp htype
  · rw [pendingAfter, hlast, Option.bind_some, if_pos hcategory, htype]

/-- A run of braces at the end is that of a run of tokens at the end. -/
theorem leavesOpen_zero_braces_iff {tokens : List Token} :
    ScopeMove.LeavesOpen 0 (braces tokens) ↔
      ∃ run, run <:+ tokens ∧ (braces run).count .exit < (braces run).count .enter := by
  constructor
  · intro hrun
    obtain ⟨_, hsuffix, hopen⟩ := hrun
    obtain ⟨run, hrun, rfl⟩ := List.suffix_filterMap_iff.mp hsuffix
    exact ⟨run, hrun, hopen⟩
  · intro hrun
    obtain ⟨run, hrun, hopen⟩ := hrun
    exact ⟨_, hrun.filterMap _, hopen⟩

theorem Scope.eq_of_block_iff {s t : Scope} (h : s = .block ↔ t = .block) : s = t := by
  cases s <;> cases t <;> simp_all

/-- There is one symbol for a site to declare. -/
theorem Symbol.isDeclaredAt_iff {tokens : List Token} {i : Fin tokens.length} {nested : Bool}
    {s : Symbol} (hsite : IsSite tokens i) :
    s.IsDeclaredAt nested tokens i ↔ s = (declarationAt nested tokens i).symbol := by
  obtain ⟨keyword, type, hkeyword, htext, hpending⟩ := hsite.exists_keyword
  have hblock := @ScopeStack.after_current_eq_block_iff nested (braces (tokens.take i))
  constructor
  · intro hdeclared
    obtain ⟨hname, ⟨keyword', type', hkeyword', htext', htype⟩, hflat, hnested⟩ := hdeclared
    have hscope : s.scope = (declarationAt nested tokens i).symbol.scope := by
      apply Scope.eq_of_block_iff
      cases nested with
      | false => exact (hflat rfl).trans hblock.symm
      | true => exact (hnested rfl).trans (hblock.trans leavesOpen_zero_braces_iff).symm
    cases hkeyword.symm.trans hkeyword'
    have hsame : some type' = some type := by
      rw [← TypeKeyword.ofSpelling?_eq_some_iff.mpr htext,
        ← TypeKeyword.ofSpelling?_eq_some_iff.mpr htext']
    obtain ⟨name, _, scope⟩ := s
    simp only at hname htype hscope
    rw [hname, htype, hscope, hsame, ← hpending]
    rfl
  · rintro rfl
    refine ⟨rfl, ⟨keyword, type, hkeyword, htext, hpending⟩, ?_, ?_⟩
    · rintro rfl
      exact hblock
    · rintro rfl
      exact hblock.trans leavesOpen_zero_braces_iff

/-- Searching an increasing list from its end finds the largest element of the kind. -/
theorem find?_reverse_eq_some_iff {n : Nat} {l : List (Fin n)} (hl : l.Pairwise (· < ·))
    {p : Fin n → Bool} {i : Fin n} :
    l.reverse.find? p = some i ↔ i ∈ l ∧ p i = true ∧ ∀ j ∈ l, p j = true → j ≤ i := by
  induction l using List.reverseRecOn with
  | nil => simp
  | append_singleton l last ih =>
    obtain ⟨hl, -, hlast⟩ := List.pairwise_append.mp hl
    have hbefore {j : Fin n} (hj : j ∈ l) : j < last := hlast j hj last List.mem_cons_self
    rw [List.reverse_concat, List.find?_cons]
    cases hp : p last with
    | true =>
      simp only [Option.some.injEq]
      constructor
      · rintro rfl
        refine ⟨List.mem_append_right _ List.mem_cons_self, hp, fun j hj _ => ?_⟩
        obtain hj | hj := List.mem_append.mp hj
        · exact Fin.le_of_lt (hbefore hj)
        · exact Fin.le_of_eq (List.mem_singleton.mp hj)
      · intro hgreatest
        obtain ⟨hi, -, hmax⟩ := hgreatest
        obtain hi | hi := List.mem_append.mp hi
        · have hle := hmax last (List.mem_append_right _ List.mem_cons_self) hp
          exact absurd (hbefore hi) (Fin.not_lt.mpr hle)
        · exact (List.mem_singleton.mp hi).symm
    | false =>
      simp only [ih hl, List.mem_append, List.mem_singleton]
      constructor
      · intro hgreatest
        obtain ⟨hi, hpi, hmax⟩ := hgreatest
        refine ⟨.inl hi, hpi, ?_⟩
        rintro j (hj | rfl) hpj
        · exact hmax j hj hpj
        · rw [hp] at hpj
          cases hpj
      · intro hgreatest
        obtain ⟨hi | rfl, hpi, hmax⟩ := hgreatest
        · exact ⟨hi, hpi, fun j hj => hmax j (.inl hj)⟩
        · rw [hp] at hpi
          cases hpi

namespace SymbolTable

/-- The last site at which a name is declared. -/
def lastSite? (tokens : List Token) (name : String) : Option (Fin tokens.length) :=
  (sites tokens).reverse.find? fun i => IsName tokens[i].text ∧ tokens[i].text = name

/-- The search for the last site of a name finds the last one. -/
theorem lastSite?_eq_some_iff {tokens : List Token} {name : String} {i : Fin tokens.length} :
    lastSite? tokens name = some i ↔ IsLastSite tokens name i := by
  rw [lastSite?, find?_reverse_eq_some_iff (sites_pairwise tokens)]
  simp only [mem_sites_iff, decide_eq_true_eq]
  constructor
  · intro hfound
    obtain ⟨hsite, ⟨hvalid, htext⟩, hlast⟩ := hfound
    refine ⟨hsite, hvalid, htext, fun j hj hsame => hlast j hj ⟨?_, hsame⟩⟩
    rw [hsame, ← htext]
    exact hvalid
  · intro hlast
    obtain ⟨hsite, hvalid, htext, hlast⟩ := hlast
    exact ⟨hsite, ⟨hvalid, htext⟩, fun j hj hname => hlast j hj hname.2⟩

/-- A name means what is declared at its last site. -/
theorem get?_ofTokens (nested : Bool) (tokens : List Token) (name : String) :
    (ofTokens nested tokens).get? name =
      (lastSite? tokens name).map fun i => (declarationAt nested tokens i).symbol := by
  rw [ofTokens, get?_declareAll, declarations_eq_map_sites, ← List.map_reverse, List.find?_map,
    Option.map_map]
  rfl

/-- The table of some tokens has an entry for each name that has a site, with the symbol that its
    last site declares. -/
theorem mem_entries_ofTokens_iff {nested : Bool} {tokens : List Token} {name : String}
    {symbol : Symbol} :
    (name, symbol) ∈ (ofTokens nested tokens).entries ↔
      ∃ i, IsLastSite tokens name i ∧ symbol.IsDeclaredAt nested tokens i := by
  have hnodup : (ofTokens nested tokens).names.Nodup := nodup_names_declareAll _
  rw [← get?_eq_some_iff hnodup, get?_ofTokens, Option.map_eq_some_iff]
  refine exists_congr fun i => ?_
  rw [lastSite?_eq_some_iff]
  refine and_congr_right fun hlast => ?_
  rw [Symbol.isDeclaredAt_iff hlast.site, eq_comm]

/-- The sites of invalid names are reported in their order, however scopes are tracked. -/
theorem diagnosticsOf_eq (nested : Bool) (tokens : List Token) :
    diagnosticsOf nested tokens =
      ((sites tokens).filter fun i => ¬ IsName tokens[i].text).map
        (fun i => tokens[i].invalidReport) := by
  rw [diagnosticsOf, problems_attempts, declarations_eq_map_sites, List.filter_map, List.map_map,
    List.map_map]
  rfl

/-- The table and the reports about a program, told from its tokens. -/
theorem collected_from_sites (nested : Bool) (tokens : List Token) :
    diagnosticsOf nested tokens =
        ((sites tokens).filter fun i => ¬ IsName tokens[i].text).map
          (fun i => tokens[i].invalidReport) ∧
      (ofTokens nested tokens).names =
        (((sites tokens).filter fun i => IsName tokens[i].text).map
          fun i => tokens[i].text).eraseDups ∧
      ∀ name symbol, (name, symbol) ∈ (ofTokens nested tokens).entries ↔
        ∃ i, IsLastSite tokens name i ∧ symbol.IsDeclaredAt nested tokens i := by
  refine ⟨diagnosticsOf_eq nested tokens, ?_, fun _ _ => mem_entries_ofTokens_iff⟩
  · rw [ofTokens, names_declareAll, declarations_eq_map_sites, List.filter_map, List.map_map]
    rfl

end SymbolTable
end Ginti
