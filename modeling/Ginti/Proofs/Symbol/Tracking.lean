import Mathlib.Data.List.Forall2
import Ginti.Proofs.Symbol.Declared

namespace Ginti

open ScopeMove

namespace ScopeStack

/-- A block that flat tracking sees is one for nested tracking too. -/
theorem insideBlock_nested_of_flat {moves : List ScopeMove} (h : InsideBlock false moves) :
    InsideBlock true moves := by
  obtain ⟨before, rfl⟩ := List.getLast?_eq_some_iff.mp h
  exact leavesOpen_enter_zero before

/-- The two ways of tracking differ exactly where the last brace was a closing one and some block
    is open all the same. -/
theorem insideBlock_differ_iff {moves : List ScopeMove} :
    ¬ (InsideBlock false moves ↔ InsideBlock true moves) ↔
      InsideBlock true moves ∧ moves.getLast? = some .exit := by
  constructor
  · intro hdiffer
    have hflat : ¬ InsideBlock false moves :=
      fun hflat => hdiffer (iff_of_true hflat (insideBlock_nested_of_flat hflat))
    have hnested : InsideBlock true moves := by
      by_contra hnested
      exact hdiffer (iff_of_false hflat hnested)
    refine ⟨hnested, ?_⟩
    cases hlast : moves.getLast? with
    | none =>
      rw [List.getLast?_eq_none_iff.mp hlast] at hnested
      exact absurd hnested (not_leavesOpen_nil 0)
    | some last =>
      cases last with
      | enter => exact absurd hlast hflat
      | exit => rfl
  · intro hexit hsame
    obtain ⟨hnested, hlast⟩ := hexit
    have hflat : moves.getLast? = some .enter := hsame.mpr hnested
    rw [hlast] at hflat
    cases hflat

/-- The open scopes are the blocks that the moves lead into. -/
theorem inner_ne_nil_iff {nested : Bool} {moves : List ScopeMove} :
    (after nested moves).inner ≠ [] ↔ InsideBlock nested moves := by
  rw [← after_current_eq_block_iff]
  cases nested with
  | false =>
    rw [current, after_flat_inner]
    split <;> simp
  | true =>
    obtain ⟨d, hinner, -⟩ := exists_depth_nested moves
    rw [current, hinner]
    cases d <;> simp [List.replicate_succ]

end ScopeStack

namespace DeclarationState

/-- The state of the pass after some more tokens. -/
def read (s : DeclarationState) (tokens : List Token) : DeclarationState :=
  tokens.foldl (fun state token => (state.next token).2) s

theorem read_start (nested : Bool) (tokens : List Token) :
    (start nested).read tokens = after nested tokens := by
  induction tokens using List.reverseRecOn with
  | nil => rfl
  | append_singleton tokens token ih =>
    change List.foldl _ _ _ = _ at ih
    rw [read, List.foldl_concat, ih, next_after]

end DeclarationState

/-- No opening brace comes while nested tracking has another one open. -/
def NeverNests (tokens : List Token) : Prop :=
  ∀ before token later, tokens = before ++ token :: later → token.brace? = some .enter →
    ((DeclarationState.start true).read before).scopes.inner = []

theorem NeverNests.of_append {tokens later : List Token} (h : NeverNests (tokens ++ later)) :
    NeverNests tokens := by
  intro before token after htokens
  apply h before token (after ++ later)
  rw [htokens, List.append_assoc, List.cons_append]

/-- Without nesting the same blocks are open for both ways of tracking. -/
theorem NeverNests.inner_eq {tokens : List Token} (h : NeverNests tokens) :
    (ScopeStack.after true (braces tokens)).inner =
      (ScopeStack.after false (braces tokens)).inner := by
  induction tokens using List.reverseRecOn with
  | nil => rfl
  | append_singleton tokens token ih =>
    have hbefore := ih h.of_append
    rw [braces_concat]
    cases hbrace : token.brace? with
    | none => rw [Option.toList_none, List.append_nil, hbefore]
    | some brace =>
      rw [Option.toList_some, ScopeStack.after_concat, ScopeStack.after_concat]
      cases brace with
      | enter =>
        have hnone := h tokens token [] rfl hbrace
        rw [DeclarationState.read_start] at hnone
        change (ScopeStack.after true (braces tokens)).inner = [] at hnone
        rw [hnone] at hbefore
        simp [ScopeStack.move, ScopeStack.enter, hnone, ← hbefore]
      | exit =>
        -- Flat tracking never has more than one block open, so there is nothing below it.
        have hflat := ScopeStack.after_flat_inner (braces tokens)
        have htail : (ScopeStack.after true (braces tokens)).inner.tail = [] := by
          rw [hbefore, hflat]
          split <;> rfl
        simp [ScopeStack.move, ScopeStack.exit, htail]

/-- Declarations of the same name with the same type, of which the first is in a block only if
    the second is. -/
structure Declaration.Under (flat nested : Declaration) : Prop where
  token : flat.token = nested.token
  type : flat.type = nested.type
  block : flat.scope = .block → nested.scope = .block

theorem declarationAt_under (tokens : List Token) (i : Fin tokens.length) :
    (declarationAt false tokens i).Under (declarationAt true tokens i) where
  token := rfl
  type := rfl
  block := by
    intro hflat
    have hinside := ScopeStack.after_current_eq_block_iff.mp hflat
    exact ScopeStack.after_current_eq_block_iff.mpr (ScopeStack.insideBlock_nested_of_flat hinside)

/-- The two ways of tracking make the same declarations but for scopes. -/
theorem declarations_under (tokens : List Token) :
    List.Forall₂ Declaration.Under (declarations false tokens) (declarations true tokens) := by
  rw [declarations_eq_map_sites, declarations_eq_map_sites, List.forall₂_map_left_iff,
    List.forall₂_map_right_iff, List.forall₂_same]
  exact fun i _ => declarationAt_under tokens i

namespace SymbolTable

/-- Entries for the same name with the same type, of which the first is in a block only if the
    second is. -/
structure EntryUnder (flat nested : String × Symbol) : Prop where
  key : flat.1 = nested.1
  name : flat.2.name = nested.2.name
  type : flat.2.type = nested.2.type
  block : flat.2.scope = .block → nested.2.scope = .block

/-- Two tables have the same entries but for scopes, and the first sees no block that the second
    does not see. -/
def Under (flat nested : SymbolTable) : Prop :=
  List.Forall₂ EntryUnder flat.entries nested.entries

theorem insertIn_under {name : String} {symbol other : Symbol}
    (hsymbol : EntryUnder (name, symbol) (name, other)) {flat nested : List (String × Symbol)}
    (h : List.Forall₂ EntryUnder flat nested) :
    List.Forall₂ EntryUnder (insertIn name symbol flat) (insertIn name other nested) := by
  induction h with
  | nil => exact .cons hsymbol .nil
  | @cons first second flat nested hentry htail ih =>
    obtain ⟨key, old⟩ := first
    obtain ⟨key', old'⟩ := second
    obtain rfl : key = key' := hentry.key
    rw [insertIn, insertIn]
    split
    · next hkey =>
      subst hkey
      exact .cons ⟨rfl, hsymbol.name, hsymbol.type, hsymbol.block⟩ htail
    · exact .cons hentry ih

/-- One declaration on either side keeps the tables in step. -/
theorem attempt_under {flat nested : SymbolTable} (h : flat.Under nested) {d d' : Declaration}
    (hd : d.Under d') : (flat.attempt d).2.Under (nested.attempt d').2 := by
  have hname' : d'.name = d.name := congrArg Token.text hd.token.symm
  by_cases hname : IsName d.name
  · rw [attempt_of_isName hname, attempt_of_isName (hname'.symm ▸ hname), hname']
    have hsymbol : EntryUnder (d.name, d.symbol) (d.name, d'.symbol) :=
      ⟨rfl, hname'.symm, hd.type, hd.block⟩
    exact insertIn_under hsymbol h
  · rw [attempt_of_not_isName hname, attempt_of_not_isName (hname'.symm ▸ hname)]
    exact h

/-- Declarations that are the same but for scopes lead to tables that are. -/
theorem declareAll_under {flat nested : SymbolTable} (h : flat.Under nested)
    {ds ds' : List Declaration} (hds : List.Forall₂ Declaration.Under ds ds') :
    (flat.declareAll ds).Under (nested.declareAll ds') := by
  induction hds generalizing flat nested with
  | nil => exact h
  | cons hd _ ih => exact ih (attempt_under h hd)

theorem ofTokens_under (tokens : List Token) : (ofTokens false tokens).Under (ofTokens true tokens) :=
  declareAll_under .nil (declarations_under tokens)

theorem Under.names_eq {flat nested : SymbolTable} (h : flat.Under nested) :
    flat.names = nested.names := by
  have hkeys : List.Forall₂ (· = ·) flat.names nested.names := by
    rw [names, names, List.forall₂_map_left_iff, List.forall₂_map_right_iff]
    exact h.imp fun _ _ hentry => hentry.key
  exact List.forall₂_eq_eq_eq ▸ hkeys

theorem Under.types_eq {flat nested : SymbolTable} (h : flat.Under nested) :
    flat.symbols.map Symbol.type = nested.symbols.map Symbol.type := by
  have htypes : List.Forall₂ (· = ·) (flat.symbols.map Symbol.type)
      (nested.symbols.map Symbol.type) := by
    rw [symbols, symbols, List.map_map, List.map_map, List.forall₂_map_left_iff,
      List.forall₂_map_right_iff]
    exact h.imp fun _ _ hentry => hentry.type
  exact List.forall₂_eq_eq_eq ▸ htypes

/-- A name means different symbols exactly if they are declared in different scopes at its last
    site. -/
theorem get?_ne_iff {tokens : List Token} {name : String} :
    (ofTokens false tokens).get? name ≠ (ofTokens true tokens).get? name ↔
      ∃ i, IsLastSite tokens name i ∧
        (declarationAt false tokens i).scope ≠ (declarationAt true tokens i).scope := by
  rw [get?_ofTokens, get?_ofTokens]
  simp only [← lastSite?_eq_some_iff]
  cases lastSite? tokens name with
  | none => simp
  | some i =>
    simp only [Option.map_some, ne_eq, Option.some.injEq, exists_eq_left']
    refine not_congr ?_
    constructor
    · intro hsymbol
      exact congrArg Symbol.scope hsymbol
    · intro hscope
      simp only [Declaration.symbol, Symbol.mk.injEq]
      exact ⟨rfl, rfl, hscope⟩

/-- The two ways of tracking differ about a place exactly if a block is still open there behind a
    closing brace. -/
theorem scope_ne_iff {tokens : List Token} {i : Fin tokens.length} :
    (declarationAt false tokens i).scope ≠ (declarationAt true tokens i).scope ↔
      ((DeclarationState.start true).read (tokens.take i)).scopes.inner ≠ [] ∧
        (braces (tokens.take i)).getLast? = some .exit := by
  have hblock (nested : Bool) : (declarationAt nested tokens i).scope = .block ↔
      ScopeStack.InsideBlock nested (braces (tokens.take i)) :=
    ScopeStack.after_current_eq_block_iff
  have hscope : (declarationAt false tokens i).scope = (declarationAt true tokens i).scope ↔
      (ScopeStack.InsideBlock false (braces (tokens.take i)) ↔
        ScopeStack.InsideBlock true (braces (tokens.take i))) := by
    rw [← hblock, ← hblock]
    constructor
    · intro hsame
      rw [hsame]
    · exact Scope.eq_of_block_iff
  rw [ne_eq, hscope, ScopeStack.insideBlock_differ_iff, DeclarationState.read_start,
    ← ScopeStack.inner_ne_nil_iff]
  rfl

/-- Where blocks are never nested it makes no difference how scopes are tracked. -/
theorem ofTokens_eq_of_neverNests {tokens : List Token} (h : NeverNests tokens) :
    ofTokens false tokens = ofTokens true tokens := by
  have hdeclarations : declarations false tokens = declarations true tokens := by
    rw [declarations_eq_map_sites, declarations_eq_map_sites]
    refine List.map_congr_left fun i _ => ?_
    have hbefore : NeverNests (tokens.take i) := by
      rw [← List.take_append_drop i tokens] at h
      exact h.of_append
    simp only [declarationAt, declarationAfter, ScopeStack.current, hbefore.inner_eq]
  rw [ofTokens, ofTokens, hdeclarations]

/-- What flat and nested tracking have in common, and where they differ. -/
structure TrackingAgrees (tokens : List Token) : Prop where
  diagnostics : diagnosticsOf false tokens = diagnosticsOf true tokens
  names : (ofTokens false tokens).names = (ofTokens true tokens).names
  types : (ofTokens false tokens).symbols.map Symbol.type =
    (ofTokens true tokens).symbols.map Symbol.type
  /-- What is in a block for flat tracking is in one for nested tracking. -/
  blocks : ∀ name symbol, (ofTokens false tokens).get? name = some symbol →
    symbol.scope = .block →
      ∃ other, (ofTokens true tokens).get? name = some other ∧ other.scope = .block
  /-- A name means something else for nested tracking exactly if at its last declaration a block
      is open there although the brace before it is a closing one. -/
  differs : ∀ name, (ofTokens false tokens).get? name ≠ (ofTokens true tokens).get? name ↔
    ∃ i, IsLastSite tokens name i ∧
      ((DeclarationState.start true).read (tokens.take i)).scopes.inner ≠ [] ∧
      (braces (tokens.take i)).getLast? = some .exit
  same : NeverNests tokens → ofTokens false tokens = ofTokens true tokens

/-- For every sequence of tokens flat and nested tracking agree in all but the scopes of names
    that are declared after a closing brace and inside an open one. -/
theorem flat_and_nested_agree (tokens : List Token) : TrackingAgrees tokens := by
  constructor
  case diagnostics => rw [diagnosticsOf_eq, diagnosticsOf_eq]
  case names => exact (ofTokens_under tokens).names_eq
  case types => exact (ofTokens_under tokens).types_eq
  case blocks =>
    intro name symbol hsymbol hblock
    rw [get?_ofTokens, Option.map_eq_some_iff] at hsymbol
    obtain ⟨i, hlast, rfl⟩ := hsymbol
    refine ⟨(declarationAt true tokens i).symbol, ?_, (declarationAt_under tokens i).block hblock⟩
    rw [get?_ofTokens, hlast, Option.map_some]
  case differs =>
    intro name
    rw [get?_ne_iff]
    exact exists_congr fun i => and_congr_right fun _ => scope_ne_iff
  case same => exact ofTokens_eq_of_neverNests

-- A name declared after one of two open blocks was closed.
example :
    let place : Position := ⟨1, 1⟩
    let tokens : List Token :=
      [⟨.separator, "\x7b", place⟩, ⟨.separator, "\x7b", place⟩, ⟨.separator, "\x7d", place⟩,
        ⟨.keyword, "Ginti", place⟩, ⟨.identifier, "x", place⟩]
    ((ofTokens false tokens).get? "x").map Symbol.scope = some .global ∧
      ((ofTokens true tokens).get? "x").map Symbol.scope = some .block := by
  decide

end SymbolTable

end Ginti
