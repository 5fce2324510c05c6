import Ginti.Proofs.Listing.Symbols

namespace Ginti

namespace SymbolTable

open Listing

/-- What becomes of a declaration: the problem that it is refused for, if any, and the next
    table. -/
structure Records (t : SymbolTable) (d : Declaration) (problem? : Option Problem)
    (next : SymbolTable) : Prop where
  answer : t.declare d.token d.type d.scope = problem?.elim (.ok next) .error
  refused_iff : problem?.isSome = true ↔ ¬ IsName d.name
  /-- A refusal says what is no name and where it stands. -/
  problem : ∀ p ∈ problem?, p.fault.stage = .declaration ∧ p.position = d.token.position ∧
    p.message = "Invalid identifier: '" ++ d.name ++ "'. Must match ^[a-z][a-zA-Z0-9_]*$"
  refused : problem?.isSome = true → next = t
  recorded : problem? = none → next.get? d.name = some d.symbol
  others : ∀ name, name ≠ d.name → next.get? name = t.get? name
  /-- Names keep their places, and a new one comes last. -/
  names : next.names = if IsName d.name ∧ d.name ∉ t.names then t.names ++ [d.name] else t.names

variable {t : SymbolTable} {d : Declaration}

theorem records_of_isName (hname : IsName d.name) :
    t.Records d none (t.insert d.name d.symbol) := by
  have hvalid : isName d.token.text.toList = true := isName_iff.mpr hname
  constructor
  case answer =>
    rw [declare, if_pos hvalid]
    rfl
  case refused_iff => simp [hname]
  case problem =>
    intro p hp
    cases hp
  case refused =>
    intro hsome
    cases hsome
  case recorded =>
    intro _
    rw [get?_insert, if_pos rfl]
  case others =>
    intro name hne
    rw [get?_insert, if_neg hne]
  case names =>
    rw [names_insert]
    by_cases hmem : d.name ∈ t.names
    · simp [hmem]
    · simp [hmem, hname]

theorem records_of_not_isName (hname : ¬ IsName d.name) : t.Records d (some d.problem) t := by
  have hinvalid : ¬ isName d.token.text.toList = true := mt isName_iff.mp hname
  constructor
  case answer =>
    rw [declare, if_neg hinvalid]
    rfl
  case refused_iff => simp [hname]
  case problem =>
    intro p hp
    cases hp
    exact ⟨rfl, rfl, rfl⟩
  case refused => exact fun _ => rfl
  case recorded =>
    intro hnone
    cases hnone
  case others => exact fun _ _ => rfl
  case names => simp [hname]

/-- A declaration is refused or recorded, whatever the table holds. -/
theorem records_attempt (t : SymbolTable) (d : Declaration) :
    t.Records d (t.attempt d).1 (t.attempt d).2 := by
  by_cases hname : IsName d.name
  · rw [attempt_of_isName hname]
    exact records_of_isName hname
  · rw [attempt_of_not_isName hname]
    exact records_of_not_isName hname

/-- Each declaration of a run is made on the table that those before it lead to. -/
theorem getElem?_attempts (t : SymbolTable) (ds : List Declaration) (i : Nat) :
    (t.attempts ds)[i]? = ds[i]?.map (t.declareAll (ds.take i)).attempt := by
  induction ds generalizing t i with
  | nil => rfl
  | cons d ds ih =>
    cases i with
    | zero => rfl
    | succ i =>
      rw [attempts, List.getElem?_cons_succ, ih, List.getElem?_cons_succ, List.take_succ_cons]
      rfl

theorem declareAll_take_succ {ds : List Declaration} {i : Nat} (h : ds[i]? = some d) :
    t.declareAll (ds.take (i + 1)) = ((t.declareAll (ds.take i)).attempt d).2 := by
  rw [List.take_add_one, h, Option.toList_some, declareAll_concat]

/-- A valid declaration of a name with no other behind it in a run. -/
structure IsLatest (ds : List Declaration) (name : String) (d : Declaration) : Prop where
  valid : IsName d.name
  name_eq : d.name = name
  last : ∃ before later, ds = before ++ d :: later ∧ ∀ e ∈ later, e.name ≠ name

/-- The last valid declaration of a name is the first that is met on the way back. -/
theorem find?_eq_some_iff_isLatest {ds : List Declaration} {name : String} :
    (ds.reverse.find? fun d => IsName d.name ∧ d.name = name) = some d ↔ IsLatest ds name d := by
  rw [List.find?_eq_some_iff_append, decide_eq_true_eq]
  constructor
  · intro h
    obtain ⟨⟨hvalid, hname⟩, later, before, hsplit, hlater⟩ := h
    refine ⟨hvalid, hname, before.reverse, later.reverse, ?_, ?_⟩
    · rw [← List.reverse_reverse ds, hsplit]
      simp
    · intro e he hsame
      have hother := hlater e (List.mem_reverse.mp he)
      -- The name is valid, so a declaration of it cannot be passed over as an invalid one.
      rw [hsame, ← hname] at hother
      simp [hvalid] at hother
  · intro h
    obtain ⟨before, later, rfl, hlater⟩ := h.last
    refine ⟨⟨h.valid, h.name_eq⟩, later.reverse, before.reverse, by simp, ?_⟩
    intro e he
    simp [hlater e (List.mem_reverse.mp he)]

/-- A name means what its last valid declaration says. -/
theorem get?_declareAll_eq_some_iff {ds : List Declaration} {name : String} {symbol : Symbol} :
    (empty.declareAll ds).get? name = some symbol ↔
      ∃ d, IsLatest ds name d ∧ d.symbol = symbol := by
  simp only [get?_declareAll, Option.map_eq_some_iff, find?_eq_some_iff_isLatest]

/-- A run enters valid names only, each with a symbol of this name. -/
theorem wellNamed_declareAll (ds : List Declaration) : (empty.declareAll ds).WellNamed := by
  intro entry hentry
  obtain ⟨name, symbol⟩ := entry
  have hget := (get?_eq_some_iff (nodup_names_declareAll ds)).mpr hentry
  obtain ⟨d, hd, rfl⟩ := get?_declareAll_eq_some_iff.mp hget
  obtain rfl := hd.name_eq
  exact ⟨rfl, hd.valid⟩

/-- What a run of declarations does to the table step by step, what it leaves in the table, and
    what the listing of the table tells. -/
structure Keeps (ds : List Declaration) : Prop where
  calls : ∀ i d, ds[i]? = some d →
    ∃ problem?, (empty.attempts ds)[i]? = some (problem?, empty.declareAll (ds.take (i + 1))) ∧
      (empty.declareAll (ds.take i)).Records d problem? (empty.declareAll (ds.take (i + 1)))
  distinct : (empty.declareAll ds).names.Nodup
  named : (empty.declareAll ds).WellNamed
  /-- The names are in the order in which they are first validly declared. -/
  order : (empty.declareAll ds).names =
    ((ds.filter fun d => IsName d.name).map Declaration.name).eraseDups
  /-- The symbol of a name is that of its last valid declaration. -/
  latest : ∀ name symbol, (name, symbol) ∈ (empty.declareAll ds).entries ↔
    ∃ d, IsLatest ds name d ∧ d.symbol = symbol
  listed : ∃ lines, Listing.symbols (empty.declareAll ds) = "---- Symbol Table ----" :: lines ∧
    List.Forall₂ (empty.declareAll ds).ShowsIn (empty.declareAll ds).names lines
  recovered : ∀ others, Listing.symbols (empty.declareAll ds) =
    Listing.symbols (empty.declareAll others) ↔ empty.declareAll ds = empty.declareAll others
  /-- The lines may also be printed. -/
  printed : ∀ others, toText (Listing.symbols (empty.declareAll ds)) =
    toText (Listing.symbols (empty.declareAll others)) ↔
      empty.declareAll ds = empty.declareAll others

/-- A symbol table keeps the record of the declarations made: of any run of them, each is refused
    without a trace or changes the entry of one name, names stay in the order of their first valid
    declarations and mean what the last ones say, and the listing tells the table. -/
theorem keeps_declarations (ds : List Declaration) : Keeps ds := by
  have hnodup := nodup_names_declareAll ds
  have hnamed := wellNamed_declareAll ds
  constructor
  case calls =>
    intro i d hd
    rw [declareAll_take_succ hd]
    refine ⟨((empty.declareAll (ds.take i)).attempt d).1, ?_, records_attempt _ d⟩
    rw [getElem?_attempts, hd, Option.map_some]
  case distinct => exact hnodup
  case named => exact hnamed
  case order => exact names_declareAll ds
  case latest =>
    intro name symbol
    rw [← get?_eq_some_iff hnodup, get?_declareAll_eq_some_iff]
  case listed => exact ⟨_, rfl, forall₂_showsIn hnodup hnamed⟩
  case recovered => exact fun others => symbols_inj hnamed (wellNamed_declareAll others)
  case printed => exact fun others => toText_symbols_inj hnamed (wellNamed_declareAll others)

end SymbolTable
end Ginti
