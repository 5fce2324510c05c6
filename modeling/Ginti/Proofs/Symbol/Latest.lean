import Mathlib.Data.List.Induction
import Ginti.Proofs.Grammar.Lexeme
import Ginti.Symbol.Table

namespace Ginti

open Grammar

/-- The letters of the language, its digits and the underscore. -/
def IsNameChar (c : Char) : Prop :=
  ('A' ≤ c ∧ c ≤ 'Z') ∨ ('a' ≤ c ∧ c ≤ 'z') ∨ ('0' ≤ c ∧ c ≤ '9') ∨ c = '_'

/-- The whole of a text is a name: a lower-case letter, then name characters only. -/
def IsName (text : String) : Prop :=
  ∃ first rest, text.toList = first :: rest ∧ ('a' ≤ first ∧ first ≤ 'z') ∧
    ∀ c ∈ rest, IsNameChar c

instance (c : Char) : Decidable (IsNameChar c) :=
  inferInstanceAs (Decidable (_ ∨ _))

theorem isNameChar_iff {c : Char} : Pattern.isNameChar c = true ↔ IsNameChar c := by
  simp only [isNameChar_eq, Bool.or_eq_true, beq_iff_eq, isUpper_iff, isLower_iff, isDigit_iff,
    IsNameChar, or_assoc]

/-- The pattern of names matches names as a whole. -/
theorem isName_iff {text : String} : isName text.toList = true ↔ IsName text := by
  unfold IsName
  cases text.toList with
  | nil => simp [isName]
  | cons first rest =>
    simp only [isName, Bool.and_eq_true, List.all_eq_true, isLower_iff, isNameChar_iff]
    constructor
    · intro h
      exact ⟨first, rest, rfl, h⟩
    · intro hname
      obtain ⟨_, _, hcons, h⟩ := hname
      cases hcons
      exact h

instance (text : String) : Decidable (IsName text) :=
  decidable_of_iff _ isName_iff

theorem IsName.isNameChar_of_mem {text : String} (h : IsName text) {c : Char}
    (hc : c ∈ text.toList) : IsNameChar c := by
  obtain ⟨first, rest, htext, hfirst, hrest⟩ := h
  rw [htext] at hc
  obtain rfl | hc := List.mem_cons.mp hc
  · exact .inr (.inl hfirst)
  · exact hrest c hc

theorem IsName.not_mem {text : String} (h : IsName text) {c : Char} (hc : ¬ IsNameChar c) :
    c ∉ text.toList :=
  mt h.isNameChar_of_mem hc

namespace Declaration

/-- The name that is declared, which is the text of the token. -/
def name (d : Declaration) : String :=
  d.token.text

/-- What the name means from then on, if it is valid. -/
def symbol (d : Declaration) : Symbol :=
  ⟨d.name, d.type, d.scope⟩

/-- What is reported if the name is not valid. -/
def problem (d : Declaration) : Problem :=
  ⟨.invalidIdentifier d.name, d.token.position⟩

end Declaration

namespace SymbolTable

/-- A valid declaration is entered under its name. -/
theorem attempt_of_isName {t : SymbolTable} {d : Declaration} (hname : IsName d.name) :
    t.attempt d = (none, t.insert d.name d.symbol) := by
  have hvalid : isName d.token.text.toList = true := isName_iff.mpr hname
  simp only [attempt, declare, hvalid, if_true]
  rfl

/-- An invalid declaration is reported and leaves the table as it is. -/
theorem attempt_of_not_isName {t : SymbolTable} {d : Declaration} (hname : ¬ IsName d.name) :
    t.attempt d = (some d.problem, t) := by
  have hinvalid : ¬ isName d.token.text.toList = true := mt isName_iff.mp hname
  simp only [attempt, declare, if_neg hinvalid]
  rfl

private theorem map_fst_insertIn (name : String) (symbol : Symbol)
    (entries : List (String × Symbol)) :
    (insertIn name symbol entries).map Prod.fst =
      if name ∈ entries.map Prod.fst then entries.map Prod.fst
      else entries.map Prod.fst ++ [name] := by
  induction entries with
  | nil => rfl
  | cons entry entries ih =>
    obtain ⟨other, old⟩ := entry
    by_cases hother : other = name
    · simp [insertIn, hother]
    · have hne : ¬ name = other := fun h => hother h.symm
      simp only [insertIn, if_neg hother, List.map_cons, ih, List.mem_cons, hne, false_or]
      split
      · rfl
      · rw [List.cons_append]

/-- A name keeps its place, and a new one comes last. -/
theorem names_insert (t : SymbolTable) (name : String) (symbol : Symbol) :
    (t.insert name symbol).names = if name ∈ t.names then t.names else t.names ++ [name] :=
  map_fst_insertIn name symbol t.entries

private theorem lookup_cons_eq_ite (key : String) (symbol : Symbol)
    (entries : List (String × Symbol)) (name : String) :
    ((key, symbol) :: entries).lookup name =
      if name = key then some symbol else entries.lookup name := by
  rw [List.lookup_cons]
  by_cases h : name = key
  · simp [h]
  · simp [beq_false_of_ne h, h]

/-- Inserting changes what one name means. -/
theorem get?_insert (t : SymbolTable) (name other : String) (symbol : Symbol) :
    (t.insert name symbol).get? other = if other = name then some symbol else t.get? other := by
  obtain ⟨entries⟩ := t
  simp only [get?, insert]
  induction entries with
  | nil => rw [insertIn, lookup_cons_eq_ite]
  | cons entry entries ih =>
    obtain ⟨key, old⟩ := entry
    rw [insertIn, lookup_cons_eq_ite key old]
    by_cases hkey : key = name
    · rw [if_pos hkey, lookup_cons_eq_ite, hkey]
      split <;> rfl
    · rw [if_neg hkey, lookup_cons_eq_ite, ih]
      by_cases hother : other = key
      · have hne : ¬ other = name := fun h => hkey (hother.symm.trans h)
        rw [if_pos hother, if_neg hne, if_pos hother]
      · rw [if_neg hother, if_neg hother]

theorem declareAll_concat (t : SymbolTable) (ds : List Declaration) (d : Declaration) :
    t.declareAll (ds ++ [d]) = ((t.declareAll ds).attempt d).2 := by
  simp [declareAll]

/-- The names of the table are those that are validly declared, each once, in the order of their
    first valid declaration. -/
theorem names_declareAll (ds : List Declaration) :
    (empty.declareAll ds).names =
      ((ds.filter fun d => IsName d.name).map Declaration.name).eraseDups := by
  induction ds using List.reverseRecOn with
  | nil => rfl
  | append_singleton ds d ih =>
    -- The last declaration is the only one whose name can be new.
    rw [declareAll_concat, List.filter_append, List.map_append, List.eraseDups_append, ← ih]
    by_cases hname : IsName d.name
    · rw [attempt_of_isName hname, names_insert, ih]
      simp only [List.mem_eraseDups, List.filter_cons, List.filter_nil, hname, decide_true, if_true,
        List.map_cons, List.map_nil, List.removeAll, List.elem_eq_mem]
      split
      · next hmem => simp [hmem]
      · next hnew => simp [hnew, List.eraseDups_cons]
    · rw [attempt_of_not_isName hname]
      simp [hname]

/-- No name is in the table twice. -/
theorem nodup_names_declareAll (ds : List Declaration) : (empty.declareAll ds).names.Nodup := by
  induction ds using List.reverseRecOn with
  | nil => exact List.nodup_nil
  | append_singleton ds d ih =>
    rw [declareAll_concat]
    by_cases hname : IsName d.name
    · rw [attempt_of_isName hname, names_insert]
      split
      · exact ih
      · next hnew =>
        refine List.nodup_append.mpr ⟨ih, by simp, fun other hother last hlast hsame => ?_⟩
        rw [List.mem_singleton.mp hlast] at hsame
        exact hnew (hsame ▸ hother)
    · rw [attempt_of_not_isName hname]
      exact ih

/-- The symbol of a name is that of its entry, since no name has two. -/
theorem get?_eq_some_iff {t : SymbolTable} (hnodup : t.names.Nodup) {name : String}
    {symbol : Symbol} : t.get? name = some symbol ↔ (name, symbol) ∈ t.entries := by
  rw [get?, List.lookup_eq_some_iff]
  constructor
  · intro hlookup
    obtain ⟨before, after, hentries, -⟩ := hlookup
    simp [hentries]
  · intro hmem
    obtain ⟨before, after, hentries⟩ := List.append_of_mem hmem
    refine ⟨before, after, hentries, fun entry hentry => bne_iff_ne.mpr fun hsame => ?_⟩
    rw [names, hentries, List.map_append, List.map_cons] at hnodup
    have hapart := (List.nodup_append.mp hnodup).2.2
    exact hapart entry.1 (List.mem_map_of_mem hentry) name List.mem_cons_self hsame.symm

/-- A name means what its last valid declaration says. -/
theorem get?_declareAll (ds : List Declaration) (name : String) :
    (empty.declareAll ds).get? name =
      (ds.reverse.find? fun d => IsName d.name ∧ d.name = name).map Declaration.symbol := by
  induction ds using List.reverseRecOn with
  | nil => rfl
  | append_singleton ds d ih =>
    rw [declareAll_concat, List.reverse_concat, List.find?_cons]
    by_cases hname : IsName d.name
    · rw [attempt_of_isName hname, get?_insert, ih]
      by_cases hsame : name = d.name
      · subst hsame
        simp [hname]
      · simp [hsame, Ne.symm hsame]
    · rw [attempt_of_not_isName hname, ih]
      simp [hname]

/-- Each invalid declaration is reported, in order, and nothing else is. -/
theorem problems_attempts (t : SymbolTable) (ds : List Declaration) :
    (t.attempts ds).filterMap Prod.fst =
      (ds.filter fun d => ¬ IsName d.name).map Declaration.problem := by
  induction ds generalizing t with
  | nil => rfl
  | cons d ds ih =>
    simp only [attempts, List.filterMap_cons, ih, List.filter_cons]
    by_cases hname : IsName d.name
    · simp [attempt_of_isName hname, hname]
    · simp [attempt_of_not_isName hname, hname]

end SymbolTable
end Ginti
