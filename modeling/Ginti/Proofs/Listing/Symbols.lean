import Mathlib.Data.List.Forall2
import Ginti.Proofs.Listing.Decoding
import Ginti.Proofs.Symbol.Latest

namespace Ginti

namespace Listing

/-- The type of a symbol as its line shows it. -/
def typeName (type : Option TypeKeyword) : String :=
  (type.map TypeKeyword.spelling).getD "null"

/-- No type is spelled as a missing one is shown. -/
theorem typeName_injective : Function.Injective typeName := by
  have hspelling (type : TypeKeyword) : type.spelling ≠ "null" := by
    cases type <;> decide
  intro first second h
  cases first with
  | none =>
    cases second with
    | none => rfl
    | some second => exact absurd h.symm (hspelling second)
  | some first =>
    cases second with
    | none => exact absurd h (hspelling first)
    | some second => cases first <;> cases second <;> first | rfl | exact absurd h (by decide)

theorem all_isAlpha_typeName (type : Option TypeKeyword) :
    (typeName type).toList.all Char.isAlpha = true := by
  cases type with
  | none => decide
  | some type => cases type <;> decide

/-- There are only letters in the type of a symbol, so neither a comma nor a line feed. -/
theorem not_mem_typeName {c : Char} (h : c.isAlpha = false) (type : Option TypeKeyword) :
    c ∉ (typeName type).toList := by
  intro hmem
  cases h.symm.trans (List.all_eq_true.mp (all_isAlpha_typeName type) c hmem)

theorem listed_injective : Function.Injective Scope.listed := by
  intro first second h
  cases first <;> cases second <;> first | rfl | exact absurd h (by decide)

theorem oneLine_listed (scope : Scope) : OneLine scope.listed := by
  cases scope <;> decide

/-- The fields of the line of a symbol, with a comma behind each of the first two. -/
theorem toList_symbol (s : Symbol) : (symbol s).toList =
    "Symbol[name=".toList ++ (s.name.toList ++ ',' :: (" type=".toList ++
      ((typeName s.type).toList ++ ',' :: (" scope=".toList ++
        (s.scope.listed.toList ++ "]".toList))))) := by
  have htype : ", type=".toList = ',' :: " type=".toList := rfl
  have hscope : ", scope=".toList = ',' :: " scope=".toList := rfl
  unfold symbol
  simp only [String.toList_append, htype, hscope, List.append_assoc, List.cons_append]
  rfl

/-- The line of a symbol tells the symbol, if its name is valid. -/
theorem eq_of_symbol_eq {s u : Symbol} (hs : IsName s.name) (hu : IsName u.name)
    (h : symbol s = symbol u) : s = u := by
  have hcomma : ¬ IsNameChar ',' := by decide
  have hchars := congrArg String.toList h
  rw [toList_symbol, toList_symbol] at hchars
  obtain ⟨hname, hfields⟩ := Text.eq_of_first_delimiter (hs.not_mem hcomma) (hu.not_mem hcomma)
    (List.append_cancel_left hchars)
  obtain ⟨htype, hfields⟩ := Text.eq_of_first_delimiter (not_mem_typeName (by decide) _)
    (not_mem_typeName (by decide) _) (List.append_cancel_left hfields)
  have hscope := List.append_cancel_right (List.append_cancel_left hfields)
  have hname := String.toList_inj.mp hname
  have htype := typeName_injective (String.toList_inj.mp htype)
  have hscope := listed_injective (String.toList_inj.mp hscope)
  obtain ⟨name, type, scope⟩ := s
  obtain ⟨name', type', scope'⟩ := u
  simp only at hname htype hscope
  rw [hname, htype, hscope]

/-- The lines of symbols with valid names tell the symbols. -/
theorem eq_of_map_symbol_eq {first second : List Symbol} (hfirst : ∀ s ∈ first, IsName s.name)
    (hsecond : ∀ s ∈ second, IsName s.name) (h : first.map symbol = second.map symbol) :
    first = second := by
  induction first generalizing second with
  | nil => exact (List.map_eq_nil_iff.mp h.symm).symm
  | cons s first ih =>
    cases second with
    | nil => cases h
    | cons u second =>
      obtain ⟨hline, hlines⟩ := List.cons.inj h
      have hsymbol := eq_of_symbol_eq (hfirst s List.mem_cons_self) (hsecond u List.mem_cons_self)
        hline
      have htail := ih (fun v hv => hfirst v (List.mem_cons_of_mem s hv))
        (fun v hv => hsecond v (List.mem_cons_of_mem u hv)) hlines
      rw [hsymbol, htail]

theorem oneLine_symbol {s : Symbol} (h : IsName s.name) : OneLine (symbol s) := by
  have hname : OneLine s.name := h.not_mem (by decide)
  have htype : OneLine ((s.type.map TypeKeyword.spelling).getD "null") :=
    not_mem_typeName (by decide) s.type
  unfold symbol
  simp only [oneLine_append, hname, htype, oneLine_listed, and_true]
  decide

end Listing

namespace SymbolTable

open Listing

variable {t u : SymbolTable}

/-- Each entry is under the name of its symbol, and the name is valid. -/
def WellNamed (t : SymbolTable) : Prop :=
  ∀ entry ∈ t.entries, entry.1 = entry.2.name ∧ IsName entry.2.name

theorem WellNamed.isName_of_mem (h : t.WellNamed) {s : Symbol} (hs : s ∈ t.symbols) :
    IsName s.name := by
  obtain ⟨entry, hentry, rfl⟩ := List.mem_map.mp hs
  exact (h entry hentry).2

/-- A table whose entries are under the names of their symbols is told by its symbols. -/
theorem WellNamed.entries_eq (h : t.WellNamed) :
    t.entries = t.symbols.map fun s => (s.name, s) := by
  have hkey : ∀ entry ∈ t.entries, id entry = (entry.2.name, entry.2) := by
    intro entry hentry
    exact Prod.ext (h entry hentry).1 rfl
  calc t.entries
      = t.entries.map id := (List.map_id _).symm
    _ = t.entries.map fun entry => (entry.2.name, entry.2) := List.map_congr_left hkey
    _ = t.symbols.map fun s => (s.name, s) := by
        rw [symbols, List.map_map]
        rfl

/-- The lines of a table tell the table, since a name stands in the line of its symbol. -/
theorem symbols_inj (ht : t.WellNamed) (hu : u.WellNamed) :
    Listing.symbols t = Listing.symbols u ↔ t = u := by
  constructor
  · intro h
    have hsymbols := eq_of_map_symbol_eq (fun _ => ht.isName_of_mem) (fun _ => hu.isName_of_mem)
      (List.cons.inj h).2
    have hentries : t.entries = u.entries := by
      rw [ht.entries_eq, hu.entries_eq, hsymbols]
    exact congrArg SymbolTable.mk hentries
  · intro h
    rw [h]

theorem oneLine_of_mem_symbols (ht : t.WellNamed) {line : String}
    (hline : line ∈ Listing.symbols t) : OneLine line := by
  obtain rfl | hline := List.mem_cons.mp hline
  · decide
  · obtain ⟨symbol, hsymbol, rfl⟩ := List.mem_map.mp hline
    exact oneLine_symbol (ht.isName_of_mem hsymbol)

/-- The lines may also be printed. -/
theorem toText_symbols_inj (ht : t.WellNamed) (hu : u.WellNamed) :
    toText (Listing.symbols t) = toText (Listing.symbols u) ↔ t = u := by
  constructor
  · intro h
    have hlines := eq_of_toText_eq (fun _ => oneLine_of_mem_symbols ht)
      (fun _ => oneLine_of_mem_symbols hu) (congrArg String.toList h)
    exact (symbols_inj ht hu).mp hlines
  · intro h
    rw [h]

/-- A line that shows what a name means. -/
structure ShowsIn (t : SymbolTable) (name line : String) : Prop where
  symbol : ∃ symbol, t.get? name = some symbol ∧ symbol.name = name ∧ line = Listing.symbol symbol
  oneLine : OneLine line

/-- Behind the header there is one line for each name, in the order of the table. -/
theorem forall₂_showsIn (hnodup : t.names.Nodup) (hnamed : t.WellNamed) :
    List.Forall₂ t.ShowsIn t.names (t.symbols.map Listing.symbol) := by
  rw [names, symbols, List.map_map, List.forall₂_map_left_iff, List.forall₂_map_right_iff,
    List.forall₂_same]
  intro entry hentry
  obtain ⟨hkey, hname⟩ := hnamed entry hentry
  have hget := (get?_eq_some_iff hnodup).mpr hentry
  exact ⟨⟨entry.2, hget, hkey.symm, rfl⟩, oneLine_symbol hname⟩

end SymbolTable
end Ginti
