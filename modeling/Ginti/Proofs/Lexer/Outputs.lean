import Ginti.Proofs.Grammar.Layout
import Ginti.Proofs.Lexer.Reading

namespace Ginti

namespace Event

variable {events : List Event} {e : Event} {t : Token} {p : Problem}

@[simp]
theorem tokens_append (before after : List Event) :
    tokens (before ++ after) = tokens before ++ tokens after :=
  List.filterMap_append

@[simp]
theorem problems_append (before after : List Event) :
    problems (before ++ after) = problems before ++ problems after :=
  List.filterMap_append

@[simp]
theorem tokens_map_problem (problems : List Problem) : tokens (problems.map problem) = [] := by
  simp [tokens, token?, List.filterMap_map, Function.comp_def]

@[simp]
theorem problems_map_problem (ps : List Problem) : problems (ps.map problem) = ps := by
  simp [problems, problem?, List.filterMap_map, Function.comp_def]

theorem token?_eq_some_iff : e.token? = some t ↔ e = token t := by
  cases e <;> simp [token?]

theorem problem?_eq_some_iff : e.problem? = some p ↔ e = problem p := by
  cases e <;> simp [problem?]

theorem mem_tokens_iff : t ∈ tokens events ↔ .token t ∈ events := by
  simp only [tokens, List.mem_filterMap, token?_eq_some_iff, exists_eq_right]

theorem mem_problems_iff : p ∈ problems events ↔ .problem p ∈ events := by
  simp only [problems, List.mem_filterMap, problem?_eq_some_iff, exists_eq_right]

end Event

namespace Grammar

/-- The category of the token that a piece gives rise to, if it gives rise to one. -/
def Piece.category? : Piece → Option Category
  | blank _ => none
  | lexeme category _ => some category
  | unknown _ => some .unknown
  | dropped _ _ => none

/-- The fault that a piece is reported for, if it is reported. -/
def Piece.fault? : Piece → Option Fault
  | blank _ => none
  | lexeme _ _ => none
  | unknown char => some (.unrecognized (String.ofList [char]))
  | dropped fault _ => some fault

/-- The token of a placed piece. -/
def tokenAt? (x : Spot × Piece) : Option Token :=
  x.2.category?.map fun category => ⟨category, String.ofList x.2.text, x.1.position⟩

/-- The problem with a placed piece. -/
def problemAt? (x : Spot × Piece) : Option Problem :=
  x.2.fault?.map fun fault => ⟨fault, x.1.position⟩

/-- What is picked from the events of placed pieces is picked from each piece in turn. -/
private theorem filterMap_eventsOf {α : Type} {pick : Event → Option α}
    {pickAt : Spot × Piece → Option α}
    (hpick : ∀ x : Spot × Piece, (x.2.events x.1).filterMap pick = (pickAt x).toList)
    (placed : List (Spot × Piece)) :
    (eventsOf placed).filterMap pick = placed.filterMap pickAt := by
  induction placed with
  | nil => rfl
  | cons x placed ih =>
    change (x.2.events x.1 ++ eventsOf placed).filterMap pick = _
    rw [List.filterMap_append, hpick, ih, List.filterMap_cons]
    cases pickAt x <;> rfl

theorem tokens_eventsOf (placed : List (Spot × Piece)) :
    Event.tokens (eventsOf placed) = placed.filterMap tokenAt? := by
  apply filterMap_eventsOf
  rintro ⟨spot, piece⟩
  cases piece <;> rfl

theorem problems_eventsOf (placed : List (Spot × Piece)) :
    Event.problems (eventsOf placed) = placed.filterMap problemAt? := by
  apply filterMap_eventsOf
  rintro ⟨spot, piece⟩
  cases piece <;> rfl

theorem tokenAt?_eq_some_iff {x : Spot × Piece} {token : Token} :
    tokenAt? x = some token ↔ ∃ category, x.2.category? = some category ∧
      token = ⟨category, String.ofList x.2.text, x.1.position⟩ := by
  rw [tokenAt?, Option.map_eq_some_iff]
  exact exists_congr fun _ => and_congr_right fun _ => eq_comm

theorem problemAt?_eq_some_iff {x : Spot × Piece} {problem : Problem} :
    problemAt? x = some problem ↔ ∃ fault, x.2.fault? = some fault ∧
      problem = ⟨fault, x.1.position⟩ := by
  rw [problemAt?, Option.map_eq_some_iff]
  exact exists_congr fun _ => and_congr_right fun _ => eq_comm

/-- The diagnostics about placed pieces in order. -/
def diagnosticsOf (placed : List (Spot × Piece)) : List Diagnostic :=
  (placed.filterMap problemAt?).map Problem.diagnostic

/-- A diagnostic has the message of the fault of its piece and the position of the piece. -/
theorem mem_diagnosticsOf_iff {placed : List (Spot × Piece)} {d : Diagnostic} :
    d ∈ diagnosticsOf placed ↔
      ∃ x ∈ placed, ∃ fault, x.2.fault? = some fault ∧ d = ⟨fault.message, x.1.position⟩ := by
  simp only [diagnosticsOf, List.mem_map, List.mem_filterMap, problemAt?_eq_some_iff]
  constructor
  · intro hproblem
    obtain ⟨_, ⟨x, hx, fault, hfault, rfl⟩, rfl⟩ := hproblem
    exact ⟨x, hx, fault, hfault, rfl⟩
  · intro hpiece
    obtain ⟨x, hx, fault, hfault, rfl⟩ := hpiece
    exact ⟨_, ⟨x, hx, fault, hfault, rfl⟩, rfl⟩

/-- A placed piece at another spot. -/
def moved (f : Spot → Spot) (x : Spot × Piece) : Spot × Piece :=
  (f x.1, x.2)

section Moved

variable {f : Spot → Spot} {g : Position → Position}

/-- Moving pieces moves their tokens, and nothing else about them changes. -/
theorem tokens_moved (hfg : ∀ spot, (f spot).position = g spot.position)
    (placed : List (Spot × Piece)) :
    (placed.map (moved f)).filterMap tokenAt? =
      (placed.filterMap tokenAt?).map fun token => { token with position := g token.position } := by
  rw [List.filterMap_map, List.map_filterMap]
  refine List.filterMap_congr fun x _ => ?_
  simp only [Function.comp_apply, tokenAt?, moved, hfg, Option.map_map]
  rfl

theorem diagnosticsOf_moved (hfg : ∀ spot, (f spot).position = g spot.position)
    (placed : List (Spot × Piece)) :
    diagnosticsOf (placed.map (moved f)) =
      (diagnosticsOf placed).map fun d => { d with position := g d.position } := by
  rw [diagnosticsOf, diagnosticsOf, List.filterMap_map, List.map_filterMap, List.map_map,
    List.map_filterMap]
  refine List.filterMap_congr fun x _ => ?_
  simp only [Function.comp_apply, problemAt?, moved, hfg, Option.map_map]
  rfl

end Moved

end Grammar

open Grammar

@[simp]
theorem Spot.position_line (s : Spot) : s.position.line = s.line + 1 := rfl

@[simp]
theorem Spot.position_column (s : Spot) : s.position.column = s.col + 1 := rfl

theorem Spot.position_injective : Function.Injective Spot.position := by
  rintro ⟨line, col⟩ ⟨line', col'⟩ h
  have hline := congrArg Position.line h
  have hcolumn := congrArg Position.column h
  simp only [position_line, position_column] at hline hcolumn
  rw [Spot.mk.injEq]
  omega

theorem Spot.Before.position {s t : Spot} (h : s.Before t) : s.position.Before t.position := by
  simp only [Spot.Before, Position.Before, Spot.position_line, Spot.position_column] at h ⊢
  omega

/-- A report about a literal that is not closed or not of one character. -/
def Diagnostic.IsLiteralReport (d : Diagnostic) : Prop :=
  d.message = "Unterminated string literal" ∨ d.message = "Invalid character literal"

theorem Fault.message_unrecognized (char : String) :
    (Fault.unrecognized char).message = "Unrecognized token: " ++ char := rfl

theorem not_isLiteralReport_unrecognized (char : String) (position : Position) :
    ¬ (Diagnostic.mk (Fault.unrecognized char).message position).IsLiteralReport := by
  rw [Diagnostic.IsLiteralReport, Fault.message_unrecognized]
  intro hliteral
  obtain h | h := hliteral
  · have hchars := congrArg String.toList h
    simp at hchars
  · have hchars := congrArg String.toList h
    simp at hchars

/-- The pieces that the trimmed lines of a source fall into, from which all that it gives rise to
    is read off in order. -/
structure Source.LaidOut (s : Source) (placed : List (Spot × Piece)) : Prop where
  layout : Layout s.trimmed placed
  events : s.events = eventsOf placed
  tokens : s.tokens = placed.filterMap tokenAt?
  diagnostics : s.diagnostics = diagnosticsOf placed

/-- The pieces of divided lines, placed where they are, tell all that a source gives rise to. -/
theorem Source.laidOut_of_divides {s : Source} {divisions : List (List Piece)}
    (h : List.Forall₂ Divides s.trimmed divisions) : s.LaidOut (placeAll 0 divisions) := by
  have hevents := s.events_of_divides h
  refine ⟨layout_placeAll h, hevents, ?_, ?_⟩
  · rw [tokens, hevents, tokens_eventsOf]
  · rw [diagnostics, hevents, problems_eventsOf, diagnosticsOf]

/-- Any source is laid out, since any line has a division. -/
theorem Source.exists_laidOut (s : Source) : ∃ placed, s.LaidOut placed := by
  obtain ⟨divisions, hdivisions, -⟩ := s.events_divided
  exact ⟨_, laidOut_of_divides hdivisions⟩

namespace Source.LaidOut

variable {s : Source} {placed : List (Spot × Piece)}

theorem mem_tokens_iff (h : s.LaidOut placed) {token : Token} :
    token ∈ s.tokens ↔ ∃ x ∈ placed, ∃ category, x.2.category? = some category ∧
      token = ⟨category, String.ofList x.2.text, x.1.position⟩ := by
  rw [h.tokens, List.mem_filterMap]
  exact exists_congr fun x => and_congr_right fun _ => tokenAt?_eq_some_iff

theorem mem_diagnostics_iff (h : s.LaidOut placed) {d : Diagnostic} :
    d ∈ s.diagnostics ↔ ∃ x ∈ placed, ∃ fault, x.2.fault? = some fault ∧
      d = ⟨fault.message, x.1.position⟩ := by
  rw [h.diagnostics, mem_diagnosticsOf_iff]

/-- What begins at a dropped piece is a text that a quote commits to its literal. -/
theorem begins_of_dropped (h : s.LaidOut placed) {x : Spot × Piece} (hx : x ∈ placed)
    {fault : Fault} {text : List Char} (hdropped : x.2 = .dropped fault text) :
    ∃ line, s.trimmed[x.1.line]? = some line ∧ Begins (line.drop x.1.col) (.reject fault) := by
  obtain ⟨line, after, hline, -, hdivides⟩ := h.layout.inLine x hx
  rw [hdropped] at hdivides
  obtain ⟨-, -, hbegins⟩ := hdivides.begins_of_dropped
  exact ⟨line, hline, hbegins⟩

/-- Literals are reported exactly where a line is given up. -/
theorem literalReport_iff (h : s.LaidOut placed) {d : Diagnostic} :
    d ∈ s.diagnostics ∧ d.IsLiteralReport ↔
      ∃ x ∈ placed, ∃ fault text, x.2 = .dropped fault text ∧
        d = ⟨fault.message, x.1.position⟩ := by
  rw [h.mem_diagnostics_iff]
  constructor
  · intro hreport
    obtain ⟨⟨⟨spot, piece⟩, hx, fault, hfault, rfl⟩, hliteral⟩ := hreport
    cases piece with
    | blank => cases hfault
    | lexeme => cases hfault
    | unknown char =>
      rw [← Option.some.inj hfault] at hliteral
      exact absurd hliteral (not_isLiteralReport_unrecognized _ _)
    | dropped other text =>
      have hsame : other = fault := Option.some.inj hfault
      rw [hsame] at hx
      exact ⟨_, hx, fault, text, rfl, rfl⟩
  · intro hreport
    obtain ⟨⟨spot, piece⟩, hx, fault, text, hdropped, rfl⟩ := hreport
    obtain ⟨line, -, hbegins⟩ := h.begins_of_dropped hx hdropped
    have hfault : piece.fault? = some fault := congrArg Piece.fault? hdropped
    refine ⟨⟨_, hx, fault, hfault, rfl⟩, ?_⟩
    obtain ⟨hunterminated, -⟩ | ⟨hinvalid, -⟩ := hbegins.quote_of_reject
    · rw [hunterminated]
      exact .inl rfl
    · rw [hinvalid]
      exact .inr rfl

end Source.LaidOut
end Ginti
