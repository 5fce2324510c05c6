import Ginti.Listing
import Ginti.Proofs.Grammar.Edges
import Ginti.Proofs.Lexer.Lexemes
import Ginti.Proofs.Lexer.Reports

namespace Ginti

open Grammar

namespace Text

/-- The control characters that are trimmed at the ends of a line and are no blanks within it. -/
def IsStray (c : Char) : Prop :=
  c.toNat ≤ 0x08 ∨ (0x0e ≤ c.toNat ∧ c.toNat ≤ 0x1b)

instance (c : Char) : Decidable (IsStray c) :=
  inferInstanceAs (Decidable (_ ∨ _))

/-- What is trimmed away at the ends of a line and does not separate lexemes within it: the control
    characters but for tabs, line controls and information separators. -/
theorem isStray_iff {c : Char} : IsStray c ↔ isPadding c = true ∧ isBlank c = false := by
  simp only [IsStray, isPadding, isBlank, Bool.or_eq_false_iff, Bool.and_eq_false_iff,
    decide_eq_true_eq, decide_eq_false_iff_not, beq_eq_false_iff_ne, bne_eq_false_iff_eq]
  omega

end Text

open Text

/-- An unknown token of a stray character. -/
def Token.IsStray (t : Token) : Prop :=
  t.category = .unknown ∧ ∃ c ∈ t.text.toList, Text.IsStray c

instance (t : Token) : Decidable t.IsStray :=
  inferInstanceAs (Decidable (_ ∧ _))

namespace Listing

/-- A token has a line in the trace if some character of its text is no padding. -/
theorem isTraced_iff {t : Token} :
    isTraced t = true ↔ ∃ c ∈ t.text.toList, isPadding c = false := by
  have hnone : trim t.text.toList = [] ↔ ∀ c ∈ t.text.toList, isPadding c = true := trim_eq_nil_iff
  rw [isTraced, Bool.not_eq_true', List.isEmpty_eq_false_iff, ne_eq, hnone]
  simp only [not_forall, Bool.not_eq_true, exists_prop]

/-- A character of a token as its trace shows it, with the number of its state. -/
def state (number : Nat) (c : Char) : String :=
  "State" ++ toString number ++ "(" ++ String.singleton c ++ ")"

/-- The states count on from the first number, one for each character. -/
theorem states_eq_mapIdx (number : Nat) (text : List Char) :
    states number text = text.mapIdx fun i => state (number + i) := by
  induction text generalizing number with
  | nil => rfl
  | cons c text ih =>
    have hnext (i : Nat) : number + 1 + i = number + (i + 1) := by omega
    rw [states, ih, List.mapIdx_cons]
    simp only [hnext]
    rfl

end Listing

namespace Source

variable {s : Source} {token : Token}

/-- An unknown token is one character of a trimmed line, and that character is no blank. -/
theorem exists_char_of_unknown (h : token ∈ s.tokens) (hunknown : token.category = .unknown) :
    ∃ (n : Nat) (text : List Char) (col : Nat) (c : Char), s.trimmed[n]? = some text ∧
      text[col]? = some c ∧ isBlank c = false ∧ token.text.toList = [c] ∧
      token.position = ⟨n + 1, col + 1⟩ := by
  obtain ⟨placed, hplaced⟩ := s.exists_laidOut
  obtain ⟨⟨spot, piece⟩, hx, char, rfl, rfl⟩ := hplaced.unknown_token_iff.mp ⟨h, hunknown⟩
  obtain ⟨text, after, htext, -, hdivides⟩ := hplaced.layout.inLine _ hx
  simp only at hdivides
  refine ⟨spot.line, text, spot.col, char, htext, ?_, ?_, String.toList_ofList, rfl⟩
  · rw [← List.head?_drop, ← hdivides.textOf_eq, textOf_cons, Piece.text, List.singleton_append,
      List.head?_cons]
  · generalize text.drop spot.col = rest at hdivides
    cases hdivides with
    | unknown hstart _ _ => exact hstart

/-- A lexeme starts in a character that is no padding, so something is left of it when it is
    trimmed. -/
theorem isTraced_of_known (h : token ∈ s.tokens) (hknown : token.category ≠ .unknown) :
    Listing.isTraced token = true := by
  obtain ⟨rest, hbegins⟩ := exists_begins_of_mem_tokens h hknown
  obtain ⟨c, hc, hpadding⟩ := hbegins.exists_visible_front
  exact Listing.isTraced_iff.mpr ⟨c, List.mem_of_mem_head? hc, hpadding⟩

/-- Of the tokens of a source those of stray characters have no line in the trace. -/
theorem isTraced_eq_false_iff (h : token ∈ s.tokens) :
    Listing.isTraced token = false ↔ token.IsStray := by
  by_cases hunknown : token.category = .unknown
  · obtain ⟨_, _, _, c, -, -, hblank, htext, -⟩ := exists_char_of_unknown h hunknown
    have hstray : token.IsStray ↔ isPadding c = true := by
      simp only [Token.IsStray, hunknown, htext, isStray_iff, List.mem_singleton, exists_eq_left,
        hblank, and_true, true_and]
    rw [hstray, ← Bool.not_eq_true, Listing.isTraced_iff, htext]
    simp only [List.mem_singleton, exists_eq_left, Bool.not_eq_false]
  · have htraced := isTraced_of_known h hunknown
    rw [htraced]
    constructor
    · intro hfalse
      cases hfalse
    · intro hstray
      exact absurd hstray.1 hunknown

/-- One character of padding that is no blank, with others of its line on either side. -/
structure StandsInside (s : Source) (token : Token) : Prop where
  one : ∃ c, token.text.toList = [c] ∧ isPadding c = true ∧ isBlank c = false
  inside : ∃ (n : Nat) (text : List Char), s.trimmed[n]? = some text ∧
    token.position.line = n + 1 ∧ 1 < token.position.column ∧ token.position.column < text.length

/-- A stray character would have been trimmed away at either end of its line. -/
theorem standsInside_of_isStray (h : token ∈ s.tokens) (hstray : token.IsStray) :
    s.StandsInside token := by
  obtain ⟨n, text, col, c, hline, hc, hblank, hchar, hposition⟩ :=
    exists_char_of_unknown h hstray.1
  obtain ⟨raw, -, rfl⟩ := List.mem_map.mp (List.mem_of_getElem? hline)
  have hpadding : isPadding c = true := by
    obtain ⟨-, d, hd, hd'⟩ := hstray
    rw [hchar] at hd
    rw [← List.mem_singleton.mp hd]
    exact (isStray_iff.mp hd').1
  obtain ⟨hfront, hback⟩ := (isTrimmed_trim raw.toList).inside hc hpadding
  have hnumber : token.position.line = n + 1 := by rw [hposition]
  have hcolumn : token.position.column = col + 1 := by rw [hposition]
  refine ⟨⟨c, hchar, hpadding, hblank⟩, n, _, hline, hnumber, ?_, ?_⟩
  · omega
  · omega

/-- What the trace of a source leaves out, and what it shows. -/
structure Traces (s : Source) : Prop where
  left_out : ∀ token ∈ s.tokens, Listing.isTraced token = false ↔ token.IsStray
  stray : ∀ token ∈ s.tokens, token.IsStray → s.StandsInside token
  /-- There is one line for each of the other tokens, in their order. -/
  lines : Listing.trace s.tokens = "---- DFA State Simulation for Each Token ----" ::
    (s.tokens.filter fun token => ¬ token.IsStray).map Listing.traceLine
  /-- The line of a token shows each of its characters as a state, numbered from one on. -/
  states : ∀ token ∈ s.tokens, Listing.traceLine token = "Token '" ++ token.text ++ "': " ++
    String.intercalate " -> " (token.text.toList.mapIdx fun i => Listing.state (i + 1)) ++
    " -> Accept"

/-- The trace of a source leaves out the stray characters and nothing else. -/
theorem traces_visible_tokens (s : Source) : s.Traces := by
  constructor
  case left_out => exact fun token htoken => isTraced_eq_false_iff htoken
  case stray => exact fun token htoken => standsInside_of_isStray htoken
  case lines =>
    have hkept : s.tokens.filter Listing.isTraced =
        s.tokens.filter fun token => ¬ token.IsStray := by
      apply List.filter_congr
      intro token htoken
      rw [Bool.eq_iff_iff, decide_eq_true_eq, ← isTraced_eq_false_iff htoken, Bool.not_eq_false]
    rw [Listing.trace, hkept]
  case states =>
    intro token _
    have hnumber (i : Nat) : 1 + i = i + 1 := Nat.add_comm 1 i
    rw [Listing.traceLine, Listing.states_eq_mapIdx]
    simp only [hnumber]

end Source
end Ginti
