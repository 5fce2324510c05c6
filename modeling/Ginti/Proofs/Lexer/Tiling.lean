import Ginti.Proofs.Lexer.Outputs

namespace Ginti

open Grammar

/-- The characters of a line at and after a token's column that its text takes up. -/
def Token.Covers (t : Token) (offset : Nat) : Prop :=
  t.position.column ≤ offset + 1 ∧ (offset : Int) + 1 < t.position.column + t.text.length

/-- The tokens of one line. -/
def Source.tokensOn (s : Source) (n : Nat) : List Token :=
  s.tokens.filter fun token => token.position.line = n + 1

/-- How the tokens of a source lie on one of its trimmed lines. -/
structure Source.Tiles (s : Source) (n : Nat) (text : List Char) : Prop where
  slice : ∀ token ∈ s.tokensOn n, token.text ≠ "" ∧ 1 ≤ token.position.column ∧
    token.text.toList =
      (text.drop (token.position.column - 1).toNat).take token.text.length
  apart : (s.tokensOn n).Pairwise fun a b : Token =>
    a.position.column + a.text.length ≤ b.position.column
  covers : ∀ offset c, text[offset]? = some c →
    (∃ token ∈ s.tokensOn n, token.Covers offset) ∨ Text.isBlank c = true ∨
    ∃ d ∈ s.diagnostics, d.IsLiteralReport ∧ d.position.line = n + 1 ∧
      d.position.column ≤ offset + 1
  /-- Nothing is read at or after a report about a literal. -/
  dropped : ∀ d ∈ s.diagnostics, d.IsLiteralReport → d.position.line = n + 1 →
    1 ≤ d.position.column ∧ d.position.column ≤ text.length ∧
    ∀ token ∈ s.tokensOn n, token.position.column + token.text.length ≤ d.position.column ∧
      ∀ offset : Nat, d.position.column ≤ offset + 1 → ¬ token.Covers offset

/-- A token ends before the other starts, on its line or on an earlier one. -/
def Token.EndsBefore (a b : Token) : Prop :=
  a.position.line < b.position.line ∨ a.position.line = b.position.line ∧
    a.position.column + a.text.length ≤ b.position.column

theorem Source.mem_tokensOn_iff {s : Source} {n : Nat} {token : Token} :
    token ∈ s.tokensOn n ↔ token ∈ s.tokens ∧ token.position.line = n + 1 := by
  simp [tokensOn]

namespace Source.LaidOut

variable {s : Source} {placed : List (Spot × Piece)} {n : Nat} {text : List Char}

/-- Tokens do not overlap, and they come in the order of the text. -/
theorem tokens_pairwise (h : s.LaidOut placed) : s.tokens.Pairwise Token.EndsBefore := by
  rw [h.tokens]
  apply h.layout.ordered.filterMap
  intro x y hxy a ha b hb
  obtain ⟨_, -, rfl⟩ := tokenAt?_eq_some_iff.mp ha
  obtain ⟨_, -, rfl⟩ := tokenAt?_eq_some_iff.mp hb
  simp only [Token.EndsBefore, Spot.position_line, Spot.position_column, String.length_ofList]
  obtain hlt | ⟨hline, hend⟩ := hxy
  · left
    omega
  · right
    omega

theorem exists_piece_of_mem_tokensOn (h : s.LaidOut placed) {token : Token}
    (htoken : token ∈ s.tokensOn n) :
    ∃ x ∈ placed, x.1.line = n ∧ ∃ category, x.2.category? = some category ∧
      token = ⟨category, String.ofList x.2.text, x.1.position⟩ := by
  obtain ⟨hmem, hline⟩ := mem_tokensOn_iff.mp htoken
  obtain ⟨x, hx, category, hcategory, rfl⟩ := h.mem_tokens_iff.mp hmem
  rw [Spot.position_line] at hline
  exact ⟨x, hx, by omega, category, hcategory, rfl⟩

/-- A token is a slice of its trimmed line, from its column on and not empty. -/
theorem token_slice (h : s.LaidOut placed) (hline : s.trimmed[n]? = some text) {token : Token}
    (htoken : token ∈ s.tokensOn n) :
    token.text ≠ "" ∧ 1 ≤ token.position.column ∧
      token.text.toList =
        (text.drop (token.position.column - 1).toNat).take token.text.length := by
  obtain ⟨x, hx, rfl, category, -, rfl⟩ := h.exists_piece_of_mem_tokensOn htoken
  have hpos := (h.layout.inLine x hx).length_pos
  have hslice := (h.layout.inLine x hx).slice hline
  have hlength : (String.ofList x.2.text).length = x.2.text.length := String.length_ofList
  refine ⟨?_, ?_, ?_⟩
  · intro hempty
    have hzero := congrArg String.length hempty
    rw [hlength, String.length_empty] at hzero
    omega
  · rw [Spot.position_column]
    omega
  · have hcol : (x.1.position.column - 1).toNat = x.1.col := by
      rw [Spot.position_column]
      omega
    rw [hcol, hlength, hslice, String.toList_ofList]

theorem tokensOn_pairwise (h : s.LaidOut placed) :
    (s.tokensOn n).Pairwise fun a b : Token =>
      a.position.column + a.text.length ≤ b.position.column := by
  apply List.pairwise_filter.mpr
  apply h.tokens_pairwise.imp
  intro a b hab ha hb
  simp only [decide_eq_true_eq] at ha hb
  obtain hlt | ⟨-, hend⟩ := hab
  · omega
  · exact hend

/-- A character of a piece that gives rise to a token is covered by this token. -/
theorem exists_token_covering (h : s.LaidOut placed) {x : Spot × Piece} (hx : x ∈ placed)
    {category : Category} (hcategory : x.2.category? = some category) {offset : Nat}
    (hlo : x.1.col ≤ offset) (hhi : offset < x.1.col + x.2.text.length) :
    ∃ token ∈ s.tokensOn x.1.line, token.Covers offset := by
  have htoken := h.mem_tokens_iff.mpr ⟨x, hx, category, hcategory, rfl⟩
  refine ⟨_, mem_tokensOn_iff.mpr ⟨htoken, rfl⟩, ?_⟩
  simp only [Token.Covers, Spot.position_column, String.length_ofList]
  omega

/-- A character of a line is in a token, or it is blank, or it is in the tail of the line that
    was given up. -/
theorem covered (h : s.LaidOut placed) (hline : s.trimmed[n]? = some text) {offset : Nat}
    {c : Char} (hc : text[offset]? = some c) :
    (∃ token ∈ s.tokensOn n, token.Covers offset) ∨ Text.isBlank c = true ∨
      ∃ x ∈ placed, x.1.line = n ∧ x.1.col ≤ offset ∧ ∃ fault tail, x.2 = .dropped fault tail := by
  obtain ⟨hoffset, rfl⟩ := List.getElem?_eq_some_iff.mp hc
  -- Every character is in some piece, and only a blank or a dropped piece stands for no token.
  obtain ⟨⟨spot, piece⟩, hx, rfl, hlo, hhi⟩ := h.layout.covers n text offset hline hoffset
  cases piece with
  | blank char =>
    obtain ⟨_, after, hsome, -, hdivides⟩ := h.layout.inLine _ hx
    cases hline.symm.trans hsome
    have hcol : spot.col = offset := by
      simp only [Piece.text, List.length_singleton] at hlo hhi
      omega
    rw [hcol, List.drop_eq_getElem_cons hoffset] at hdivides
    cases hdivides with
    | blank hblank _ => exact .inr (.inl hblank)
  | lexeme category lexeme => exact .inl (h.exists_token_covering hx rfl hlo hhi)
  | unknown char => exact .inl (h.exists_token_covering hx rfl hlo hhi)
  | dropped fault tail => exact .inr (.inr ⟨_, hx, rfl, hlo, fault, tail, rfl⟩)

/-- All that is not blank and outside the tokens is dropped, and that is reported. -/
theorem covered_or_reported (h : s.LaidOut placed) (hline : s.trimmed[n]? = some text)
    {offset : Nat} {c : Char} (hc : text[offset]? = some c) :
    (∃ token ∈ s.tokensOn n, token.Covers offset) ∨ Text.isBlank c = true ∨
      ∃ d ∈ s.diagnostics, d.IsLiteralReport ∧ d.position.line = n + 1 ∧
        d.position.column ≤ offset + 1 := by
  obtain hcovered | hblank | ⟨x, hx, rfl, hlo, fault, tail, hdropped⟩ := h.covered hline hc
  · exact .inl hcovered
  · exact .inr (.inl hblank)
  · obtain ⟨hd, hliteral⟩ := h.literalReport_iff.mpr ⟨x, hx, fault, tail, hdropped, rfl⟩
    refine .inr (.inr ⟨_, hd, hliteral, rfl, ?_⟩)
    rw [Spot.position_column]
    omega

/-- A report about a literal lies within its line, and all tokens of the line end before it. -/
theorem tokens_before_literalReport (h : s.LaidOut placed) (hline : s.trimmed[n]? = some text)
    {d : Diagnostic} (hd : d ∈ s.diagnostics) (hliteral : d.IsLiteralReport)
    (hdline : d.position.line = n + 1) :
    1 ≤ d.position.column ∧ d.position.column ≤ text.length ∧
      ∀ token ∈ s.tokensOn n, token.position.column + token.text.length ≤ d.position.column := by
  obtain ⟨y, hy, fault, tail, hdropped, rfl⟩ := h.literalReport_iff.mp ⟨hd, hliteral⟩
  rw [Spot.position_line] at hdline
  have hyline : y.1.line = n := by omega
  subst hyline
  have hyend := (h.layout.inLine y hy).end_le hline
  have hypos := (h.layout.inLine y hy).length_pos
  rw [Spot.position_column]
  refine ⟨by omega, by omega, ?_⟩
  intro token htoken
  obtain ⟨x, hx, hxline, category, hcategory, rfl⟩ := h.exists_piece_of_mem_tokensOn htoken
  have hne : x ≠ y := by
    intro hsame
    rw [hsame, hdropped] at hcategory
    cases hcategory
  have hend := h.layout.end_le_of_dropped hx hy hdropped hxline hne
  rw [Spot.position_column, String.length_ofList]
  omega

end Source.LaidOut

/-- The tokens of a line tile it: they are slices of it, apart from each other, and what lies
    outside of them is blank or the tail of a line that was given up. -/
theorem Source.tiles {s : Source} {n : Nat} {text : List Char}
    (hline : s.trimmed[n]? = some text) : s.Tiles n text := by
  obtain ⟨placed, h⟩ := s.exists_laidOut
  constructor
  case slice => exact fun token htoken => h.token_slice hline htoken
  case apart => exact h.tokensOn_pairwise
  case covers => exact fun offset c hc => h.covered_or_reported hline hc
  case dropped =>
    intro d hd hliteral hdline
    obtain ⟨hlo, hhi, hbefore⟩ := h.tokens_before_literalReport hline hd hliteral hdline
    refine ⟨hlo, hhi, fun token htoken => ⟨hbefore token htoken, ?_⟩⟩
    intro offset hoffset hcovers
    have hend := hbefore token htoken
    have hinside := hcovers.2
    omega

/-- Nothing is lost, invented or read twice: the tokens of a source tile its trimmed lines, and
    they come in the order of their positions. -/
theorem Source.tokens_tile_lines (s : Source) :
    (∀ n text, s.trimmed[n]? = some text → s.Tiles n text) ∧
      (s.tokens.Pairwise fun a b : Token => a.position.Before b.position) ∧
      ∀ token ∈ s.tokens, 1 ≤ token.position.line ∧ token.position.line ≤ s.lines.length := by
  obtain ⟨placed, h⟩ := s.exists_laidOut
  refine ⟨fun _ _ => s.tiles, ?_, ?_⟩
  · rw [h.tokens]
    apply h.layout.spots_pairwise.filterMap
    intro x y hxy a ha b hb
    obtain ⟨_, -, rfl⟩ := tokenAt?_eq_some_iff.mp ha
    obtain ⟨_, -, rfl⟩ := tokenAt?_eq_some_iff.mp hb
    exact hxy.position
  · intro token htoken
    obtain ⟨x, hx, _, -, rfl⟩ := h.mem_tokens_iff.mp htoken
    have hlt := (h.layout.inLine x hx).line_lt
    rw [trimmed, List.length_map] at hlt
    rw [Spot.position_line]
    omega

end Ginti
