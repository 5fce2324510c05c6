import Mathlib.Data.List.Forall2
import Ginti.Proofs.Grammar.Division

namespace Ginti.Grammar

/-- The spot just after a placed piece is not beyond the start of the next. -/
def Precedes (x y : Spot × Piece) : Prop :=
  x.1.line < y.1.line ∨ x.1.line = y.1.line ∧ x.1.col + x.2.text.length ≤ y.1.col

/-- A placed piece comes first in the division of what is left of its line at its spot. -/
def InLine (lines : List (List Char)) (x : Spot × Piece) : Prop :=
  ∃ line after, lines[x.1.line]? = some line ∧ x.1.col ≤ line.length ∧
    Divides (line.drop x.1.col) (x.2 :: after)

/-- Placed pieces that lie in order within some lines and leave nothing of them out. -/
structure Layout (lines : List (List Char)) (placed : List (Spot × Piece)) : Prop where
  ordered : placed.Pairwise Precedes
  inLine : ∀ x ∈ placed, InLine lines x
  covers : ∀ n line i, lines[n]? = some line → i < line.length →
    ∃ x ∈ placed, x.1.line = n ∧ x.1.col ≤ i ∧ i < x.1.col + x.2.text.length

/-- A piece is placed behind the text of those before it. -/
theorem mem_placeLine_iff {line col : Nat} {pieces : List Piece} {x : Spot × Piece} :
    x ∈ placeLine line col pieces ↔
      ∃ before after, pieces = before ++ x.2 :: after ∧
        x.1 = ⟨line, col + (textOf before).length⟩ := by
  induction pieces generalizing col with
  | nil => simp [placeLine]
  | cons piece pieces ih =>
    simp only [placeLine, List.mem_cons, ih]
    constructor
    · intro hx
      obtain rfl | ⟨before, after, rfl, hspot⟩ := hx
      · exact ⟨[], pieces, rfl, rfl⟩
      · refine ⟨piece :: before, after, rfl, ?_⟩
        rw [hspot, textOf_cons, List.length_append, Nat.add_assoc]
    · intro hx
      obtain ⟨before, after, hpieces, hspot⟩ := hx
      cases before with
      | nil =>
        obtain ⟨rfl, rfl⟩ := List.cons.inj hpieces
        exact .inl (Prod.ext hspot rfl)
      | cons first before =>
        obtain ⟨rfl, rfl⟩ := List.cons.inj hpieces
        refine .inr ⟨before, after, rfl, ?_⟩
        rw [hspot, textOf_cons, List.length_append, Nat.add_assoc]

theorem placeLine_pairwise (line col : Nat) (pieces : List Piece) :
    (placeLine line col pieces).Pairwise Precedes := by
  induction pieces generalizing col with
  | nil => exact .nil
  | cons piece pieces ih =>
    refine .cons ?_ (ih _)
    intro x hx
    obtain ⟨before, after, -, hspot⟩ := mem_placeLine_iff.mp hx
    refine .inr ⟨by rw [hspot], ?_⟩
    rw [hspot]
    exact Nat.le_add_right _ _

/-- Each character of a divided line lies in a placed piece. -/
theorem exists_mem_placeLine (line col : Nat) {pieces : List Piece} {i : Nat}
    (hi : i < (textOf pieces).length) :
    ∃ x ∈ placeLine line col pieces, x.1.col ≤ col + i ∧
      col + i < x.1.col + x.2.text.length := by
  induction pieces generalizing col i with
  | nil => simp at hi
  | cons piece pieces ih =>
    rw [textOf_cons, List.length_append] at hi
    by_cases hfirst : i < piece.text.length
    · exact ⟨_, List.mem_cons_self, by simp, by simpa using hfirst⟩
    · obtain ⟨x, hx, hlo, hhi⟩ := ih (col + piece.text.length) (i := i - piece.text.length) (by omega)
      refine ⟨x, List.mem_cons_of_mem _ hx, ?_, ?_⟩ <;> omega

theorem mem_placeAll_iff {first : Nat} {divisions : List (List Piece)} {x : Spot × Piece} :
    x ∈ placeAll first divisions ↔
      ∃ i pieces, divisions[i]? = some pieces ∧ x ∈ placeLine (first + i) 0 pieces := by
  induction divisions generalizing first with
  | nil => simp [placeAll]
  | cons pieces divisions ih =>
    simp only [placeAll, List.mem_append, ih]
    constructor
    · intro hx
      obtain hx | ⟨i, later, hlater, hx⟩ := hx
      · exact ⟨0, pieces, rfl, hx⟩
      · refine ⟨i + 1, later, hlater, ?_⟩
        rwa [show first + (i + 1) = first + 1 + i by omega]
    · intro hx
      obtain ⟨i, found, hfound, hx⟩ := hx
      cases i with
      | zero =>
        cases hfound
        exact .inl hx
      | succ i =>
        refine .inr ⟨i, found, hfound, ?_⟩
        rwa [show first + 1 + i = first + (i + 1) by omega]

/-- The pieces of all lines are placed one after the other. -/
theorem placeAll_pairwise (first : Nat) (divisions : List (List Piece)) :
    (placeAll first divisions).Pairwise Precedes := by
  induction divisions generalizing first with
  | nil => exact .nil
  | cons pieces divisions ih =>
    refine List.pairwise_append.mpr ⟨placeLine_pairwise _ _ _, ih _, ?_⟩
    intro x hx y hy
    obtain ⟨before, after, -, hspot⟩ := mem_placeLine_iff.mp hx
    obtain ⟨i, later, -, hlater⟩ := mem_placeAll_iff.mp hy
    obtain ⟨_, _, -, hspot'⟩ := mem_placeLine_iff.mp hlater
    refine .inl ?_
    rw [hspot, hspot']
    exact Nat.lt_of_lt_of_le (Nat.lt_succ_self first) (Nat.le_add_right _ _)

theorem exists_line_of_division {lines : List (List Char)} {divisions : List (List Piece)}
    (h : List.Forall₂ Divides lines divisions) {i : Nat} {pieces : List Piece}
    (hpieces : divisions[i]? = some pieces) : ∃ line, lines[i]? = some line ∧ Divides line pieces := by
  induction h generalizing i with
  | nil => simp at hpieces
  | cons hdivides _ ih =>
    cases i with
    | zero =>
      cases hpieces
      exact ⟨_, rfl, hdivides⟩
    | succ i => exact ih hpieces

private theorem exists_division_of_line {lines : List (List Char)} {divisions : List (List Piece)}
    (h : List.Forall₂ Divides lines divisions) {i : Nat} {line : List Char}
    (hline : lines[i]? = some line) : ∃ pieces, divisions[i]? = some pieces ∧ Divides line pieces := by
  induction h generalizing i with
  | nil => simp at hline
  | cons hdivides _ ih =>
    cases i with
    | zero =>
      cases hline
      exact ⟨_, rfl, hdivides⟩
    | succ i => exact ih hline

/-- The pieces of divided lines form a layout of them. -/
theorem layout_placeAll {lines : List (List Char)} {divisions : List (List Piece)}
    (h : List.Forall₂ Divides lines divisions) : Layout lines (placeAll 0 divisions) where
  ordered := placeAll_pairwise 0 divisions
  inLine := by
    intro x hx
    obtain ⟨i, pieces, hpieces, hx⟩ := mem_placeAll_iff.mp hx
    obtain ⟨before, after, rfl, hspot⟩ := mem_placeLine_iff.mp hx
    obtain ⟨line, hline, hdivides⟩ := exists_line_of_division h hpieces
    obtain ⟨rest, rfl, hrest⟩ := hdivides.of_append
    rw [Nat.zero_add, Nat.zero_add] at hspot
    refine ⟨_, after, by rw [hspot]; exact hline, ?_, ?_⟩
    · rw [hspot, List.length_append]
      exact Nat.le_add_right _ _
    · rwa [hspot, List.drop_left]
  covers := by
    intro n line i hline hi
    obtain ⟨pieces, hpieces, hdivides⟩ := exists_division_of_line h hline
    rw [← hdivides.textOf_eq] at hi
    obtain ⟨x, hx, hlo, hhi⟩ := exists_mem_placeLine n 0 hi
    obtain ⟨_, _, -, hspot⟩ := mem_placeLine_iff.mp hx
    refine ⟨x, mem_placeAll_iff.mpr ⟨n, pieces, hpieces, by rwa [Nat.zero_add]⟩, ?_, ?_, ?_⟩
    · rw [hspot]
    · omega
    · omega

section Layout

variable {lines : List (List Char)} {placed : List (Spot × Piece)} {x y : Spot × Piece}

theorem InLine.end_le {line : List Char} (hx : InLine lines x)
    (hline : lines[x.1.line]? = some line) : x.1.col + x.2.text.length ≤ line.length := by
  obtain ⟨_, after, hsome, hcol, hdivides⟩ := hx
  cases hline.symm.trans hsome
  have htext := congrArg List.length hdivides.textOf_eq
  rw [textOf_cons, List.length_append, List.length_drop] at htext
  omega

/-- A placed piece is the slice of its line between its spot and its end. -/
theorem InLine.slice {line : List Char} (hx : InLine lines x)
    (hline : lines[x.1.line]? = some line) :
    (line.drop x.1.col).take x.2.text.length = x.2.text := by
  obtain ⟨_, after, hsome, -, hdivides⟩ := hx
  cases hline.symm.trans hsome
  rw [← hdivides.textOf_eq, textOf_cons, List.take_left]

theorem InLine.length_pos (hx : InLine lines x) : 0 < x.2.text.length := by
  obtain ⟨_, after, -, -, hdivides⟩ := hx
  exact List.length_pos_iff.mpr hdivides.text_ne_nil

/-- Pieces start at different spots, in order. -/
theorem Layout.spots_pairwise (h : Layout lines placed) :
    placed.Pairwise fun x y => x.1.Before y.1 := by
  refine h.ordered.imp_of_mem ?_
  intro x y hx _ hxy
  have hpos := (h.inLine x hx).length_pos
  obtain hlt | ⟨hline, hend⟩ := hxy
  · exact .inl hlt
  · exact .inr ⟨hline, by omega⟩

theorem InLine.line_lt (hx : InLine lines x) : x.1.line < lines.length := by
  obtain ⟨line, _, hline, -, -⟩ := hx
  exact (List.getElem?_eq_some_iff.mp hline).1

/-- Of two pieces of a layout one lies before the other. -/
theorem Layout.eq_or_precedes (h : Layout lines placed) (hx : x ∈ placed) (hy : y ∈ placed) :
    x = y ∨ Precedes x y ∨ Precedes y x := by
  obtain ⟨i, hi, rfl⟩ := List.mem_iff_getElem.mp hx
  obtain ⟨j, hj, rfl⟩ := List.mem_iff_getElem.mp hy
  have hordered := List.pairwise_iff_getElem.mp h.ordered
  obtain hij | rfl | hji := Nat.lt_trichotomy i j
  · exact .inr (.inl (hordered i j hi hj hij))
  · exact .inl rfl
  · exact .inr (.inr (hordered j i hj hi hji))

/-- Nothing on its line comes after a piece that is given up. -/
theorem Layout.end_le_of_dropped (h : Layout lines placed) (hx : x ∈ placed) (hy : y ∈ placed)
    {fault : Fault} {text : List Char} (hdropped : y.2 = .dropped fault text)
    (hline : x.1.line = y.1.line) (hne : x ≠ y) : x.1.col + x.2.text.length ≤ y.1.col := by
  obtain hxy | hxy | hyx := h.eq_or_precedes hx hy
  · exact absurd hxy hne
  · obtain hlt | ⟨-, hend⟩ := hxy
    · omega
    · exact hend
  · obtain ⟨line, after, hsome, hcol, hdivides⟩ := h.inLine y hy
    have hxend := (h.inLine x hx).end_le (hline ▸ hsome)
    have hxpos := (h.inLine x hx).length_pos
    have hyend : y.1.col + y.2.text.length = line.length := by
      rw [hdropped] at hdivides ⊢
      obtain ⟨rfl, -, -⟩ := hdivides.begins_of_dropped
      rw [Piece.text, List.length_drop]
      omega
    obtain hlt | ⟨-, hend⟩ := hyx <;> omega

end Layout

end Ginti.Grammar
