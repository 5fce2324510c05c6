import Mathlib.Data.List.TakeDrop
import Ginti.Proofs.Lexer.Tiling
import Ginti.Proofs.Text.Trim

namespace Ginti

open Grammar

/-- The same place some lines further down. -/
def Position.down (count : Nat) (p : Position) : Position :=
  ⟨p.line + count, p.column⟩

def Spot.down (count : Nat) (s : Spot) : Spot :=
  ⟨s.line + count, s.col⟩

/-- The token as it is if there are so many lines above. -/
def Token.down (count : Nat) (t : Token) : Token :=
  { t with position := t.position.down count }

/-- The diagnostic as it is if there are so many lines above. -/
def Diagnostic.down (count : Nat) (d : Diagnostic) : Diagnostic :=
  { d with position := d.position.down count }

theorem Spot.position_down (count : Nat) (s : Spot) :
    (s.down count).position = s.position.down count := by
  simp only [down, position, Position.down, Position.ofOffsets, Position.mk.injEq, and_true]
  omega

namespace Grammar

def placedDown (count : Nat) (x : Spot × Piece) : Spot × Piece :=
  (x.1.down count, x.2)

theorem placeLine_down (count line col : Nat) (pieces : List Piece) :
    placeLine (line + count) col pieces = (placeLine line col pieces).map (placedDown count) := by
  induction pieces generalizing col with
  | nil => rfl
  | cons piece pieces ih =>
    rw [placeLine, ih]
    rfl

/-- Lines above move all pieces and nothing else. -/
theorem placeAll_down (count line : Nat) (divisions : List (List Piece)) :
    placeAll (line + count) divisions = (placeAll line divisions).map (placedDown count) := by
  induction divisions generalizing line with
  | nil => rfl
  | cons pieces divisions ih =>
    have hnext : line + count + 1 = line + 1 + count := by omega
    rw [placeAll, placeAll, List.map_append, placeLine_down, hnext, ih]

theorem placeAll_append (line : Nat) (first second : List (List Piece)) :
    placeAll line (first ++ second) =
      placeAll line first ++ placeAll (line + first.length) second := by
  induction first generalizing line with
  | nil => rfl
  | cons pieces first ih =>
    have hnext : line + (pieces :: first).length = line + 1 + first.length := by
      rw [List.length_cons]
      omega
    rw [List.cons_append, placeAll, ih, hnext, placeAll, List.append_assoc]

/-- The pieces on a line are those of its own division. -/
theorem placeAll_filter_line (line n : Nat) (divisions : List (List Piece)) :
    (placeAll line divisions).filter (fun x => x.1.line = line + n) =
      placeLine (line + n) 0 ((divisions[n]?).getD []) := by
  induction divisions generalizing line n with
  | nil => rfl
  | cons pieces divisions ih =>
    rw [placeAll, List.filter_append]
    cases n with
    | zero =>
      have hall : (placeLine line 0 pieces).filter (fun x => x.1.line = line + 0) =
          placeLine line 0 pieces := by
        apply List.filter_eq_self.mpr
        intro x hx
        obtain ⟨before, after, -, hspot⟩ := mem_placeLine_iff.mp hx
        simp [hspot]
      have hnone : (placeAll (line + 1) divisions).filter (fun x => x.1.line = line + 0) = [] := by
        apply List.filter_eq_nil_iff.mpr
        intro x hx
        obtain ⟨i, later, -, hx⟩ := mem_placeAll_iff.mp hx
        obtain ⟨before, after, -, hspot⟩ := mem_placeLine_iff.mp hx
        simp only [hspot, decide_eq_true_eq]
        omega
      rw [hall, hnone, List.append_nil]
      rfl
    | succ n =>
      have hnone : (placeLine line 0 pieces).filter (fun x => x.1.line = line + (n + 1)) = [] := by
        apply List.filter_eq_nil_iff.mpr
        intro x hx
        obtain ⟨before, after, -, hspot⟩ := mem_placeLine_iff.mp hx
        simp only [hspot, decide_eq_true_eq]
        omega
      have hnext : line + (n + 1) = line + 1 + n := by omega
      rw [hnone, hnext, ih, List.nil_append, List.getElem?_cons_succ]

/-- Divided lines are placed one after the other, and missing lines add nothing. -/
theorem placeAll_eq_flatMap (line : Nat) {k : Nat} {divisions : List (List Piece)}
    (hk : divisions.length ≤ k) :
    placeAll line divisions =
      (List.range k).flatMap fun n => placeLine (line + n) 0 ((divisions[n]?).getD []) := by
  induction divisions generalizing line k with
  | nil =>
    symm
    apply List.flatMap_eq_nil_iff.mpr
    intro n _
    rfl
  | cons pieces divisions ih =>
    obtain ⟨k, rfl⟩ := Nat.exists_eq_add_one_of_ne_zero (Nat.ne_zero_of_lt hk)
    have hlater : divisions.length ≤ k := Nat.le_of_succ_le_succ hk
    rw [placeAll, ih (line + 1) hlater, List.range_succ_eq_map, List.flatMap_cons, List.flatMap_map]
    congr 1
    refine List.flatMap_congr fun n _ => ?_
    rw [Nat.add_assoc, Nat.add_comm 1 n]
    rfl

theorem tokens_placedDown (count : Nat) (placed : List (Spot × Piece)) :
    (placed.map (placedDown count)).filterMap tokenAt? =
      (placed.filterMap tokenAt?).map (Token.down count) :=
  tokens_moved (Spot.position_down count) placed

theorem diagnosticsOf_append (first second : List (Spot × Piece)) :
    diagnosticsOf (first ++ second) = diagnosticsOf first ++ diagnosticsOf second := by
  rw [diagnosticsOf, List.filterMap_append, List.map_append]
  rfl

theorem diagnosticsOf_placedDown (count : Nat) (placed : List (Spot × Piece)) :
    diagnosticsOf (placed.map (placedDown count)) =
      (diagnosticsOf placed).map (Diagnostic.down count) :=
  diagnosticsOf_moved (Spot.position_down count) placed

end Grammar

/-- A property of what is picked, told from what it is picked from. -/
theorem filter_filterMap_eq {α β : Type} {pick : α → Option β} {p : β → Bool} {q : α → Bool}
    (hpq : ∀ x y, pick x = some y → p y = q x) (l : List α) :
    (l.filterMap pick).filter p = (l.filter q).filterMap pick := by
  rw [List.filter_filterMap, List.filterMap_filter]
  refine List.filterMap_congr fun x _ => ?_
  cases hpick : pick x with
  | none => simp
  | some y => simp [Option.filter_some, hpq x y hpick]

namespace Source

/-- The source that consists of one line. -/
def ofLine (line : String) : Source :=
  ⟨anonymous, [line]⟩

/-- The line with a number counted from zero; past the last line it is empty. -/
def lineAt (s : Source) (n : Nat) : String :=
  (s.lines[n]?).getD ""

/-- The source with another line in the place of one. -/
def withLine (s : Source) (n : Nat) (line : String) : Source :=
  { s with lines := s.lines.set n line }

/-- The diagnostics of one line. -/
def diagnosticsOn (s : Source) (n : Nat) : List Diagnostic :=
  s.diagnostics.filter fun d => d.position.line = n + 1

/-- What is read does not depend on the name of the source or on the padding of its lines. -/
theorem outputs_eq_of_trimmed {s t : Source} (h : s.trimmed = t.trimmed) :
    s.tokens = t.tokens ∧ s.diagnostics = t.diagnostics := by
  have hevents : s.events = t.events := by
    rw [events, events, eventsBy, eventsBy, cursor, cursor, h]
  exact ⟨by rw [tokens, tokens, hevents], by rw [diagnostics, diagnostics, hevents]⟩

/-- Lines that follow others are read as they are on their own, only further down. -/
theorem outputs_append {s t u : Source} (h : u.lines = s.lines ++ t.lines) :
    u.tokens = s.tokens ++ t.tokens.map (Token.down s.lines.length) ∧
      u.diagnostics = s.diagnostics ++ t.diagnostics.map (Diagnostic.down s.lines.length) := by
  obtain ⟨first, hfirst, -⟩ := s.events_divided
  obtain ⟨second, hsecond, -⟩ := t.events_divided
  have hboth : List.Forall₂ Divides u.trimmed (first ++ second) := by
    rw [trimmed, h, List.map_append]
    exact List.rel_append hfirst hsecond
  have hlength : first.length = s.lines.length := by
    rw [← hfirst.length_eq, trimmed, List.length_map]
  have hplaced : placeAll 0 (first ++ second) =
      placeAll 0 first ++ (placeAll 0 second).map (placedDown s.lines.length) := by
    rw [placeAll_append, placeAll_down, hlength]
  have hs := laidOut_of_divides hfirst
  have ht := laidOut_of_divides hsecond
  have hu := laidOut_of_divides hboth
  rw [hplaced] at hu
  constructor
  · rw [hu.tokens, List.filterMap_append, tokens_placedDown, ← hs.tokens, ← ht.tokens]
  · rw [hu.diagnostics, diagnosticsOf_append, diagnosticsOf_placedDown, ← hs.diagnostics,
      ← ht.diagnostics]

/-- The division of a line, which is that of the line on its own. -/
theorem divides_lineAt {s : Source} {divisions : List (List Piece)}
    (h : List.Forall₂ Divides s.trimmed divisions) (n : Nat) :
    Divides (Text.trim (s.lineAt n).toList) ((divisions[n]?).getD []) := by
  cases hpieces : divisions[n]? with
  | none =>
    have hlength := h.length_eq
    rw [trimmed, List.length_map] at hlength
    have hend : s.lines.length ≤ n := hlength ▸ List.getElem?_eq_none_iff.mp hpieces
    rw [lineAt, List.getElem?_eq_none hend]
    exact .done
  | some pieces =>
    obtain ⟨text, htext, hdivides⟩ := exists_line_of_division h hpieces
    rw [trimmed, List.getElem?_map, Option.map_eq_some_iff] at htext
    obtain ⟨line, hline, rfl⟩ := htext
    rw [lineAt, hline]
    exact hdivides

namespace LaidOut

variable {s : Source} {placed : List (Spot × Piece)}

theorem tokensOn_eq (h : s.LaidOut placed) (n : Nat) :
    s.tokensOn n = (placed.filter fun x => x.1.line = n).filterMap tokenAt? := by
  rw [tokensOn, h.tokens]
  apply filter_filterMap_eq
  intro x token htoken
  obtain ⟨_, -, rfl⟩ := tokenAt?_eq_some_iff.mp htoken
  rw [decide_eq_decide, Spot.position_line]
  omega

theorem diagnosticsOn_eq (h : s.LaidOut placed) (n : Nat) :
    s.diagnosticsOn n = diagnosticsOf (placed.filter fun x => x.1.line = n) := by
  rw [diagnosticsOn, h.diagnostics, diagnosticsOf, diagnosticsOf, List.filter_map]
  congr 1
  apply filter_filterMap_eq
  intro x problem hproblem
  obtain ⟨_, -, rfl⟩ := problemAt?_eq_some_iff.mp hproblem
  rw [Function.comp_apply, decide_eq_decide, Problem.diagnostic, Spot.position_line]
  omega

end LaidOut

/-- Each line has a division; past the last line it is empty. -/
theorem exists_divides_lineAt (s : Source) (n : Nat) :
    ∃ pieces, Divides (Text.trim (s.lineAt n).toList) pieces := by
  obtain ⟨divisions, hdivisions, -⟩ := s.events_divided
  exact ⟨_, divides_lineAt hdivisions n⟩

/-- What is read on a line is told by the division of this line. -/
theorem outputsOn_of_divides {s : Source} {n : Nat} {pieces : List Piece}
    (h : Divides (Text.trim (s.lineAt n).toList) pieces) :
    s.tokensOn n = (placeLine n 0 pieces).filterMap tokenAt? ∧
      s.diagnosticsOn n = diagnosticsOf (placeLine n 0 pieces) := by
  obtain ⟨divisions, hdivisions, -⟩ := s.events_divided
  have hlaidOut := laidOut_of_divides hdivisions
  have hon := placeAll_filter_line 0 n divisions
  rw [Nat.zero_add, (divides_lineAt hdivisions n).unique h] at hon
  rw [hlaidOut.tokensOn_eq, hlaidOut.diagnosticsOn_eq, hon]
  exact ⟨rfl, rfl⟩

/-- What a line alone gives rise to is read off its division. -/
theorem outputs_ofLine {line : String} {pieces : List Piece}
    (h : Divides (Text.trim line.toList) pieces) :
    (ofLine line).tokens = (placeLine 0 0 pieces).filterMap tokenAt? ∧
      (ofLine line).diagnostics = diagnosticsOf (placeLine 0 0 pieces) := by
  have hlaidOut := laidOut_of_divides (s := ofLine line) (.cons h .nil)
  rw [placeAll, placeAll, List.append_nil] at hlaidOut
  exact ⟨hlaidOut.tokens, hlaidOut.diagnostics⟩

/-- A line is read as if it were the only one. -/
theorem outputsOn_eq (s : Source) (n : Nat) :
    s.tokensOn n = (ofLine (s.lineAt n)).tokens.map (Token.down n) ∧
      s.diagnosticsOn n = (ofLine (s.lineAt n)).diagnostics.map (Diagnostic.down n) := by
  obtain ⟨pieces, hpieces⟩ := s.exists_divides_lineAt n
  obtain ⟨htokens, hdiagnostics⟩ := outputsOn_of_divides hpieces
  obtain ⟨hlineTokens, hlineDiagnostics⟩ := outputs_ofLine hpieces
  have hplaced := placeLine_down n 0 0 pieces
  rw [Nat.zero_add] at hplaced
  rw [htokens, hdiagnostics, hlineTokens, hlineDiagnostics, hplaced, tokens_placedDown,
    diagnosticsOf_placedDown]
  exact ⟨rfl, rfl⟩

/-- A source is read line by line, and missing lines add nothing. -/
theorem outputs_eq_flatMap {s : Source} {k : Nat} (hk : s.lines.length ≤ k) :
    s.tokens = (List.range k).flatMap s.tokensOn ∧
      s.diagnostics = (List.range k).flatMap s.diagnosticsOn := by
  obtain ⟨divisions, hdivisions, -⟩ := s.events_divided
  have h := laidOut_of_divides hdivisions
  have hlength : divisions.length ≤ k := by
    rwa [← hdivisions.length_eq, trimmed, List.length_map]
  have hon (n : Nat) := placeAll_filter_line 0 n divisions
  have hplaced := placeAll_eq_flatMap 0 hlength
  simp only [Nat.zero_add] at hon hplaced
  constructor
  · rw [h.tokens, hplaced, List.filterMap_flatMap]
    refine List.flatMap_congr fun n _ => ?_
    rw [h.tokensOn_eq, hon]
  · rw [h.diagnostics, hplaced, diagnosticsOf, List.filterMap_flatMap, List.map_flatMap]
    refine List.flatMap_congr fun n _ => ?_
    rw [h.diagnosticsOn_eq, hon, diagnosticsOf]

theorem lineAt_withLine {s : Source} {n m : Nat} {line : String} (hne : m ≠ n) :
    (s.withLine n line).lineAt m = s.lineAt m := by
  rw [lineAt, withLine, List.getElem?_set_ne hne.symm, lineAt]

/-- A line in the place of one that is trimmed to the same text makes no difference to the trimmed
    lines. -/
theorem trimmed_withLine {s : Source} {n : Nat} {line other : String}
    (hline : s.lines[n]? = some line) (htrim : Text.trim other.toList = Text.trim line.toList) :
    (s.withLine n other).trimmed = s.trimmed := by
  obtain ⟨hn, rfl⟩ := List.getElem?_eq_some_iff.mp hline
  have hsame : s.lines.set n s.lines[n] = s.lines := List.set_getElem_self hn
  rw [trimmed, withLine, List.map_set, htrim, ← List.map_set, hsame, trimmed]

/-- Lines are independent of each other. Two lists of lines are read one after the other, the
    second just further down; a line matters only through its trim, which any padding around it
    leaves as it is; and another line in its place changes nothing on the other lines. -/
theorem lexes_line_by_line (filename : String) :
    (∀ a b : List String,
      (Source.mk filename (a ++ b)).tokens =
          (Source.mk filename a).tokens ++
            (Source.mk filename b).tokens.map (Token.down a.length) ∧
        (Source.mk filename (a ++ b)).diagnostics =
          (Source.mk filename a).diagnostics ++
            (Source.mk filename b).diagnostics.map (Diagnostic.down a.length)) ∧
    (∀ (lines : List String) (n : Nat) (line other : String), lines[n]? = some line →
      Text.trim other.toList = Text.trim line.toList →
        ((Source.mk filename lines).withLine n other).tokens =
            (Source.mk filename lines).tokens ∧
          ((Source.mk filename lines).withLine n other).diagnostics =
            (Source.mk filename lines).diagnostics) ∧
    (∀ front line back : List Char, (∀ c ∈ front, Text.isPadding c = true) →
      (∀ c ∈ back, Text.isPadding c = true) →
        Text.trim (front ++ line ++ back) = Text.trim line) ∧
    ∀ (lines : List String) (n m : Nat) (other : String), m ≠ n →
      ((Source.mk filename lines).withLine n other).tokensOn m =
          (Source.mk filename lines).tokensOn m ∧
        ((Source.mk filename lines).withLine n other).diagnosticsOn m =
          (Source.mk filename lines).diagnosticsOn m := by
  refine ⟨fun a b => outputs_append rfl, ?_, fun front line back => Text.trim_padded, ?_⟩
  · intro lines n line other hline htrim
    exact outputs_eq_of_trimmed (trimmed_withLine hline htrim)
  · intro lines n m other hne
    rw [(outputsOn_eq _ m).1, (outputsOn_eq _ m).2, lineAt_withLine hne, ← (outputsOn_eq _ m).1,
      ← (outputsOn_eq _ m).2]
    exact ⟨rfl, rfl⟩

end Source
end Ginti
