import Ginti.Proofs.Grammar.Edges
import Ginti.Proofs.Lexer.Reports
import Ginti.Proofs.Text.Spacing

namespace Ginti

open Grammar Text

namespace Grammar

variable {text : List Char} {pieces : List Piece} {gaps : Nat → Gap}

/-- The pieces that are tokens. -/
def kept (pieces : List Piece) : List Piece :=
  pieces.filter fun piece => piece.category?.isSome

/-- The pieces in order, with the blanks of the gaps between them. -/
def respace (gaps : Nat → Gap) : List Piece → List Piece
  | [] => []
  | [piece] => [piece]
  | piece :: next :: pieces =>
    piece :: ((gaps 0).chars.map .blank ++ respace (fun i => gaps (i + 1)) (next :: pieces))

theorem kept_append (first second : List Piece) : kept (first ++ second) = kept first ++ kept second :=
  List.filter_append first second

theorem kept_kept (pieces : List Piece) : kept (kept pieces) = kept pieces := by
  apply List.filter_eq_self.mpr
  intro piece hpiece
  exact (List.mem_filter.mp hpiece).2

theorem kept_blanks (run : List Char) : kept (run.map .blank) = [] := by
  apply List.filter_eq_nil_iff.mpr
  intro piece hpiece
  obtain ⟨c, -, rfl⟩ := List.mem_map.mp hpiece
  simp [Piece.category?]

/-- What is kept of pieces written with gaps is what was kept of them. -/
theorem kept_respace (gaps : Nat → Gap) (pieces : List Piece) :
    kept (respace gaps pieces) = kept pieces := by
  induction pieces generalizing gaps with
  | nil => rfl
  | cons piece pieces ih =>
    cases pieces with
    | nil => rfl
    | cons next pieces =>
      have hbehind : kept ((gaps 0).chars.map .blank ++ respace (fun i => gaps (i + 1)) (next :: pieces)) =
          kept (next :: pieces) := by
        rw [kept_append, kept_blanks, ih, List.nil_append]
      have hsplit (after : List Piece) : kept (piece :: after) = kept [piece] ++ kept after :=
        kept_append [piece] after
      rw [respace, hsplit, hbehind, ← hsplit]

theorem mem_respace {piece : Piece} (h : piece ∈ respace gaps pieces) :
    piece ∈ pieces ∨ ∃ c, piece = .blank c := by
  induction pieces generalizing gaps with
  | nil => cases h
  | cons first pieces ih =>
    cases pieces with
    | nil => exact .inl h
    | cons next pieces =>
      rw [respace, List.mem_cons, List.mem_append, List.mem_map] at h
      obtain rfl | ⟨c, -, rfl⟩ | hlater := h
      · exact .inl List.mem_cons_self
      · exact .inr ⟨c, rfl⟩
      · exact (ih hlater).imp_left (List.mem_cons_of_mem first)

theorem textOf_append (first second : List Piece) :
    textOf (first ++ second) = textOf first ++ textOf second :=
  List.flatMap_append

theorem textOf_blanks (run : List Char) : textOf (run.map .blank) = run := by
  induction run with
  | nil => rfl
  | cons c run ih => rw [List.map_cons, textOf_cons, ih, Piece.text, List.singleton_append]

/-- The text of pieces written with gaps is their texts written apart. -/
theorem textOf_respace (gaps : Nat → Gap) (pieces : List Piece) :
    textOf (respace gaps pieces) = spaced gaps (pieces.map Piece.text) := by
  induction pieces generalizing gaps with
  | nil => rfl
  | cons piece pieces ih =>
    cases pieces with
    | nil => exact List.append_nil piece.text
    | cons next pieces =>
      rw [respace, textOf_cons, textOf_append, textOf_blanks, ih]
      rfl

/-- Behind the first of the written pieces there is nothing or a gap, and it is divided as the
    pieces say if the other pieces are. -/
theorem exists_behind (gaps : Nat → Gap) (piece : Piece)
    (h : ∀ gaps, Divides (textOf (respace gaps pieces)) (respace gaps pieces)) :
    ∃ gap behind, respace gaps (piece :: pieces) = piece :: behind ∧ Divides gap behind ∧
      StartsBlank gap ∧ (pieces = [] → gap = []) := by
  cases pieces with
  | nil => exact ⟨[], [], rfl, .done, by simp [StartsBlank], fun _ => rfl⟩
  | cons next pieces =>
    have hlater := (h fun i => gaps (i + 1)).blanks_append (gaps 0).blank
    refine ⟨_, _, rfl, hlater, ?_, by simp⟩
    intro c hc
    rw [List.head?_append_of_ne_nil _ (gaps 0).ne_nil] at hc
    exact (gaps 0).blank c (List.mem_of_mem_head? hc)

/-- The tokens of a line, written with gaps between them, are divided into these tokens and the
    blanks of the gaps. -/
theorem divides_respace (h : Divides text pieces) (hline : '\n' ∉ text) (gaps : Nat → Gap) :
    Divides (textOf (respace gaps (kept pieces))) (respace gaps (kept pieces)) := by
  induction h generalizing gaps with
  | done => exact .done
  | blank _ _ ih => exact ih (List.not_mem_of_not_mem_cons hline) gaps
  | @lexeme text lexeme rest category pieces hstart hbegins htext tail ih =>
    subst htext
    have hrest : '\n' ∉ rest := fun hmem => hline (List.mem_append_right lexeme hmem)
    have hne := hbegins.lexeme_ne_nil
    obtain ⟨gap, behind, hpieces, hbehind, hgap, hnone⟩ :=
      exists_behind gaps (.lexeme category lexeme) (ih hrest)
    have hend : rest = [] → gap = [] := by
      rintro rfl
      cases tail.unique .done
      exact hnone rfl
    have hkept : kept (.lexeme category lexeme :: pieces) = .lexeme category lexeme :: kept pieces :=
      rfl
    rw [hkept, hpieces, textOf_cons, hbehind.textOf_eq]
    refine .lexeme ?_ (hbegins.of_startsBlank hgap hrest hend) rfl hbehind
    rw [Piece.text, List.head?_append_of_ne_nil _ hne]
    rwa [List.head?_append_of_ne_nil _ hne] at hstart
  | @unknown c text pieces hstart hbegins tail ih =>
    have hrest : '\n' ∉ text := List.not_mem_of_not_mem_cons hline
    obtain ⟨gap, behind, hpieces, hbehind, hgap, -⟩ := exists_behind gaps (.unknown c) (ih hrest)
    have hkept : kept (.unknown c :: pieces) = .unknown c :: kept pieces := rfl
    rw [hkept, hpieces, textOf_cons, hbehind.textOf_eq]
    exact .unknown hstart (hbegins.pass_of_startsBlank hgap) hbehind
  | dropped => exact .done

/-- A token of a trimmed line needs no trimming, unless it is a character of padding itself. -/
theorem Divides.isTrimmed_of_mem_kept (h : Divides text pieces) (htrimmed : IsTrimmed text)
    (hline : '\n' ∉ text) {piece : Piece} (hpiece : piece ∈ kept pieces)
    (hvisible : ∃ c ∈ piece.text, isPadding c = false) : IsTrimmed piece.text := by
  obtain ⟨hmem, hkept⟩ := List.mem_filter.mp hpiece
  obtain ⟨before, after, rfl⟩ := List.append_of_mem hmem
  obtain ⟨rest, rfl, hrest⟩ := h.of_append
  cases hrest with
  | blank => cases hkept
  | @lexeme _ lexeme behind category _ _ hbegins htext _ =>
    subst htext
    have hbehind : '\n' ∉ behind :=
      fun hnewline => hline (List.mem_append_right _ (List.mem_append_right lexeme hnewline))
    apply hbegins.isTrimmed hbehind
    intro c hc
    apply htrimmed.last
    rwa [List.getLast?_append_of_ne_nil _ (hbegins.ne_nil (by simp))]
  | unknown =>
    obtain ⟨c, hc, hpadding⟩ := hvisible
    apply isTrimmed_of_forall
    intro d hd
    rwa [List.mem_singleton.mp hd, ← List.mem_singleton.mp hc]
  | dropped => cases hkept

/-- The tokens of a line, written with gaps between them, make up a line that is divided into
    them. -/
theorem divides_spaced {line : List Char} (h : Divides (trim line) pieces) (hline : Unbroken line)
    (hvisible : ∀ piece ∈ kept pieces, ∃ c ∈ piece.text, isPadding c = false) (gaps : Nat → Gap) :
    Divides (trim (spaced gaps ((kept pieces).map Piece.text))) (respace gaps (kept pieces)) := by
  have hnewline : '\n' ∉ trim line := fun hmem => hline.not_mem_newline (mem_of_mem_trim hmem)
  have hne : ∀ text ∈ (kept pieces).map Piece.text, text ≠ [] := by
    intro text htext
    obtain ⟨piece, hpiece, rfl⟩ := List.mem_map.mp htext
    obtain ⟨c, hc, -⟩ := hvisible piece hpiece
    exact List.ne_nil_of_mem hc
  have htrimmed : ∀ text ∈ (kept pieces).map Piece.text, IsTrimmed text := by
    intro text htext
    obtain ⟨piece, hpiece, rfl⟩ := List.mem_map.mp htext
    exact h.isTrimmed_of_mem_kept (isTrimmed_trim line) hnewline hpiece (hvisible piece hpiece)
  rw [trim_of_isTrimmed (isTrimmed_spaced gaps hne htrimmed), ← textOf_respace]
  exact divides_respace h hnewline gaps

/-- What can be told of the tokens of a line without their columns, told of the pieces. -/
theorem map_tokens_placeLine {α : Type} {f : Token → α} {g : Piece → α} {line : Nat}
    (hfg : ∀ piece category col, piece.category? = some category →
      f ⟨category, String.ofList piece.text, Spot.position ⟨line, col⟩⟩ = g piece)
    (col : Nat) (pieces : List Piece) :
    ((placeLine line col pieces).filterMap tokenAt?).map f = (kept pieces).map g := by
  induction pieces generalizing col with
  | nil => rfl
  | cons piece pieces ih =>
    cases hcategory : piece.category? with
    | none =>
      have hnone : tokenAt? (⟨line, col⟩, piece) = none := by simp [tokenAt?, hcategory]
      rw [placeLine, List.filterMap_cons_none hnone, ih, kept, kept,
        List.filter_cons_of_neg (by simp [hcategory])]
    | some category =>
      have hfirst := tokenAt?_eq_some_iff (x := (⟨line, col⟩, piece)).mpr ⟨category, hcategory, rfl⟩
      rw [placeLine, List.filterMap_cons_some hfirst, List.map_cons, ih, kept, kept,
        List.filter_cons_of_pos (by simp [hcategory]), List.map_cons, hfg piece category col hcategory]

theorem tokens_placeLine_blanks (line col : Nat) (run : List Char) (pieces : List Piece) :
    (placeLine line col (run.map .blank ++ pieces)).filterMap tokenAt? =
      (placeLine line (col + run.length) pieces).filterMap tokenAt? := by
  rw [← tokens_eventsOf, eventsOf_placeLine_blanks, tokens_eventsOf]

/-- The first of the tokens that are written, and the others behind it and its gap. -/
theorem tokens_respace_cons {piece : Piece} {category : Category}
    (hcategory : piece.category? = some category) (line col : Nat) (pieces : List Piece) :
    (placeLine line col (respace gaps (piece :: pieces))).filterMap tokenAt? =
      ⟨category, String.ofList piece.text, Spot.position ⟨line, col⟩⟩ ::
        (placeLine line (col + piece.text.length + (gaps 0).chars.length)
          (respace (fun i => gaps (i + 1)) pieces)).filterMap tokenAt? := by
  have hfirst := tokenAt?_eq_some_iff (x := (⟨line, col⟩, piece)).mpr ⟨category, hcategory, rfl⟩
  cases pieces with
  | nil =>
    have halone : placeLine line col (respace gaps [piece]) = [(⟨line, col⟩, piece)] := rfl
    rw [halone, List.filterMap_cons_some hfirst]
    rfl
  | cons next pieces =>
    rw [respace, placeLine, List.filterMap_cons_some hfirst, tokens_placeLine_blanks]

/-- Each token that was written stands behind the tokens and the gaps before it. -/
theorem column_of_respace {line col i : Nat} {token : Token}
    (hkept : ∀ piece ∈ pieces, piece.category?.isSome = true)
    (h : ((placeLine line col (respace gaps pieces)).filterMap tokenAt?)[i]? = some token) :
    token.position.column = col + 1 + offsetOf gaps (pieces.map Piece.text) i := by
  induction pieces generalizing gaps col i with
  | nil => cases h
  | cons piece pieces ih =>
    obtain ⟨category, hcategory⟩ := Option.isSome_iff_exists.mp (hkept piece List.mem_cons_self)
    rw [tokens_respace_cons hcategory] at h
    cases i with
    | zero =>
      cases h
      change (col : Int) + 1 = _
      rw [offsetOf_zero]
      omega
    | succ i =>
      have hbehind := ih (fun next hnext => hkept next (List.mem_cons_of_mem piece hnext)) h
      rw [hbehind, List.map_cons, offsetOf_succ]
      omega

/-- Where nothing is given up, exactly the unknown tokens are reported. -/
theorem Divides.diagnosticsOf_eq (h : Divides text pieces)
    (hcomplete : ∀ fault tail, .dropped fault tail ∉ pieces) (line col : Nat) :
    diagnosticsOf (placeLine line col pieces) =
      (((placeLine line col pieces).filterMap tokenAt?).filter (·.category = .unknown)).map
        Token.unknownReport := by
  induction h generalizing col with
  | done => rfl
  | blank _ _ ih =>
    exact ih (fun fault tail => List.not_mem_of_not_mem_cons (hcomplete fault tail)) (col + 1)
  | @lexeme _ lexeme _ category pieces _ hbegins _ _ ih =>
    have hlater := ih (fun fault tail => List.not_mem_of_not_mem_cons (hcomplete fault tail))
      (col + lexeme.length)
    have hknown := hbegins.category_ne_unknown
    have htokens : (placeLine line col (.lexeme category lexeme :: pieces)).filterMap tokenAt? =
        ⟨category, String.ofList lexeme, Spot.position ⟨line, col⟩⟩ ::
          (placeLine line (col + lexeme.length) pieces).filterMap tokenAt? := rfl
    rw [htokens, List.filter_cons_of_neg (by simp [hknown]), ← hlater]
    rfl
  | @unknown c _ pieces _ _ _ ih =>
    have hlater := ih (fun fault tail => List.not_mem_of_not_mem_cons (hcomplete fault tail))
      (col + 1)
    have htokens : (placeLine line col (.unknown c :: pieces)).filterMap tokenAt? =
        ⟨.unknown, String.ofList [c], Spot.position ⟨line, col⟩⟩ ::
          (placeLine line (col + 1) pieces).filterMap tokenAt? := rfl
    rw [htokens, List.filter_cons_of_pos (by simp), List.map_cons, ← hlater]
    rfl
  | dropped => exact absurd List.mem_cons_self (hcomplete _ _)

end Grammar
end Ginti
