import Ginti.Proofs.Grammar.Edges

namespace Ginti

open Text

namespace Grammar

theorem mem_head?_of_front {front text : List Char} (hfront : front <+: text) {c : Char}
    (hc : c ∈ front.head?) : c ∈ text.head? := by
  obtain ⟨tail, rfl⟩ := hfront
  exact List.mem_head?_append_of_mem_head? hc

theorem Run.cut {inClass : Char → Bool} {run rest front : List Char}
    (h : Run inClass run rest) (hfront : front <+: rest) : Run inClass run front where
  inside := h.inside
  stops c hc := h.stops c (mem_head?_of_front hfront hc)

end Grammar

open Grammar

namespace Rule

variable {r : Rule} {text front lexeme rest : List Char}

/-- A rule that applies goes on to apply when the text goes on. -/
theorem Opens.extend (h : r.Opens front) (hfront : front <+: text) : r.Opens text := by
  cases r with
  | lineComment => exact List.IsPrefix.trans h hfront
  | blockComment =>
    obtain ⟨after, rfl, hclosing⟩ := h
    obtain ⟨tail, rfl⟩ := hfront
    exact ⟨after ++ tail, rfl, hclosing.trans (List.prefix_append after tail).isInfix⟩
  | stringLiteral => exact List.IsPrefix.trans h hfront
  | charLiteral => exact List.IsPrefix.trans h hfront
  | number =>
    obtain ⟨d, hd, hdigit⟩ := h
    exact ⟨d, mem_head?_of_front hfront hd, hdigit⟩
  | operator =>
    obtain ⟨o, ho⟩ := h
    exact ⟨o, ho.trans hfront⟩
  | separator =>
    obtain ⟨s, hs⟩ := h
    exact ⟨s, hs.trans hfront⟩
  | keyword =>
    obtain ⟨k, hk⟩ := h
    exact ⟨k, hk.trans hfront⟩
  | identifier =>
    obtain ⟨c, hc, hlower⟩ := h
    exact ⟨c, mem_head?_of_front hfront hc, hlower⟩

/-- A lexeme stays one when the text behind it is cut short. -/
theorem Fits.cut (h : r.Fits lexeme rest) (hfront : front <+: rest) : r.Fits lexeme front := by
  cases r with
  | lineComment =>
    obtain ⟨body, rfl, hrun⟩ := h
    exact ⟨body, rfl, hrun.cut hfront⟩
  | number =>
    obtain ⟨whole, fraction, rfl, hwhole, hrun, hfraction⟩ := h
    have hbehind := (List.prefix_append_right_inj fraction).mpr hfront
    refine ⟨whole, fraction, rfl, hwhole, hrun.cut hbehind, ?_⟩
    obtain ⟨digits, rfl, hne, hdigits, hstop⟩ | ⟨rfl, hpoint⟩ := hfraction
    · refine .inl ⟨digits, rfl, hne, hdigits, hstop.imp_right fun hshort => ?_⟩
      exact ⟨hshort.1, fun d hd => hshort.2 d (mem_head?_of_front hfront hd)⟩
    · refine .inr ⟨rfl, ?_⟩
      rintro d tail rfl
      obtain ⟨behind, hbehind⟩ := hfront
      exact hpoint d (tail ++ behind) hbehind.symm
  | identifier =>
    obtain ⟨c, tail, rfl, hlower, hrun⟩ := h
    exact ⟨c, tail, rfl, hlower, hrun.cut hfront⟩
  | _ => exact h

end Rule

namespace Grammar

variable {text front lexeme rest : List Char} {category : Category} {before after : List Piece}

/-- A lexeme is the same lexeme with less behind it. -/
theorem Begins.cut (h : Begins (lexeme ++ rest) (.accept category lexeme))
    (hfront : front <+: rest) : Begins (lexeme ++ front) (.accept category lexeme) := by
  have hwhole := (List.prefix_append_right_inj lexeme).mpr hfront
  exact h.followed (fun _ hopens => hopens.extend hwhole) fun _ hfits => hfits.cut hfront

/-- A text that no lexeme begins has no beginning that one begins. -/
theorem Begins.pass_cut (h : Begins text .pass) (hfront : front <+: text) :
    Begins front .pass := by
  apply h.transfer
  · exact fun _ hopens => hopens.extend hfront
  · intro r hr
    cases hr

/-- The first pieces of a line are the division of their own text. Only the piece that gives up
    the rest of a line depends on all of it, and that piece is the last one. -/
theorem Divides.cut (h : Divides text (before ++ after)) (hafter : after ≠ []) :
    Divides (textOf before) before := by
  induction before generalizing text with
  | nil => exact .done
  | cons piece before ih =>
    rw [List.cons_append] at h
    generalize hpieces : before ++ after = pieces at h
    cases h with
    | blank hblank tail => exact .blank hblank (ih (hpieces ▸ tail))
    | @lexeme _ lexeme rest category _ hstart hbegins htext tail =>
      -- What is left behind the lexeme is a front of what was there.
      subst htext hpieces
      obtain ⟨behind, rfl, -⟩ := tail.of_append
      refine .lexeme ?_ (hbegins.cut (List.prefix_append _ behind)) rfl (ih tail)
      rw [textOf_cons, Piece.text, List.head?_append_of_ne_nil _ hbegins.lexeme_ne_nil]
      rwa [List.head?_append_of_ne_nil _ hbegins.lexeme_ne_nil] at hstart
    | @unknown c rest _ hstart hbegins tail =>
      subst hpieces
      obtain ⟨behind, rfl, -⟩ := tail.of_append
      have hfront : c :: textOf before <+: c :: (textOf before ++ behind) :=
        List.prefix_append (c :: textOf before) behind
      exact .unknown hstart (hbegins.pass_cut hfront) (ih tail)
    | dropped => exact absurd (List.append_eq_nil_iff.mp hpieces).2 hafter

theorem placeLine_append (line col : Nat) (before after : List Piece) :
    placeLine line col (before ++ after) =
      placeLine line col before ++ placeLine line (col + (textOf before).length) after := by
  induction before generalizing col with
  | nil => rfl
  | cons piece before ih =>
    rw [List.cons_append, placeLine, ih, placeLine, textOf_cons, List.length_append, Nat.add_assoc,
      List.cons_append]

end Grammar
end Ginti
