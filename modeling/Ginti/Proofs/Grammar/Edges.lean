import Ginti.Proofs.Grammar.Lookahead
import Ginti.Proofs.Grammar.Ranking
import Ginti.Proofs.Text.Trim

namespace Ginti

open Text

namespace Grammar

theorem isPadding_of_isNameChar {c : Char} (h : Pattern.isNameChar c = true) :
    isPadding c = false :=
  (isSolid_iff.mp (isSolid_of_isNameChar h)).2

theorem isPadding_of_isDigit {c : Char} (h : c.isDigit = true) : isPadding c = false := by
  apply isPadding_of_isNameChar
  rw [isNameChar_eq, h, Bool.or_true, Bool.true_or]

theorem isPadding_of_isLower {c : Char} (h : c.isLower = true) : isPadding c = false := by
  apply isPadding_of_isNameChar
  rw [isNameChar_eq, h, Bool.or_true, Bool.true_or, Bool.true_or]

theorem IsNumber.isPadding_of_mem {lexeme rest : List Char} (h : IsNumber lexeme rest) :
    ∀ c ∈ lexeme, isPadding c = false := by
  obtain ⟨whole, fraction, rfl, -, hrun, hfraction⟩ := h
  intro c hc
  obtain hwhole | hpart := List.mem_append.mp hc
  · exact isPadding_of_isDigit (hrun.inside c hwhole)
  · obtain ⟨digits, rfl, -, hdigits, -⟩ | ⟨rfl, -⟩ := hfraction
    · obtain rfl | hdigit := List.mem_cons.mp hpart
      · rfl
      · exact isPadding_of_isDigit (hdigits c hdigit)
    · cases hpart

theorem IsIdentifier.isPadding_of_mem {lexeme rest : List Char} (h : IsIdentifier lexeme rest) :
    ∀ c ∈ lexeme, isPadding c = false := by
  obtain ⟨first, tail, rfl, hlower, hrun⟩ := h
  intro c hc
  obtain rfl | htail := List.mem_cons.mp hc
  · exact isPadding_of_isLower hlower
  · exact isPadding_of_isNameChar (hrun.inside c htail)

end Grammar

open Grammar

/-- No padding leads to a rule. -/
theorem Rule.isPadding_of_familyOf? {c : Char} {r : Rule} (h : familyOf? c = some r) :
    isPadding c = false := by
  unfold familyOf? at h
  split at h
  · next hlower => exact isPadding_of_isLower hlower
  · split at h
    · next hdigit => exact isPadding_of_isDigit hdigit
    · have hleads : ∀ lead ∈ leads, isPadding lead.1 = false := by decide
      obtain ⟨before, after, hsplit, -⟩ := List.lookup_eq_some_iff.mp h
      apply hleads (c, r)
      rw [hsplit]
      exact List.mem_append_right _ List.mem_cons_self

/-- A lexeme needs no trimming, if it is no line comment or stands at the end of a trimmed
    line. -/
theorem Rule.Fits.isTrimmed {r : Rule} {lexeme rest : List Char} (h : r.Fits lexeme rest)
    (hline : '\n' ∉ rest) (hend : ∀ c ∈ (lexeme ++ rest).getLast?, isPadding c = false) :
    IsTrimmed lexeme := by
  cases r with
  | lineComment =>
    have hnone := h.eq_nil_of_lineComment hline
    obtain ⟨body, rfl, -⟩ := h
    rw [hnone, List.append_nil] at hend
    refine ⟨fun c hc => ?_, hend⟩
    cases hc
    rfl
  | blockComment =>
    obtain ⟨body, rfl, -⟩ := h
    have henclosed : IsTrimmed ('/' :: (('*' :: body ++ ['*']) ++ ['/'])) :=
      isTrimmed_enclosed rfl rfl
    simpa using henclosed
  | stringLiteral =>
    obtain ⟨body, rfl, -⟩ := h
    exact isTrimmed_enclosed rfl rfl
  | charLiteral =>
    obtain ⟨c, rfl, -⟩ := h
    have henclosed : IsTrimmed ('\'' :: ([c] ++ ['\''])) := isTrimmed_enclosed rfl rfl
    exact henclosed
  | number => exact isTrimmed_of_forall (IsNumber.isPadding_of_mem h)
  | operator =>
    obtain ⟨o, rfl⟩ := h
    exact isTrimmed_of_forall (isPadding_of_solid Operator.solid)
  | separator =>
    obtain ⟨s, rfl⟩ := h
    exact isTrimmed_of_forall (isPadding_of_solid Separator.solid)
  | keyword =>
    obtain ⟨k, rfl⟩ := h
    exact isTrimmed_of_forall (isPadding_of_solid Keyword.solid)
  | identifier => exact isTrimmed_of_forall (IsIdentifier.isPadding_of_mem h)

namespace Grammar

/-- A lexeme of a trimmed line needs no trimming itself, so trimming the line took nothing away from
    it at either end. -/
theorem Begins.isTrimmed {lexeme rest : List Char} {category : Category}
    (h : Begins (lexeme ++ rest) (.accept category lexeme)) (hline : '\n' ∉ rest)
    (hend : ∀ c ∈ (lexeme ++ rest).getLast?, isPadding c = false) : IsTrimmed lexeme := by
  obtain ⟨r, hfits⟩ := h.exists_fits
  exact hfits.isTrimmed hline hend

/-- Whatever follows it, a lexeme starts in a character that is no padding. -/
theorem Begins.exists_visible_front {lexeme rest : List Char} {category : Category}
    (h : Begins (lexeme ++ rest) (.accept category lexeme)) :
    ∃ c ∈ lexeme.head?, isPadding c = false := by
  obtain ⟨r, -, hopens, -⟩ := h.exists_rule (by simp)
  obtain ⟨c, hc, hfamily⟩ := hopens.exists_lead
  rw [List.head?_append_of_ne_nil _ h.lexeme_ne_nil] at hc
  exact ⟨c, hc, Rule.isPadding_of_familyOf? hfamily⟩

end Grammar
end Ginti
