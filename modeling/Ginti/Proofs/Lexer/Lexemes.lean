import Ginti.Proofs.Lexer.Outputs

namespace Ginti

open Grammar

theorem Rule.Decides.category_eq {r : Rule} {text lexeme : List Char} {category : Category}
    (h : r.Decides text (.accept category lexeme)) : r.category = category := by
  cases h
  rfl

namespace Grammar

/-- An identifier is read only where no keyword comes next, since keywords are tried before. -/
theorem Begins.of_identifier {text lexeme : List Char}
    (h : Begins text (.accept .identifier lexeme)) :
    (∃ rest, text = lexeme ++ rest ∧ IsIdentifier lexeme rest) ∧
      ∀ keyword : Keyword, ¬ keyword.spelling.toList <+: text := by
  have hcategories : ∀ r ∈ rules.dropLast, r.category ≠ .identifier := by decide
  have hothers : ∀ r ∈ rules.dropLast, ¬ r.Decides text (.accept .identifier lexeme) :=
    fun r hr hdecides => hcategories r hr hdecides.category_eq
  have hrules : FirstDecides text (rules.dropLast ++ [.identifier]) (.accept .identifier lexeme) := h
  obtain ⟨hcloses, hlast⟩ := hrules.of_append hothers
  have hkeyword : ¬ Rule.keyword.Opens text := hcloses .keyword (by decide)
  refine ⟨?_, fun keyword hprefix => hkeyword ⟨keyword, hprefix⟩⟩
  obtain ⟨r, hr, -, hdecides⟩ := hlast.exists_rule (by simp)
  rw [List.mem_singleton.mp hr] at hdecides
  cases hdecides with
  | accept htext hfits => exact ⟨_, htext, hfits⟩

/-- Each identifier is a valid name to declare. -/
theorem isName_of_isIdentifier {lexeme rest : List Char} (h : IsIdentifier lexeme rest) :
    isName lexeme = true := by
  obtain ⟨c, tail, rfl, hlower, hrun⟩ := h
  rw [isName, hlower, Bool.true_and, List.all_eq_true]
  exact hrun.inside

end Grammar

namespace Source

variable {s : Source} {token : Token}

/-- A token's text stands somewhere in a trimmed line. -/
theorem exists_line_of_mem_tokens (h : token ∈ s.tokens) :
    ∃ line ∈ s.trimmed, token.text.toList <:+: line := by
  obtain ⟨placed, hplaced⟩ := s.exists_laidOut
  obtain ⟨x, hx, category, -, rfl⟩ := hplaced.mem_tokens_iff.mp h
  obtain ⟨line, after, hline, -, -⟩ := hplaced.layout.inLine x hx
  have hslice := (hplaced.layout.inLine x hx).slice hline
  refine ⟨line, List.mem_of_getElem? hline, ?_⟩
  rw [String.toList_ofList, ← hslice]
  exact (List.take_prefix _ _).isInfix.trans (List.drop_suffix _ _).isInfix

/-- The text of a token that is not unknown is what the line has as its lexeme there. -/
theorem exists_begins_of_mem_tokens (h : token ∈ s.tokens) (hknown : token.category ≠ .unknown) :
    ∃ rest, Begins (token.text.toList ++ rest) (.accept token.category token.text.toList) := by
  obtain ⟨placed, hplaced⟩ := s.exists_laidOut
  obtain ⟨⟨spot, piece⟩, hx, category, hcategory, rfl⟩ := hplaced.mem_tokens_iff.mp h
  obtain ⟨line, after, -, -, hdivides⟩ := hplaced.layout.inLine _ hx
  simp only at hdivides
  generalize line.drop spot.col = text at hdivides
  cases hdivides with
  | blank => cases hcategory
  | @lexeme _ lexeme rest other _ _ hbegins htext _ =>
    cases hcategory
    refine ⟨rest, ?_⟩
    simpa only [Piece.text, String.toList_ofList, ← htext] using hbegins
  | unknown =>
    cases hcategory
    exact absurd rfl hknown
  | dropped => cases hcategory

end Source
end Ginti
