import Ginti.Proofs.Lexer.Lexemes
import Ginti.Proofs.Symbol.Declared

namespace Ginti

open Grammar SymbolTable

namespace Source

variable {s : Source} {token : Token}

/-- An identifier of a source is a valid name and has no keyword at its front. -/
theorem isName_of_identifier (h : token ∈ s.tokens) (hidentifier : token.category = .identifier) :
    IsName token.text ∧ ∀ keyword : Keyword, ¬ keyword.spelling.toList <+: token.text.toList := by
  obtain ⟨rest, hbegins⟩ := exists_begins_of_mem_tokens h (by simp [hidentifier])
  rw [hidentifier] at hbegins
  obtain ⟨⟨after, -, hlexeme⟩, hkeywords⟩ := hbegins.of_identifier
  refine ⟨isName_iff.mp (isName_of_isIdentifier hlexeme), fun keyword hfront => ?_⟩
  exact hkeywords keyword (hfront.trans (List.prefix_append _ rest))

/-- What lexing reads as an identifier is a valid name, so no declaration of a lexed program is
    refused. -/
theorem isName_of_isSite {i : Fin s.tokens.length} (hsite : IsSite s.tokens i) :
    IsName s.tokens[i].text :=
  (isName_of_identifier (List.getElem_mem i.isLt) hsite.1).1

/-- No declaration site of a lexed program is reported. -/
theorem diagnosticsOf_tokens (s : Source) (nested : Bool) : diagnosticsOf nested s.tokens = [] := by
  rw [diagnosticsOf_eq, List.map_eq_nil_iff, List.filter_eq_nil_iff]
  intro i hi
  simpa using isName_of_isSite (mem_sites_iff.mp hi)

/-- What the table of a lexed program holds under a name. -/
structure Declares (s : Source) (name : String) (symbol : Symbol) : Prop where
  key : symbol.name = name
  valid : IsName name
  /-- Of the keywords only `harf` and `dekhao` are in lower case, but no name starts with any. -/
  free : ∀ keyword : Keyword, ¬ keyword.spelling.toList <+: name.toList
  spelled : ∃ token ∈ s.tokens, token.category = .identifier ∧ token.text = name
  typed : ∃ type : TypeKeyword, symbol.type = some type

/-- An entry of the table of a lexed program is complete: a valid name that is no keyword, a type,
    and an identifier that it comes from. -/
theorem declares_of_mem_entries {nested : Bool} {name : String} {symbol : Symbol}
    (h : (name, symbol) ∈ (ofTokens nested s.tokens).entries) : s.Declares name symbol := by
  obtain ⟨i, hlast, hdeclared⟩ := mem_entries_ofTokens_iff.mp h
  have htoken : s.tokens[i] ∈ s.tokens := List.getElem_mem i.isLt
  obtain ⟨hvalid, hfree⟩ := isName_of_identifier htoken hlast.site.1
  obtain ⟨_, type, -, -, htype⟩ := hdeclared.type
  rw [hlast.text] at hvalid hfree
  constructor
  case key => exact hdeclared.name.trans hlast.text
  case valid => exact hvalid
  case free => exact hfree
  case spelled => exact ⟨_, htoken, hlast.site.1, hlast.text⟩
  case typed => exact ⟨type, htype⟩

/-- Once a source has been lexed, collecting its declarations reports nothing, however often and
    however scopes are tracked: what has been reported is what lexing reported. Every entry of the
    table is well formed. -/
theorem collects_without_reports (s : Source) (nested : Bool) :
    diagnosticsOf nested s.tokens = [] ∧
      s.diagnostics ++ diagnosticsOf false s.tokens ++ diagnosticsOf true s.tokens =
        s.diagnostics ∧
      ∀ entry ∈ (ofTokens nested s.tokens).entries, s.Declares entry.1 entry.2 := by
  refine ⟨s.diagnosticsOf_tokens nested, ?_, fun _ => declares_of_mem_entries⟩
  rw [diagnosticsOf_tokens, diagnosticsOf_tokens, List.append_nil, List.append_nil]

end Source
end Ginti
