import Ginti.Proofs.Lexer.Reach
import Ginti.Proofs.Lexer.Tiling

namespace Ginti

open Grammar

/-- The report that goes with an unknown token. -/
def Token.unknownReport (t : Token) : Diagnostic :=
  ⟨"Unrecognized token: " ++ t.text, t.position⟩

/-- A report about the quote at a spot, which opens a string or a character. -/
def Source.ReportsQuote (s : Source) (n col : Nat) (d : Diagnostic) : Prop :=
  d.position = ⟨n + 1, col + 1⟩ ∧ ∃ text quote, s.trimmed[n]? = some text ∧
    text[col]? = some quote ∧
    (quote = '"' ∧ d.message = "Unterminated string literal" ∨
      quote = '\'' ∧ d.message = "Invalid character literal")

/-- What a source is reported for: its unknown tokens, and the lines that were given up. -/
structure Source.ReportsExactly (s : Source) : Prop where
  ordered : s.diagnostics.Pairwise fun a b : Diagnostic => a.position.Before b.position
  inside : ∀ d ∈ s.diagnostics, ∃ (n : Nat) (text : List Char), s.trimmed[n]? = some text ∧
    d.position.line = n + 1 ∧ 1 ≤ d.position.column ∧ d.position.column ≤ text.length
  unknown_text : ∀ token ∈ s.tokens, token.category = .unknown → token.text.length = 1
  reported : ∀ d, d ∈ s.diagnostics ↔
    (∃ token ∈ s.tokens, token.category = .unknown ∧ d = token.unknownReport) ∨
      ∃ n col, s.AbandonedAt n col ∧ s.ReportsQuote n col d
  /-- A line is given up once, after all its other reports and all its tokens. -/
  abandoned : ∀ n col, s.AbandonedAt n col →
    (∃ d ∈ s.diagnostics, s.ReportsQuote n col d) ∧
    (∀ other, s.AbandonedAt n other → other = col) ∧
    (∀ d ∈ s.diagnostics, d.position.line = n + 1 → d.position.column ≤ col + 1) ∧
    ∀ token ∈ s.tokens, token.position.line = n + 1 → token.position.column < col + 1
  silent : s.diagnostics = [] ↔ (∀ token ∈ s.tokens, token.category ≠ .unknown) ∧
    ∀ (n : Nat) (text : List Char) (offset : Nat) (c : Char), s.trimmed[n]? = some text →
      text[offset]? = some c → Text.isBlank c = false → ∃ token ∈ s.tokensOn n, token.Covers offset

theorem Source.ReportsQuote.isLiteralReport {s : Source} {n col : Nat} {d : Diagnostic}
    (h : s.ReportsQuote n col d) : d.IsLiteralReport := by
  obtain ⟨-, text, quote, -, -, ⟨-, hmessage⟩ | ⟨-, hmessage⟩⟩ := h
  · exact .inl hmessage
  · exact .inr hmessage

namespace Source.LaidOut

variable {s : Source} {placed : List (Spot × Piece)} {n col : Nat}

theorem unknown_token_iff (h : s.LaidOut placed) {token : Token} :
    token ∈ s.tokens ∧ token.category = .unknown ↔
      ∃ x ∈ placed, ∃ char, x.2 = .unknown char ∧
        token = ⟨.unknown, String.ofList [char], x.1.position⟩ := by
  rw [h.mem_tokens_iff]
  constructor
  · intro htoken
    obtain ⟨⟨⟨spot, piece⟩, hx, category, hcategory, rfl⟩, hunknown⟩ := htoken
    obtain ⟨line, after, -, -, hdivides⟩ := h.layout.inLine _ hx
    cases piece with
    | blank => cases hcategory
    | lexeme other text =>
      have hother : other = .unknown := (Option.some.inj hcategory).trans hunknown
      simp only at hdivides
      generalize line.drop spot.col = rest at hdivides
      cases hdivides with
      | lexeme _ hbegins _ _ => exact absurd hother hbegins.category_ne_unknown
    | unknown char =>
      cases hcategory
      exact ⟨_, hx, char, rfl, rfl⟩
    | dropped => cases hcategory
  · intro hpiece
    obtain ⟨⟨spot, piece⟩, hx, char, rfl, rfl⟩ := hpiece
    exact ⟨⟨_, hx, .unknown, rfl, rfl⟩, rfl⟩

/-- The quote report at a dropped piece is the report about its fault. -/
theorem reportsQuote_iff (h : s.LaidOut placed) {x : Spot × Piece} (hx : x ∈ placed)
    {fault : Fault} {tail : List Char} (hdropped : x.2 = .dropped fault tail) {d : Diagnostic} :
    s.ReportsQuote x.1.line x.1.col d ↔ d = ⟨fault.message, x.1.position⟩ := by
  obtain ⟨text, htext, hbegins⟩ := h.begins_of_dropped hx hdropped
  have hquote := hbegins.quote_of_reject
  rw [List.head?_drop] at hquote
  obtain ⟨message, position⟩ := d
  constructor
  · intro hreports
    obtain ⟨rfl, other, quote, hother, hat, hmessage⟩ := hreports
    have hsame : text = other := Option.some.inj (htext.symm.trans hother)
    rw [hsame, hat] at hquote
    obtain ⟨rfl, rfl⟩ | ⟨rfl, rfl⟩ := hmessage
    · obtain ⟨rfl, -⟩ | ⟨-, hwrong⟩ := hquote
      · rfl
      · cases hwrong
    · obtain ⟨-, hwrong⟩ | ⟨rfl, -⟩ := hquote
      · cases hwrong
      · rfl
  · intro hd
    obtain ⟨rfl, rfl⟩ := Diagnostic.mk.inj hd
    obtain ⟨rfl, hhead⟩ | ⟨rfl, hhead⟩ := hquote
    · exact ⟨rfl, text, _, htext, hhead, .inl ⟨rfl, rfl⟩⟩
    · exact ⟨rfl, text, _, htext, hhead, .inr ⟨rfl, rfl⟩⟩

/-- Each diagnostic is the report about an unknown token or about the quote at which a line is
    given up. -/
theorem reported_iff (h : s.LaidOut placed) {d : Diagnostic} :
    d ∈ s.diagnostics ↔
      (∃ token ∈ s.tokens, token.category = .unknown ∧ d = token.unknownReport) ∨
        ∃ n col, s.AbandonedAt n col ∧ s.ReportsQuote n col d := by
  rw [h.mem_diagnostics_iff]
  constructor
  · intro hreport
    obtain ⟨⟨spot, piece⟩, hx, fault, hfault, rfl⟩ := hreport
    cases piece with
    | blank => cases hfault
    | lexeme => cases hfault
    | unknown char =>
      obtain ⟨htoken, hcategory⟩ := h.unknown_token_iff.mpr ⟨_, hx, char, rfl, rfl⟩
      refine .inl ⟨_, htoken, hcategory, ?_⟩
      rw [← Option.some.inj hfault, Fault.message_unrecognized]
      rfl
    | dropped other tail =>
      cases hfault
      refine .inr ⟨spot.line, spot.col, ?_, (h.reportsQuote_iff hx rfl).mpr rfl⟩
      exact h.abandonedAt_iff.mpr ⟨_, hx, rfl, fault, tail, rfl⟩
  · intro hreport
    obtain ⟨token, htoken, hcategory, rfl⟩ | ⟨n, col, habandoned, hquote⟩ := hreport
    · obtain ⟨x, hx, char, hpiece, rfl⟩ := h.unknown_token_iff.mp ⟨htoken, hcategory⟩
      exact ⟨x, hx, _, congrArg Piece.fault? hpiece, rfl⟩
    · obtain ⟨⟨spot, piece⟩, hx, rfl, fault, tail, hdropped⟩ := h.abandonedAt_iff.mp habandoned
      have hreport := (h.reportsQuote_iff hx hdropped).mp hquote
      exact ⟨_, hx, fault, congrArg Piece.fault? hdropped, hreport⟩

/-- Nothing on a line that is given up comes at or after the place where it is. -/
theorem before_abandoned (h : s.LaidOut placed) (habandoned : s.AbandonedAt n col)
    {y : Spot × Piece} (hy : y ∈ placed) (hline : y.1.line = n) :
    y.1.col < col ∨ y.1 = ⟨n, col⟩ ∧ ∃ fault tail, y.2 = .dropped fault tail := by
  obtain ⟨x, hx, hspot, fault, tail, hdropped⟩ := h.abandonedAt_iff.mp habandoned
  by_cases hyx : y = x
  · subst hyx
    exact .inr ⟨hspot, fault, tail, hdropped⟩
  · have hsame : y.1.line = x.1.line := by rw [hline, hspot]
    have hend := h.layout.end_le_of_dropped hy hx hdropped hsame hyx
    have hpos := (h.layout.inLine y hy).length_pos
    rw [hspot] at hend
    simp only at hend
    left
    omega

/-- A line is given up once. -/
theorem abandonedAt_unique (h : s.LaidOut placed) {other : Nat}
    (habandoned : s.AbandonedAt n col) (hother : s.AbandonedAt n other) : other = col := by
  obtain ⟨x, hx, hxspot, -⟩ := h.abandonedAt_iff.mp habandoned
  obtain ⟨y, hy, hyspot, -⟩ := h.abandonedAt_iff.mp hother
  have hle := h.before_abandoned habandoned hy (congrArg Spot.line hyspot)
  have hge := h.before_abandoned hother hx (congrArg Spot.line hxspot)
  simp only [hxspot, hyspot, Spot.mk.injEq] at hle hge
  omega

/-- No report comes behind that of a line that is given up. -/
theorem report_le_abandoned (h : s.LaidOut placed) (habandoned : s.AbandonedAt n col)
    {d : Diagnostic} (hd : d ∈ s.diagnostics) (hline : d.position.line = n + 1) :
    d.position.column ≤ col + 1 := by
  obtain ⟨y, hy, _, -, rfl⟩ := h.mem_diagnostics_iff.mp hd
  rw [Spot.position_line] at hline
  rw [Spot.position_column]
  obtain hlt | ⟨hsame, -⟩ := h.before_abandoned habandoned hy (by omega)
  · omega
  · have hcol : y.1.col = col := congrArg Spot.col hsame
    omega

theorem token_lt_abandoned (h : s.LaidOut placed) (habandoned : s.AbandonedAt n col)
    {token : Token} (htoken : token ∈ s.tokens) (hline : token.position.line = n + 1) :
    token.position.column < col + 1 := by
  have hmem : token ∈ s.tokensOn n := mem_tokensOn_iff.mpr ⟨htoken, hline⟩
  obtain ⟨y, hy, hyline, category, hcategory, rfl⟩ := h.exists_piece_of_mem_tokensOn hmem
  rw [Spot.position_column]
  obtain hlt | ⟨-, fault, tail, hpiece⟩ := h.before_abandoned habandoned hy hyline
  · omega
  · rw [hpiece] at hcategory
    cases hcategory

/-- A line that is given up is reported at its quote. -/
theorem exists_report_of_abandoned (h : s.LaidOut placed) (habandoned : s.AbandonedAt n col) :
    ∃ d ∈ s.diagnostics, s.ReportsQuote n col d := by
  obtain ⟨x, hx, hspot, fault, tail, hdropped⟩ := h.abandonedAt_iff.mp habandoned
  have hquote := (h.reportsQuote_iff hx hdropped).mpr rfl
  rw [hspot] at hquote
  exact ⟨_, h.reported_iff.mpr (.inr ⟨n, col, habandoned, hquote⟩), hquote⟩

/-- Reports come in the order of their positions, and no two are about the same one. -/
theorem diagnostics_pairwise (h : s.LaidOut placed) :
    s.diagnostics.Pairwise fun a b : Diagnostic => a.position.Before b.position := by
  rw [h.diagnostics, diagnosticsOf, List.pairwise_map]
  apply h.layout.spots_pairwise.filterMap
  intro x y hxy a ha b hb
  obtain ⟨_, -, rfl⟩ := problemAt?_eq_some_iff.mp ha
  obtain ⟨_, -, rfl⟩ := problemAt?_eq_some_iff.mp hb
  exact hxy.position

/-- Each report is about a character of a trimmed line. -/
theorem diagnostic_inside (h : s.LaidOut placed) {d : Diagnostic} (hd : d ∈ s.diagnostics) :
    ∃ (n : Nat) (text : List Char), s.trimmed[n]? = some text ∧ d.position.line = n + 1 ∧
      1 ≤ d.position.column ∧ d.position.column ≤ text.length := by
  obtain ⟨x, hx, fault, -, rfl⟩ := h.mem_diagnostics_iff.mp hd
  obtain ⟨text, after, htext, -, -⟩ := h.layout.inLine x hx
  have hend := (h.layout.inLine x hx).end_le htext
  have hpos := (h.layout.inLine x hx).length_pos
  refine ⟨x.1.line, text, htext, rfl, ?_, ?_⟩
  · rw [Spot.position_column]
    omega
  · rw [Spot.position_column]
    omega

/-- The quote of a report is not blank, and no token covers it. -/
theorem exists_uncovered (h : s.LaidOut placed) {d : Diagnostic} (hd : d ∈ s.diagnostics)
    (hquote : s.ReportsQuote n col d) :
    ∃ text quote, s.trimmed[n]? = some text ∧ text[col]? = some quote ∧
      Text.isBlank quote = false ∧ ∀ token ∈ s.tokensOn n, ¬ token.Covers col := by
  have hliteral := hquote.isLiteralReport
  obtain ⟨hposition, text, quote, htext, hat, hmessage⟩ := hquote
  have hdline : d.position.line = n + 1 := congrArg Position.line hposition
  have hdcolumn : d.position.column = col + 1 := congrArg Position.column hposition
  obtain ⟨-, -, hbefore⟩ := h.tokens_before_literalReport htext hd hliteral hdline
  refine ⟨text, quote, htext, hat, ?_, ?_⟩
  · obtain ⟨rfl, -⟩ | ⟨rfl, -⟩ := hmessage
    · decide
    · decide
  · intro token htoken hcovers
    have hend := hbefore token htoken
    have hinside := hcovers.2
    omega

/-- Nothing is reported exactly if the tokens are all known and cover all that is not blank. -/
theorem diagnostics_eq_nil_iff (h : s.LaidOut placed) :
    s.diagnostics = [] ↔ (∀ token ∈ s.tokens, token.category ≠ .unknown) ∧
      ∀ (n : Nat) (text : List Char) (offset : Nat) (c : Char), s.trimmed[n]? = some text →
        text[offset]? = some c → Text.isBlank c = false →
          ∃ token ∈ s.tokensOn n, token.Covers offset := by
  rw [List.eq_nil_iff_forall_not_mem]
  constructor
  · intro hnone
    constructor
    · intro token htoken hunknown
      exact hnone _ (h.reported_iff.mpr (.inl ⟨token, htoken, hunknown, rfl⟩))
    · intro n text offset c htext hc hblank
      obtain hcovered | hisBlank | ⟨d, hd, -⟩ := h.covered_or_reported htext hc
      · exact hcovered
      · rw [hblank] at hisBlank
        cases hisBlank
      · exact absurd hd (hnone d)
  · intro hall d hd
    obtain ⟨hknown, hcovered⟩ := hall
    obtain ⟨token, htoken, hunknown, -⟩ | ⟨n, col, -, hquote⟩ := h.reported_iff.mp hd
    · exact hknown token htoken hunknown
    · obtain ⟨text, quote, htext, hat, hblank, hfree⟩ := h.exists_uncovered hd hquote
      obtain ⟨token, htoken, hcovers⟩ := hcovered n text col quote htext hat hblank
      exact hfree token htoken hcovers

end Source.LaidOut

/-- The diagnostics of a source are exactly its unknown tokens and the lines given up. -/
theorem Source.reports_exactly (s : Source) : s.ReportsExactly := by
  obtain ⟨placed, h⟩ := s.exists_laidOut
  constructor
  case ordered => exact h.diagnostics_pairwise
  case inside => exact fun d hd => h.diagnostic_inside hd
  case unknown_text =>
    intro token htoken hcategory
    obtain ⟨x, -, char, -, rfl⟩ := h.unknown_token_iff.mp ⟨htoken, hcategory⟩
    exact String.length_ofList
  case reported => exact fun d => h.reported_iff
  case abandoned =>
    intro n col habandoned
    refine ⟨h.exists_report_of_abandoned habandoned, ?_, ?_, ?_⟩
    · exact fun other => h.abandonedAt_unique habandoned
    · exact fun d hd => h.report_le_abandoned habandoned hd
    · exact fun token htoken => h.token_lt_abandoned habandoned htoken
  case silent => exact h.diagnostics_eq_nil_iff

end Ginti
