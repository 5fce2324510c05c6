import Ginti.Proofs.Grammar.Cutting
import Ginti.Proofs.Lexer.Lines
import Ginti.Proofs.Lexer.Spacing

namespace Ginti

open Grammar Text

/-- The same place some columns further to the right. -/
def Position.right (count : Nat) (p : Position) : Position :=
  ⟨p.line, p.column + count⟩

def Spot.right (count : Nat) (s : Spot) : Spot :=
  ⟨s.line, s.col + count⟩

/-- The token as it is if its line has so many characters in front of it. -/
def Token.right (count : Nat) (t : Token) : Token :=
  { t with position := t.position.right count }

/-- The diagnostic as it is if its line has so many characters in front of it. -/
def Diagnostic.right (count : Nat) (d : Diagnostic) : Diagnostic :=
  { d with position := d.position.right count }

theorem Spot.position_right (count : Nat) (s : Spot) :
    (s.right count).position = s.position.right count := by
  simp only [right, position, Position.right, Position.ofOffsets, Position.mk.injEq, true_and]
  omega

namespace Grammar

variable {text : List Char} {pieces before after : List Piece}

theorem placeLine_right (count line col : Nat) (pieces : List Piece) :
    placeLine line (col + count) pieces =
      (placeLine line col pieces).map (moved (Spot.right count)) := by
  induction pieces generalizing col with
  | nil => rfl
  | cons piece pieces ih =>
    have hnext : col + count + piece.text.length = col + piece.text.length + count := by omega
    rw [placeLine, hnext, ih]
    rfl

/-- Blanks at the end of a line give rise to nothing. -/
theorem eventsOf_placeLine_append_blanks (line col : Nat) (core : List Piece) (gap : List Char) :
    eventsOf (placeLine line col (core ++ gap.map .blank)) = eventsOf (placeLine line col core) := by
  have hblanks := eventsOf_placeLine_blanks line (col + (textOf core).length) gap []
  rw [List.append_nil] at hblanks
  rw [placeLine_append, eventsOf_append, hblanks]
  exact List.append_nil _

/-- What is read off the pieces of a line is what is read off those in front of a gap and, moved to
    their columns, off those behind it. -/
theorem outputs_placeLine_append (line : Nat) (core : List Piece) (gap : List Char)
    (after : List Piece) {count : Nat} (hcount : count = (textOf (core ++ gap.map .blank)).length) :
    (placeLine line 0 (core ++ gap.map .blank ++ after)).filterMap tokenAt? =
        (placeLine line 0 core).filterMap tokenAt? ++
          ((placeLine line 0 after).filterMap tokenAt?).map (Token.right count) ∧
      diagnosticsOf (placeLine line 0 (core ++ gap.map .blank ++ after)) =
        diagnosticsOf (placeLine line 0 core) ++
          (diagnosticsOf (placeLine line 0 after)).map (Diagnostic.right count) := by
  have hblanks := eventsOf_placeLine_append_blanks line 0 core gap
  rw [placeLine_append, placeLine_right, ← hcount, List.filterMap_append, diagnosticsOf_append,
    tokens_moved (Spot.position_right count), diagnosticsOf_moved (Spot.position_right count)]
  constructor
  · rw [← tokens_eventsOf, hblanks, tokens_eventsOf]
    rfl
  · rw [diagnosticsOf, ← problems_eventsOf, hblanks, problems_eventsOf]
    rfl

/-- Trimming a text takes away the padding behind the last piece that does not end in padding. -/
theorem exists_trim_textOf (hstart : ∀ c ∈ (textOf pieces).head?, isPadding c = false)
    (hend : ∀ piece ∈ pieces,
      (∃ c, piece = .blank c) ∨ ∃ c ∈ piece.text.getLast?, isPadding c = false) :
    ∃ (core : List Piece) (gap : List Char),
      pieces = core ++ gap.map .blank ∧ trim (textOf pieces) = textOf core := by
  -- From the last piece backwards: padding joins the gap, and the first other piece ends the core.
  induction pieces using List.reverseRecOn with
  | nil => exact ⟨[], [], rfl, rfl⟩
  | append_singleton pieces piece ih =>
    have htext : textOf (pieces ++ [piece]) = textOf pieces ++ piece.text := by
      rw [textOf_append, textOf_cons, textOf_nil, List.append_nil]
    have hlast : (∃ c, piece = .blank c ∧ isPadding c = true) ∨
        ∃ c ∈ piece.text.getLast?, isPadding c = false := by
      obtain ⟨c, rfl⟩ | hvisible := hend piece (by simp)
      · cases hpadding : isPadding c
        · exact .inr ⟨c, rfl, hpadding⟩
        · exact .inl ⟨c, rfl, hpadding⟩
      · exact .inr hvisible
    obtain ⟨c, rfl, hpadding⟩ | ⟨c, hc, hpadding⟩ := hlast
    · rw [htext] at hstart
      obtain ⟨core, gap, hpieces, htrim⟩ := ih
        (fun d hd => hstart d (List.mem_head?_append_of_mem_head? hd))
        (fun other hother => hend other (List.mem_append_left _ hother))
      refine ⟨core, gap ++ [c], by simp [hpieces], ?_⟩
      have hnone : ∀ d ∈ ([] : List Char), isPadding d = true := by simp
      have hback : ∀ d ∈ [c], isPadding d = true := by
        intro d hd
        rwa [List.mem_singleton.mp hd]
      rw [htext, ← htrim]
      exact trim_padded hnone hback
    · refine ⟨pieces ++ [piece], [], by simp, trim_of_isTrimmed ⟨hstart, ?_⟩⟩
      intro d hd
      rw [htext, List.mem_getLast?_append_of_mem_getLast? hc] at hd
      cases hd
      exact hpadding

theorem exists_last_of_isTrimmed (h : IsTrimmed text) (hne : text ≠ []) :
    ∃ c ∈ text.getLast?, isPadding c = false := by
  obtain ⟨c, hc⟩ := Option.ne_none_iff_exists'.mp (mt List.getLast?_eq_none_iff.mp hne)
  exact ⟨c, hc, h.last c hc⟩

/-- On a trimmed line whose tokens are visible, each piece is a blank or does not end in padding. -/
theorem Divides.ends_visibly (h : Divides text pieces) (htrimmed : IsTrimmed text)
    (hline : '\n' ∉ text)
    (hvisible : ∀ piece ∈ kept pieces, ∃ c ∈ piece.text, isPadding c = false)
    {piece : Piece} (hpiece : piece ∈ pieces) :
    (∃ c, piece = .blank c) ∨ ∃ c ∈ piece.text.getLast?, isPadding c = false := by
  have hkept (hcategory : piece.category?.isSome = true) :
      ∃ c ∈ piece.text.getLast?, isPadding c = false := by
    have hmem : piece ∈ kept pieces := List.mem_filter.mpr ⟨hpiece, hcategory⟩
    have htoken := h.isTrimmed_of_mem_kept htrimmed hline hmem (hvisible piece hmem)
    obtain ⟨c, hc, -⟩ := hvisible piece hmem
    exact exists_last_of_isTrimmed htoken (List.ne_nil_of_mem hc)
  cases piece with
  | blank c => exact .inl ⟨c, rfl⟩
  | lexeme category lexeme => exact .inr (hkept rfl)
  | unknown c => exact .inr (hkept rfl)
  | dropped fault tail =>
    obtain ⟨before, after, rfl⟩ := List.append_of_mem hpiece
    obtain ⟨rest, rfl, hrest⟩ := h.of_append
    obtain ⟨rfl, -, hbegins⟩ := hrest.begins_of_dropped
    have hne := hbegins.ne_nil (by simp)
    obtain ⟨c, hc, hpadding⟩ := exists_last_of_isTrimmed htrimmed (by simp [hne])
    rw [List.getLast?_append_of_ne_nil _ hne] at hc
    exact .inr ⟨c, hc, hpadding⟩

/-- In front of a piece, what is before it is divided as it was, but for the blanks that a new trim
    takes away. -/
theorem Divides.trim_front {piece : Piece} (h : Divides text (before ++ piece :: after))
    (htrimmed : IsTrimmed text) (hline : '\n' ∉ text)
    (hvisible : ∀ other ∈ kept (before ++ piece :: after), ∃ c ∈ other.text, isPadding c = false) :
    ∃ (core : List Piece) (gap : List Char),
      before = core ++ gap.map .blank ∧ Divides (trim (textOf before)) core := by
  have hstart : ∀ c ∈ (textOf before).head?, isPadding c = false := by
    obtain ⟨rest, rfl, -⟩ := h.of_append
    exact fun c hc => htrimmed.head c (List.mem_head?_append_of_mem_head? hc)
  obtain ⟨core, gap, rfl, htrim⟩ := exists_trim_textOf hstart fun other hother =>
    h.ends_visibly htrimmed hline hvisible (List.mem_append_left _ hother)
  refine ⟨core, gap, rfl, ?_⟩
  rw [List.append_assoc] at h
  rw [htrim]
  exact h.cut (by simp)

/-- From a visible token on, a trimmed line needs no trimming. -/
theorem Divides.trim_back {piece : Piece} (h : Divides text (before ++ piece :: after))
    (htrimmed : IsTrimmed text) (hline : '\n' ∉ text)
    (hpiece : piece ∈ kept (before ++ piece :: after))
    (hvisible : ∃ c ∈ piece.text, isPadding c = false) :
    Divides (trim (textOf (piece :: after))) (piece :: after) := by
  obtain ⟨rest, rfl, hrest⟩ := h.of_append
  have htoken := h.isTrimmed_of_mem_kept htrimmed hline hpiece hvisible
  have hne := hrest.text_ne_nil
  rw [hrest.textOf_eq, trim_of_isTrimmed]
  · exact hrest
  · rw [← hrest.textOf_eq] at htrimmed ⊢
    constructor
    · rw [textOf_cons, List.head?_append_of_ne_nil _ hne]
      exact htoken.head
    · have hbehind : textOf (piece :: after) ≠ [] := by simp [hne]
      rw [← List.getLast?_append_of_ne_nil (textOf before) hbehind]
      exact htrimmed.last

end Grammar

namespace Source

/-- The source of what stands on a line before a column, which is counted from zero. -/
def frontOf (line : String) (p : Nat) : Source :=
  ofLine (String.ofList (line.toList.take p))

/-- The source of what stands on a line from a column on. -/
def backOf (line : String) (p : Nat) : Source :=
  ofLine (String.ofList (line.toList.drop p))

theorem visible_of_mem_kept {line : String} {pieces : List Piece}
    (h : Divides (trim line.toList) pieces)
    (hvisible : ∀ token ∈ (ofLine line).tokens, ∃ c ∈ token.text.toList, isPadding c = false) :
    ∀ piece ∈ kept pieces, ∃ c ∈ piece.text, isPadding c = false := by
  intro piece hpiece
  have htexts : (ofLine line).tokens.map (·.text.toList) = (kept pieces).map Piece.text := by
    rw [(outputs_ofLine h).1]
    exact map_tokens_placeLine (fun _ _ _ _ => String.toList_ofList) 0 pieces
  have htext := List.mem_map_of_mem (f := Piece.text) hpiece
  rw [← htexts] at htext
  obtain ⟨token, htoken, htokenText⟩ := List.mem_map.mp htext
  rw [← htokenText]
  exact hvisible token htoken

/-- The token at a column is that of a piece behind so much text. -/
theorem exists_piece_at_column {line : String} {pieces : List Piece}
    (h : Divides (trim line.toList) pieces) {token : Token} (htoken : token ∈ (ofLine line).tokens)
    {p : Nat} (hp : token.position.column = p + 1) :
    ∃ before piece after, pieces = before ++ piece :: after ∧ p = (textOf before).length ∧
      piece ∈ kept pieces := by
  rw [(outputs_ofLine h).1, List.mem_filterMap] at htoken
  obtain ⟨⟨spot, piece⟩, hplaced, hpiece⟩ := htoken
  obtain ⟨category, hcategory, rfl⟩ := tokenAt?_eq_some_iff.mp hpiece
  obtain ⟨before, after, rfl, rfl⟩ := mem_placeLine_iff.mp hplaced
  refine ⟨before, piece, after, rfl, ?_, List.mem_filter.mpr ⟨by simp, ?_⟩⟩
  · simp only [Spot.position_column] at hp
    omega
  · exact Option.isSome_iff_exists.mpr ⟨category, hcategory⟩

/-- A trimmed line may be cut in front of any of its tokens, if they are visible: what is read in
    front of the cut and what is read behind it, moved back to its columns, is all that is read. -/
theorem reads_in_halves (line : String) (hline : trim line.toList = line.toList)
    (hunbroken : Unbroken line.toList)
    (hvisible : ∀ token ∈ (ofLine line).tokens, ∃ c ∈ token.text.toList, isPadding c = false)
    (p : Nat) (hp : ∃ token ∈ (ofLine line).tokens, token.position.column = p + 1) :
    (ofLine line).tokens =
        (frontOf line p).tokens ++ (backOf line p).tokens.map (Token.right p) ∧
      (ofLine line).diagnostics =
        (frontOf line p).diagnostics ++ (backOf line p).diagnostics.map (Diagnostic.right p) := by
  obtain ⟨pieces, hpieces⟩ := (ofLine line).exists_divides_lineAt 0
  have hdivides : Divides (trim line.toList) pieces := hpieces
  have htrimmed : IsTrimmed line.toList := hline ▸ isTrimmed_trim line.toList
  have hnewline := hunbroken.not_mem_newline
  obtain ⟨token, htoken, hcolumn⟩ := hp
  obtain ⟨before, piece, after, rfl, hlength, hmem⟩ := exists_piece_at_column hdivides htoken hcolumn
  obtain ⟨htokens, hdiagnostics⟩ := outputs_ofLine hdivides
  have hkept := visible_of_mem_kept hdivides hvisible
  rw [hline] at hdivides
  have htext : line.toList = textOf before ++ textOf (piece :: after) := by
    rw [← textOf_append, hdivides.textOf_eq]
  have hfrontText : (String.ofList (line.toList.take p)).toList = textOf before := by
    rw [String.toList_ofList, htext, hlength, List.take_left]
  have hbackText : (String.ofList (line.toList.drop p)).toList = textOf (piece :: after) := by
    rw [String.toList_ofList, htext, hlength, List.drop_left]
  -- The front loses the blanks at its end to the trim, and these stand for no token.
  obtain ⟨core, gap, rfl, hfront⟩ := hdivides.trim_front htrimmed hnewline hkept
  have hback := hdivides.trim_back htrimmed hnewline hmem (hkept piece hmem)
  rw [← hfrontText] at hfront
  rw [← hbackText] at hback
  obtain ⟨hfrontTokens, hfrontDiagnostics⟩ := outputs_ofLine hfront
  obtain ⟨hbackTokens, hbackDiagnostics⟩ := outputs_ofLine hback
  rw [htokens, hdiagnostics, frontOf, backOf, hfrontTokens, hfrontDiagnostics, hbackTokens,
    hbackDiagnostics]
  exact outputs_placeLine_append 0 core gap (piece :: after) hlength

/-- A line with a wide space, a narrow one, and a literal that is given up. -/
private def gapped : String :=
  "an1\u3000 = 1'"

private theorem gapped_tokens : (ofLine gapped).tokens =
    [⟨.identifier, "an1", ⟨1, 1⟩⟩, ⟨.operator, "=", ⟨1, 6⟩⟩, ⟨.number, "1", ⟨1, 8⟩⟩] := by
  have htrimmed : trim gapped.toList = ['a', 'n', '1', '\u3000', ' ', '=', ' ', '1', '\''] := by
    decide +kernel
  have hstart {c : Char} {rest : List Char} (hc : isBlank c = false) :
      ∀ d ∈ (c :: rest).head?, isBlank d = false := by
    intro d hd
    cases hd
    exact hc
  have hdivides : Divides ['a', 'n', '1', '\u3000', ' ', '=', ' ', '1', '\'']
      [.lexeme .identifier ['a', 'n', '1'], .blank '\u3000', .blank ' ', .lexeme .operator ['='],
        .blank ' ', .lexeme .number ['1'], .dropped .invalidChar ['\'']] := by
    refine .lexeme (hstart rfl) (judge_standard_eq_iff.mp rfl) rfl ?_
    refine .blank rfl (.blank rfl ?_)
    refine .lexeme (hstart rfl) (judge_standard_eq_iff.mp rfl) rfl (.blank rfl ?_)
    refine .lexeme (hstart rfl) (judge_standard_eq_iff.mp rfl) rfl ?_
    exact .dropped (hstart rfl) (judge_standard_eq_iff.mp rfl)
  rw [← htrimmed] at hdivides
  rw [(outputs_ofLine hdivides).1]
  decide +kernel

/-- The cut is behind a narrow space and one that is no padding, and in front of a literal that is
    given up. -/
theorem gapped_reads_in_halves :
    trim "an1\u3000 = 1'".toList = "an1\u3000 = 1'".toList ∧
    Unbroken "an1\u3000 = 1'".toList ∧
    (∀ token ∈ (ofLine "an1\u3000 = 1'").tokens, ∃ c ∈ token.text.toList, isPadding c = false) ∧
    (∃ token ∈ (ofLine "an1\u3000 = 1'").tokens, token.position.column = (5 : Nat) + 1) ∧
    (ofLine "an1\u3000 = 1'").tokens =
      (ofLine "an1\u3000 ").tokens ++ (ofLine "= 1'").tokens.map (Token.right 5) ∧
    (ofLine "an1\u3000 = 1'").diagnostics =
      (ofLine "an1\u3000 ").diagnostics ++ (ofLine "= 1'").diagnostics.map (Diagnostic.right 5) := by
  have hline : trim gapped.toList = gapped.toList := by decide +kernel
  have hunbroken : Unbroken gapped.toList := by
    have hall : gapped.toList.all fun c => !isLineBreak c := by decide +kernel
    intro c hc
    simpa using List.all_eq_true.mp hall c hc
  have hvisible : ∀ token ∈ (ofLine gapped).tokens, ∃ c ∈ token.text.toList, isPadding c = false := by
    have hall : (ofLine gapped).tokens.all fun token =>
        token.text.toList.any fun c => !isPadding c := by
      rw [gapped_tokens]
      decide +kernel
    intro token htoken
    obtain ⟨c, hc, hpadding⟩ := List.any_eq_true.mp (List.all_eq_true.mp hall token htoken)
    exact ⟨c, hc, by simpa using hpadding⟩
  have hcut : ∃ token ∈ (ofLine gapped).tokens, token.position.column = (5 : Nat) + 1 := by
    rw [gapped_tokens]
    exact ⟨_, List.mem_cons_of_mem _ List.mem_cons_self, rfl⟩
  have hfront : frontOf gapped 5 = ofLine "an1\u3000 " := by decide +kernel
  have hback : backOf gapped 5 = ofLine "= 1'" := by decide +kernel
  obtain ⟨htokens, hdiagnostics⟩ := reads_in_halves gapped hline hunbroken hvisible 5 hcut
  rw [hfront, hback] at htokens hdiagnostics
  exact ⟨hline, hunbroken, hvisible, hcut, htokens, hdiagnostics⟩

end Source
end Ginti
