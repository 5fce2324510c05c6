import Ginti.Proofs.Lexer.Lines
import Ginti.Proofs.Lexer.Spacing

namespace Ginti

open Grammar Text

/-- What a token is and on which line it stands, whatever its column. -/
def Token.reading (t : Token) : Category × String × Int :=
  (t.category, t.text, t.position.line)

namespace Source

/-- The texts of the tokens of a line. -/
def textsOn (s : Source) (n : Nat) : List (List Char) :=
  (s.tokensOn n).map (·.text.toList)

/-- So many lines of a text in which each line holds the texts of the tokens of that line, with
    gaps of its own between them. -/
def respaced (s : Source) (gaps : Nat → Nat → Gap) (count : Nat) : String :=
  String.ofList (joinLines ((List.range count).map fun n => spaced (gaps n) (s.textsOn n)))

/-- A source reads like another one whose tokens were written with gaps between them. -/
structure Respaces (r s : Source) (gaps : Nat → Nat → Gap) : Prop where
  alike : r.tokens.map Token.reading = s.tokens.map Token.reading
  columns : ∀ n i token, (r.tokensOn n)[i]? = some token →
    token.position.column = 1 + (offsetOf (gaps n) (r.textsOn n) i : Int)
  /-- Only unknown tokens are reported, and all of them are. -/
  reports : r.diagnostics = (r.tokens.filter (·.category = .unknown)).map Token.unknownReport
  /-- Written once more, with whatever gaps, the text is what it would have been at first. -/
  again : ∀ gaps count, r.respaced gaps count = s.respaced gaps count

/-- A source whose tokens can be written line by line within so many lines. -/
structure Writable (s : Source) (count : Nat) : Prop where
  unbroken : ∀ n, Unbroken (s.lineAt n).toList
  visible : ∀ token ∈ s.tokens, ∃ c ∈ token.text.toList, isPadding c = false
  reached : ∀ token ∈ s.tokens, token.position.line ≤ count

section Lines

variable {r s : Source}

theorem readings_eq_of_lines
    (h : ∀ n, (r.tokensOn n).map Token.reading = (s.tokensOn n).map Token.reading) :
    r.tokens.map Token.reading = s.tokens.map Token.reading := by
  have hleft := (outputs_eq_flatMap (Nat.le_max_left r.lines.length s.lines.length)).1
  have hright := (outputs_eq_flatMap (Nat.le_max_right r.lines.length s.lines.length)).1
  rw [hleft, hright, List.map_flatMap, List.map_flatMap]
  exact List.flatMap_congr fun n _ => h n

theorem diagnostics_eq_of_lines
    (h : ∀ n, r.diagnosticsOn n =
      ((r.tokensOn n).filter (·.category = .unknown)).map Token.unknownReport) :
    r.diagnostics = (r.tokens.filter (·.category = .unknown)).map Token.unknownReport := by
  obtain ⟨htokens, hdiagnostics⟩ := outputs_eq_flatMap (Nat.le_refl r.lines.length)
  rw [hdiagnostics, htokens, List.filter_flatMap, List.map_flatMap]
  exact List.flatMap_congr fun n _ => h n

theorem respaced_eq_of_lines (h : ∀ n, r.textsOn n = s.textsOn n) (gaps : Nat → Nat → Gap)
    (count : Nat) : r.respaced gaps count = s.respaced gaps count := by
  simp only [respaced, h]

end Lines

theorem toList_lineAt_ofText (filename text : String) (n : Nat) :
    ((ofText filename text).lineAt n).toList = ((Text.lines text.toList)[n]?).getD [] := by
  rw [lineAt, ofText, List.getElem?_map]
  cases (Text.lines text.toList)[n]? with
  | none => rfl
  | some line => exact String.toList_ofList

theorem unbroken_lineAt_ofText (filename text : String) (n : Nat) :
    Unbroken ((ofText filename text).lineAt n).toList := by
  rw [toList_lineAt_ofText]
  cases hline : (Text.lines text.toList)[n]? with
  | none =>
    intro c hc
    cases hc
  | some line => exact unbroken_of_mem_lines (List.mem_of_getElem? hline)

/-- The texts of the tokens of a line are those of the pieces that are kept of it. -/
theorem textsOn_of_divides {s : Source} {n : Nat} {pieces : List Piece}
    (h : Divides (trim (s.lineAt n).toList) pieces) :
    s.textsOn n = (kept pieces).map Piece.text := by
  rw [textsOn, (outputsOn_of_divides h).1]
  apply map_tokens_placeLine
  intro piece category col _
  exact String.toList_ofList

namespace Writable

variable {s : Source} {count n : Nat} {gaps : Nat → Nat → Gap} {pieces : List Piece}

theorem unbroken_of_mem_textsOn (h : s.Writable count) {text : List Char}
    (htext : text ∈ s.textsOn n) : Unbroken text := by
  obtain ⟨pieces, hpieces⟩ := s.exists_divides_lineAt n
  rw [textsOn_of_divides hpieces] at htext
  obtain ⟨piece, hpiece, rfl⟩ := List.mem_map.mp htext
  intro c hc
  apply h.unbroken n
  apply mem_of_mem_trim
  rw [← hpieces.textOf_eq]
  exact List.mem_flatMap.mpr ⟨piece, (List.mem_filter.mp hpiece).1, hc⟩

theorem textsOn_eq_nil (h : s.Writable count) (hn : count ≤ n) : s.textsOn n = [] := by
  rw [textsOn, List.map_eq_nil_iff, List.eq_nil_iff_forall_not_mem]
  intro token htoken
  obtain ⟨hmem, hline⟩ := mem_tokensOn_iff.mp htoken
  have hreached := h.reached token hmem
  omega

/-- Each line of what is written holds the tokens of its own line. -/
theorem lineAt_respaced (h : s.Writable count) (filename : String) (gaps : Nat → Nat → Gap)
    (n : Nat) : ((ofText filename (s.respaced gaps count)).lineAt n).toList =
      spaced (gaps n) (s.textsOn n) := by
  have hunbroken : ∀ line ∈ (List.range count).map fun n => spaced (gaps n) (s.textsOn n),
      Unbroken line := by
    intro line hline
    obtain ⟨m, -, rfl⟩ := List.mem_map.mp hline
    exact unbroken_spaced (gaps m) fun text => h.unbroken_of_mem_textsOn
  rw [toList_lineAt_ofText, respaced, String.toList_ofList, getD_lines_joinLines hunbroken,
    List.getElem?_map]
  by_cases hn : n < count
  · rw [List.getElem?_range hn]
    rfl
  · have hend : count ≤ n := Nat.not_lt.mp hn
    rw [h.textsOn_eq_nil hend, List.getElem?_eq_none (by simpa using hend)]
    rfl

/-- A written line is divided into the pieces kept of the old line and the blanks of the gaps, so
    what is kept can be read again. -/
theorem divides_respaced (h : s.Writable count) (filename : String) (gaps : Nat → Nat → Gap)
    (hpieces : Divides (trim (s.lineAt n).toList) pieces) :
    Divides (trim ((ofText filename (s.respaced gaps count)).lineAt n).toList)
      (respace (gaps n) (kept pieces)) := by
  rw [h.lineAt_respaced, textsOn_of_divides hpieces]
  apply divides_spaced hpieces (h.unbroken n)
  intro piece hpiece
  have htext : piece.text ∈ s.textsOn n := by
    rw [textsOn_of_divides hpieces]
    exact List.mem_map_of_mem hpiece
  obtain ⟨token, htoken, htokenText⟩ := List.mem_map.mp htext
  rw [← htokenText]
  exact h.visible token (mem_tokensOn_iff.mp htoken).1

/-- What is written reads as what was read, line by line. -/
theorem readingsOn_respaced (h : s.Writable count) (filename : String) (gaps : Nat → Nat → Gap)
    (n : Nat) : ((ofText filename (s.respaced gaps count)).tokensOn n).map Token.reading =
      (s.tokensOn n).map Token.reading := by
  obtain ⟨pieces, hpieces⟩ := s.exists_divides_lineAt n
  have hwritten := h.divides_respaced filename gaps hpieces
  have hreadings (pieces : List Piece) :
      ((placeLine n 0 pieces).filterMap tokenAt?).map Token.reading =
        (kept pieces).map fun piece =>
          (piece.category?.getD .unknown, String.ofList piece.text, (n : Int) + 1) := by
    apply map_tokens_placeLine
    intro piece category col hcategory
    rw [hcategory]
    rfl
  rw [(outputsOn_of_divides hwritten).1, (outputsOn_of_divides hpieces).1, hreadings, hreadings,
    kept_respace, kept_kept]

theorem textsOn_respaced (h : s.Writable count) (filename : String) (gaps : Nat → Nat → Gap)
    (n : Nat) : (ofText filename (s.respaced gaps count)).textsOn n = s.textsOn n := by
  obtain ⟨pieces, hpieces⟩ := s.exists_divides_lineAt n
  rw [textsOn_of_divides (h.divides_respaced filename gaps hpieces), textsOn_of_divides hpieces,
    kept_respace, kept_kept]

/-- A token stands behind the texts and gaps that were written before it. -/
theorem column_respaced (h : s.Writable count) (filename : String) {i : Nat} {token : Token}
    (htoken : ((ofText filename (s.respaced gaps count)).tokensOn n)[i]? = some token) :
    token.position.column = 1 + (offsetOf (gaps n) (s.textsOn n) i : Int) := by
  obtain ⟨pieces, hpieces⟩ := s.exists_divides_lineAt n
  rw [(outputsOn_of_divides (h.divides_respaced filename gaps hpieces)).1] at htoken
  have hkept : ∀ piece ∈ kept pieces, piece.category?.isSome = true :=
    fun piece hpiece => (List.mem_filter.mp hpiece).2
  have hcolumn := column_of_respace hkept htoken
  rw [hcolumn, textsOn_of_divides hpieces]
  omega

/-- What is written is reported for its unknown characters only, since what was given up is gone. -/
theorem diagnosticsOn_respaced (h : s.Writable count) (filename : String)
    (gaps : Nat → Nat → Gap) (n : Nat) :
    (ofText filename (s.respaced gaps count)).diagnosticsOn n =
      (((ofText filename (s.respaced gaps count)).tokensOn n).filter (·.category = .unknown)).map
        Token.unknownReport := by
  obtain ⟨pieces, hpieces⟩ := s.exists_divides_lineAt n
  have hwritten := h.divides_respaced filename gaps hpieces
  obtain ⟨htokens, hdiagnostics⟩ := outputsOn_of_divides hwritten
  rw [hdiagnostics, htokens]
  apply hwritten.diagnosticsOf_eq
  intro fault tail hmem
  obtain hkept | ⟨c, hblank⟩ := mem_respace hmem
  · cases (List.mem_filter.mp hkept).2
  · cases hblank

end Writable

/-- Lexing what was lexed: if no token of a text is blank, its tokens may be written line by line
    with any gaps between them and are read again, each where it was written. Nothing is reported
    then but the unknown tokens, and writing once more changes nothing. -/
theorem respaced_reads_alike (filename text other : String) (gaps : Nat → Nat → Gap) (count : Nat)
    (hvisible : ∀ token ∈ (ofText filename text).tokens,
      ∃ c ∈ token.text.toList, isPadding c = false)
    (hcount : ∀ token ∈ (ofText filename text).tokens, token.position.line ≤ count) :
    Respaces (ofText other ((ofText filename text).respaced gaps count)) (ofText filename text)
      gaps := by
  have h : (ofText filename text).Writable count :=
    ⟨unbroken_lineAt_ofText filename text, hvisible, hcount⟩
  generalize ofText filename text = s at h ⊢
  constructor
  case alike => exact readings_eq_of_lines (h.readingsOn_respaced other gaps)
  case columns =>
    intro n i token htoken
    rw [h.textsOn_respaced]
    exact h.column_respaced other htoken
  case reports => exact diagnostics_eq_of_lines (h.diagnosticsOn_respaced other gaps)
  case again => exact respaced_eq_of_lines (h.textsOn_respaced other gaps)

/-- The gap of one space. -/
def oneSpace : Gap where
  chars := [' ']
  ne_nil := List.cons_ne_nil _ _
  blank c hc := by
    rw [List.mem_singleton.mp hc]
    rfl
  unbroken c hc := by
    rw [List.mem_singleton.mp hc]
    rfl

/-- Tokens that touch each other, an unknown character, and a line that is given up behind it. -/
private def crowded : Source :=
  ofText anonymous "harf+an1\n\t§\"x y"

private theorem crowded_tokens : crowded.tokens =
    [⟨.keyword, "harf", ⟨1, 1⟩⟩, ⟨.operator, "+", ⟨1, 5⟩⟩, ⟨.identifier, "an1", ⟨1, 6⟩⟩,
      ⟨.unknown, "§", ⟨2, 1⟩⟩] := by
  have htrimmed : crowded.trimmed =
      [['h', 'a', 'r', 'f', '+', 'a', 'n', '1'], ['§', '"', 'x', ' ', 'y']] := by
    decide +kernel
  have hstart {c : Char} {rest : List Char} (hc : isBlank c = false) :
      ∀ d ∈ (c :: rest).head?, isBlank d = false := by
    intro d hd
    cases hd
    exact hc
  have hfirst : Divides ['h', 'a', 'r', 'f', '+', 'a', 'n', '1']
      [.lexeme .keyword ['h', 'a', 'r', 'f'], .lexeme .operator ['+'],
        .lexeme .identifier ['a', 'n', '1']] := by
    refine .lexeme (hstart rfl) (judge_standard_eq_iff.mp rfl) rfl ?_
    refine .lexeme (hstart rfl) (judge_standard_eq_iff.mp rfl) rfl ?_
    exact .lexeme (hstart rfl) (judge_standard_eq_iff.mp rfl) rfl .done
  have hsecond : Divides ['§', '"', 'x', ' ', 'y']
      [.unknown '§', .dropped .unterminatedString ['"', 'x', ' ', 'y']] := by
    refine .unknown rfl (judge_standard_eq_iff.mp rfl) ?_
    exact .dropped (hstart rfl) (judge_standard_eq_iff.mp rfl)
  have hdivides := List.Forall₂.cons hfirst (.cons hsecond .nil)
  rw [← htrimmed] at hdivides
  rw [(laidOut_of_divides hdivides).tokens]
  decide +kernel

/-- Two lines, the second of which is given up at a quote, are written with a space between each two
    tokens. -/
theorem crowded_respaced_reads_alike :
    (∀ token ∈ (ofText anonymous "harf+an1\n\t§\"x y").tokens,
      ∃ c ∈ token.text.toList, isPadding c = false) ∧
    (∀ token ∈ (ofText anonymous "harf+an1\n\t§\"x y").tokens,
      token.position.line ≤ (2 : Nat)) ∧
    (ofText anonymous "harf+an1\n\t§\"x y").respaced (fun _ _ => oneSpace) 2 =
      "harf + an1\n§" ∧
    Respaces (ofText anonymous
        ((ofText anonymous "harf+an1\n\t§\"x y").respaced (fun _ _ => oneSpace) 2))
      (ofText anonymous "harf+an1\n\t§\"x y") fun _ _ => oneSpace := by
  have hvisible : ∀ token ∈ crowded.tokens, ∃ c ∈ token.text.toList, isPadding c = false := by
    have hall : crowded.tokens.all fun token =>
        token.text.toList.any fun c => !isPadding c := by
      rw [crowded_tokens]
      decide +kernel
    intro token htoken
    obtain ⟨c, hc, hpadding⟩ := List.any_eq_true.mp (List.all_eq_true.mp hall token htoken)
    exact ⟨c, hc, by simpa using hpadding⟩
  have hcount : ∀ token ∈ crowded.tokens, token.position.line ≤ (2 : Nat) := by
    have hall : crowded.tokens.all fun token => token.position.line ≤ (2 : Nat) := by
      rw [crowded_tokens]
      decide
    intro token htoken
    simpa using List.all_eq_true.mp hall token htoken
  refine ⟨hvisible, hcount, ?_, respaced_reads_alike _ _ _ _ _ hvisible hcount⟩
  change crowded.respaced (fun _ _ => oneSpace) 2 = "harf + an1\n§"
  simp only [respaced, textsOn, tokensOn, crowded_tokens]
  decide +kernel

end Source
end Ginti
