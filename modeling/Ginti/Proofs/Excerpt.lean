import Ginti.Excerpt
import Ginti.Proofs.Lexer.Lines
import Ginti.Proofs.Lexer.Reports
import Ginti.Proofs.Listing
import Ginti.Proofs.Text.Trim

namespace Ginti

open Grammar

namespace Text

variable {last : List Char}

/-- What stands behind the last line feed of a text. -/
def lastLine (text : List Char) : List Char :=
  text.rtakeWhile (· ≠ '\n')

/-- What stands before the last line and the line feed in front of it. -/
def beforeLastLine (text : List Char) : List Char :=
  (text.rdropWhile (· ≠ '\n')).dropLast

theorem lastLine_append (front : List Char) (h : '\n' ∉ last) :
    lastLine (front ++ '\n' :: last) = last :=
  rtakeWhile_append_delimiter front h

theorem beforeLastLine_append (front : List Char) (h : '\n' ∉ last) :
    beforeLastLine (front ++ '\n' :: last) = front := by
  rw [beforeLastLine, rdropWhile_append_delimiter front h, List.dropLast_concat]

end Text

theorem length_padLeft (width : Nat) (text : String) :
    (padLeft width text).length = max width text.length := by
  rw [padLeft, String.length_append, String.length_ofList, List.length_replicate]
  omega

/-- The gutter of a quoted line grows with a number of more than five digits. -/
theorem length_lineGutter (line : Int) :
    (lineGutter line).length = max 5 (toString line).length + 3 := by
  rw [lineGutter, String.length_append, length_padLeft]
  rfl

theorem not_mem_lineGutter (line : Int) : '\n' ∉ (lineGutter line).toList := by
  rw [lineGutter, padLeft, String.toList_append, String.toList_append, String.toList_ofList,
    List.mem_append, List.mem_append, List.mem_replicate]
  rintro ((⟨-, h⟩ | h) | h)
  · exact absurd h (by decide)
  · exact Listing.oneLine_int line h
  · exact absurd h (by decide)

/-- The positive numbers with at most five digits. -/
theorem length_toString_le_five_iff {line : Int} (hline : 0 < line) :
    (toString line).length ≤ 5 ↔ line < 100000 := by
  obtain ⟨n, rfl⟩ := Int.eq_ofNat_of_zero_le (Int.le_of_lt hline)
  change (Nat.repr n).length ≤ 5 ↔ _
  rw [Nat.length_repr_le_iff (by decide)]
  omega

/-- The line that an excerpt quotes, with its gutter. -/
def quotedLine (shown : List Char) : List Char :=
  Text.lastLine (Text.beforeLastLine shown)

/-- How many characters stand before the caret. -/
def caretOffset (shown : List Char) : Nat :=
  (Text.lastLine shown).idxOf '^'

namespace Diagnostic

variable {s : Source} {d : Diagnostic} {text : List Char}

/-- The diagnostic is about one of the characters of a trimmed line of a source. -/
structure IsAbout (d : Diagnostic) (s : Source) (text : List Char) : Prop where
  line_pos : 0 < d.position.line
  line_eq : s.trimmed[(d.position.line - 1).toNat]? = some text
  column_pos : 1 ≤ d.position.column
  column_le : d.position.column ≤ text.length

/-- The caret stands under the column of the diagnostic in the quoted line. -/
def PointsAt (d : Diagnostic) (s : Source) (text : List Char) : Prop :=
  ∃ gutter, quotedLine (d.renderIn s).toList = gutter ++ text ∧
    caretOffset (d.renderIn s).toList = gutter.length + (d.position.column - 1).toNat

/-- A diagnostic about a line is shown with the line and the caret below it. -/
theorem IsAbout.renderIn_eq (h : d.IsAbout s text) :
    ∃ summary, (d.renderIn s).toList =
      (summary ++ '\n' :: ((lineGutter d.position.line).toList ++ text)) ++ '\n' ::
        (caretGutter.toList ++ List.replicate (d.position.column - 1).toNat ' ' ++ ['^']) := by
  obtain ⟨line, hline, rfl⟩ : ∃ line, s.lines[(d.position.line - 1).toNat]? = some line ∧
      Text.trim line.toList = text := by
    have htrimmed := h.line_eq
    rwa [Source.trimmed, List.getElem?_map, Option.map_eq_some_iff] at htrimmed
  have hnewline : "\n".toList = ['\n'] := rfl
  have hcaret : "^".toList = ['^'] := rfl
  refine ⟨(s.filename ++ ":" ++ toString d.position.line ++ ":" ++ toString d.position.column ++
    ": " ++ d.message).toList, ?_⟩
  simp only [renderIn, if_pos h.line_pos, hline, excerpt, String.toList_append, hnewline, hcaret,
    String.toList_ofList, List.append_assoc, List.cons_append, List.nil_append]

theorem not_mem_indented {c : Char} (hgutter : c ∉ caretGutter.toList) (hspace : c ≠ ' ')
    (count : Nat) : c ∉ caretGutter.toList ++ List.replicate count ' ' := by
  rw [List.mem_append, List.mem_replicate]
  rintro (h | ⟨-, h⟩)
  · exact hgutter h
  · exact hspace h

theorem not_mem_caretLine (count : Nat) :
    '\n' ∉ caretGutter.toList ++ List.replicate count ' ' ++ ['^'] := by
  rw [List.mem_append, not_or]
  exact ⟨not_mem_indented (by decide) (by decide) count, by decide⟩

/-- The second line from the end quotes the line that the diagnostic is about. -/
theorem IsAbout.quotedLine_eq (h : d.IsAbout s text) (htext : '\n' ∉ text) :
    quotedLine (d.renderIn s).toList = (lineGutter d.position.line).toList ++ text := by
  obtain ⟨summary, hshown⟩ := h.renderIn_eq
  have hquoted : '\n' ∉ (lineGutter d.position.line).toList ++ text := by
    rw [List.mem_append, not_or]
    exact ⟨not_mem_lineGutter _, htext⟩
  rw [quotedLine, hshown, Text.beforeLastLine_append _ (not_mem_caretLine _),
    Text.lastLine_append _ hquoted]

/-- The gutter of the caret line is eight characters wide, whatever the number of the line is. -/
theorem IsAbout.caretOffset_eq (h : d.IsAbout s text) :
    caretOffset (d.renderIn s).toList = 8 + (d.position.column - 1).toNat := by
  obtain ⟨summary, hshown⟩ := h.renderIn_eq
  rw [caretOffset, hshown, Text.lastLine_append _ (not_mem_caretLine _),
    List.idxOf_append_of_notMem (not_mem_indented (by decide) (by decide) _), List.length_append,
    List.length_replicate]
  rfl

/-- The caret stands as many columns too far left as the number of the line has digits beyond
    five. -/
theorem IsAbout.caretOffset_add (h : d.IsAbout s text) :
    caretOffset (d.renderIn s).toList + ((toString d.position.line).length - 5) =
      (lineGutter d.position.line).length + (d.position.column - 1).toNat := by
  rw [h.caretOffset_eq, length_lineGutter]
  omega

/-- The gutter of a quoted line grows with its number and that of the caret line does not, so the
    caret stands under its column exactly if the number has at most five digits. -/
theorem IsAbout.pointsAt_iff (h : d.IsAbout s text) (htext : '\n' ∉ text) :
    d.PointsAt s text ↔ d.position.line < 100000 := by
  have hoffset := h.caretOffset_add
  rw [PointsAt, h.quotedLine_eq htext, ← length_toString_le_five_iff h.line_pos]
  constructor
  · rintro ⟨gutter, hgutter, hcaret⟩
    have hlength := congrArg List.length (List.append_cancel_right hgutter)
    rw [String.length_toList] at hlength
    omega
  · intro hdigits
    refine ⟨_, rfl, ?_⟩
    rw [String.length_toList]
    omega

/-- Each diagnostic of a source is about one of its lines. -/
theorem exists_isAbout (hd : d ∈ s.diagnostics) : ∃ text, d.IsAbout s text := by
  obtain ⟨placed, hplaced⟩ := s.exists_laidOut
  obtain ⟨n, text, htext, hline, hlo, hhi⟩ := hplaced.diagnostic_inside hd
  have hindex : (d.position.line - 1).toNat = n := by omega
  exact ⟨text, by omega, by rwa [hindex], hlo, hhi⟩

end Diagnostic

namespace Source

/-- Where the carets under the lines of a source stand. -/
structure PlacesCarets (s : Source) : Prop where
  /-- What is reported by the lexer is about a character. -/
  reported : ∀ d ∈ s.diagnostics, ∃ text, d.IsAbout s text
  quoted : ∀ (d : Diagnostic) (text : List Char), d.IsAbout s text →
    quotedLine (d.renderIn s).toList = (lineGutter d.position.line).toList ++ text
  /-- Digits beyond five leave the caret behind. -/
  caret : ∀ (d : Diagnostic) (text : List Char), d.IsAbout s text →
    caretOffset (d.renderIn s).toList + ((toString d.position.line).length - 5) =
      (lineGutter d.position.line).length + (d.position.column - 1).toNat
  pointsAt_iff : ∀ (d : Diagnostic) (text : List Char), d.IsAbout s text →
    (d.PointsAt s text ↔ d.position.line < 100000)

/-- The caret points at the column that a diagnostic is about exactly up to line 99999. -/
theorem places_carets (s : Source) (hlines : ∀ line ∈ s.lines, '\n' ∉ line.toList) :
    s.PlacesCarets := by
  have htext {d : Diagnostic} {text : List Char} (h : d.IsAbout s text) : '\n' ∉ text := by
    have hmem := List.mem_of_getElem? h.line_eq
    obtain ⟨line, hline, rfl⟩ := List.mem_map.mp hmem
    exact fun hnewline => hlines line hline (Text.mem_of_mem_trim hnewline)
  constructor
  case reported => exact fun d => Diagnostic.exists_isAbout
  case quoted => exact fun d text h => h.quotedLine_eq (htext h)
  case caret => exact fun d text h => h.caretOffset_add
  case pointsAt_iff => exact fun d text h => h.pointsAt_iff (htext h)

/-- Columns count from the first character that is no padding, also under an indented line. -/
theorem padded_line_places_carets :
    (∀ line ∈ (Source.mk anonymous ["Ginti x;", "    x = @;"]).lines, '\n' ∉ line.toList) ∧
    (Diagnostic.mk "Unrecognized token: @" ⟨2, 5⟩).PointsAt
      (Source.mk anonymous ["Ginti x;", "    x = @;"]) "x = @;".toList := by
  have hlines : ∀ line ∈ (Source.mk anonymous ["Ginti x;", "    x = @;"]).lines,
      '\n' ∉ line.toList := by decide
  have habout : (Diagnostic.mk "Unrecognized token: @" ⟨2, 5⟩).IsAbout
      (Source.mk anonymous ["Ginti x;", "    x = @;"]) "x = @;".toList :=
    ⟨by decide, by decide +kernel, by decide, by decide⟩
  exact ⟨hlines, ((places_carets _ hlines).pointsAt_iff _ _ habout).mpr (by decide)⟩

/-- Nothing but an unknown character, far down. -/
private def farDown : Source :=
  ⟨anonymous, List.replicate 99999 "" ++ ["@"]⟩

private theorem mem_farDown_diagnostics :
    ⟨"Unrecognized token: @", ⟨100000, 1⟩⟩ ∈ farDown.diagnostics := by
  have hdivides : Divides (Text.trim "@".toList) [.unknown '@'] :=
    .unknown rfl (judge_standard_eq_iff.mp rfl) .done
  have hreport : (ofLine "@").diagnostics = [⟨"Unrecognized token: @", ⟨1, 1⟩⟩] :=
    (outputs_ofLine hdivides).2
  have happend : farDown.lines = (Source.mk anonymous (List.replicate 99999 "")).lines ++
      (ofLine "@").lines := rfl
  rw [(outputs_append happend).2, hreport, List.length_replicate]
  exact List.mem_append_right _ List.mem_cons_self

/-- On line 100000 the caret of a report of the lexer does not stand under its column. -/
theorem far_caret_misses :
    (∀ line ∈ farDown.lines, '\n' ∉ line.toList) ∧
    ⟨"Unrecognized token: @", ⟨100000, 1⟩⟩ ∈ farDown.diagnostics ∧
    (Diagnostic.mk "Unrecognized token: @" ⟨100000, 1⟩).IsAbout farDown ['@'] ∧
    ¬ (Diagnostic.mk "Unrecognized token: @" ⟨100000, 1⟩).PointsAt farDown ['@'] := by
  have hlines : ∀ line ∈ farDown.lines, '\n' ∉ line.toList := by
    intro line hline
    obtain hline | hline := List.mem_append.mp hline
    · rw [(List.mem_replicate.mp hline).2]
      decide
    · rw [List.mem_singleton.mp hline]
      decide
  have hlast : farDown.lines[99999]? = some "@" := by
    have hconcat := List.getElem?_concat_length (l := List.replicate 99999 "") (a := "@")
    rwa [List.length_replicate] at hconcat
  have htrimmed : farDown.trimmed[99999]? = some ['@'] := by
    rw [trimmed, List.getElem?_map, hlast]
    decide +kernel
  have habout : (Diagnostic.mk "Unrecognized token: @" ⟨100000, 1⟩).IsAbout farDown ['@'] :=
    ⟨by decide, htrimmed, by decide, by decide⟩
  refine ⟨hlines, mem_farDown_diagnostics, habout, ?_⟩
  rw [habout.pointsAt_iff (by decide)]
  decide

end Source
end Ginti
