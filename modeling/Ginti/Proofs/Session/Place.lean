import Ginti.Proofs.Lexer.Progress
import Ginti.Proofs.Session.Calls

namespace Ginti

/-- A place that is not before one that is not before a third is not before the third. -/
theorem Spot.not_before_trans {a b c : Spot} (hab : ¬ b.Before a) (hbc : ¬ c.Before b) :
    ¬ c.Before a := by
  simp only [Before] at hab hbc ⊢
  omega

/-- The characters of a line between two columns. -/
def Text.slice (line : List Char) (start stop : Nat) : List Char :=
  (line.drop start).take (stop - start)

namespace Cursor

variable {c next : Cursor} {text rest : List Char} {lines : List (List Char)}

/-- The cursor has gone over a text on its line, which lies between the two columns. -/
structure Passes (c : Cursor) (text : List Char) (next : Cursor) : Prop where
  lines_eq : next.lines = c.lines
  line_eq : next.line = c.line
  col_eq : next.col = c.col + text.length
  slice : text = Text.slice c.current c.col next.col

/-- A cursor that moves over what is in front of it passes just that. -/
theorem passes_advance (hsplit : c.rest = text ++ rest) :
    c.Passes text (c.advance text.length) where
  lines_eq := rfl
  line_eq := rfl
  col_eq := rfl
  slice := by
    have hcount : (c.advance text.length).col - c.col = text.length := Nat.add_sub_cancel_left _ _
    rw [Text.slice, hcount]
    change text = c.rest.take text.length
    rw [hsplit, List.take_left]

theorem add_length_le (hcol : c.col ≤ c.current.length) (hsplit : c.rest = text ++ rest) :
    c.col + text.length ≤ c.current.length := by
  cases text with
  | nil => exact hcol
  | cons char text => exact col_add_length_le hsplit (List.cons_ne_nil char text)

/-- Within its line a cursor is at the end exactly if it has the column of the end. -/
theorem rest_eq_nil_iff (hcol : c.col ≤ c.current.length) :
    c.rest = [] ↔ c.col = c.current.length := by
  rw [rest, List.drop_eq_nil_iff]
  omega

/-- There is nothing more to read at the end of the last line, and only there. -/
theorem Within.hasMore_iff (h : c.Within lines) :
    c.hasMore = false ↔ c.line + 1 = max 1 lines.length ∧ c.col = c.current.length := by
  have hline := h.line_lt
  have hcol := h.col_le
  simp only [hasMore, atLineEnd, onLastLine, h.lines_eq, Bool.not_eq_false', Bool.and_eq_true,
    decide_eq_true_eq]
  omega

end Cursor

namespace Session

variable {t u : Session} {c : Call} {a : Answer} {lines : List (List Char)}

/-- A call keeps the cursor within the lines. -/
theorem Answers.within (h : t.Answers c a u) (ht : t.cursor.Within lines) :
    u.cursor.Within lines := by
  cases h with
  | passed _ hsplit => exact ⟨ht.lines_eq, ht.line_lt, Cursor.add_length_le ht.col_le hsplit⟩
  | skipped => exact ⟨ht.lines_eq, ht.line_lt, Nat.le_refl _⟩
  | nextLine _ hline =>
    rw [ht.lines_eq] at hline
    exact ⟨ht.lines_eq, Nat.lt_of_lt_of_le hline (Nat.le_max_right _ _), Nat.zero_le _⟩
  | _ => exact ht

/-- No call takes the cursor back, if it is not past the end of its line. -/
theorem Answers.not_before (h : t.Answers c a u) (hcol : t.cursor.col ≤ t.cursor.current.length) :
    ¬ u.cursor.toSpot.Before t.cursor.toSpot := by
  cases h with
  | passed => simp [Spot.Before, Cursor.advance]
  | skipped => simpa [Spot.Before, Cursor.skipLine] using hcol
  | nextLine => simp [Spot.Before]
  | _ => simp [Spot.Before]

/-- Where nothing is found the cursor stays. -/
theorem Answers.unmoved (h : t.Answers c a u) (hskip : c ≠ .skipLine) (ha : a.refuses = true) :
    u.cursor = t.cursor := by
  cases h with
  | passed hreads _ => cases hreads <;> cases ha
  | skipped => exact absurd rfl hskip
  | nextLine => cases ha
  | _ => rfl

/-- Where something is found the cursor goes over it. -/
theorem Answers.passes (h : t.Answers c a u) (hc : c.reads = true) (ha : a.refuses = false) :
    ∃ text, t.cursor.Reads c a text ∧ t.cursor.Passes text u.cursor := by
  cases h with
  | passed hreads hsplit => exact ⟨_, hreads, Cursor.passes_advance hsplit⟩
  | refused _ hrefuses => cases ha.symm.trans hrefuses
  | looked hlooks => cases (Call.looks_eq_false hc).symm.trans hlooks
  | _ => cases hc

/-- Only going to the next line changes the line. -/
theorem Answers.eq_nextLine (h : t.Answers c a u) (hline : u.cursor.line ≠ t.cursor.line) :
    c = .nextLine ∧ a = .flag true := by
  cases h with
  | nextLine => exact ⟨rfl, rfl⟩
  | _ => exact absurd rfl hline

/-- The next line is reached exactly from the end of a line that is not the last. -/
theorem Answers.nextLine_iff (h : t.Answers .nextLine a u) :
    a = .flag true ↔ t.cursor.rest = [] ∧ t.cursor.line + 1 < t.cursor.lines.length := by
  cases h with
  | passed hreads _ => cases hreads
  | refused hcall _ => cases hcall
  | looked hcall => cases hcall
  | nextLine hrest hline => exact ⟨fun _ => ⟨hrest, hline⟩, fun _ => rfl⟩
  | sameLine hkept =>
    constructor
    · intro hflag
      cases hflag
    · intro hends
      exact absurd (hkept hends.1) (Nat.not_le.mpr hends.2)

theorem Answers.of_nextLine (h : t.Answers .nextLine (.flag true) u) :
    u.cursor.toSpot = ⟨t.cursor.line + 1, 0⟩ := by
  cases h with
  | passed hreads _ => cases hreads
  | refused hcall _ => cases hcall
  | looked hcall => cases hcall
  | nextLine => rfl

/-- At the end of the last line no call moves the cursor. -/
theorem Answers.stays (h : t.Answers c a u) (ht : t.cursor.Within lines)
    (hend : t.cursor.hasMore = false) : u.cursor = t.cursor := by
  obtain ⟨hline, hcol⟩ := ht.hasMore_iff.mp hend
  have hrest := (Cursor.rest_eq_nil_iff ht.col_le).mpr hcol
  cases h with
  | passed _ hsplit =>
    rw [hrest] at hsplit
    rw [(List.append_eq_nil_iff.mp hsplit.symm).1]
    rfl
  | skipped =>
    have hskip : t.cursor.skipLine = { t.cursor with col := t.cursor.col } := by
      rw [Cursor.skipLine, hcol]
    exact hskip
  | nextLine _ hnext =>
    rw [ht.lines_eq] at hnext
    omega
  | _ => rfl

/-- A cursor on one of the lines stays on them. -/
theorem after_within (ht : t.cursor.Within lines) (cs : List Call) :
    (t.after cs).cursor.Within lines :=
  after_keeps (fun u => u.cursor.Within lines) Answers.within ht cs

/-- However many calls there are, the cursor does not go back. -/
theorem after_not_before (ht : t.cursor.Within lines) (cs : List Call) :
    ¬ (t.after cs).cursor.toSpot.Before t.cursor.toSpot := by
  have hkept : (t.after cs).cursor.Within lines ∧
      ¬ (t.after cs).cursor.toSpot.Before t.cursor.toSpot := by
    refine after_keeps (fun u => u.cursor.Within lines ∧
      ¬ u.cursor.toSpot.Before t.cursor.toSpot) ?_ ⟨ht, by simp [Spot.Before]⟩ cs
    intro u v c a h hu
    exact ⟨h.within hu.1, Spot.not_before_trans hu.2 (h.not_before hu.1.col_le)⟩
  exact hkept.2

/-- A cursor at the end of the last line is at rest. -/
theorem after_stays (ht : t.cursor.Within lines) (hend : t.cursor.hasMore = false)
    (cs : List Call) : (t.after cs).cursor = t.cursor := by
  refine after_keeps (fun u => u.cursor = t.cursor) ?_ rfl cs
  intro u v c a h hu
  rw [← hu] at ht hend
  exact (h.stays ht hend).trans hu

/-- A session whose cursor is on one of some lines, with what each call and any number of calls do
    to its place. -/
structure KeepsPlace (t : Session) (lines : List (List Char)) : Prop where
  within : t.cursor.lines = lines ∧ t.cursor.line < max 1 lines.length ∧
    t.cursor.col ≤ t.cursor.current.length
  not_before : ∀ cs, ¬ (t.after cs).cursor.toSpot.Before t.cursor.toSpot
  unmoved : ∀ c, c ≠ .skipLine → (t.call c).1.refuses = true → (t.call c).2.cursor = t.cursor
  passes : ∀ c, c.reads = true → (t.call c).1.refuses = false →
    ∃ text, t.cursor.Reads c (t.call c).1 text ∧ t.cursor.Passes text (t.call c).2.cursor
  eq_nextLine : ∀ c, (t.call c).2.cursor.line ≠ t.cursor.line →
    c = .nextLine ∧ (t.call c).1 = .flag true
  nextLine_iff : (t.call .nextLine).1 = .flag true ↔
    t.cursor.col = t.cursor.current.length ∧ t.cursor.line + 1 < lines.length
  nextLine : (t.call .nextLine).1 = .flag true →
    (t.call .nextLine).2.cursor.toSpot = ⟨t.cursor.line + 1, 0⟩
  hasMore_iff : t.cursor.hasMore = false ↔
    t.cursor.line + 1 = max 1 lines.length ∧ t.cursor.col = t.cursor.current.length
  stays : t.cursor.hasMore = false → ∀ cs, (t.after cs).cursor = t.cursor

/-- Whatever is called, a session keeps its place on the trimmed lines of a source once it starts
    there. -/
theorem keeps_place (s : Source) (spot : Spot) (hline : spot.line < max 1 s.lines.length)
    (hcol : spot.col ≤ ((s.trimmed[spot.line]?).getD []).length) (cs : List Call) :
    ((start s.trimmed spot).after cs).KeepsPlace s.trimmed := by
  have hstart : (start s.trimmed spot).cursor.Within s.trimmed := by
    refine ⟨rfl, ?_, hcol⟩
    rwa [Source.trimmed, List.length_map]
  have hwithin := after_within hstart cs
  generalize (start s.trimmed spot).after cs = t at hwithin
  constructor
  case within => exact ⟨hwithin.lines_eq, hwithin.line_lt, hwithin.col_le⟩
  case not_before => exact after_not_before hwithin
  case unmoved => exact fun c => (t.answers_call c).unmoved
  case passes => exact fun c => (t.answers_call c).passes
  case eq_nextLine => exact fun c => (t.answers_call c).eq_nextLine
  case nextLine_iff =>
    rw [← Cursor.rest_eq_nil_iff hwithin.col_le, ← hwithin.lines_eq]
    exact (t.answers_call .nextLine).nextLine_iff
  case nextLine =>
    intro hflag
    have hanswers := t.answers_call .nextLine
    rw [hflag] at hanswers
    exact hanswers.of_nextLine
  case hasMore_iff => exact hwithin.hasMore_iff
  case stays => exact after_stays hwithin

/-- A start in the middle of a line, behind its padding, and a literal that is not closed. -/
theorem two_lines_keep_place :
    0 < max 1 (Source.mk Source.anonymous ["\tharf an", "'x"]).lines.length ∧
    4 ≤ (((Source.mk Source.anonymous ["\tharf an", "'x"]).trimmed[0]?).getD []).length ∧
    ((start (Source.mk Source.anonymous ["\tharf an", "'x"]).trimmed ⟨0, 4⟩).after
      [.skipBlanks, .attempt .identifier, .nextLine, .attempt .charLiteral]).cursor.toSpot =
        ⟨1, 0⟩ ∧
    ((start (Source.mk Source.anonymous ["\tharf an", "'x"]).trimmed ⟨0, 4⟩).after
      [.skipBlanks, .attempt .identifier, .nextLine, .attempt .charLiteral]).KeepsPlace
        (Source.mk Source.anonymous ["\tharf an", "'x"]).trimmed := by
  have hcol :
      4 ≤ (((Source.mk Source.anonymous ["\tharf an", "'x"]).trimmed[0]?).getD []).length := by
    decide +kernel
  exact ⟨by decide, hcol, by decide +kernel, keeps_place _ ⟨0, 4⟩ (by decide) hcol _⟩

end Session
end Ginti
