import Ginti.Proofs.Session.Place

namespace Ginti

namespace Text

variable {line : List Char} {start middle stop : Nat}

theorem slice_self (line : List Char) (col : Nat) : slice line col col = [] := by
  rw [slice, Nat.sub_self, List.take_zero]

theorem length_slice (start : Nat) (hstop : stop ≤ line.length) :
    (slice line start stop).length = stop - start := by
  rw [slice, List.length_take, List.length_drop]
  omega

/-- Slices that meet at a column make one slice. -/
theorem slice_append (hstart : start ≤ middle) (hstop : middle ≤ stop) :
    slice line start middle ++ slice line middle stop = slice line start stop := by
  have hcount : stop - start = (middle - start) + (stop - middle) := by omega
  have hmiddle : start + (middle - start) = middle := by omega
  rw [slice, slice, slice, hcount, List.take_add, List.drop_drop, hmiddle]

end Text

namespace Mark

variable {m moved : Mark} {c : Cursor} {category : Category} {token : Token}

/-- The cursor is further on in the line of the mark. -/
def Behind (m : Mark) (c : Cursor) : Prop :=
  m.spot.line = c.line ∧ m.spot.col < c.col

/-- Nothing can be collected unless the mark is behind the cursor on its line. -/
theorem collect_of_not_behind (h : ¬ m.Behind c) (category : Category) :
    m.collect category c = .error (.noText m.spot c.toSpot) := by
  rw [collect, if_pos]
  rw [Behind] at h
  omega

theorem behind_of_collect (h : m.collect category c = .ok (token, moved)) : m.Behind c := by
  by_contra hnot
  rw [collect_of_not_behind hnot] at h
  cases h

/-- The line of a mark that is behind the cursor exists, since there is a character on it. -/
theorem lines_get_of_behind (h : m.Behind c) (hcol : c.col ≤ c.current.length) :
    c.lines[m.spot.line]? = some c.current := by
  rw [h.1]
  cases hline : c.lines[c.line]? with
  | none =>
    have hnone : c.current.length = 0 := by simp [Cursor.current, hline]
    have hbehind := h.2
    omega
  | some line => simp [Cursor.current, hline]

/-- What lies between the mark and the cursor is collected, and the mark follows the cursor. -/
theorem collect_of_behind (h : m.Behind c) (hcol : c.col ≤ c.current.length)
    (category : Category) :
    m.collect category c =
      .ok (⟨category, String.ofList (Text.slice c.current m.spot.col c.col), m.spot.position⟩,
        c.mark) := by
  have hplace : ¬ (m.spot.line ≠ c.line ∨ c.col ≤ m.spot.col) := by
    obtain ⟨hline, hlt⟩ := h
    omega
  rw [collect, if_neg hplace, lines_get_of_behind h hcol]
  rfl

end Mark

/-- Tokens on one line, one behind the other: each starts where the one before it ends. -/
inductive Token.Adjoin : Spot → List Token → Spot → Prop where
  | nil (spot : Spot) : Adjoin spot [] spot
  | cons {start next stop : Spot} {token : Token} {tokens : List Token}
      (hposition : token.position = start.position) (hne : token.text ≠ "")
      (hline : next.line = start.line) (hcol : next.col = start.col + token.text.length)
      (tail : Adjoin next tokens stop) : Adjoin start (token :: tokens) stop

/-- Tokens that adjoin lead forward on one line. -/
theorem Token.Adjoin.le {start stop : Spot} {tokens : List Token} (h : Adjoin start tokens stop) :
    stop.line = start.line ∧ start.col ≤ stop.col := by
  induction h with
  | nil => exact ⟨rfl, Nat.le_refl _⟩
  | cons _ _ hline hcol _ ih => omega

namespace Session

variable {t u : Session} {c : Call} {a : Answer} {m : Mark} {index : Nat}
  {lines : List (List Char)}

/-- What holds of a session wherever it starts: no mark is on a later line than the cursor, and if
    one is behind the cursor, then the cursor is not past the end of the line. -/
structure Sound (t : Session) (lines : List (List Char)) : Prop where
  lines_eq : t.cursor.lines = lines
  line_le : ∀ m ∈ t.marks, m.spot.line ≤ t.cursor.line
  col_le : ∀ m ∈ t.marks, m.Behind t.cursor → t.cursor.col ≤ t.cursor.current.length

theorem start_sound (lines : List (List Char)) (spot : Spot) : (start lines spot).Sound lines where
  lines_eq := rfl
  line_le _ hm := by cases hm
  col_le _ hm := by cases hm

theorem not_behind_mark (c : Cursor) : ¬ c.mark.Behind c :=
  fun h => Nat.lt_irrefl _ h.2

/-- Marks may be made at the cursor or moved there. -/
theorem Sound.with_marks (ht : t.Sound lines) {marks : List Mark}
    (hmarks : ∀ m ∈ marks, m ∈ t.marks ∨ m = t.cursor.mark) :
    Sound { t with marks := marks } lines where
  lines_eq := ht.lines_eq
  line_le m hm := by
    obtain hm | rfl := hmarks m hm
    · exact ht.line_le m hm
    · exact Nat.le_refl _
  col_le m hm hbehind := by
    obtain hm | rfl := hmarks m hm
    · exact ht.col_le m hm hbehind
    · exact absurd hbehind (not_behind_mark _)

/-- A call keeps a session sound. A cursor past the end of its line can move only by going back to
    the end, or on to the next line. -/
theorem Answers.sound (h : t.Answers c a u) (ht : t.Sound lines) : u.Sound lines := by
  cases h with
  | @passed _ _ text rest _ hsplit =>
    refine ⟨ht.lines_eq, ht.line_le, fun m hm hbehind => ?_⟩
    cases text with
    | nil => exact ht.col_le m hm hbehind
    | cons char text => exact Cursor.col_add_length_le hsplit (List.cons_ne_nil char text)
  | skipped => exact ⟨ht.lines_eq, ht.line_le, fun _ _ _ => Nat.le_refl _⟩
  | nextLine =>
    refine ⟨ht.lines_eq, fun m hm => Nat.le_succ_of_le (ht.line_le m hm), fun m _ hbehind => ?_⟩
    exact absurd hbehind.2 (Nat.not_lt_zero _)
  | marked =>
    exact ht.with_marks fun m hm => (List.mem_append.mp hm).imp_right List.mem_singleton.mp
  | @collected index category mark moved token hmark hcollect =>
    have hold := List.mem_of_getElem? hmark
    have hbehind := Mark.behind_of_collect hcollect
    rw [Mark.collect_of_behind hbehind (ht.col_le mark hold hbehind)] at hcollect
    cases hcollect
    exact ht.with_marks fun m => List.mem_or_eq_of_mem_set
  | _ => exact ht

/-- Whatever is called, no mark gets on a later line than the cursor, and a cursor with a mark
    behind it is not past the end of its line. -/
theorem after_sound (ht : t.Sound lines) (cs : List Call) : (t.after cs).Sound lines :=
  after_keeps (fun u => u.Sound lines) Answers.sound ht cs

theorem Answers.line_le (h : t.Answers c a u) : t.cursor.line ≤ u.cursor.line := by
  cases h with
  | nextLine => exact Nat.le_succ _
  | _ => exact Nat.le_refl _

theorem collect_of_not_behind (hm : t.marks[index]? = some m) (h : ¬ m.Behind t.cursor)
    (category : Category) :
    t.call (.collect index category) = (.collectError (.noText m.spot t.cursor.toSpot), t) := by
  simp only [call, hm, Mark.collect_of_not_behind h]

theorem Sound.collect_of_behind (ht : t.Sound lines) (hm : t.marks[index]? = some m)
    (h : m.Behind t.cursor) (category : Category) :
    t.call (.collect index category) =
      (.token ⟨category, String.ofList (Text.slice t.cursor.current m.spot.col t.cursor.col),
        m.spot.position⟩, { t with marks := t.marks.set index t.cursor.mark }) := by
  have hcol := ht.col_le m (List.mem_of_getElem? hm) h
  simp only [call, hm, Mark.collect_of_behind h hcol]

/-- The token that a call collects from the mark with a number, told from its answer. -/
def collected? (index : Nat) : Call → Answer → Option Token
  | .collect i _, .token token => if i = index then some token else none
  | _, _ => none

/-- The tokens that calls collect from the mark with a number. -/
def collected (index : Nat) (t : Session) : List Call → List Token
  | [] => []
  | c :: cs => (collected? index c (t.call c).1).toList ++ collected index (t.call c).2 cs

theorem collected?_of_reads (hc : c.reads = true) (a : Answer) : collected? index c a = none := by
  cases c <;> first | rfl | cases hc

theorem collected?_of_looks (hc : c.looks = true) (a : Answer) : collected? index c a = none := by
  cases c <;> first | rfl | cases hc

/-- A call leaves a mark where it is and collects nothing from it, or it collects the slice up to
    the cursor and moves the mark there. -/
theorem Answers.keeps_or_collects (h : t.Answers c a u) (ht : t.Sound lines)
    (hm : t.marks[index]? = some m) :
    (u.marks[index]? = some m ∧ collected? index c a = none) ∨
      m.Behind t.cursor ∧ u.cursor = t.cursor ∧ u.marks[index]? = some t.cursor.mark ∧
        ∃ category, collected? index c a = some ⟨category,
          String.ofList (Text.slice t.cursor.current m.spot.col t.cursor.col),
          m.spot.position⟩ := by
  cases h with
  | passed hreads _ => exact .inl ⟨hm, collected?_of_reads hreads.reads _⟩
  | refused hcall _ => exact .inl ⟨hm, collected?_of_reads hcall _⟩
  | looked hcall => exact .inl ⟨hm, collected?_of_looks hcall _⟩
  | marked =>
    left
    have hlt := (List.getElem?_eq_some_iff.mp hm).1
    exact ⟨(List.getElem?_append_left hlt).trans hm, rfl⟩
  | @collected i category mark moved token hmark hcollect =>
    have hbehind := Mark.behind_of_collect hcollect
    have hcol := ht.col_le mark (List.mem_of_getElem? hmark) hbehind
    rw [Mark.collect_of_behind hbehind hcol] at hcollect
    cases hcollect
    by_cases hi : i = index
    · subst hi
      cases hm.symm.trans hmark
      have hlt := (List.getElem?_eq_some_iff.mp hm).1
      exact .inr ⟨hbehind, rfl, List.getElem?_set_self hlt, category, if_pos rfl⟩
    · exact .inl ⟨(List.getElem?_set_ne hi).trans hm, if_neg hi⟩
  | _ => exact .inl ⟨hm, rfl⟩

/-- The tokens that calls collect from a mark lie one behind the other from where it was to where
    it is, and together they are that slice of the line. -/
theorem Sound.adjoin_collected (ht : t.Sound lines) (hm : t.marks[index]? = some m)
    (cs : List Call) :
    ∃ stop, (t.after cs).marks[index]? = some ⟨⟨m.spot.line, stop⟩⟩ ∧
      Token.Adjoin m.spot (t.collected index cs) ⟨m.spot.line, stop⟩ ∧
      (t.collected index cs).flatMap (fun token => token.text.toList) =
        Text.slice ((lines[m.spot.line]?).getD []) m.spot.col stop := by
  induction cs generalizing t m with
  | nil => exact ⟨m.spot.col, hm, .nil _, (Text.slice_self _ _).symm⟩
  | cons c cs ih =>
    have hanswers := t.answers_call c
    have hsound := hanswers.sound ht
    rw [after_cons, collected]
    obtain ⟨hkept, hnone⟩ | ⟨hbehind, -, hmoved, category, hsome⟩ := hanswers.keeps_or_collects ht hm
    · rw [hnone]
      exact ih hsound hkept
    · have hcol := ht.col_le m (List.mem_of_getElem? hm) hbehind
      have hcurrent := Mark.lines_get_of_behind hbehind hcol
      obtain ⟨stop, hstop, hadjoin, htexts⟩ := ih hsound hmoved
      have hlength := Text.length_slice m.spot.col hcol
      obtain ⟨hline, hlt⟩ := hbehind
      rw [ht.lines_eq] at hcurrent
      simp only [Cursor.mark, ← hline, hcurrent, Option.getD_some] at hstop hadjoin htexts
      refine ⟨stop, hstop, ?_, ?_⟩
      · rw [hsome, Option.toList_some, List.singleton_append]
        refine .cons rfl ?_ hline.symm ?_ hadjoin
        · intro hempty
          rw [String.ofList_eq_empty_iff] at hempty
          rw [hempty, List.length_nil] at hlength
          omega
        · rw [String.length_ofList, hlength]
          exact (Nat.add_sub_cancel' (Nat.le_of_lt hlt)).symm
      · rw [hsome, Option.toList_some, List.singleton_append, List.flatMap_cons, htexts,
          String.toList_ofList, hcurrent, Option.getD_some]
        exact Text.slice_append (Nat.le_of_lt hlt) hadjoin.le.2

/-- Once the cursor is on a later line than a mark, the mark stays where it is and gives nothing. -/
theorem Sound.collect_of_line_lt (ht : t.Sound lines) (hm : t.marks[index]? = some m)
    (hline : m.spot.line < t.cursor.line) (cs : List Call) (category : Category) :
    (t.after cs).call (.collect index category) =
      (.collectError (.noText m.spot (t.after cs).cursor.toSpot), t.after cs) := by
  have hkept : (t.after cs).Sound lines ∧ (t.after cs).marks[index]? = some m ∧
      m.spot.line < (t.after cs).cursor.line := by
    refine after_keeps (fun u => u.Sound lines ∧ u.marks[index]? = some m ∧
      m.spot.line < u.cursor.line) ?_ ⟨ht, hm, hline⟩ cs
    intro u v c a h hu
    obtain ⟨hsound, hmark, hlater⟩ := hu
    refine ⟨h.sound hsound, ?_, Nat.lt_of_lt_of_le hlater h.line_le⟩
    obtain ⟨hsame, -⟩ | ⟨hbehind, -⟩ := h.keeps_or_collects hsound hmark
    · exact hsame
    · exact absurd hbehind.1 (Nat.ne_of_lt hlater)
  exact collect_of_not_behind hkept.2.1 (fun hbehind => Nat.ne_of_lt hkept.2.2 hbehind.1) category

/-- A cursor that goes on to the next line leaves every mark behind. -/
theorem Answers.line_lt_of_nextLine (h : t.Answers .nextLine (.flag true) u)
    (hm : m.spot.line ≤ t.cursor.line) : m.spot.line < u.cursor.line := by
  have hline : u.cursor.line = t.cursor.line + 1 := congrArg Spot.line h.of_nextLine
  omega

/-- What is collected from one mark of a session on some lines, now and by any further calls. -/
structure CollectsCleanly (t : Session) (lines : List (List Char)) (index : Nat) (m : Mark) :
    Prop where
  /-- The token is the slice up to the cursor, and only this mark moves. -/
  token : m.Behind t.cursor → ∃ line, lines[m.spot.line]? = some line ∧
    Text.slice line m.spot.col t.cursor.col ≠ [] ∧
    (Text.slice line m.spot.col t.cursor.col).length = t.cursor.col - m.spot.col ∧
    ∀ category, t.call (.collect index category) =
      (.token ⟨category, String.ofList (Text.slice line m.spot.col t.cursor.col), m.spot.position⟩,
        { t with marks := t.marks.set index t.cursor.mark })
  error : ¬ m.Behind t.cursor → ∀ category,
    t.call (.collect index category) = (.collectError (.noText m.spot t.cursor.toSpot), t)
  /-- The tokens of further calls lie one behind the other, up to where the mark is then. -/
  adjoin : ∀ cs, ∃ stop, (t.after cs).marks[index]? = some ⟨⟨m.spot.line, stop⟩⟩ ∧
    Token.Adjoin m.spot (t.collected index cs) ⟨m.spot.line, stop⟩ ∧
    (t.collected index cs).flatMap (fun token => token.text.toList) =
      Text.slice ((lines[m.spot.line]?).getD []) m.spot.col stop
  /-- A mark on an earlier line gives no token any more. -/
  left : m.spot.line < t.cursor.line → ∀ cs category,
    (t.after cs).call (.collect index category) =
      (.collectError (.noText m.spot (t.after cs).cursor.toSpot), t.after cs)
  nextLine : (t.call .nextLine).1 = .flag true → ∀ cs category,
    (t.after (.nextLine :: cs)).call (.collect index category) =
      (.collectError (.noText m.spot (t.after (.nextLine :: cs)).cursor.toSpot),
        t.after (.nextLine :: cs))

/-- Wherever a session starts and whatever is called, tokens are collected cleanly from each of
    its marks. -/
theorem collects_cleanly (s : Source) (spot : Spot) (cs : List Call) (index : Nat) (m : Mark)
    (hm : ((start s.trimmed spot).after cs).marks[index]? = some m) :
    ((start s.trimmed spot).after cs).CollectsCleanly s.trimmed index m := by
  have hsound := after_sound (start_sound s.trimmed spot) cs
  generalize (start s.trimmed spot).after cs = t at hm hsound
  have hmem := List.mem_of_getElem? hm
  constructor
  case token =>
    intro hbehind
    have hcol := hsound.col_le m hmem hbehind
    have hline := Mark.lines_get_of_behind hbehind hcol
    have hlength := Text.length_slice m.spot.col hcol
    rw [hsound.lines_eq] at hline
    refine ⟨t.cursor.current, hline, ?_, hlength, hsound.collect_of_behind hm hbehind⟩
    intro hempty
    rw [hempty, List.length_nil] at hlength
    have hlt := hbehind.2
    omega
  case error => exact collect_of_not_behind hm
  case adjoin => exact hsound.adjoin_collected hm
  case left => exact hsound.collect_of_line_lt hm
  case nextLine =>
    intro hflag cs category
    have hanswers := t.answers_call .nextLine
    rw [hflag] at hanswers
    have hlater := hanswers.line_lt_of_nextLine (hsound.line_le m hmem)
    obtain ⟨hkept, -⟩ | ⟨hbehind, hcursor, -⟩ := hanswers.keeps_or_collects hsound hm
    · rw [after_cons]
      exact (hanswers.sound hsound).collect_of_line_lt hkept hlater cs category
    · rw [hcursor] at hlater
      exact absurd hbehind.1 (Nat.ne_of_lt hlater)

/-- A start past the end of the first line, and a mark on the second line after one on the first. -/
theorem far_start_collects_cleanly :
    ((start (Source.mk Source.anonymous ["ab c", "d"]).trimmed ⟨0, 9⟩).after
      [.mark, .skipLine, .nextLine, .mark, .read 1]).marks[1]? = some ⟨⟨1, 0⟩⟩ ∧
    ((start (Source.mk Source.anonymous ["ab c", "d"]).trimmed ⟨0, 9⟩).after
      [.mark, .skipLine, .nextLine, .mark, .read 1]).CollectsCleanly
        (Source.mk Source.anonymous ["ab c", "d"]).trimmed 1 ⟨⟨1, 0⟩⟩ := by
  have hmark : ((start (Source.mk Source.anonymous ["ab c", "d"]).trimmed ⟨0, 9⟩).after
      [.mark, .skipLine, .nextLine, .mark, .read 1]).marks[1]? = some ⟨⟨1, 0⟩⟩ := by
    decide +kernel
  exact ⟨hmark, collects_cleanly _ ⟨0, 9⟩ _ 1 _ hmark⟩

end Session
end Ginti
