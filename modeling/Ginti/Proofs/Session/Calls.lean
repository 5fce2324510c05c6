import Ginti.Session
import Ginti.Proofs.Lexer.Moves

namespace Ginti

theorem Pattern.prefix_of_match? {pattern : Pattern} {text lexeme : List Char}
    (h : pattern.match? text = some lexeme) : lexeme <+: text := by
  cases pattern with
  | whitespace =>
    have hrun : lexeme = text.takeWhile Text.isBlank := by
      simp only [match?, blanks?] at h
      split at h
      · cases h
      · exact (Option.some.inj h).symm
    rw [hrun]
    exact List.takeWhile_prefix _
  | lineComment =>
    obtain ⟨rest, rfl, -⟩ := Grammar.lineComment?_eq_some_iff.mp h
    exact List.prefix_append lexeme rest
  | blockComment =>
    obtain ⟨rest, rfl, -⟩ := Grammar.blockComment?_eq_some_iff.mp h
    exact List.prefix_append lexeme rest
  | stringLiteral =>
    obtain ⟨rest, rfl, -⟩ := Grammar.stringLiteral?_eq_some_iff.mp h
    exact List.prefix_append lexeme rest
  | charLiteral =>
    obtain ⟨rest, rfl, -⟩ := Grammar.charLiteral?_eq_some_iff.mp h
    exact List.prefix_append lexeme rest
  | number =>
    obtain ⟨rest, rfl, -⟩ := Grammar.number?_eq_some_iff.mp h
    exact List.prefix_append lexeme rest
  | identifier =>
    obtain ⟨rest, rfl, -⟩ := Grammar.identifier?_eq_some_iff.mp h
    exact List.prefix_append lexeme rest

/-- What a rule accepts stands in front. -/
theorem Rule.prefix_of_judge {order : Precedence} (horder : order.Complete) {rule : Rule}
    {text lexeme : List Char} {category : Category}
    (h : rule.judge order text = .accept category lexeme) : lexeme <+: text := by
  obtain ⟨-, hdecides⟩ | ⟨-, hpass⟩ := (rule.judge_eq_iff horder).mp h
  · cases hdecides with
    | accept htext _ => exact ⟨_, htext.symm⟩
  · cases hpass

namespace Cursor

variable {c next : Cursor}

theorem of_accept?_eq_some {text : List Char} (h : c.accept? text = some next) :
    text <+: c.rest ∧ next = c.advance text.length := by
  rw [accept?, Option.ite_none_right_eq_some, Option.some.injEq] at h
  exact ⟨List.isPrefixOf_iff_prefix.mp h.1, h.2.symm⟩

theorem of_read?_eq_some {count : Nat} {text : List Char} (h : c.read? count = some (text, next)) :
    text.length = count ∧ text <+: c.rest ∧ next = c.advance text.length := by
  rw [read?, Option.ite_none_right_eq_some, Option.some.injEq, Prod.mk.injEq] at h
  obtain ⟨hlength, rfl, rfl⟩ := h
  exact ⟨hlength, List.take_prefix count c.rest, by rw [hlength]⟩

/-- A cursor cannot go to the next line if its line is not used up or is the last. -/
theorem nextLine?_eq_none_iff :
    c.nextLine? = none ↔ (c.rest = [] → c.lines.length ≤ c.line + 1) := by
  rw [← atLineEnd_iff_rest]
  by_cases hend : c.atLineEnd = true
  · simp [nextLine?, hasMore, onLastLine, hend]
  · simp [nextLine?, hend]

theorem of_nextLine?_eq_some (h : c.nextLine? = some next) :
    c.rest = [] ∧ c.line + 1 < c.lines.length ∧ next = { c with line := c.line + 1, col := 0 } := by
  have hsome : c.nextLine? ≠ none := by simp [h]
  rw [ne_eq, nextLine?_eq_none_iff, Classical.not_imp, Nat.not_le] at hsome
  rw [nextLine?, Option.ite_none_right_eq_some, Option.some.injEq] at h
  exact ⟨hsome.1, hsome.2, h.2.symm⟩

end Cursor

/-- The calls that look for something in front of the cursor, in order to go over it. -/
def Call.reads : Call → Bool
  | .accept _ | .read _ | .pattern _ | .skipBlanks | .attempt _ | .spelling _ => true
  | _ => false

/-- The calls that only look. -/
def Call.looks : Call → Bool
  | .peek _ | .currentLine | .spot | .markSpot _ | .describe => true
  | _ => false

theorem Call.looks_eq_false {c : Call} (h : c.reads = true) : c.looks = false := by
  cases c <;> first | rfl | cases h

/-- The answers that say that there is nothing of the kind: a negative one, none at all, or a
    problem or an error in the place of one. -/
def Answer.refuses : Answer → Bool
  | .nothing | .flag false | .problem _ | .columnTooLarge => true
  | _ => false

/-- The text that a call has found in front of a cursor, as far as the answer tells it. -/
inductive Cursor.Reads (c : Cursor) : Call → Answer → List Char → Prop where
  | accept (text : String) : c.Reads (.accept text) (.flag true) text.toList
  | read {count : Nat} {text : List Char} (hlength : text.length = count) :
      c.Reads (.read count) (.text (String.ofList text)) text
  | pattern {pattern : Pattern} {text : List Char} (hmatch : pattern.match? c.rest = some text) :
      c.Reads (.pattern pattern) (.text (String.ofList text)) text
  | blanks {text : List Char} (hmatch : Pattern.whitespace.match? c.rest = some text) :
      c.Reads .skipBlanks (.flag true) text
  | lexeme {rule : Rule} {category : Category} {text : List Char}
      (hverdict : rule.judge .standard c.rest = .accept category text) :
      c.Reads (.attempt rule) (.category category) text
  | spelling {spellings : List String} {spelling : String} (hmem : spelling ∈ spellings) :
      c.Reads (.spelling spellings) (.text spelling) spelling.toList

theorem Cursor.Reads.reads {c : Cursor} {call : Call} {answer : Answer} {text : List Char}
    (h : c.Reads call answer text) : call.reads = true := by
  cases h <;> rfl

namespace Session

/-- The effects of calls. The cursor goes over a text that was found, to the end of its line or to
    the next line, or a mark is made or moved; or all stays as it was. -/
inductive Answers (t : Session) : Call → Answer → Session → Prop where
  | passed {call : Call} {answer : Answer} {text rest : List Char}
      (hreads : t.cursor.Reads call answer text) (hsplit : t.cursor.rest = text ++ rest) :
      t.Answers call answer { t with cursor := t.cursor.advance text.length }
  | refused {call : Call} {answer : Answer} (hcall : call.reads = true)
      (hanswer : answer.refuses = true) : t.Answers call answer t
  | looked {call : Call} {answer : Answer} (hcall : call.looks = true) : t.Answers call answer t
  | skipped : t.Answers .skipLine .nothing { t with cursor := t.cursor.skipLine }
  | nextLine (hrest : t.cursor.rest = [])
      (hline : t.cursor.line + 1 < t.cursor.lines.length) :
      t.Answers .nextLine (.flag true)
        { t with cursor := { t.cursor with line := t.cursor.line + 1, col := 0 } }
  | sameLine (hkept : t.cursor.rest = [] → t.cursor.lines.length ≤ t.cursor.line + 1) :
      t.Answers .nextLine (.flag false) t
  | marked : t.Answers .mark (.number t.marks.length)
      { t with marks := t.marks ++ [t.cursor.mark] }
  | collected {index : Nat} {category : Category} {mark moved : Mark} {token : Token}
      (hmark : t.marks[index]? = some mark)
      (hcollect : mark.collect category t.cursor = .ok (token, moved)) :
      t.Answers (.collect index category) (.token token)
        { t with marks := t.marks.set index moved }
  | uncollected {index : Nat} {category : Category} {mark : Mark} {error : CollectError}
      (hmark : t.marks[index]? = some mark)
      (hcollect : mark.collect category t.cursor = .error error) :
      t.Answers (.collect index category) (.collectError error) t
  | unmarked {index : Nat} {category : Category} (hmark : t.marks[index]? = none) :
      t.Answers (.collect index category) .noMark t

variable {t : Session}

theorem answers_accept (t : Session) (text : String) :
    t.Answers (.accept text) (t.call (.accept text)).1 (t.call (.accept text)).2 := by
  rw [call]
  cases haccept : t.cursor.accept? text.toList with
  | none => exact .refused rfl rfl
  | some next =>
    obtain ⟨⟨rest, hrest⟩, rfl⟩ := Cursor.of_accept?_eq_some haccept
    exact .passed (.accept text) hrest.symm

theorem answers_read (t : Session) (count : Nat) :
    t.Answers (.read count) (t.call (.read count)).1 (t.call (.read count)).2 := by
  rw [call]
  cases hread : t.cursor.read? count with
  | none => exact .refused rfl rfl
  | some found =>
    obtain ⟨text, next⟩ := found
    obtain ⟨hlength, ⟨rest, hrest⟩, rfl⟩ := Cursor.of_read?_eq_some hread
    exact .passed (.read hlength) hrest.symm

theorem answers_pattern (t : Session) (pattern : Pattern) :
    t.Answers (.pattern pattern) (t.call (.pattern pattern)).1 (t.call (.pattern pattern)).2 := by
  rw [call, matching, Cursor.match?]
  split
  · cases hmatch : pattern.match? t.cursor.rest with
    | none => exact .refused rfl rfl
    | some text =>
      obtain ⟨rest, hrest⟩ := Pattern.prefix_of_match? hmatch
      exact .passed (.pattern hmatch) hrest.symm
  · exact .refused rfl rfl

theorem answers_skipBlanks (t : Session) :
    t.Answers .skipBlanks (t.call .skipBlanks).1 (t.call .skipBlanks).2 := by
  rw [call, matching, Cursor.match?]
  split
  · cases hmatch : Pattern.whitespace.match? t.cursor.rest with
    | none => exact .refused rfl rfl
    | some text =>
      obtain ⟨rest, hrest⟩ := Pattern.prefix_of_match? hmatch
      exact .passed (.blanks hmatch) hrest.symm
  · exact .refused rfl rfl

theorem answers_attempt_rule (t : Session) (rule : Rule) :
    t.Answers (.attempt rule) (t.attempt rule).1 (t.attempt rule).2 := by
  rw [attempt, Cursor.attempt]
  cases hverdict : rule.judge .standard t.cursor.rest with
  | pass => exact .refused rfl rfl
  | reject fault => exact .refused rfl rfl
  | accept category lexeme =>
    obtain ⟨rest, hrest⟩ := Rule.prefix_of_judge Precedence.standard_complete hverdict
    exact .passed (.lexeme hverdict) hrest.symm

theorem answers_attempt (t : Session) (rule : Rule) :
    t.Answers (.attempt rule) (t.call (.attempt rule)).1 (t.call (.attempt rule)).2 := by
  rw [call, matching]
  split
  · split
    · exact t.answers_attempt_rule rule
    · exact .refused rfl rfl
  · exact t.answers_attempt_rule rule

theorem answers_spelling (t : Session) (spellings : List String) :
    t.Answers (.spelling spellings) (t.call (.spelling spellings)).1
      (t.call (.spelling spellings)).2 := by
  rw [call, Cursor.spelling?]
  cases hfind : firstSpelling? spellings t.cursor.rest with
  | none => exact .refused rfl rfl
  | some spelling =>
    have hprefix := List.find?_some hfind
    obtain ⟨rest, hrest⟩ := List.isPrefixOf_iff_prefix.mp hprefix
    exact .passed (.spelling (List.mem_of_find?_eq_some hfind)) hrest.symm

theorem answers_nextLine (t : Session) :
    t.Answers .nextLine (t.call .nextLine).1 (t.call .nextLine).2 := by
  rw [call]
  cases hnext : t.cursor.nextLine? with
  | none => exact .sameLine (Cursor.nextLine?_eq_none_iff.mp hnext)
  | some next =>
    obtain ⟨hrest, hline, rfl⟩ := Cursor.of_nextLine?_eq_some hnext
    exact .nextLine hrest hline

theorem answers_markSpot (t : Session) (index : Nat) :
    t.Answers (.markSpot index) (t.call (.markSpot index)).1 (t.call (.markSpot index)).2 := by
  rw [call]
  cases t.marks[index]? with
  | none => exact .looked rfl
  | some mark => exact .looked rfl

/-- A token is collected from a mark, or nothing is changed. -/
theorem answers_collect (t : Session) (index : Nat) (category : Category) :
    t.Answers (.collect index category) (t.call (.collect index category)).1
      (t.call (.collect index category)).2 := by
  rw [call]
  cases hmark : t.marks[index]? with
  | none => exact .unmarked hmark
  | some mark =>
    simp only
    cases hcollect : mark.collect category t.cursor with
    | error error => exact .uncollected hmark hcollect
    | ok collected => exact .collected hmark hcollect

/-- Whatever the state of the session, a call has one of the effects. -/
theorem answers_call (t : Session) (c : Call) : t.Answers c (t.call c).1 (t.call c).2 := by
  cases c with
  | accept text => exact t.answers_accept text
  | read count => exact t.answers_read count
  | skipLine => exact .skipped
  | nextLine => exact t.answers_nextLine
  | pattern pattern => exact t.answers_pattern pattern
  | skipBlanks => exact t.answers_skipBlanks
  | attempt rule => exact t.answers_attempt rule
  | spelling spellings => exact t.answers_spelling spellings
  | mark => exact .marked
  | collect index category => exact t.answers_collect index category
  | markSpot index => exact t.answers_markSpot index
  | peek | currentLine | spot | describe => exact .looked rfl

/-- The session after some calls: the one that the last answer leaves. -/
def after (t : Session) (cs : List Call) : Session :=
  ((t.calls cs).getLast?.map Prod.snd).getD t

@[simp]
theorem after_nil (t : Session) : t.after [] = t := rfl

@[simp]
theorem after_cons (t : Session) (c : Call) (cs : List Call) :
    t.after (c :: cs) = (t.call c).2.after cs := by
  rw [after, calls, List.getLast?_cons, after]
  cases ((t.call c).2.calls cs).getLast? <;> rfl

/-- What every call keeps, any number of calls keep. -/
theorem after_keeps (p : Session → Prop)
    (hstep : ∀ {t u : Session} {c : Call} {a : Answer}, t.Answers c a u → p t → p u)
    (ht : p t) (cs : List Call) : p (t.after cs) := by
  induction cs generalizing t with
  | nil => exact ht
  | cons c cs ih =>
    rw [after_cons]
    exact ih (hstep (t.answers_call c) ht)

end Session
end Ginti
