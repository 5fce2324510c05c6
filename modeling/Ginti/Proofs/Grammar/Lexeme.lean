import Mathlib.Data.List.Infix
import Mathlib.Data.List.TakeWhile
import Ginti.Lexer.Rule

namespace Ginti.Grammar

theorem isLower_iff {c : Char} : c.isLower = true ↔ 'a' ≤ c ∧ c ≤ 'z' := by
  change (decide ('a' ≤ c) && decide (c ≤ 'z')) = true ↔ _
  rw [Bool.and_eq_true, decide_eq_true_eq, decide_eq_true_eq]

theorem isUpper_iff {c : Char} : c.isUpper = true ↔ 'A' ≤ c ∧ c ≤ 'Z' := by
  change decide ('A' ≤ c ∧ c ≤ 'Z') = true ↔ _
  rw [decide_eq_true_eq]

theorem isDigit_iff {c : Char} : c.isDigit = true ↔ '0' ≤ c ∧ c ≤ '9' := by
  change (decide ('0' ≤ c) && decide (c ≤ '9')) = true ↔ _
  rw [Bool.and_eq_true, decide_eq_true_eq, decide_eq_true_eq]

theorem isNameChar_eq (c : Char) :
    Pattern.isNameChar c = (c.isUpper || c.isLower || c.isDigit || c == '_') := rfl

/-- Characters of a class that go on until the text is used up or a character outside of the
    class follows. -/
structure Run (inClass : Char → Bool) (run rest : List Char) : Prop where
  inside : ∀ c ∈ run, inClass c = true
  stops : ∀ c ∈ rest.head?, inClass c = false

theorem Run.takeWhile_eq {p : Char → Bool} {run rest : List Char} (h : Run p run rest) :
    (run ++ rest).takeWhile p = run := by
  rw [List.takeWhile_append_of_pos h.inside]
  cases rest with
  | nil => simp
  | cons c rest => simp [h.stops c rfl]

theorem Run.dropWhile_eq {p : Char → Bool} {run rest : List Char} (h : Run p run rest) :
    (run ++ rest).dropWhile p = rest := by
  rw [List.dropWhile_append_of_pos h.inside]
  cases rest with
  | nil => rfl
  | cons c rest => simp [h.stops c rfl]

theorem run_takeWhile (p : Char → Bool) (text : List Char) :
    Run p (text.takeWhile p) (text.dropWhile p) where
  inside _ hc := List.mem_takeWhile_imp hc
  stops := by
    intro c hc
    have hstop := List.head?_dropWhile_not p text
    rw [Option.mem_def.mp hc] at hstop
    simpa using hstop

/-- Taking characters while they are in a class answers with the longest run at the front. -/
theorem takeWhile_eq_iff {p : Char → Bool} {text run : List Char} :
    text.takeWhile p = run ↔ ∃ rest, text = run ++ rest ∧ Run p run rest := by
  constructor
  · rintro rfl
    exact ⟨text.dropWhile p, List.takeWhile_append_dropWhile.symm, run_takeWhile p text⟩
  · intro hrun
    obtain ⟨rest, rfl, hrun⟩ := hrun
    exact hrun.takeWhile_eq

/-- Two slashes and all characters up to the next line feed. -/
def IsLineComment (lexeme rest : List Char) : Prop :=
  ∃ body, lexeme = '/' :: '/' :: body ∧ Run (· ≠ '\n') body rest

/-- A slash and a star, through the first closing mark after them. -/
def IsBlockComment (lexeme : List Char) : Prop :=
  ∃ body, lexeme = '/' :: '*' :: (body ++ ['*', '/']) ∧ ¬ ['*', '/'] <:+: body

/-- A double quote, through the next one, with no line feed before it. -/
def IsStringLiteral (lexeme : List Char) : Prop :=
  ∃ body, lexeme = '"' :: (body ++ ['"']) ∧ '"' ∉ body ∧ '\n' ∉ body

/-- Any one character but a line feed between single quotes. -/
def IsCharLiteral (lexeme : List Char) : Prop :=
  ∃ c, lexeme = ['\'', c, '\''] ∧ c ≠ '\n'

/-- What follows the whole part of a number: a point and the longest run of at most five digits,
    or nothing if no digit follows a point. -/
def IsFraction (fraction rest : List Char) : Prop :=
  (∃ digits, fraction = '.' :: digits ∧ digits ≠ [] ∧ (∀ d ∈ digits, d.isDigit = true) ∧
    (digits.length = 5 ∨ digits.length < 5 ∧ ∀ d ∈ rest.head?, d.isDigit = false)) ∨
  fraction = [] ∧ ∀ d tail, rest = '.' :: d :: tail → d.isDigit = false

/-- The longest run of digits with its fraction. -/
def IsNumber (lexeme rest : List Char) : Prop :=
  ∃ whole fraction, lexeme = whole ++ fraction ∧ whole ≠ [] ∧
    Run Char.isDigit whole (fraction ++ rest) ∧ IsFraction fraction rest

/-- A lower-case letter and the longest run of name characters after it. -/
def IsIdentifier (lexeme rest : List Char) : Prop :=
  ∃ c tail, lexeme = c :: tail ∧ c.isLower = true ∧ Run Pattern.isNameChar tail rest

/-- The pattern of line comments matches line comments. -/
theorem lineComment?_eq_some_iff {text lexeme : List Char} :
    Pattern.lineComment? text = some lexeme ↔
      ∃ rest, text = lexeme ++ rest ∧ IsLineComment lexeme rest := by
  constructor
  · intro hmatch
    unfold Pattern.lineComment? at hmatch
    split at hmatch
    · next after =>
      cases hmatch
      refine ⟨after.dropWhile (· ≠ '\n'), ?_, _, rfl, run_takeWhile _ after⟩
      simp only [List.cons_append, List.takeWhile_append_dropWhile]
    · cases hmatch
  · intro hlexeme
    obtain ⟨rest, rfl, body, rfl, hbody⟩ := hlexeme
    simp only [List.cons_append, Pattern.lineComment?, hbody.takeWhile_eq]

private theorem throughCommentEnd_body {body : List Char} (hbody : ¬ ['*', '/'] <:+: body)
    (rest : List Char) :
    Pattern.throughCommentEnd (body ++ '*' :: '/' :: rest) = some (body ++ ['*', '/']) := by
  induction body with
  | nil => rfl
  | cons c body ih =>
    have hopen : ∀ tail, c = '*' → body ++ '*' :: '/' :: rest = '/' :: tail → False := by
      intro tail hstar htail
      apply hbody
      cases body with
      | nil => simp at htail
      | cons d body =>
        have hslash : d = '/' := (List.cons.inj htail).1
        subst hstar hslash
        exact ⟨[], body, rfl⟩
    have hlater : ¬ ['*', '/'] <:+: body := fun h => hbody (List.infix_cons h)
    rw [List.cons_append, Pattern.throughCommentEnd.eq_2 _ _ hopen, ih hlater]
    rfl

private theorem throughCommentEnd_parts {text lexeme : List Char}
    (hmatch : Pattern.throughCommentEnd text = some lexeme) :
    ∃ body rest, text = lexeme ++ rest ∧ lexeme = body ++ ['*', '/'] ∧
      ¬ ['*', '/'] <:+: body := by
  fun_induction Pattern.throughCommentEnd text generalizing lexeme with
  | case1 rest =>
    cases hmatch
    exact ⟨[], rest, rfl, rfl, by simp⟩
  | case2 c rest hopen ih =>
    obtain ⟨later, hlater, rfl⟩ := Option.map_eq_some_iff.mp hmatch
    obtain ⟨body, after, rfl, rfl, hbody⟩ := ih hlater
    refine ⟨c :: body, after, rfl, rfl, ?_⟩
    rw [List.infix_cons_iff]
    intro hclosing
    obtain ⟨tail, htail⟩ | hinfix := hclosing
    · simp only [List.cons_append, List.nil_append, List.cons.injEq] at htail
      exact hopen (tail ++ '*' :: '/' :: after) htail.1.symm (by simp [← htail.2])
    · exact hbody hinfix
  | case3 => cases hmatch

/-- The pattern of block comments matches block comments. -/
theorem blockComment?_eq_some_iff {text lexeme : List Char} :
    Pattern.blockComment? text = some lexeme ↔
      ∃ rest, text = lexeme ++ rest ∧ IsBlockComment lexeme := by
  constructor
  · intro hmatch
    unfold Pattern.blockComment? at hmatch
    split at hmatch
    · obtain ⟨through, hthrough, rfl⟩ := Option.map_eq_some_iff.mp hmatch
      obtain ⟨body, rest, rfl, rfl, hbody⟩ := throughCommentEnd_parts hthrough
      exact ⟨rest, rfl, body, rfl, hbody⟩
    · cases hmatch
  · intro hlexeme
    obtain ⟨rest, rfl, body, rfl, hbody⟩ := hlexeme
    have hthrough := throughCommentEnd_body hbody rest
    simp [Pattern.blockComment?, hthrough]

private theorem throughQuote_body {body : List Char} (hquote : '"' ∉ body) (hline : '\n' ∉ body)
    (rest : List Char) :
    Pattern.throughQuote (body ++ '"' :: rest) = some (body ++ ['"']) := by
  induction body with
  | nil => rfl
  | cons c body ih =>
    simp only [List.mem_cons, not_or] at hquote hline
    rw [List.cons_append, Pattern.throughQuote.eq_3 _ _ (Ne.symm hquote.1) (Ne.symm hline.1),
      ih hquote.2 hline.2]
    rfl

private theorem throughQuote_parts {text lexeme : List Char}
    (hmatch : Pattern.throughQuote text = some lexeme) :
    ∃ body rest, text = lexeme ++ rest ∧ lexeme = body ++ ['"'] ∧ '"' ∉ body ∧ '\n' ∉ body := by
  fun_induction Pattern.throughQuote text generalizing lexeme with
  | case1 rest =>
    cases hmatch
    exact ⟨[], rest, rfl, rfl, by simp, by simp⟩
  | case2 => cases hmatch
  | case3 c rest hquote hline ih =>
    obtain ⟨later, hlater, rfl⟩ := Option.map_eq_some_iff.mp hmatch
    obtain ⟨body, after, rfl, rfl, hbodyQuote, hbodyLine⟩ := ih hlater
    refine ⟨c :: body, after, rfl, rfl, ?_, ?_⟩
    · simpa [hbodyQuote] using Ne.symm hquote
    · simpa [hbodyLine] using Ne.symm hline
  | case4 => cases hmatch

/-- The pattern of string literals matches string literals. -/
theorem stringLiteral?_eq_some_iff {text lexeme : List Char} :
    Pattern.stringLiteral? text = some lexeme ↔
      ∃ rest, text = lexeme ++ rest ∧ IsStringLiteral lexeme := by
  constructor
  · intro hmatch
    unfold Pattern.stringLiteral? at hmatch
    split at hmatch
    · obtain ⟨through, hthrough, rfl⟩ := Option.map_eq_some_iff.mp hmatch
      obtain ⟨body, rest, rfl, rfl, hquote, hline⟩ := throughQuote_parts hthrough
      exact ⟨rest, rfl, body, rfl, hquote, hline⟩
    · cases hmatch
  · intro hlexeme
    obtain ⟨rest, rfl, body, rfl, hquote, hline⟩ := hlexeme
    have hthrough := throughQuote_body hquote hline rest
    simp [Pattern.stringLiteral?, hthrough]

/-- The pattern of character literals matches character literals. -/
theorem charLiteral?_eq_some_iff {text lexeme : List Char} :
    Pattern.charLiteral? text = some lexeme ↔
      ∃ rest, text = lexeme ++ rest ∧ IsCharLiteral lexeme := by
  constructor
  · intro hmatch
    unfold Pattern.charLiteral? at hmatch
    split at hmatch
    · next c rest =>
      simp only [Option.ite_none_left_eq_some, Option.some.injEq] at hmatch
      obtain ⟨hline, rfl⟩ := hmatch
      exact ⟨rest, rfl, c, rfl, hline⟩
    · cases hmatch
  · intro hlexeme
    obtain ⟨rest, rfl, c, rfl, hline⟩ := hlexeme
    simp [Pattern.charLiteral?, hline]

/-- The fraction of a text is what the definition asks for, and what is left follows it. -/
private theorem isFraction_fraction (text : List Char) :
    ∃ rest, text = Pattern.fraction text ++ rest ∧ IsFraction (Pattern.fraction text) rest := by
  unfold Pattern.fraction
  split
  · next after =>
    have hsplit : after.takeWhile Char.isDigit ++ after.dropWhile Char.isDigit = after :=
      List.takeWhile_append_dropWhile
    have hrun := run_takeWhile Char.isDigit after
    generalize after.takeWhile Char.isDigit = run at hsplit hrun
    generalize after.dropWhile Char.isDigit = beyond at hsplit hrun
    subst hsplit
    split
    · next hnone =>
      have hempty : run = [] := by simpa using hnone
      subst hempty
      refine ⟨'.' :: beyond, rfl, .inr ⟨rfl, ?_⟩⟩
      intro d tail htail
      cases htail
      exact hrun.stops d rfl
    · next hsome =>
      refine ⟨run.drop 5 ++ beyond, ?_, .inl ⟨run.take 5, rfl, hsome, ?_, ?_⟩⟩
      · rw [List.cons_append, ← List.append_assoc, List.take_append_drop]
      · intro d hd
        exact hrun.inside d (List.mem_of_mem_take hd)
      · by_cases hlong : 5 ≤ run.length
        · exact .inl (List.length_take_of_le hlong)
        · refine .inr ⟨by rw [List.length_take]; omega, ?_⟩
          rw [List.drop_eq_nil_of_le (by omega), List.nil_append]
          exact hrun.stops
  · next hpoint =>
    refine ⟨text, rfl, .inr ⟨rfl, ?_⟩⟩
    rintro d tail rfl
    exact absurd rfl (hpoint _)

private theorem fraction_of_isFraction {fraction rest : List Char}
    (h : IsFraction fraction rest) : Pattern.fraction (fraction ++ rest) = fraction := by
  obtain ⟨digits, rfl, hne, hdigits, hend⟩ | ⟨rfl, hnone⟩ := h
  · have htake : ((digits ++ rest).takeWhile Char.isDigit).take 5 = digits := by
      obtain hfive | ⟨hshort, hstops⟩ := hend
      · rw [List.takeWhile_append_of_pos hdigits, List.take_append_of_le_length hfive.ge, ← hfive,
          List.take_length]
      · have hrun : Run Char.isDigit digits rest := ⟨hdigits, hstops⟩
        rw [hrun.takeWhile_eq, List.take_of_length_le hshort.le]
    simp only [List.cons_append, Pattern.fraction, htake]
  · rw [List.nil_append]
    unfold Pattern.fraction
    split
    · next after =>
      cases after with
      | nil => rfl
      | cons d tail => simp [hnone d tail rfl]
    · rfl

/-- The pattern of numbers matches numbers, each as long as it can be. -/
theorem number?_eq_some_iff {text lexeme : List Char} :
    Pattern.number? text = some lexeme ↔ ∃ rest, text = lexeme ++ rest ∧ IsNumber lexeme rest := by
  constructor
  · intro hmatch
    unfold Pattern.number? at hmatch
    split at hmatch
    · cases hmatch
    · next hdigits =>
      cases hmatch
      obtain ⟨rest, hrest, hfraction⟩ := isFraction_fraction (text.dropWhile Char.isDigit)
      refine ⟨rest, ?_, _, _, rfl, hdigits, ?_, hfraction⟩
      · rw [List.append_assoc, ← hrest, List.takeWhile_append_dropWhile]
      · rw [← hrest]
        exact run_takeWhile _ text
  · intro hlexeme
    obtain ⟨rest, rfl, whole, fraction, rfl, hwhole, hrun, hfraction⟩ := hlexeme
    rw [List.append_assoc, Pattern.number?, hrun.takeWhile_eq, hrun.dropWhile_eq,
      fraction_of_isFraction hfraction]
    cases whole with
    | nil => contradiction
    | cons d whole => rfl

/-- The pattern of identifiers matches identifiers, each as long as it can be. -/
theorem identifier?_eq_some_iff {text lexeme : List Char} :
    Pattern.identifier? text = some lexeme ↔
      ∃ rest, text = lexeme ++ rest ∧ IsIdentifier lexeme rest := by
  constructor
  · intro hmatch
    unfold Pattern.identifier? at hmatch
    split at hmatch
    · next c after =>
      simp only [Option.ite_none_right_eq_some, Option.some.injEq] at hmatch
      obtain ⟨hlower, rfl⟩ := hmatch
      refine ⟨after.dropWhile Pattern.isNameChar, ?_, c, _, rfl, hlower, run_takeWhile _ after⟩
      rw [List.cons_append, List.takeWhile_append_dropWhile]
    · cases hmatch
  · intro hlexeme
    obtain ⟨rest, rfl, c, tail, rfl, hlower, hrun⟩ := hlexeme
    simp only [List.cons_append, Pattern.identifier?, hlower, if_true, hrun.takeWhile_eq]

end Ginti.Grammar
