import Mathlib.Data.List.DropRight
import Ginti.Text.LineBreak

namespace Ginti.Text

/-- A text that stays on one line. -/
def Unbroken (text : List Char) : Prop :=
  ∀ c ∈ text, isLineBreak c = false

instance (text : List Char) : Decidable (Unbroken text) :=
  List.decidableBAll (fun c => isLineBreak c = false) text

/-- Lines with a line feed between each two. -/
def joinLines (lines : List (List Char)) : List Char :=
  ['\n'].intercalate lines

/-- What ends a line: one of the characters that do so, or a carriage return with a line feed. -/
inductive Terminator where
  | pair
  | lineFeed
  | verticalTab
  | formFeed
  | carriageReturn
  | nextLine
  | lineSeparator
  | paragraphSeparator
  deriving DecidableEq, Repr

def Terminator.chars : Terminator → List Char
  | pair => ['\r', '\n']
  | lineFeed => ['\n']
  | verticalTab => ['\x0b']
  | formFeed => ['\x0c']
  | carriageReturn => ['\r']
  | nextLine => ['\u0085']
  | lineSeparator => ['\u2028']
  | paragraphSeparator => ['\u2029']

theorem Unbroken.of_cons {c : Char} {text : List Char} (h : Unbroken (c :: text)) :
    isLineBreak c = false ∧ Unbroken text :=
  ⟨h c List.mem_cons_self, fun d hd => h d (List.mem_cons_of_mem c hd)⟩

theorem Unbroken.append {first second : List Char} (hfirst : Unbroken first)
    (hsecond : Unbroken second) : Unbroken (first ++ second) := by
  intro c hc
  obtain hc | hc := List.mem_append.mp hc
  · exact hfirst c hc
  · exact hsecond c hc

theorem Unbroken.not_mem_newline {text : List Char} (h : Unbroken text) : '\n' ∉ text := by
  intro hmem
  have hbreak := h _ hmem
  cases hbreak

/-- A character that ends no line goes to the front of the first piece. -/
theorem splitAtBreaks_cons {c : Char} (hc : isLineBreak c = false) (rest : List Char) :
    splitAtBreaks (c :: rest) = consFirst c (splitAtBreaks rest) := by
  have hreturn : ∀ tail, c = '\r' → rest = '\n' :: tail → False := by
    rintro tail rfl -
    cases hc
  rw [splitAtBreaks.eq_3 c rest hreturn, hc]
  rfl

/-- A character that ends a line, unless it is the first of a pair. -/
theorem splitAtBreaks_break {c : Char} {rest : List Char} (hc : isLineBreak c = true)
    (hpair : c = '\r' → rest.head? ≠ some '\n') :
    splitAtBreaks (c :: rest) = [] :: splitAtBreaks rest := by
  have hreturn : ∀ tail, c = '\r' → rest = '\n' :: tail → False := by
    rintro tail rfl rfl
    exact hpair rfl rfl
  rw [splitAtBreaks.eq_3 c rest hreturn, if_pos hc]

/-- A terminator in front of a text starts one more line, unless its carriage return and a line feed
    behind it make up a pair. -/
theorem splitAtBreaks_terminator {t : Terminator} {rest : List Char}
    (hpair : t = .carriageReturn → rest.head? ≠ some '\n') :
    splitAtBreaks (t.chars ++ rest) = [] :: splitAtBreaks rest := by
  cases t with
  | pair => exact splitAtBreaks.eq_2 rest
  | carriageReturn => exact splitAtBreaks_break rfl fun _ => hpair rfl
  | _ => exact splitAtBreaks_break rfl (by simp)

/-- A line with its terminator comes off the front of a text as one piece. -/
theorem splitAtBreaks_line {line rest : List Char} {t : Terminator} (h : Unbroken line)
    (hpair : t = .carriageReturn → rest.head? ≠ some '\n') :
    splitAtBreaks (line ++ (t.chars ++ rest)) = line :: splitAtBreaks rest := by
  induction line with
  | nil => exact splitAtBreaks_terminator hpair
  | cons c line ih =>
    obtain ⟨hc, hline⟩ := h.of_cons
    rw [List.cons_append, splitAtBreaks_cons hc, ih hline]
    rfl

theorem splitAtBreaks_of_unbroken {line : List Char} (h : Unbroken line) :
    splitAtBreaks line = [line] := by
  induction line with
  | nil => rfl
  | cons c line ih =>
    obtain ⟨hc, hline⟩ := h.of_cons
    rw [splitAtBreaks_cons hc, ih hline]
    rfl

/-- Joined lines come apart where they were joined. -/
theorem splitAtBreaks_joinLines {lines : List (List Char)} (hne : lines ≠ [])
    (h : ∀ line ∈ lines, Unbroken line) : splitAtBreaks (joinLines lines) = lines := by
  induction lines with
  | nil => exact absurd rfl hne
  | cons line lines ih =>
    have hline := h line List.mem_cons_self
    cases lines with
    | nil => rw [joinLines, List.intercalate_singleton, splitAtBreaks_of_unbroken hline]
    | cons next lines =>
      have hlater := ih (List.cons_ne_nil _ _) fun l hl => h l (List.mem_cons_of_mem _ hl)
      have hfirst : splitAtBreaks (line ++ (Terminator.lineFeed.chars ++ joinLines (next :: lines))) =
          line :: splitAtBreaks (joinLines (next :: lines)) :=
        splitAtBreaks_line hline (by simp)
      rw [joinLines, List.intercalate_cons_cons, List.append_assoc]
      exact hfirst.trans (congrArg _ hlater)

/-- No piece holds a terminator. -/
theorem unbroken_of_mem_splitAtBreaks {text piece : List Char} (h : piece ∈ splitAtBreaks text) :
    Unbroken piece := by
  fun_induction splitAtBreaks text generalizing piece with
  | case1 =>
    rw [List.mem_singleton.mp h]
    intro c hc
    cases hc
  | case2 rest ih =>
    obtain rfl | hlater := List.mem_cons.mp h
    · intro c hc
      cases hc
    · exact ih hlater
  | case3 c rest _ hbreak ih =>
    obtain rfl | hlater := List.mem_cons.mp h
    · intro c hc
      cases hc
    · exact ih hlater
  | case4 c rest _ hbreak ih =>
    have hc : isLineBreak c = false := Bool.eq_false_iff.mpr hbreak
    cases hpieces : splitAtBreaks rest with
    | nil =>
      rw [hpieces, consFirst, List.mem_singleton] at h
      subst h
      intro d hd
      rwa [List.mem_singleton.mp hd]
    | cons first pieces =>
      rw [hpieces] at h ih
      obtain rfl | hlater := List.mem_cons.mp h
      · intro d hd
        obtain rfl | hd := List.mem_cons.mp hd
        · exact hc
        · exact ih List.mem_cons_self d hd
      · exact ih (List.mem_cons_of_mem _ hlater)

/-- Trailing empty lines are a tail that is dropped. -/
theorem exists_dropped_tail (lines : List (List Char)) :
    ∃ tail, lines = dropTrailingEmpty lines ++ tail ∧ ∀ line ∈ tail, line = [] := by
  cases lines with
  | nil => exact ⟨[], rfl, by simp⟩
  | cons first rest =>
    refine ⟨rest.rtakeWhile List.isEmpty, ?_, ?_⟩
    · have hrest : rest.rdropWhile List.isEmpty ++ rest.rtakeWhile List.isEmpty = rest :=
        List.rdropWhile_append_rtakeWhile
      exact congrArg (first :: ·) hrest.symm
    · intro line hline
      exact List.isEmpty_iff.mp (List.mem_rtakeWhile_imp hline)

/-- Past the lines that are kept there are only empty ones, so with the empty text for a missing
    line nothing is lost. -/
theorem getD_dropTrailingEmpty (lines : List (List Char)) (n : Nat) :
    ((dropTrailingEmpty lines)[n]?).getD [] = (lines[n]?).getD [] := by
  obtain ⟨tail, hlines, hempty⟩ := exists_dropped_tail lines
  generalize dropTrailingEmpty lines = kept at hlines ⊢
  subst hlines
  by_cases hn : n < kept.length
  · rw [List.getElem?_append_left hn]
  · have hend : kept.length ≤ n := Nat.not_lt.mp hn
    rw [List.getElem?_append_right hend, List.getElem?_eq_none hend]
    cases hline : tail[n - kept.length]? with
    | none => rfl
    | some line =>
      have hnil := hempty line (List.mem_of_getElem? hline)
      rw [hnil]
      rfl

/-- No line of a text holds a terminator. -/
theorem unbroken_of_mem_lines {text line : List Char} (h : line ∈ lines text) : Unbroken line := by
  obtain ⟨tail, hpieces, -⟩ := exists_dropped_tail (splitAtBreaks text)
  apply unbroken_of_mem_splitAtBreaks
  rw [hpieces]
  exact List.mem_append_left tail h

/-- The lines of joined lines are these lines; past the last of them there is nothing. -/
theorem getD_lines_joinLines {joined : List (List Char)} (h : ∀ line ∈ joined, Unbroken line)
    (n : Nat) : ((lines (joinLines joined))[n]?).getD [] = (joined[n]?).getD [] := by
  rw [lines, getD_dropTrailingEmpty]
  cases joined with
  | nil => cases n <;> rfl
  | cons first rest => rw [splitAtBreaks_joinLines (List.cons_ne_nil _ _) h]

end Ginti.Text
