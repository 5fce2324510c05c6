import Mathlib.Data.List.Chain
import Mathlib.Data.List.DropRight
import Ginti.Proofs.Text.Splitting
import Ginti.Source

namespace Ginti

namespace Text

/-- What is left of some lines without the empty ones at their end. One line is left in any
    case. -/
structure Kept (kept all : List (List Char)) : Prop where
  ne_nil : kept ≠ []
  all_eq : ∃ count, all = kept ++ List.replicate count []
  last : ∀ line ∈ kept.getLast?, line = [] → kept.length = 1

theorem dropTrailingEmpty_append {all : List (List Char)} (hne : all ≠ []) (count : Nat) :
    dropTrailingEmpty (all ++ List.replicate count []) = dropTrailingEmpty all := by
  obtain ⟨first, rest, rfl⟩ := List.exists_cons_of_ne_nil hne
  have hempty : ∀ line ∈ List.replicate count ([] : List Char), line.isEmpty = true := by
    intro line hline
    rw [List.eq_of_mem_replicate hline]
    rfl
  rw [List.cons_append, dropTrailingEmpty, dropTrailingEmpty, List.reverse_append,
    List.reverse_replicate, List.dropWhile_append_of_pos hempty]

/-- Dropping empty lines from the end leaves what has to be kept. -/
theorem kept_dropTrailingEmpty {all : List (List Char)} (hne : all ≠ []) :
    Kept (dropTrailingEmpty all) all := by
  obtain ⟨first, rest, rfl⟩ := List.exists_cons_of_ne_nil hne
  refine ⟨List.cons_ne_nil _ _, ?_, ?_⟩
  · obtain ⟨tail, hall, htail⟩ := exists_dropped_tail (first :: rest)
    refine ⟨tail.length, ?_⟩
    rwa [List.eq_replicate_of_mem htail] at hall
  · intro line hline hempty
    subst hempty
    have hkept : dropTrailingEmpty (first :: rest) = first :: rest.rdropWhile List.isEmpty := rfl
    rw [hkept] at hline ⊢
    cases hrest : rest.rdropWhile List.isEmpty with
    | nil => rfl
    | cons second others =>
      have hne : rest.rdropWhile List.isEmpty ≠ [] := hrest ▸ List.cons_ne_nil _ _
      have hlast := List.rdropWhile_last_not List.isEmpty rest hne
      have hsome := List.getLast?_eq_some_getLast hne
      rw [hrest, List.getLast?_cons_cons, ← hrest, hsome] at hline
      rw [Option.some.inj hline] at hlast
      exact absurd rfl hlast

theorem Kept.dropTrailingEmpty_eq {kept all : List (List Char)} (h : Kept kept all) :
    dropTrailingEmpty kept = kept := by
  obtain ⟨first, rest, rfl⟩ := List.exists_cons_of_ne_nil h.ne_nil
  have hrest : rest.rdropWhile List.isEmpty = rest := by
    rw [List.rdropWhile_eq_self_iff]
    intro hne hempty
    have hlast : (first :: rest).getLast? = some (rest.getLast hne) := by
      rw [List.getLast?_cons, List.getLast?_eq_some_getLast hne]
      rfl
    have hlength := h.last _ hlast (List.isEmpty_iff.mp hempty)
    exact hne (List.length_eq_zero_iff.mp (Nat.succ.inj hlength))
  exact congrArg (first :: ·) hrest

/-- What is left is told by the lines. -/
theorem kept_iff {kept all : List (List Char)} (hne : all ≠ []) :
    Kept kept all ↔ kept = dropTrailingEmpty all := by
  constructor
  · intro h
    obtain ⟨count, rfl⟩ := h.all_eq
    rw [dropTrailingEmpty_append h.ne_nil, h.dropTrailingEmpty_eq]
  · rintro rfl
    exact kept_dropTrailingEmpty hne

theorem splitAtBreaks_ne_nil (text : List Char) : splitAtBreaks text ≠ [] := by
  fun_cases splitAtBreaks text with
  | case4 c rest _ _ =>
    cases splitAtBreaks rest <;> exact List.cons_ne_nil _ _
  | _ => exact List.cons_ne_nil _ _

theorem consFirst_append (c : Char) {pieces : List (List Char)} (hne : pieces ≠ [])
    (others : List (List Char)) :
    consFirst c (pieces ++ others) = consFirst c pieces ++ others := by
  obtain ⟨piece, pieces, rfl⟩ := List.exists_cons_of_ne_nil hne
  rfl

/-- One more character that ends a line starts an empty line, unless it completes a pair. -/
theorem exists_splitAtBreaks_concat (text : List Char) {b : Char} (hb : isLineBreak b = true) :
    ∃ count, splitAtBreaks (text ++ [b]) = splitAtBreaks text ++ List.replicate count [] := by
  fun_induction splitAtBreaks text with
  | case1 => exact ⟨1, splitAtBreaks_break hb (by simp)⟩
  | case2 rest ih =>
    obtain ⟨count, ih⟩ := ih
    refine ⟨count, ?_⟩
    have hpair : splitAtBreaks (Terminator.pair.chars ++ (rest ++ [b])) =
        [] :: splitAtBreaks (rest ++ [b]) :=
      splitAtBreaks_terminator (by simp)
    exact hpair.trans (congrArg ([] :: ·) ih)
  | case3 c rest hpair hbreak ih =>
    obtain ⟨count, ih⟩ := ih
    by_cases hcompletes : c = '\r' ∧ (rest ++ [b]).head? = some '\n'
    · obtain ⟨rfl, hhead⟩ := hcompletes
      cases rest with
      | nil =>
        rw [Option.some.inj hhead]
        exact ⟨0, rfl⟩
      | cons d rest =>
        rw [Option.some.inj hhead] at hpair
        exact absurd rfl (hpair rest rfl)
    · refine ⟨count, ?_⟩
      rw [List.cons_append, splitAtBreaks_break hbreak (fun hc hhead => hcompletes ⟨hc, hhead⟩), ih]
      rfl
  | case4 c rest hpair hbreak ih =>
    obtain ⟨count, ih⟩ := ih
    have hc : isLineBreak c = false := Bool.eq_false_iff.mpr hbreak
    refine ⟨count, ?_⟩
    rw [List.cons_append, splitAtBreaks_cons hc, ih, consFirst_append c (splitAtBreaks_ne_nil rest)]

/-- However many characters that end lines stand behind a text, they only start empty lines. -/
theorem exists_splitAtBreaks_append (text : List Char) {breaks : List Char}
    (h : ∀ b ∈ breaks, isLineBreak b = true) :
    ∃ count, splitAtBreaks (text ++ breaks) = splitAtBreaks text ++ List.replicate count [] := by
  induction breaks generalizing text with
  | nil => exact ⟨0, by rw [List.append_nil, List.replicate_zero, List.append_nil]⟩
  | cons b breaks ih =>
    obtain ⟨hb, hbreaks⟩ := List.forall_mem_cons.mp h
    obtain ⟨one, hone⟩ := exists_splitAtBreaks_concat text hb
    obtain ⟨more, hmore⟩ := ih (text ++ [b]) hbreaks
    refine ⟨one + more, ?_⟩
    rw [List.append_cons, hmore, hone, List.append_assoc, List.replicate_append_replicate]

/-- Terminators behind a text start no lines. -/
theorem lines_append_breaks (text : List Char) {breaks : List Char}
    (h : ∀ b ∈ breaks, isLineBreak b = true) : lines (text ++ breaks) = lines text := by
  obtain ⟨count, hpieces⟩ := exists_splitAtBreaks_append text h
  rw [lines, lines, hpieces, dropTrailingEmpty_append (splitAtBreaks_ne_nil text)]

theorem Terminator.isLineBreak_of_mem {t : Terminator} {c : Char} (h : c ∈ t.chars) :
    isLineBreak c = true := by
  have hall : t.chars.all isLineBreak = true := by cases t <;> rfl
  exact List.all_eq_true.mp hall c h

/-- Only a line feed can be taken for the second half of a pair. -/
theorem Terminator.head?_append_ne {t : Terminator} (h : t ≠ .lineFeed) (rest : List Char) :
    (t.chars ++ rest).head? ≠ some '\n' := by
  cases t with
  | lineFeed => exact absurd rfl h
  | _ => simp [chars]

/-- Lines with a terminator of its own between each two. Where an empty line would let a carriage
    return and a line feed meet, they would make up a pair, so these do not stand around one. -/
structure Joining where
  first : List Char
  others : List (Terminator × List Char)
  unbroken : ∀ line ∈ first :: others.map Prod.snd, Unbroken line
  apart : others.IsChain fun a b => ¬ (a = (.carriageReturn, []) ∧ b.1 = .lineFeed)

namespace Joining

/-- The lines that are joined, the empty ones included. -/
def lines (j : Joining) : List (List Char) :=
  j.first :: j.others.map Prod.snd

/-- The joined lines as one text. -/
def text (j : Joining) : List Char :=
  j.first ++ j.others.flatMap fun x => x.1.chars ++ x.2

end Joining

/-- The text of joined lines comes apart where the terminators are. -/
theorem splitAtBreaks_joined {first : List Char} {others : List (Terminator × List Char)}
    (hunbroken : ∀ line ∈ first :: others.map Prod.snd, Unbroken line)
    (hapart : others.IsChain fun a b => ¬ (a = (.carriageReturn, []) ∧ b.1 = .lineFeed)) :
    splitAtBreaks (first ++ others.flatMap fun x => x.1.chars ++ x.2) =
      first :: others.map Prod.snd := by
  induction others generalizing first with
  | nil =>
    obtain ⟨hfirst, -⟩ := List.forall_mem_cons.mp hunbroken
    rw [List.flatMap_nil, List.append_nil, splitAtBreaks_of_unbroken hfirst]
    rfl
  | cons next others ih =>
    obtain ⟨t, line⟩ := next
    obtain ⟨hfirst, hlater⟩ := List.forall_mem_cons.mp hunbroken
    obtain ⟨hnext, hchain⟩ := List.isChain_cons.mp hapart
    have hrest := ih hlater hchain
    have hpair : t = .carriageReturn →
        (line ++ others.flatMap fun x => x.1.chars ++ x.2).head? ≠ some '\n' := by
      rintro rfl
      cases line with
      | cons c line =>
        intro hhead
        obtain ⟨hc, -⟩ := (hlater (c :: line) List.mem_cons_self).of_cons
        rw [Option.some.inj hhead] at hc
        cases hc
      | nil =>
        cases others with
        | nil => simp
        | cons following others =>
          obtain ⟨t, line⟩ := following
          have hfeed : t ≠ .lineFeed := fun ht => hnext (t, line) rfl ⟨rfl, ht⟩
          rw [List.nil_append, List.flatMap_cons, List.append_assoc]
          exact Terminator.head?_append_ne hfeed _
    rw [List.flatMap_cons, List.append_assoc, splitAtBreaks_line hfirst hpair, hrest]
    rfl

/-- Without the empty line a carriage return and a line feed are one terminator. -/
example : splitAtBreaks ("a" ++ "\r" ++ "" ++ "\n" ++ "b").toList = [['a'], ['b']] := by
  decide

/-- Splitting undoes joining, up to empty lines at the end. -/
theorem Joining.kept_iff (j : Joining) {kept : List (List Char)} :
    Kept kept j.lines ↔ kept = Text.lines j.text := by
  have hpieces : splitAtBreaks j.text = j.lines := splitAtBreaks_joined j.unbroken j.apart
  rw [Text.lines, hpieces]
  exact Text.kept_iff (List.cons_ne_nil _ _)

/-- The lines of a text are its pieces without the empty ones at the end. -/
theorem kept_lines (text : List Char) : Kept (lines text) (splitAtBreaks text) :=
  kept_dropTrailingEmpty (splitAtBreaks_ne_nil text)

/-- Lines that a text fell into are found again when they are joined. -/
theorem lines_joinLines_lines (text : List Char) : lines (joinLines (lines text)) = lines text := by
  have hkept := kept_lines text
  have hpieces : splitAtBreaks (joinLines (lines text)) = lines text :=
    splitAtBreaks_joinLines hkept.ne_nil fun _ => unbroken_of_mem_lines
  rw [lines, hpieces, hkept.dropTrailingEmpty_eq]

end Text

namespace Source

open Text

theorem toList_lines_ofText (filename text : String) :
    (ofText filename text).lines.map String.toList = Text.lines text.toList := by
  rw [ofText, List.map_map]
  simp [Function.comp_def]

theorem ofText_eq_of_lines {filename text other : String}
    (h : Text.lines text.toList = Text.lines other.toList) :
    ofText filename text = ofText filename other := by
  rw [ofText, ofText, h]

/-- What the lines of a text are like: there is at least one, none holds a terminator, and an
    empty one is the last only if there are no others. They stay the same lines when they are
    joined again, and when terminators are put behind the text. -/
structure HasCleanLines (filename text : String) : Prop where
  ne_nil : (ofText filename text).lines ≠ []
  unbroken : ∀ line ∈ (ofText filename text).lines, Unbroken line.toList
  last : ∀ line ∈ (ofText filename text).lines.getLast?, line = "" →
    (ofText filename text).lines.length = 1
  rejoined : ofText filename ("\n".intercalate (ofText filename text).lines) =
    ofText filename text
  ended : ∀ terminators : List Terminator,
    ofText filename (text ++ String.ofList (terminators.flatMap Terminator.chars)) =
      ofText filename text

/-- The lines of any text are clean. That terminators behind a text start no lines is needed here as
    well as that joining and splitting are inverse to each other. -/
theorem hasCleanLines (filename text : String) : HasCleanLines filename text := by
  have hkept := kept_lines text.toList
  rw [← toList_lines_ofText filename] at hkept
  constructor
  case ne_nil =>
    intro hnil
    exact hkept.ne_nil (by rw [hnil]; rfl)
  case unbroken =>
    intro line hline
    have hmem := List.mem_map_of_mem (f := String.toList) hline
    rw [toList_lines_ofText] at hmem
    exact unbroken_of_mem_lines hmem
  case last =>
    rintro line hline rfl
    have hlast := hkept.last [] (by rw [List.getLast?_map, hline]; rfl) rfl
    rwa [List.length_map] at hlast
  case rejoined =>
    apply ofText_eq_of_lines
    rw [String.toList_intercalate, toList_lines_ofText]
    exact lines_joinLines_lines text.toList
  case ended =>
    intro terminators
    apply ofText_eq_of_lines
    rw [String.toList_append, String.toList_ofList]
    apply lines_append_breaks
    intro b hb
    obtain ⟨t, -, ht⟩ := List.mem_flatMap.mp hb
    exact t.isLineBreak_of_mem ht

/-- Splitting a text into lines undoes joining lines by whatever terminators, up to empty lines at
    the end; and the lines of any text are such that they are what splitting gives. -/
theorem splits_as_joined (filename : String) :
    (∀ (j : Joining) (kept : List (List Char)), Kept kept j.lines ↔
      kept = (ofText filename (String.ofList j.text)).lines.map String.toList) ∧
    ∀ text : String, HasCleanLines filename text := by
  refine ⟨fun j kept => ?_, hasCleanLines filename⟩
  rw [toList_lines_ofText, String.toList_ofList]
  exact j.kept_iff

/-- Seven terminated lines with six kinds of terminator, a carriage return before an empty line
    among them, and an empty line at the end. -/
private def mixed : Joining where
  first := ['a']
  others := [(.pair, ['b']), (.carriageReturn, []), (.verticalTab, ['c']), (.nextLine, ['d']),
    (.lineFeed, ['e']), (.paragraphSeparator, ['f']), (.lineFeed, [])]
  unbroken := by decide
  apart := by decide

/-- Different terminators may stand in one text, and a carriage return may end the line before an
    empty one. Only the empty line at the end is lost. -/
theorem mixed_splits_as_joined :
    mixed.text = "a\r\nb\r\x0bc\u0085d\ne\u2029f\n".toList ∧
    (ofText "a.gt" (String.ofList mixed.text)).lines.map String.toList =
      [['a'], ['b'], [], ['c'], ['d'], ['e'], ['f']] ∧
    HasCleanLines "a.gt" (String.ofList mixed.text) := by
  obtain ⟨hjoined, hclean⟩ := splits_as_joined "a.gt"
  have hkept : Kept [['a'], ['b'], [], ['c'], ['d'], ['e'], ['f']] mixed.lines := by
    refine ⟨by decide, ⟨1, rfl⟩, ?_⟩
    intro line hline hempty
    cases hline
    cases hempty
  exact ⟨by decide, ((hjoined mixed _).mp hkept).symm, hclean _⟩

end Source
end Ginti
