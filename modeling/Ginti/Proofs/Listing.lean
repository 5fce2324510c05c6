import Ginti.Listing
import Ginti.Proofs.Text.Delimiting

namespace Ginti.Listing

theorem toText_append (first second : List String) :
    toText (first ++ second) = toText first ++ toText second := by
  simp only [toText, List.map_append, String.join_append]

theorem toText_ite (p : Prop) [Decidable p] (lines : List String) :
    toText (if p then lines else []) = if p then toText lines else "" := by
  split <;> rfl

theorem toText_cons (line : String) (lines : List String) :
    toText (line :: lines) = line ++ "\n" ++ toText lines := by
  rw [toText, List.map_cons, String.join_cons]
  rfl

theorem toList_toText_cons (line : String) (lines : List String) :
    (toText (line :: lines)).toList = line.toList ++ '\n' :: (toText lines).toList := by
  rw [toText_cons, String.toList_append, String.toList_append, List.append_assoc]
  rfl

theorem toList_toText_concat (lines : List String) (line : String) :
    (toText (lines ++ [line])).toList = (toText lines).toList ++ line.toList ++ ['\n'] := by
  rw [toText_append, String.toList_append, toList_toText_cons, List.append_assoc]
  rfl

/-- A text that stays on one line when it is printed. -/
def OneLine (text : String) : Prop :=
  '\n' ∉ text.toList

instance (text : String) : Decidable (OneLine text) :=
  inferInstanceAs (Decidable ('\n' ∉ text.toList))

@[simp] theorem oneLine_append {first second : String} :
    OneLine (first ++ second) ↔ OneLine first ∧ OneLine second := by
  rw [OneLine, String.toList_append, List.mem_append, not_or]
  rfl

theorem isDigit_of_mem_toString {n : Nat} {c : Char} (h : c ∈ (toString n).toList) :
    c.isDigit = true := by
  rw [Nat.toString_eq_repr, Nat.toList_repr] at h
  exact Nat.isDigit_of_mem_toDigits (by decide) (by decide) h

theorem toList_toString_negSucc (n : Nat) :
    (toString (Int.negSucc n)).toList = '-' :: (toString (n + 1)).toList := by
  change ("-" ++ toString (n + 1)).toList = _
  rw [String.toList_append]
  rfl

/-- There are only digits in a number, and a minus sign in front of them if it is negative. -/
theorem not_mem_toString {c : Char} (hdigit : c.isDigit = false) (hminus : c ≠ '-') (n : Int) :
    c ∉ (toString n).toList := by
  intro hmem
  cases n with
  | ofNat n => cases hdigit.symm.trans (isDigit_of_mem_toString hmem)
  | negSucc n =>
    rw [toList_toString_negSucc] at hmem
    obtain rfl | hmem := List.mem_cons.mp hmem
    · exact hminus rfl
    · cases hdigit.symm.trans (isDigit_of_mem_toString hmem)

@[simp] theorem oneLine_int (n : Int) : OneLine (toString n) :=
  not_mem_toString (by decide) (by decide) n

@[simp] theorem oneLine_nat (n : Nat) : OneLine (toString n) :=
  oneLine_int n

theorem oneLine_label (category : Category) : OneLine category.label := by
  cases category <;> decide

/-- A token is listed on one line if its text has no line feed. -/
theorem oneLine_token {t : Token} (h : OneLine t.text) : OneLine (token t) := by
  unfold token
  simp only [oneLine_append, oneLine_label, oneLine_int, h, and_true]
  decide

/-- There are as many line feeds as lines. -/
theorem count_toText {lines : List String} (h : ∀ line ∈ lines, OneLine line) :
    (toText lines).toList.count '\n' = lines.length := by
  induction lines with
  | nil => rfl
  | cons line lines ih =>
    have hline : line.toList.count '\n' = 0 := List.count_eq_zero.mpr (h line List.mem_cons_self)
    have hlines := ih fun l hl => h l (List.mem_cons_of_mem line hl)
    rw [toList_toText_cons, List.count_append, List.count_cons_self, hline, hlines,
      List.length_cons, Nat.zero_add]

/-- A text without its first line. -/
def dropFirstLine (text : List Char) : List Char :=
  (text.dropWhile (· ≠ '\n')).tail

/-- A text without its last line, which ends in a line feed like the others. -/
def dropLastLine (text : List Char) : List Char :=
  text.dropLast.rdropWhile (· ≠ '\n')

/-- The first line of a listing is its first entry. -/
theorem dropFirstLine_toText {line : String} (h : OneLine line) (lines : List String) :
    dropFirstLine (toText (line :: lines)).toList = (toText lines).toList := by
  rw [dropFirstLine, toList_toText_cons, Text.dropWhile_append_delimiter h, List.tail_cons]

/-- A listing is empty or ends in a line feed. -/
theorem rdropWhile_toText (lines : List String) :
    (toText lines).toList.rdropWhile (· ≠ '\n') = (toText lines).toList := by
  obtain rfl | ⟨init, last, rfl⟩ := List.eq_nil_or_concat' lines
  · rfl
  · rw [toList_toText_concat, List.rdropWhile_concat_neg _ _ _ (by decide)]

/-- The last line of a listing is its last entry. -/
theorem dropLastLine_toText {line : String} (h : OneLine line) (lines : List String) :
    dropLastLine (toText (lines ++ [line])).toList = (toText lines).toList := by
  have hline := Text.forall_ne_delimiter (mt List.mem_reverse.mp h)
  calc dropLastLine (toText (lines ++ [line])).toList
      = ((toText lines).toList ++ line.toList).rdropWhile (· ≠ '\n') := by
        rw [dropLastLine, toList_toText_concat, List.dropLast_concat]
    _ = (toText lines).toList.rdropWhile (· ≠ '\n') := by
        rw [List.rdropWhile, List.reverse_append, List.dropWhile_append_of_pos hline,
          List.rdropWhile]
    _ = (toText lines).toList := rdropWhile_toText lines

end Ginti.Listing
