import Mathlib.Data.List.DropRight

namespace Ginti.Text

variable {delimiter : Char} {text front other rest after : List Char}

theorem forall_ne_delimiter (h : delimiter ∉ text) :
    ∀ c ∈ text, decide (c ≠ delimiter) = true :=
  fun _ hc => decide_eq_true (ne_of_mem_of_not_mem hc h)

/-- What stands in front of the first delimiter is found by going to it from the left. -/
theorem takeWhile_append_delimiter (h : delimiter ∉ front) (rest : List Char) :
    (front ++ delimiter :: rest).takeWhile (· ≠ delimiter) = front := by
  rw [List.takeWhile_append_of_pos (forall_ne_delimiter h), List.takeWhile_cons_of_neg,
    List.append_nil]
  simp only [ne_eq, not_true, decide_false, Bool.false_eq_true, not_false_eq_true]

theorem dropWhile_append_delimiter (h : delimiter ∉ front) (rest : List Char) :
    (front ++ delimiter :: rest).dropWhile (· ≠ delimiter) = delimiter :: rest := by
  rw [List.dropWhile_append_of_pos (forall_ne_delimiter h), List.dropWhile_cons_of_neg]
  simp only [ne_eq, not_true, decide_false, Bool.false_eq_true, not_false_eq_true]

/-- A text is split in one way at its first delimiter. -/
theorem eq_of_first_delimiter (hfront : delimiter ∉ front) (hother : delimiter ∉ other)
    (h : front ++ delimiter :: rest = other ++ delimiter :: after) :
    front = other ∧ rest = after := by
  have hsame := congrArg (List.takeWhile (· ≠ delimiter)) h
  rw [takeWhile_append_delimiter hfront, takeWhile_append_delimiter hother] at hsame
  subst hsame
  exact ⟨rfl, (List.cons.inj (List.append_cancel_left h)).2⟩

/-- What stands behind the last delimiter is found by going to it from the right. -/
theorem rtakeWhile_append_delimiter (front : List Char) (h : delimiter ∉ rest) :
    (front ++ delimiter :: rest).rtakeWhile (· ≠ delimiter) = rest := by
  rw [List.rtakeWhile, List.reverse_append, List.reverse_cons, List.append_assoc,
    List.singleton_append, takeWhile_append_delimiter (mt List.mem_reverse.mp h),
    List.reverse_reverse]

theorem rdropWhile_append_delimiter (front : List Char) (h : delimiter ∉ rest) :
    (front ++ delimiter :: rest).rdropWhile (· ≠ delimiter) = front ++ [delimiter] := by
  rw [List.rdropWhile, List.reverse_append, List.reverse_cons, List.append_assoc,
    List.singleton_append, dropWhile_append_delimiter (mt List.mem_reverse.mp h),
    List.reverse_cons, List.reverse_reverse]

/-- A text is split in one way at its last delimiter. -/
theorem eq_of_last_delimiter (hrest : delimiter ∉ rest) (hafter : delimiter ∉ after)
    (h : front ++ delimiter :: rest = other ++ delimiter :: after) :
    front = other ∧ rest = after := by
  have hsame := congrArg (List.rtakeWhile (· ≠ delimiter)) h
  rw [rtakeWhile_append_delimiter front hrest, rtakeWhile_append_delimiter other hafter] at hsame
  subst hsame
  exact ⟨List.append_cancel_right h, rfl⟩

end Ginti.Text
