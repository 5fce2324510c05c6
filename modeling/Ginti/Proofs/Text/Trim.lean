import Mathlib.Data.List.DropRight
import Ginti.Text.Blank

namespace Ginti.Text

variable {line text : List Char}

/-- A text that neither starts nor ends in padding. -/
structure IsTrimmed (text : List Char) : Prop where
  head : ∀ c ∈ text.head?, isPadding c = false
  last : ∀ c ∈ text.getLast?, isPadding c = false

theorem isTrimmed_of_forall (h : ∀ c ∈ text, isPadding c = false) : IsTrimmed text where
  head c hc := h c (List.mem_of_mem_head? hc)
  last c hc := h c (List.mem_of_mem_getLast? hc)

theorem isTrimmed_enclosed {first last : Char} {body : List Char}
    (hfirst : isPadding first = false) (hlast : isPadding last = false) :
    IsTrimmed (first :: (body ++ [last])) where
  head c hc := by
    cases hc
    exact hfirst
  last c hc := by
    rw [← List.cons_append, List.getLast?_concat] at hc
    cases hc
    exact hlast

theorem trim_eq_rdropWhile (line : List Char) :
    trim line = (line.dropWhile isPadding).rdropWhile isPadding := rfl

/-- Any padding may be added at either end of a line. -/
theorem trim_padded {front back : List Char} (hfront : ∀ c ∈ front, isPadding c = true)
    (hback : ∀ c ∈ back, isPadding c = true) : trim (front ++ line ++ back) = trim line := by
  have hnone : back.dropWhile isPadding = [] := List.dropWhile_eq_nil_iff.mpr hback
  rw [trim_eq_rdropWhile, trim_eq_rdropWhile, List.append_assoc,
    List.dropWhile_append_of_pos hfront, List.dropWhile_append]
  split
  · next hempty =>
    rw [List.isEmpty_iff.mp hempty, hnone]
  · have hreverse : ∀ c ∈ back.reverse, isPadding c = true :=
      fun c hc => hback c (List.mem_reverse.mp hc)
    rw [List.rdropWhile, List.reverse_append, List.dropWhile_append_of_pos hreverse]
    rfl

/-- What is left of a line neither starts nor ends in padding. -/
theorem isTrimmed_trim (line : List Char) : IsTrimmed (trim line) where
  head := by
    intro c hc
    obtain ⟨rest, hrest⟩ := List.head?_eq_some_iff.mp hc
    obtain ⟨tail, htail⟩ := List.rdropWhile_prefix isPadding (line.dropWhile isPadding)
    rw [← trim_eq_rdropWhile, hrest] at htail
    have hstart := List.head?_dropWhile_not isPadding line
    rw [← htail] at hstart
    simpa using hstart
  last := by
    intro c hc
    obtain ⟨hne, rfl⟩ := List.mem_getLast?_eq_getLast hc
    have hlast := List.rdropWhile_last_not isPadding (line.dropWhile isPadding) hne
    exact Bool.eq_false_iff.mpr hlast

/-- Trimming takes nothing away from a text that is trimmed. -/
theorem trim_of_isTrimmed (h : IsTrimmed text) : trim text = text := by
  have hfront : text.dropWhile isPadding = text := by
    cases text with
    | nil => rfl
    | cons c rest =>
      have hc := h.head c rfl
      rw [List.dropWhile_cons_of_neg (by simp [hc])]
  rw [trim_eq_rdropWhile, hfront, List.rdropWhile_eq_self_iff]
  intro hne
  have hlast := h.last _ (List.getLast?_eq_some_getLast hne)
  simp [hlast]

/-- Nothing is left of a text exactly if all of it is padding. -/
theorem trim_eq_nil_iff : trim text = [] ↔ ∀ c ∈ text, isPadding c = true := by
  constructor
  · intro hnone
    rw [trim_eq_rdropWhile, List.rdropWhile_eq_nil_iff] at hnone
    apply List.dropWhile_eq_nil_iff.mp
    -- What is left at the front would start with a character that is no padding.
    cases hrest : text.dropWhile isPadding with
    | nil => rfl
    | cons c rest =>
      have hstop := List.head?_dropWhile_not isPadding text
      rw [hrest] at hnone hstop
      have hpadding := hnone c List.mem_cons_self
      simp [hpadding] at hstop
  · intro hpadding
    have hnone : text.dropWhile isPadding = [] := List.dropWhile_eq_nil_iff.mpr hpadding
    rw [trim_eq_rdropWhile, hnone, List.rdropWhile_nil]

/-- Padding that is left in a trimmed text has other characters on either side. -/
theorem IsTrimmed.inside (h : IsTrimmed text) {i : Nat} {c : Char} (hc : text[i]? = some c)
    (hpadding : isPadding c = true) : 0 < i ∧ i + 1 < text.length := by
  obtain ⟨hi, -⟩ := List.getElem?_eq_some_iff.mp hc
  constructor
  · apply Nat.pos_of_ne_zero
    rintro rfl
    have hhead := h.head c (List.head?_eq_getElem?.trans hc)
    rw [hpadding] at hhead
    cases hhead
  · by_contra hend
    have hlast : text.length - 1 = i := by omega
    rw [← hlast, ← List.getLast?_eq_getElem?] at hc
    have hvisible := h.last c hc
    rw [hpadding] at hvisible
    cases hvisible

theorem mem_of_mem_trim {c : Char} (hc : c ∈ trim line) : c ∈ line := by
  have hkept := List.rdropWhile_prefix isPadding (line.dropWhile isPadding)
  exact (List.dropWhile_suffix isPadding).mem (hkept.mem hc)

end Ginti.Text
