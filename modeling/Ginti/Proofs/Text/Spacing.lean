import Ginti.Proofs.Text.Splitting
import Ginti.Proofs.Text.Trim

namespace Ginti.Text

/-- What separates two texts on a line: at least one blank, and no terminator. -/
structure Gap where
  chars : List Char
  ne_nil : chars ≠ []
  blank : ∀ c ∈ chars, isBlank c = true
  unbroken : Unbroken chars

/-- The blanks that end no line are the tab, the information separators, the space, and the wider
    spaces up to the ideographic one. -/
theorem isBlank_and_not_isLineBreak_iff {c : Char} :
    isBlank c = true ∧ isLineBreak c = false ↔
      c.toNat = 0x09 ∨ (0x1c ≤ c.toNat ∧ c.toNat ≤ 0x20) ∨ c.toNat = 0x1680 ∨
        (0x2000 ≤ c.toNat ∧ c.toNat ≤ 0x2006) ∨ (0x2008 ≤ c.toNat ∧ c.toNat ≤ 0x200a) ∨
        c.toNat = 0x205f ∨ c.toNat = 0x3000 := by
  have hbreak (d : Char) : c = d ↔ c.toNat = d.toNat := Char.toNat_inj.symm
  have hfalse : isLineBreak c = false ↔ ∀ d ∈ lineBreaks, c.toNat ≠ d.toNat := by
    simp only [isLineBreak, List.contains_eq_mem, decide_eq_false_iff_not]
    constructor
    · rintro hnone d hd hsame
      exact hnone ((hbreak d).mpr hsame ▸ hd)
    · intro hnone hc
      exact hnone c hc rfl
  rw [hfalse]
  simp only [isBlank, lineBreaks, Bool.or_eq_true, Bool.and_eq_true, decide_eq_true_eq, beq_iff_eq,
    bne_iff_ne, ne_eq, List.mem_cons, List.not_mem_nil, or_false, forall_eq_or_imp, forall_eq,
    Char.reduceToNat]
  omega

/-- The texts in order with the gaps between them, the first gap behind the first text. -/
def spaced (gaps : Nat → Gap) : List (List Char) → List Char
  | [] => []
  | [text] => text
  | text :: next :: texts =>
    text ++ ((gaps 0).chars ++ spaced (fun i => gaps (i + 1)) (next :: texts))

/-- Where the text with an index starts among texts written apart: behind the earlier texts and
    gaps. -/
def offsetOf (gaps : Nat → Gap) (texts : List (List Char)) (i : Nat) : Nat :=
  (texts.take i).flatten.length + ((List.range i).flatMap fun j => (gaps j).chars).length

theorem offsetOf_zero (gaps : Nat → Gap) (texts : List (List Char)) :
    offsetOf gaps texts 0 = 0 := rfl

theorem offsetOf_succ (gaps : Nat → Gap) (text : List Char) (texts : List (List Char)) (i : Nat) :
    offsetOf gaps (text :: texts) (i + 1) =
      text.length + (gaps 0).chars.length + offsetOf (fun j => gaps (j + 1)) texts i := by
  have hgaps : ((List.range (i + 1)).flatMap fun j => (gaps j).chars) =
      (gaps 0).chars ++ (List.range i).flatMap fun j => (gaps (j + 1)).chars := by
    rw [List.range_succ_eq_map, List.flatMap_cons, List.flatMap_map]
  rw [offsetOf, offsetOf, List.take_succ_cons, List.flatten_cons, hgaps, List.length_append,
    List.length_append]
  omega

/-- Gaps hold no terminators, so texts written apart stay on one line. -/
theorem unbroken_spaced (gaps : Nat → Gap) {texts : List (List Char)}
    (h : ∀ text ∈ texts, Unbroken text) : Unbroken (spaced gaps texts) := by
  induction texts generalizing gaps with
  | nil =>
    intro c hc
    cases hc
  | cons text texts ih =>
    have htext := h text List.mem_cons_self
    cases texts with
    | nil => exact htext
    | cons next texts =>
      have hlater := ih (fun i => gaps (i + 1)) fun t ht => h t (List.mem_cons_of_mem _ ht)
      exact htext.append ((gaps 0).unbroken.append hlater)

theorem spaced_ne_nil (gaps : Nat → Gap) {texts : List (List Char)} (hne : texts ≠ [])
    (h : ∀ text ∈ texts, text ≠ []) : spaced gaps texts ≠ [] := by
  cases texts with
  | nil => exact absurd rfl hne
  | cons text texts =>
    have htext := h text List.mem_cons_self
    cases texts with
    | nil => exact htext
    | cons next texts => exact List.append_ne_nil_of_left_ne_nil htext _

/-- Padding that no text starts or ends in stays inside. -/
theorem isTrimmed_spaced (gaps : Nat → Gap) {texts : List (List Char)}
    (hne : ∀ text ∈ texts, text ≠ []) (h : ∀ text ∈ texts, IsTrimmed text) :
    IsTrimmed (spaced gaps texts) := by
  induction texts generalizing gaps with
  | nil => exact ⟨by simp [spaced], by simp [spaced]⟩
  | cons text texts ih =>
    have htext := h text List.mem_cons_self
    cases texts with
    | nil => exact htext
    | cons next texts =>
      have hneLater : ∀ t ∈ next :: texts, t ≠ [] := fun t ht => hne t (List.mem_cons_of_mem _ ht)
      have hlater := ih (fun i => gaps (i + 1)) hneLater
        fun t ht => h t (List.mem_cons_of_mem _ ht)
      have hwritten := spaced_ne_nil (fun i => gaps (i + 1)) (List.cons_ne_nil next texts) hneLater
      constructor
      · rw [spaced, List.head?_append_of_ne_nil _ (hne text List.mem_cons_self)]
        exact htext.head
      · rw [spaced, ← List.append_assoc, List.getLast?_append_of_ne_nil _ hwritten]
        exact hlater.last

end Ginti.Text
