import Mathlib.Data.List.Infix
import Ginti.Symbol.Scope

namespace Ginti

namespace ScopeMove

/-- Some moves end with a run that opens more than `k` blocks beyond those that it closes. -/
def LeavesOpen (k : Nat) (moves : List ScopeMove) : Prop :=
  ∃ run, run <:+ moves ∧ run.count .exit + k < run.count .enter

/-- A run that leaves blocks open is not empty, so it takes in the last move. -/
theorem leavesOpen_concat_iff {k : Nat} {moves : List ScopeMove} {last : ScopeMove} :
    LeavesOpen k (moves ++ [last]) ↔
      ∃ run, run <:+ moves ∧ (run ++ [last]).count .exit + k < (run ++ [last]).count .enter := by
  constructor
  · intro hrun
    obtain ⟨run, hsuffix, hopen⟩ := hrun
    obtain rfl | ⟨shorter, rfl, hshorter⟩ := List.suffix_concat_iff.mp hsuffix
    · simp at hopen
    · exact ⟨shorter, hshorter, hopen⟩
  · intro hrun
    obtain ⟨run, hsuffix, hopen⟩ := hrun
    exact ⟨_, List.suffix_concat_iff.mpr (.inr ⟨run, rfl, hsuffix⟩), hopen⟩

theorem not_leavesOpen_nil (k : Nat) : ¬ LeavesOpen k [] := by
  intro hrun
  obtain ⟨run, hsuffix, hopen⟩ := hrun
  rw [List.suffix_nil.mp hsuffix] at hopen
  simp at hopen

theorem leavesOpen_enter_zero (moves : List ScopeMove) : LeavesOpen 0 (moves ++ [.enter]) := by
  rw [leavesOpen_concat_iff]
  exact ⟨[], List.nil_suffix, by decide⟩

/-- An opening brace makes one block more of as many as there are. -/
theorem leavesOpen_enter_succ {k : Nat} {moves : List ScopeMove} :
    LeavesOpen (k + 1) (moves ++ [.enter]) ↔ LeavesOpen k moves := by
  rw [leavesOpen_concat_iff]
  refine exists_congr fun run => and_congr_right fun _ => ?_
  simp only [List.count_append, List.count_singleton_self, List.count_singleton, beq_iff_eq,
    reduceCtorEq, if_false]
  omega

/-- A closing brace takes one block away. -/
theorem leavesOpen_exit {k : Nat} {moves : List ScopeMove} :
    LeavesOpen k (moves ++ [.exit]) ↔ LeavesOpen (k + 1) moves := by
  rw [leavesOpen_concat_iff]
  refine exists_congr fun run => and_congr_right fun _ => ?_
  simp only [List.count_append, List.count_singleton_self, List.count_singleton, beq_iff_eq,
    reduceCtorEq, if_false]
  omega

end ScopeMove

open ScopeMove

namespace ScopeStack

/-- The stack after some moves from the outermost scope. -/
def after (nested : Bool) (moves : List ScopeMove) : ScopeStack :=
  moves.foldl move (outermost nested)

@[simp]
theorem after_concat (nested : Bool) (moves : List ScopeMove) (last : ScopeMove) :
    after nested (moves ++ [last]) = (after nested moves).move last := by
  simp [after]

@[simp]
theorem move_nested (s : ScopeStack) (m : ScopeMove) : (s.move m).nested = s.nested := by
  cases m with
  | enter => simp only [move, enter]; split <;> rfl
  | exit => simp only [move, exit]; split <;> rfl

@[simp]
theorem after_isNested (nested : Bool) (moves : List ScopeMove) :
    (after nested moves).nested = nested := by
  induction moves using List.reverseRecOn with
  | nil => rfl
  | append_singleton moves last ih => rw [after_concat, move_nested, ih]

/-- With nested tracking as many blocks are open as some run of moves up to the last one opens
    beyond those that it closes. -/
theorem exists_depth_nested (moves : List ScopeMove) :
    ∃ d, (after true moves).inner = List.replicate d .block ∧
      ∀ k, k < d ↔ LeavesOpen k moves := by
  induction moves using List.reverseRecOn with
  | nil => exact ⟨0, rfl, fun k => by simp [not_leavesOpen_nil]⟩
  | append_singleton moves last ih =>
    obtain ⟨d, hinner, hdepth⟩ := ih
    cases last with
    | enter =>
      refine ⟨d + 1, by simp [move, enter, hinner, List.replicate_succ], fun k => ?_⟩
      cases k with
      | zero => simp [leavesOpen_enter_zero]
      | succ k =>
        rw [leavesOpen_enter_succ, ← hdepth]
        omega
    | exit =>
      -- At depth zero no run leaves a block open, and one more closing brace changes neither.
      refine ⟨d - 1, by simp [move, exit, hinner], fun k => ?_⟩
      rw [leavesOpen_exit, ← hdepth]
      omega

/-- With flat tracking one block is open after an opening brace, and none after a closing
    one. -/
theorem after_flat_inner (moves : List ScopeMove) :
    (after false moves).inner =
      if moves.getLast? = some .enter then [.block] else [] := by
  induction moves using List.reverseRecOn with
  | nil => rfl
  | append_singleton moves last ih =>
    rw [after_concat, List.getLast?_concat]
    cases last with
    | enter =>
      -- A second opening brace adds nothing, so the block before it may be open or not.
      by_cases hlast : moves.getLast? = some .enter
      · simp [move, enter, ih, hlast]
      · simp [move, enter, ih, hlast]
    | exit => simp [move, exit]

/-- A place is inside a block as the braces before it say. -/
def InsideBlock (nested : Bool) (moves : List ScopeMove) : Prop :=
  if nested then LeavesOpen 0 moves else moves.getLast? = some .enter

/-- The scope of a declaration is that of the place where it stands. -/
theorem after_current_eq_block_iff {nested : Bool} {moves : List ScopeMove} :
    (after nested moves).current = .block ↔ InsideBlock nested moves := by
  cases nested with
  | false =>
    by_cases hlast : moves.getLast? = some .enter
    · simp [InsideBlock, current, after_flat_inner, hlast]
    · simp [InsideBlock, current, after_flat_inner, hlast]
  | true =>
    obtain ⟨d, hinner, hdepth⟩ := exists_depth_nested moves
    simp only [InsideBlock, current, hinner, if_true, ← hdepth]
    cases d <;> simp [List.replicate_succ]

end ScopeStack
end Ginti
