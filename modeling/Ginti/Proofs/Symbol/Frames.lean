import Mathlib.Order.Bounds.Defs
import Ginti.Proofs.Symbol.Nesting

namespace Ginti

namespace ScopeMove

/-- How many more blocks a run of moves opens than it closes. The excess of a run that closes more
    than it opens is negative. -/
def excess (run : List ScopeMove) : Int :=
  run.count .enter - run.count .exit

/-- The excesses of all runs of moves up to the last one, the empty run included. -/
def excesses (moves : List ScopeMove) : Set Int :=
  {n | ∃ run, run <:+ moves ∧ excess run = n}

theorem excess_le_of_not_leavesOpen {k : Nat} {run moves : List ScopeMove}
    (h : ¬ LeavesOpen k moves) (hrun : run <:+ moves) : excess run ≤ k := by
  by_contra hlarge
  apply h
  refine ⟨run, hrun, ?_⟩
  unfold excess at hlarge
  omega

/-- If runs up to the last move leave more than `k` blocks open exactly for the `k` below `d`, then
    their largest excess is `d`. At depth zero it is that of the empty run. -/
theorem isGreatest_excesses {d : Nat} {moves : List ScopeMove}
    (h : ∀ k, k < d ↔ LeavesOpen k moves) : IsGreatest (excesses moves) d := by
  have hbound : ¬ LeavesOpen d moves := mt (h d).mpr (Nat.lt_irrefl d)
  constructor
  · cases d with
    | zero => exact ⟨[], List.nil_suffix, rfl⟩
    | succ d =>
      obtain ⟨run, hrun, hopen⟩ := (h d).mp (Nat.lt_succ_self d)
      have hle := excess_le_of_not_leavesOpen hbound hrun
      refine ⟨run, hrun, ?_⟩
      unfold excess at hle ⊢
      omega
  · intro n hn
    obtain ⟨run, hrun, rfl⟩ := hn
    exact excess_le_of_not_leavesOpen hbound hrun

end ScopeMove

open ScopeMove

namespace ScopeStack

/-- The stacks passed through are those after each of the first moves. -/
theorem trail_eq_map_inits (s : ScopeStack) (moves : List ScopeMove) :
    s.trail moves = moves.inits.map (List.foldl move s) := by
  induction moves generalizing s with
  | nil => rfl
  | cons m moves ih =>
    rw [trail, ih, List.inits_cons, List.map_cons, List.map_map]
    rfl

/-- A stack on which only so many blocks are open. -/
structure HasBlocks (s : ScopeStack) (d : Nat) : Prop where
  frames : s.frames = .global :: List.replicate d .block
  /-- There always is a global frame, and it has nothing below it. -/
  bottom : ∀ i, s.frames[i]? = some .global ↔ i = 0
  top : s.frames.getLast? = some s.current
  current : s.current = .block ↔ 0 < d

theorem hasBlocks_of_inner {s : ScopeStack} {d : Nat} (h : s.inner = List.replicate d .block) :
    s.HasBlocks d := by
  have hframes : s.frames = .global :: List.replicate d .block := by
    rw [frames, h, List.reverse_replicate]
  constructor
  case frames => exact hframes
  case bottom =>
    intro i
    rw [hframes]
    cases i with
    | zero => simp
    | succ i => simp [List.getElem?_replicate]
  case top =>
    rw [frames, current, List.getLast?_cons, List.getLast?_reverse, List.headD_eq_head?_getD]
  case current =>
    rw [current, h]
    cases d with
    | zero => simp
    | succ d => simp [List.replicate_succ]

/-- The frames that some moves lead to: the global scope and a number of blocks. -/
structure FramedBy (nested : Bool) (moves : List ScopeMove) (d : Nat) : Prop where
  blocks : (after nested moves).HasBlocks d
  /-- Nested tracking has as many blocks open as a run up to the last move leaves open at most. -/
  nested_depth : nested = true → IsGreatest (excesses moves) d
  /-- Flat tracking has one block open if the last move opened it. -/
  flat_depth : nested = false → d = if moves.getLast? = some .enter then 1 else 0

/-- After any moves, and after each of them on the way, the frames are the global one and as many
    blocks as the moves so far say. -/
theorem frames_by_moves (nested : Bool) (moves : List ScopeMove) :
    (outermost nested).trail moves = moves.inits.map (after nested) ∧
      ∃ d, FramedBy nested moves d := by
  refine ⟨trail_eq_map_inits _ _, ?_⟩
  cases nested with
  | false =>
    refine ⟨if moves.getLast? = some .enter then 1 else 0, ?_, ?_, fun _ => rfl⟩
    · apply hasBlocks_of_inner
      rw [after_flat_inner]
      split
      · rfl
      · rfl
    · intro hnested
      cases hnested
  | true =>
    obtain ⟨d, hinner, hdepth⟩ := exists_depth_nested moves
    refine ⟨d, hasBlocks_of_inner hinner, fun _ => isGreatest_excesses hdepth, ?_⟩
    intro hflat
    cases hflat

end ScopeStack
end Ginti
