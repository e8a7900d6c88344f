import Mathlib.Algebra.BigOperators.Group.Finset.Basic
import Mathlib.Order.WellFounded

/-!
# Fair runs

The threads of a system can always take a step, even if it only looks around, so every infinite
schedule gives one run. `run_invariant` is the induction along such a run. `exists_goal` is the
method of helpful threads: every step lowers a rank, reaches the goal, or leaves the rank as it is
and the same thread helpful, and the step of the helpful thread is not of the third kind. Then the
goal is reached, provided that the helpful thread is scheduled at some later time.

`sum_change` is what the change of one thread's entry does to a sum over threads.
-/

set_option autoImplicit false
set_option relaxedAutoImplicit false

namespace GameEngine.Library.FairRun

variable {State Thread : Type*}

/-- The states of the run that a schedule gives. -/
def run (next : State → Thread → State) (start : State) (schedule : ℕ → Thread) : ℕ → State
  | 0 => start
  | time + 1 => next (run next start schedule time) (schedule time)

variable {next : State → Thread → State} {start : State} {schedule : ℕ → Thread}

/-- What holds at the start and is kept by every step holds all along the run. -/
theorem run_invariant {invariant : State → Prop} (hstart : invariant start)
    (hstep : ∀ state thread, invariant state → invariant (next state thread)) (time : ℕ) :
    invariant (run next start schedule time) := by
  induction time with
  | zero => exact hstart
  | succ time ih => exact hstep _ _ ih

/-- The method of helpful threads. Assumes: at every time before the goal, the thread that is
helpful then is scheduled at that time or later. -/
theorem exists_goal {Rank : Type*} [LT Rank] [WellFoundedLT Rank] {invariant : State → Prop}
    (goal : State → Prop) (rank : State → Rank) (helpful : State → Thread)
    (hstart : invariant start)
    (hstep : ∀ state thread, invariant state → invariant (next state thread))
    (hrank : ∀ state thread, invariant state → ¬ goal state → goal (next state thread) ∨
      rank (next state thread) < rank state ∨
        thread ≠ helpful state ∧ rank (next state thread) = rank state ∧
          helpful (next state thread) = helpful state)
    (hfair : ∀ time, ¬ goal (run next start schedule time) →
      ∃ later ≥ time, schedule later = helpful (run next start schedule time)) :
    ∃ time, goal (run next start schedule time) := by
  have hfrom : ∀ bound time, rank (run next start schedule time) = bound →
      ∃ later, goal (run next start schedule later) := by
    intro bound
    induction bound using WellFoundedLT.induction with
    | ind bound ih =>
      rintro time rfl
      by_cases hgoal : goal (run next start schedule time)
      · exact ⟨time, hgoal⟩
      obtain ⟨turn, hturn, hhelpful⟩ := hfair time hgoal
      -- Until its turn comes, the thread stays helpful unless the rank is lowered first.
      have hwait : ∀ gap middle, middle + gap = turn →
          rank (run next start schedule middle) = rank (run next start schedule time) →
          helpful (run next start schedule middle) = helpful (run next start schedule time) →
          ∃ later, goal (run next start schedule later) := by
        intro gap
        induction gap with
        | zero =>
          rintro middle rfl hsame hstill
          by_cases hmiddle : goal (run next start schedule middle)
          · exact ⟨middle, hmiddle⟩
          rcases hrank _ (schedule middle) (run_invariant hstart hstep middle) hmiddle with
            hreached | hlower | ⟨hother, -, -⟩
          · exact ⟨middle + 1, hreached⟩
          · exact ih _ (hsame ▸ hlower) (middle + 1) rfl
          · exact absurd (hhelpful.trans hstill.symm) hother
        | succ gap ihgap =>
          intro middle hgap hsame hstill
          by_cases hmiddle : goal (run next start schedule middle)
          · exact ⟨middle, hmiddle⟩
          rcases hrank _ (schedule middle) (run_invariant hstart hstep middle) hmiddle with
            hreached | hlower | ⟨-, heq, hkeep⟩
          · exact ⟨middle + 1, hreached⟩
          · exact ih _ (hsame ▸ hlower) (middle + 1) rfl
          · exact ihgap (middle + 1) (by omega) (heq.trans hsame) (hkeep.trans hstill)
      exact hwait (turn - time) time (by omega) rfl rfl
  exact hfrom _ 0 rfl

/-- A sum over a table after one entry has changed. -/
theorem sum_change {Entry Value : Type*} [AddCommMonoid Value] [DecidableEq Thread]
    {threads : Finset Thread} (table : Thread → Entry) (weight : Entry → Value) {thread : Thread}
    (hmem : thread ∈ threads) (entry : Entry) :
    ∑ other ∈ threads, weight (Function.update table thread entry other) + weight (table thread) =
      ∑ other ∈ threads, weight (table other) + weight entry := by
  have hothers : ∑ other ∈ threads.erase thread, weight (Function.update table thread entry other) =
      ∑ other ∈ threads.erase thread, weight (table other) := by
    refine Finset.sum_congr rfl fun other hother ↦ ?_
    rw [Function.update_of_ne (Finset.ne_of_mem_erase hother)]
  rw [← Finset.add_sum_erase _ _ hmem, hothers, Function.update_self,
    ← Finset.add_sum_erase _ (fun other ↦ weight (table other)) hmem, add_right_comm,
    add_comm (weight entry), add_right_comm]

end GameEngine.Library.FairRun
