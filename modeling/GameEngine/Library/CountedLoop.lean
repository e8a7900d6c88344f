import Mathlib.Data.Option.Basic
import Mathlib.Algebra.Order.Group.Nat

/-!
# Counted loops

A loop that takes steps of a fixed width up to a bound, with a test that is computed by the machine
and may fail, and a body that may fail. The number of iterations is bounded by fuel, so that a loop
can be evaluated.

`loop_spec` is the rule of total correctness: an invariant that the body keeps holds at the end, and
the loop ends at the last position that leaves no room for a further step. `loop_success` is the
converse for loops that must not fail: if a loop has a result, then its body has had one at every
position, and the test at the last position too.
-/

set_option autoImplicit false
set_option relaxedAutoImplicit false

namespace GameEngine.Library

variable {State : Type*}

/-- Repeats the body, from a position in steps of `width`, as long as the test says so. The result
is the last position with the state there. -/
def loop (test : ℕ → Option Bool) (width : ℕ) (body : ℕ → State → Option State) :
    ℕ → ℕ → State → Option (ℕ × State)
  | 0, _, _ => none
  | fuel + 1, position, state =>
    (test position).bind fun more ↦
      if more then
        (body position state).bind (loop test width body fuel (position + width))
      else some (position, state)

/-- The position at which a loop ends that may take steps up to a bound. -/
def lastPosition (width bound start : ℕ) : ℕ := start + width * ((bound - start) / width)

theorem lastPosition_le {width bound start : ℕ} (hstart : start ≤ bound) :
    lastPosition width bound start ≤ bound := by
  have hle := Nat.mul_div_le (bound - start) width
  unfold lastPosition
  omega

@[simp]
theorem lastPosition_one (bound start : ℕ) (hstart : start ≤ bound) :
    lastPosition 1 bound start = bound := by
  unfold lastPosition
  rw [Nat.div_one, Nat.one_mul]
  omega

/-- A step that fits does not change the last position. -/
theorem lastPosition_step {width bound start : ℕ} (hwidth : 0 < width)
    (hfits : start + width ≤ bound) :
    lastPosition width bound (start + width) = lastPosition width bound start := by
  have hsplit : bound - start = bound - (start + width) + width := by omega
  unfold lastPosition
  rw [hsplit, Nat.add_div_right _ hwidth, Nat.mul_succ]
  omega

theorem lastPosition_of_lt {width bound start : ℕ} (hwidth : 0 < width)
    (hfits : ¬ start + width ≤ bound) :
    lastPosition width bound start = start := by
  unfold lastPosition
  rw [Nat.div_eq_of_lt (by omega), Nat.mul_zero, Nat.add_zero]

variable {test : ℕ → Option Bool} {width bound : ℕ} {body : ℕ → State → Option State}

/-- A loop whose test works and whose body keeps an invariant ends at the last position, with the
invariant. -/
theorem loop_spec (invariant : ℕ → State → Prop) (hwidth : 0 < width)
    (htest : ∀ position ≤ bound, test position = some (decide (position + width ≤ bound)))
    (hbody : ∀ position state, position + width ≤ bound → invariant position state →
      ∃ next, body position state = some next ∧ invariant (position + width) next)
    {fuel start : ℕ} {state : State} (hstart : start ≤ bound) (hfuel : bound < start + fuel)
    (hinvariant : invariant start state) :
    ∃ final, loop test width body fuel start state = some (lastPosition width bound start, final) ∧
      invariant (lastPosition width bound start) final := by
  induction fuel generalizing start state with
  | zero => omega
  | succ fuel ih =>
    rw [loop, htest start hstart, Option.bind_some]
    by_cases hfits : start + width ≤ bound
    · obtain ⟨next, hnext, hkept⟩ := hbody start state hfits hinvariant
      obtain ⟨final, hfinal, hend⟩ := ih hfits (by omega) hkept
      rw [lastPosition_step hwidth hfits] at hfinal hend
      refine ⟨final, ?_, hend⟩
      rw [if_pos (decide_eq_true hfits), hnext, Option.bind_some, hfinal]
    · rw [lastPosition_of_lt hwidth hfits]
      refine ⟨state, ?_, hinvariant⟩
      rw [if_neg (by simpa using hfits)]

/-- A loop that has a result ends at the last position, has passed the test there, and its body has
had a result at every position before. -/
theorem loop_success (hwidth : 0 < width)
    (htest : ∀ position more, test position = some more → more = decide (position + width ≤ bound))
    {fuel start last : ℕ} {state final : State}
    (hloop : loop test width body fuel start state = some (last, final)) :
    last = lastPosition width bound start ∧ (test last).isSome = true ∧
      ∀ step < (bound - start) / width, ∃ before after,
        body (start + width * step) before = some after := by
  induction fuel generalizing start state with
  | zero => simp [loop] at hloop
  | succ fuel ih =>
    rw [loop, Option.bind_eq_some_iff] at hloop
    obtain ⟨more, hmore, hloop⟩ := hloop
    rw [htest start more hmore] at hloop hmore
    by_cases hfits : start + width ≤ bound
    · rw [if_pos (decide_eq_true hfits), Option.bind_eq_some_iff] at hloop
      obtain ⟨next, hnext, hrest⟩ := hloop
      obtain ⟨hlast, hsome, hsteps⟩ := ih hrest
      rw [lastPosition_step hwidth hfits] at hlast
      refine ⟨hlast, hsome, fun step hstep ↦ ?_⟩
      cases step with
      | zero => exact ⟨state, next, hnext⟩
      | succ step =>
        have hsplit : bound - start = bound - (start + width) + width := by omega
        rw [hsplit, Nat.add_div_right _ hwidth] at hstep
        rw [Nat.mul_succ, Nat.add_comm _ width, ← Nat.add_assoc]
        exact hsteps step (by omega)
    · rw [if_neg (by simpa using hfits)] at hloop
      obtain ⟨rfl, -⟩ := Prod.mk.inj (Option.some.inj hloop)
      refine ⟨(lastPosition_of_lt hwidth hfits).symm, by rw [hmore]; rfl, fun step hstep ↦ ?_⟩
      rw [Nat.div_eq_of_lt (by omega)] at hstep
      omega

end GameEngine.Library
