import GameEngine.Library.TransitionSystem
import Mathlib.Order.Lattice

/-!
# The largest value seen in a run

`system.peaked measure` runs a transition system and keeps, next to the state, the largest value
that a measure of the state has had since the start. Forgetting the peak gives back a run of the
system (`Reaches.forgetPeak`), and `Reaches.peak_invariant` is the induction rule for a relation of
the state to its peak.
-/

set_option autoImplicit false
set_option relaxedAutoImplicit false

namespace GameEngine.Library

variable {State Action Value : Type*}

/-- A state with the largest value a measure has had on the way to it. -/
structure Peaked (State Value : Type*) where
  state : State
  peak : Value

/-- Nothing has been seen but the state itself. -/
def Peaked.start (measure : State → Value) (state : State) : Peaked State Value :=
  ⟨state, measure state⟩

namespace TransitionSystem

variable [LinearOrder Value]

/-- The system, with the largest value of a measure of the states visited. -/
def peaked (system : TransitionSystem State Action) (measure : State → Value) :
    TransitionSystem (Peaked State Value) Action where
  step := fun s action ↦
    (system.step s.state action).map fun next ↦ ⟨next, max s.peak (measure next)⟩

variable {system : TransitionSystem State Action} {measure : State → Value}

theorem peaked_step_eq_some {s next : Peaked State Value} {action : Action} :
    (system.peaked measure).step s action = some next ↔
      system.step s.state action = some next.state ∧
        next.peak = max s.peak (measure next.state) := by
  rw [peaked, Option.map_eq_some_iff]
  constructor
  · rintro ⟨state, hstep, rfl⟩
    exact ⟨hstep, rfl⟩
  · rintro ⟨hstep, hpeak⟩
    exact ⟨next.state, hstep, by rw [← hpeak]⟩

variable {guard : State → Action → Prop} {start : State}

/-- Without the peak, a run is a run of the system. -/
theorem Reaches.forgetPeak {s : Peaked State Value}
    (hreach : (system.peaked measure).Reaches (fun s action ↦ guard s.state action)
      (.start measure start) s) :
    system.Reaches guard start s.state := by
  induction hreach with
  | refl => exact .refl
  | tail _ hguard hstep ih => exact ih.tail hguard (peaked_step_eq_some.mp hstep).1

/-- What holds of the start and its measure, survives a higher bound, and is kept by a step to a
state whose measure is within the bound, holds of every state visited and its peak. -/
theorem Reaches.peak_invariant {peakGuard : Peaked State Value → Action → Prop}
    {invariant : Value → State → Prop} (hstart : invariant (measure start) start)
    (hmono : ∀ low high state, low ≤ high → invariant low state → invariant high state)
    (hstep : ∀ bound state action next, invariant bound state →
      system.step state action = some next → measure next ≤ bound → invariant bound next)
    {s : Peaked State Value}
    (hreach : (system.peaked measure).Reaches peakGuard (.start measure start) s) :
    invariant s.peak s.state := by
  induction hreach with
  | refl => exact hstart
  | @tail s next action _ _ hnext ih =>
    obtain ⟨hnext, hpeak⟩ := peaked_step_eq_some.mp hnext
    have hold : s.peak ≤ next.peak := hpeak ▸ le_max_left _ _
    have hnew : measure next.state ≤ next.peak := hpeak ▸ le_max_right _ _
    exact hstep _ _ _ _ (hmono _ _ _ hold ih) hnext hnew

end TransitionSystem

end GameEngine.Library
