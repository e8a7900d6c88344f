import Mathlib.Logic.Basic
import Mathlib.Data.List.Basic

/-!
# Labelled transition systems, guarded runs and their invariants

A transition system is a partial step function: an action either leads from a state to exactly one
next state or is impossible there. Nondeterminism is the choice of the action, so a schedule is a
list of actions and a concrete run is computed by `execute`.

`Reaches system guard start` is the set of states that runs from `start` visit when every step is
taken from a state and with an action that meet `guard`. `Reaches.invariant` is the induction rule
behind every theorem about runs.
-/

set_option autoImplicit false
set_option relaxedAutoImplicit false

namespace GameEngine.Library

/-- A labelled transition system given by its partial step function. -/
structure TransitionSystem (State Action : Type*) where
  /-- The state after an action, when the action is possible. -/
  step : State → Action → Option State

namespace TransitionSystem

variable {State Action : Type*}

/-- Runs a schedule, oldest action first. It fails when an action is impossible. -/
def execute (system : TransitionSystem State Action) : State → List Action → Option State
  | state, [] => some state
  | state, action :: rest => (system.step state action).bind fun next ↦ execute system next rest

/-- A schedule is allowed by a decidable guard when every action meets it in the state it is taken
from. -/
def allowed (system : TransitionSystem State Action) (guard : State → Action → Bool) :
    State → List Action → Bool
  | _, [] => true
  | state, action :: rest =>
    guard state action && (system.step state action).any fun next ↦ allowed system guard next rest

/-- The states visited by the runs from `start` whose steps all meet `guard`. -/
inductive Reaches (system : TransitionSystem State Action) (guard : State → Action → Prop)
    (start : State) : State → Prop
  | refl : Reaches system guard start start
  | tail {state next : State} {action : Action} : Reaches system guard start state →
      guard state action → system.step state action = some next →
      Reaches system guard start next

/-- The guard that allows every step. -/
def unguarded : State → Action → Prop := fun _ _ ↦ True

variable {system : TransitionSystem State Action} {guard : State → Action → Prop}
  {start : State}

/-- An invariant that holds at the start and is kept by every allowed step holds in every state a
guarded run visits. -/
@[elab_as_elim]
theorem Reaches.invariant {invariant : State → Prop} (hstart : invariant start)
    (hstep : ∀ state action next, invariant state → guard state action →
      system.step state action = some next → invariant next)
    {state : State} (hreach : Reaches system guard start state) : invariant state := by
  induction hreach with
  | refl => exact hstart
  | tail _ hguard hnext ih => exact hstep _ _ _ ih hguard hnext

/-- Two parts of a schedule. -/
theorem execute_append (first second : List Action) (state : State) :
    system.execute state (first ++ second) =
      (system.execute state first).bind fun middle ↦ system.execute middle second := by
  induction first generalizing state with
  | nil => rfl
  | cons action rest ih =>
    rw [List.cons_append, execute, execute, Option.bind_assoc]
    exact congrArg _ (funext ih)

/-- What holds before a schedule and is kept by its actions, of the actions taken so far and the
state, holds of the whole schedule and its last state. -/
theorem execute_induction (invariant : List Action → State → Prop) {schedule : List Action}
    {final : State} (hexecute : system.execute start schedule = some final)
    (hstart : invariant [] start)
    (hstep : ∀ done, ∀ action ∈ schedule, ∀ state next, invariant done state →
      system.step state action = some next → invariant (done ++ [action]) next) :
    invariant schedule final := by
  have hrest : ∀ (rest done : List Action) (state : State), (∀ action ∈ rest, action ∈ schedule) →
      invariant done state → system.execute state rest = some final →
      invariant (done ++ rest) final := by
    intro rest
    induction rest with
    | nil =>
      intro done state _ hstate hexecute
      rw [execute, Option.some.injEq] at hexecute
      rw [List.append_nil]
      exact hexecute ▸ hstate
    | cons action rest ih =>
      intro done state hmem hstate hexecute
      rw [execute, Option.bind_eq_some_iff] at hexecute
      obtain ⟨next, hnext, hexecute⟩ := hexecute
      have h := ih (done ++ [action]) next (fun other hother ↦ hmem other (by simp [hother]))
        (hstep done action (hmem action (by simp)) state next hstate hnext) hexecute
      rwa [List.append_assoc] at h
  exact hrest schedule [] start (fun _ h ↦ h) hstart hexecute

/-- A measure that every action of a schedule lowers bounds the schedule. -/
theorem execute_bounded {invariant : State → Prop} (measure : State → ℕ) {schedule : List Action}
    {final : State} (hexecute : system.execute start schedule = some final)
    (hstart : invariant start)
    (hstep : ∀ action ∈ schedule, ∀ state next, invariant state →
      system.step state action = some next → invariant next ∧ measure next < measure state) :
    invariant final ∧ schedule.length + measure final ≤ measure start := by
  refine execute_induction
    (fun done state ↦ invariant state ∧ done.length + measure state ≤ measure start)
    hexecute ⟨hstart, by simp⟩ ?_
  rintro done action haction state next ⟨hstate, hle⟩ hnext
  obtain ⟨hinvariant, hlt⟩ := hstep action haction state next hstate hnext
  refine ⟨hinvariant, ?_⟩
  rw [List.length_append, List.length_singleton]
  omega

/-- One allowed step is a guarded run. -/
theorem Reaches.single {action : Action} {next : State} (hguard : guard start action)
    (hnext : system.step start action = some next) : Reaches system guard start next :=
  Reaches.refl.tail hguard hnext

/-- Guarded runs compose. -/
theorem Reaches.trans {middle state : State} (hfirst : Reaches system guard start middle)
    (hsecond : Reaches system guard middle state) : Reaches system guard start state := by
  induction hsecond with
  | refl => exact hfirst
  | tail _ hguard hnext ih => exact ih.tail hguard hnext

/-- A schedule that a decidable guard allows and that executes to a state gives a guarded run. -/
theorem Reaches.ofExecute {check : State → Action → Bool} {schedule : List Action}
    {state : State} (hguard : ∀ state action, check state action = true → guard state action)
    (hallowed : system.allowed check start schedule = true)
    (hexecute : system.execute start schedule = some state) :
    Reaches system guard start state := by
  induction schedule generalizing start with
  | nil =>
    simp only [execute, Option.some.injEq] at hexecute
    exact hexecute ▸ .refl
  | cons action rest ih =>
    simp only [allowed, Bool.and_eq_true, Option.any_eq_true] at hallowed
    obtain ⟨hcheck, next, hnext, hrest⟩ := hallowed
    simp only [execute, hnext, Option.bind_some] at hexecute
    exact (Reaches.refl.tail (hguard _ _ hcheck) hnext).trans (ih hrest hexecute)

/-- A schedule that executes to a state gives an unguarded run. -/
theorem Reaches.ofSchedule {schedule : List Action} {state : State}
    (hexecute : system.execute start schedule = some state) :
    Reaches system unguarded start state := by
  induction schedule generalizing start with
  | nil =>
    simp only [execute, Option.some.injEq] at hexecute
    exact hexecute ▸ .refl
  | cons action rest ih =>
    simp only [execute, Option.bind_eq_some_iff] at hexecute
    obtain ⟨next, hnext, hrest⟩ := hexecute
    exact (Reaches.refl.tail trivial hnext).trans (ih hrest)

/-- A schedule that a decidable guard allows and whose last state passes a test gives a state that a
guarded run reaches and that passes the test. -/
theorem Reaches.exists_of_any (system : TransitionSystem State Action) (start : State)
    (schedule : List Action) (check : State → Action → Bool) (test : State → Bool)
    (hguard : ∀ state action, check state action = true → guard state action)
    (hallowed : system.allowed check start schedule = true)
    (hany : (system.execute start schedule).any test = true) :
    ∃ state, Reaches system guard start state ∧ test state = true := by
  obtain ⟨state, hexecute, htest⟩ := (Option.any_eq_true _ _).mp hany
  exact ⟨state, .ofExecute hguard hallowed hexecute, htest⟩

/-- A schedule whose last state passes a test gives a reachable state that passes it. -/
theorem Reaches.exists_of_schedule (system : TransitionSystem State Action) (start : State)
    (schedule : List Action) (test : State → Bool)
    (hany : (system.execute start schedule).any test = true) :
    ∃ state, Reaches system unguarded start state ∧ test state = true := by
  obtain ⟨state, hexecute, htest⟩ := (Option.any_eq_true _ _).mp hany
  exact ⟨state, .ofSchedule hexecute, htest⟩

end TransitionSystem

end GameEngine.Library
