import GameEngine.Core.ChaseLevDeque

/-!
# The worker deques of the task graph

Every worker has a deque. Any thread may run `dispatch` and so push onto any worker's deque, a
worker pops from its own deque in `take_task`, and any other thread may steal from it in
`take_task` or `help`. A thread is in at most one call on one deque.

`deliversOnce_of_exclusiveOwner` says that every push is handed out exactly once in the runs in
which the pushes and pops of one deque do not overlap and no pop loses the race for the last node.
`deliversOnce_fails` gives a run in which two overlapping pushes lose a node, and a run in which a
pop that loses the race makes the next pop hand out a node a second time.
-/

set_option autoImplicit false
set_option relaxedAutoImplicit false

namespace GameEngine.Core

open GameEngine.Library

variable {Thread Node : Type} [DecidableEq Thread] {workers : ℕ}

/-- The deques of all workers, with the calls in progress on each. -/
abbrev WorkerDeques (workers : ℕ) (Thread Node : Type) := Fin workers → DequeState Thread Node

/-- A thread is in no call on any deque. -/
def WorkerDeques.isFree (s : WorkerDeques workers Thread Node) (thread : Thread) : Bool :=
  decide (∀ deque, (s deque).calls thread = none)

/-- Which calls the task graph makes: the worker's thread pops from its deque, any other thread
steals from it, and every thread pushes. -/
def WorkerDeques.mayAct (worker : Fin workers → Thread) (s : WorkerDeques workers Thread Node)
    (deque : Fin workers) : DequeAction Thread Node → Bool
  | .push thread _ => s.isFree thread
  | .pop thread => thread == worker deque && s.isFree thread
  | .steal thread => thread != worker deque && s.isFree thread
  | .advance _ => true

/-- One step on one of the deques. -/
def workerDequesStep (worker : Fin workers → Thread) (s : WorkerDeques workers Thread Node)
    (action : Fin workers × DequeAction Thread Node) : Option (WorkerDeques workers Thread Node) :=
  if s.mayAct worker action.1 action.2 then
    (dequeStep (s action.1) action.2).map (Function.update s action.1)
  else none

/-- The worker deques as a transition system. `worker` gives the thread of each worker. -/
def workerDeques (worker : Fin workers → Thread) :
    TransitionSystem (WorkerDeques workers Thread Node)
      (Fin workers × DequeAction Thread Node) where
  step := workerDequesStep worker

/-- The deques of a new task graph. -/
def WorkerDeques.initial : WorkerDeques workers Thread Node := fun _ ↦ .initial

/-- No push is lost and none is handed out twice: the nodes handed out are among the pushed ones,
none more often than it was pushed, and with no call in progress the pushed nodes are those handed
out and those stored between `top` and `bottom`. -/
def DequeState.DeliversOnce (s : DequeState Thread Node) : Prop :=
  s.handedOut.Subperm s.pushed ∧
    ((∀ thread, s.calls thread = none) →
      (s.pushed.map some).Perm (s.handedOut.map some ++ s.deque.stored))

/-- A run whose steps are all allowed by a guard on each deque keeps what every allowed step keeps
on each deque. -/
theorem WorkerDeques.invariant {worker : Fin workers → Thread}
    {guard : DequeState Thread Node → DequeAction Thread Node → Prop}
    {invariant : DequeState Thread Node → Prop} (hinitial : invariant .initial)
    (hstep : ∀ s action next, invariant s → guard s action → dequeStep s action = some next →
      invariant next)
    {s : WorkerDeques workers Thread Node}
    (hreach : (workerDeques worker).Reaches (fun s action ↦ guard (s action.1) action.2)
      .initial s) : ∀ deque, invariant (s deque) := by
  refine hreach.invariant (fun _ ↦ hinitial) ?_
  rintro s ⟨changed, action⟩ next hs hguard hnext other
  simp only [workerDeques, workerDequesStep, Option.ite_none_right_eq_some,
    Option.map_eq_some_iff] at hnext
  obtain ⟨-, after, hafter, rfl⟩ := hnext
  by_cases hother : other = changed
  · subst hother
    rw [Function.update_self]
    exact hstep _ _ _ (hs other) hguard hafter
  · rw [Function.update_of_ne hother]
    exact hs other

/-- The steps of one thread's call after its start. -/
private def advances (thread : Fin 2) (count : ℕ) : List (Fin 1 × DequeAction (Fin 2) ℕ) :=
  List.replicate count (0, .advance thread)

/-- Two runs of a task graph with one worker, whose thread is 0. In the first, that thread and the
submitting thread push at the same time and the node 10 is lost. In the second, the worker pops the
node 11, loses the race for the node 10 to a thief, and its next pop returns the node 11 again. -/
theorem deliversOnce_fails :
    (∃ s : WorkerDeques 1 (Fin 2) ℕ,
      (workerDeques fun _ ↦ 0).Reaches TransitionSystem.unguarded .initial s ∧
      (s 0).pushed = [11, 10] ∧ (s 0).handedOut = [] ∧ (s 0).deque.stored = [some 11] ∧
      (∀ thread, (s 0).calls thread = none) ∧ ¬ (s 0).DeliversOnce) ∧
    (∃ s : WorkerDeques 1 (Fin 2) ℕ,
      (workerDeques fun _ ↦ 0).Reaches TransitionSystem.unguarded .initial s ∧
      (s 0).pushed = [11, 10] ∧ (s 0).handedOut = [11, 10, 11] ∧ ¬ (s 0).DeliversOnce) := by
  constructor
  · obtain ⟨s, hreach, htest⟩ := TransitionSystem.Reaches.exists_of_schedule
      (workerDeques fun _ : Fin 1 ↦ (0 : Fin 2)) .initial
      ([(0, .push 0 10), (0, .push 1 11)] ++ advances 0 3 ++ advances 1 3)
      (fun s ↦ (s 0).pushed = [11, 10] ∧ (s 0).handedOut = [] ∧ (s 0).deque.stored = [some 11] ∧
        ∀ thread, ((s 0).calls thread).isNone) (by decide)
    obtain ⟨hpushed, hout, hstored, hidle⟩ := of_decide_eq_true htest
    have hidle' : ∀ thread, (s 0).calls thread = none :=
      fun thread ↦ Option.isNone_iff_eq_none.mp (hidle thread)
    refine ⟨s, hreach, hpushed, hout, hstored, hidle', fun hdelivers ↦ ?_⟩
    have hperm := hdelivers.2 hidle'
    rw [hpushed, hout, hstored] at hperm
    exact absurd hperm (by decide)
  · obtain ⟨s, hreach, htest⟩ := TransitionSystem.Reaches.exists_of_schedule
      (workerDeques fun _ : Fin 1 ↦ (0 : Fin 2)) .initial
      ([(0, .push 1 10)] ++ advances 1 3 ++ [(0, .push 1 11)] ++ advances 1 3 ++
        [(0, .pop 0)] ++ advances 0 3 ++ [(0, .steal 1)] ++ advances 1 2 ++ [(0, .pop 0)] ++
        advances 0 3 ++ advances 1 1 ++ advances 0 2 ++ [(0, .pop 0)] ++ advances 0 5)
      (fun s ↦ (s 0).pushed = [11, 10] ∧ (s 0).handedOut = [11, 10, 11]) (by decide)
    obtain ⟨hpushed, hout⟩ := of_decide_eq_true htest
    refine ⟨s, hreach, hpushed, hout, fun hdelivers ↦ ?_⟩
    have hlength := hdelivers.1.length_le
    rw [hpushed, hout] at hlength
    exact absurd hlength (by decide)

/-- Every push is handed out exactly once or still stored. Assumes: in the run so far a push or pop
of a deque has started only while no push or pop was in progress on it, and a pop has taken its
compare-exchange on the last node only while `top` was as it had loaded it. -/
theorem deliversOnce_of_exclusiveOwner (worker : Fin workers → Thread)
    {s : WorkerDeques workers Thread Node}
    (hreach : (workerDeques worker).Reaches
      (fun s action ↦ exclusiveOwner (s action.1) action.2) .initial s) (deque : Fin workers) :
    (s deque).DeliversOnce := by
  have hsound : (s deque).Sound :=
    WorkerDeques.invariant initial_sound (fun _ _ _ hs hguard hstep ↦ hs.step hguard hstep)
      hreach deque
  exact ⟨hsound.subperm, hsound.perm_of_idle⟩

/-- The theorem at a run in which the submitting thread pushes two nodes, then the worker pops one
of them while the submitting thread steals the other. -/
theorem deliversOnce_of_exclusiveOwner_popAndSteal : ∃ s : WorkerDeques 1 (Fin 2) ℕ,
    (s 0).pushed = [11, 10] ∧ (s 0).handedOut = [10, 11] ∧ (s 0).DeliversOnce := by
  obtain ⟨s, hreach, htest⟩ := TransitionSystem.Reaches.exists_of_any
    (workerDeques fun _ : Fin 1 ↦ (0 : Fin 2)) .initial
    ([(0, .push 1 10)] ++ advances 1 3 ++ [(0, .push 1 11)] ++ advances 1 3 ++ [(0, .pop 0)] ++
      [(0, .steal 1)] ++ advances 0 2 ++ advances 1 2 ++ advances 0 1 ++ advances 1 1)
    (fun s action ↦ exclusiveOwner (s action.1) action.2)
    (fun s ↦ (s 0).pushed = [11, 10] ∧ (s 0).handedOut = [10, 11])
    (fun _ _ hguard ↦ of_decide_eq_true hguard) (by decide) (by decide)
  obtain ⟨hpushed, hout⟩ := of_decide_eq_true htest
  exact ⟨s, hpushed, hout, deliversOnce_of_exclusiveOwner (fun _ ↦ 0) hreach 0⟩

end GameEngine.Core
