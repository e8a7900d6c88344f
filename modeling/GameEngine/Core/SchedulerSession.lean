import GameEngine.Core.SchedulerProgress

/-!
# Rounds of the worker pool

A task graph is used in rounds: the client creates tasks and adds dependencies, submits them, waits,
and calls `reset`, after which the graph is empty and the next round begins. The benchmark runs one
round for every tick. The workers never stop: between two rounds they look through empty queues, and
the counters by which `dispatch` picks workers go on from round to round.

`Session` is the pool with the graph under construction. `session_correct` says that the pool does
what is expected in every round of every session, and that the `wait` of every round returns.
-/

set_option autoImplicit false
set_option relaxedAutoImplicit false

namespace GameEngine.Core

open GameEngine.Library
open MachineWord FairRun DependencyCount

/-! ### Sessions -/

/-- The pool with the graph of the round. `running` says that the graph has been submitted. -/
structure Session (workers : Workers) where
  maxTasks : ℕ
  setup : Setup
  running : Bool
  pool : Scheduler workers

/-- The client builds the graph, submits it with the lanes of its tasks, or resets it; or a thread
takes a step. -/
inductive SessionAction (workers : Workers)
  | build (call : SetupCall)
  | submit (lane : ℕ → TaskLane)
  | reset
  | advance (thread : workers.Thread)

namespace Session

variable {workers : Workers}

/-- A new graph, whose workers have started. -/
def new (maxTasks : ℕ) : Session workers where
  maxTasks := maxTasks
  setup := .new maxTasks
  running := false
  pool := { Scheduler.submitted (TaskGraph.new maxTasks) fun _ ↦ .general with client := .returned }

/-- The pool when `submit` has set its flag. The bookkeeping of the bodies starts over. -/
def submitPool (pool : Scheduler workers) (graph : TaskGraph) (lane : ℕ → TaskLane) :
    Scheduler workers :=
  { pool with
    graph := { graph with submitted := true }
    lane := lane
    client := .submitting 0
    started := []
    finished := [] }

/-- One step. A `reset` is called when `wait` has returned; between two rounds only the workers take
steps. -/
def step (s : Session workers) : SessionAction workers → Option (Session workers)
  | .build call =>
    if s.running then none else (s.setup.step call).map fun setup ↦ { s with setup := setup }
  | .submit lane =>
    if s.running then none
    else some { s with running := true, pool := submitPool s.pool s.setup.graph lane }
  | .reset =>
    match s.running, s.pool.client with
    | true, .returned => some { s with setup := .new s.maxTasks, running := false }
    | _, _ => none
  | .advance thread =>
    if s.running ∨ thread ≠ none then some { s with pool := s.pool.next thread } else none

/-- Sessions as a transition system. -/
def system : TransitionSystem (Session workers) (SessionAction workers) := ⟨step⟩

/-- The dependencies of a graph have no cycle when it is submitted, and the counters have room for
them. -/
def Submittable (s : Session workers) : SessionAction workers → Prop
  | .submit _ => s.setup.IsAcyclic ∧ s.setup.graph.taskCount < word32 ∧
      ∀ task < s.setup.graph.taskCount, s.setup.indegree task + 1 < word32
  | _ => True

/-! ### Between two rounds -/

/-- No thread is in a call, the queues are empty, and the client is past `wait`. -/
structure Resting (pool : Scheduler workers) : Prop where
  idle : ∀ thread, pool.threads thread = ⟨[], none⟩
  deques : ∀ worker, pool.deques worker = []
  inbox : pool.inbox = []
  returned : pool.client = .returned

/-- In empty queues nothing is found. -/
theorem Resting.take_eq_none {pool : Scheduler workers} (hresting : Resting pool)
    (visit : Visit workers) : pool.take visit = none := by
  cases visit with
  | pop worker => simp [Scheduler.take, hresting.deques worker]
  | dequeue => simp [Scheduler.take, hresting.inbox]
  | steal worker => simp [Scheduler.take, hresting.deques worker]

/-- A worker that looks through empty queues changes nothing but the queue it looks into next. -/
theorem Resting.next {pool : Scheduler workers} (hresting : Resting pool)
    (worker : Fin workers.count) : Resting (pool.next (some worker)) := by
  have hnext : pool.next (some worker) = pool.advanceWorker worker := by
    unfold Scheduler.next
    rw [hresting.idle (some worker)]
  rw [hnext]
  unfold Scheduler.advanceWorker
  dsimp only
  cases (workers.visits (some worker))[pool.scans worker]? with
  | none => exact ⟨hresting.idle, hresting.deques, hresting.inbox, hresting.returned⟩
  | some visit =>
    dsimp only [Scheduler.look]
    rw [hresting.take_eq_none visit]
    exact ⟨hresting.idle, hresting.deques, hresting.inbox, hresting.returned⟩

/-- A pool in which nothing waits and no thread is in a call is at rest. -/
theorem resting_of_idle {pool : Scheduler workers}
    (hidle : ∀ thread, pool.threads thread = ⟨[], none⟩) (hwaiting : pool.waiting = 0)
    (hreturned : pool.client = .returned) : Resting pool := by
  simp only [Scheduler.waiting, add_eq_zero, Finset.sum_eq_zero_iff, Multiset.coe_eq_zero]
    at hwaiting
  obtain ⟨⟨hdeques, hinbox⟩, -⟩ := hwaiting
  exact ⟨hidle, fun worker ↦ hdeques worker (Finset.mem_univ worker), hinbox, hreturned⟩

/-- A round starts soundly from a pool at rest, whatever the rounds before have left in the counters
of the lanes. -/
theorem Resting.sound_submit {pool : Scheduler workers} (hresting : Resting pool) {setup : Setup}
    (hcounts : setup.Counts)
    (hindegree : ∀ task < setup.graph.taskCount, setup.indegree task < word32)
    (lane : ℕ → TaskLane) : Scheduler.Sound setup (submitPool pool setup.graph lane) where
  tracked := by
    refine ⟨.submitted setup.graph, _, ?_, Setup.tracks_submitted hcounts hindegree⟩
    refine ⟨rfl, ?_, rfl, fun thread depth ↦ ?_, rfl, rfl⟩
    · simp [Execution.submitted, hcounts.dispatched, Scheduler.waiting, submitPool, hresting.deques,
        hresting.inbox, hresting.idle]
    · have hthread : (submitPool pool setup.graph lane).threads thread = ⟨[], none⟩ :=
        hresting.idle thread
      rw [hthread]
      rfl
  bounded := by
    refine ⟨fun worker ↦ ?_, ?_⟩
    · have hempty : (submitPool pool setup.graph lane).deques worker = [] := hresting.deques worker
      rw [hempty]
      exact Nat.zero_le _
    · have hempty : (submitPool pool setup.graph lane).inbox = [] := hresting.inbox
      rw [hempty]
      exact Nat.zero_le _
  returned := fun h ↦ by cases h

/-! ### Every round -/

/-- The invariant: the graph has been built by calls, a running round is sound, and between two
rounds the pool is at rest. -/
structure Sound (s : Session workers) : Prop where
  built : s.setup.Reachable s.maxTasks
  running : s.running = true → Scheduler.Sound s.setup s.pool ∧ Scheduler.Fits s.setup ∧
    s.setup.IsAcyclic
  resting : s.running = false → Resting s.pool

theorem sound_new (maxTasks : ℕ) : (new maxTasks : Session workers).Sound where
  built := .refl
  running := fun h ↦ by cases h
  resting := fun _ ↦ ⟨fun _ ↦ rfl, fun _ ↦ rfl, rfl, rfl⟩

/-- Every step keeps the invariant. -/
theorem Sound.step {s s' : Session workers} (hsound : s.Sound) {action : SessionAction workers}
    (hsubmittable : s.Submittable action) (hstep : s.step action = some s') : s'.Sound := by
  obtain ⟨hbuilt, hrunning, hresting⟩ := hsound
  cases action with
  | build call =>
    obtain ⟨hoff, hnext⟩ := Option.ite_none_left_eq_some.mp hstep
    obtain ⟨setup, hsetup, rfl⟩ := Option.map_eq_some_iff.mp hnext
    exact ⟨hbuilt.tail trivial hsetup, fun hon ↦ absurd hon hoff, hresting⟩
  | submit lane =>
    obtain ⟨hoff, hnext⟩ := Option.ite_none_left_eq_some.mp hstep
    obtain rfl := Option.some.inj hnext
    obtain ⟨hacyclic, hfew, hindegree⟩ := hsubmittable
    have hcounts := Setup.reachable_counts hbuilt
    have hrest := hresting (Bool.eq_false_iff.mpr hoff)
    refine ⟨hbuilt, fun _ ↦ ⟨hrest.sound_submit hcounts (fun task htask ↦ ?_) lane,
      ⟨hcounts, hfew, hindegree⟩, hacyclic⟩, fun h ↦ by cases h⟩
    exact (Nat.lt_succ_self _).trans (hindegree task htask)
  | reset =>
    unfold Session.step at hstep
    dsimp only at hstep
    split at hstep
    · next hon hreturned =>
      obtain rfl := Option.some.inj hstep
      obtain ⟨hpool, hfits, -⟩ := hrunning hon
      obtain ⟨hidle, hwaiting, -⟩ := hpool.idle hfits.few (hpool.returned hreturned)
      exact ⟨.refl, fun h ↦ (by cases h), fun _ ↦ resting_of_idle hidle hwaiting hreturned⟩
    · cases hstep
  | advance thread =>
    obtain ⟨hpermitted, hnext⟩ := Option.ite_none_right_eq_some.mp hstep
    obtain rfl := Option.some.inj hnext
    refine ⟨hbuilt, fun hon ↦ ?_, fun hoff ↦ ?_⟩
    · obtain ⟨hpool, hfits, hacyclic⟩ := hrunning hon
      exact ⟨hpool.step hfits.counts hfits.few thread, hfits, hacyclic⟩
    · cases thread with
      | some worker => exact (hresting hoff).next worker
      | none => exact absurd hpermitted (by simp [show s.running = false from hoff])

section Rounds

variable {s : Session workers} {start : Session workers}

/-- The calls that build a graph, as steps of a session between two rounds. -/
theorem reaches_build {maxTasks : ℕ} {setup : Setup} (hsetup : setup.Reachable maxTasks)
    (hreach : system.Reaches Submittable start s) (hrunning : s.running = false)
    (hempty : s.setup = .new maxTasks) :
    system.Reaches Submittable start { s with setup := setup } := by
  induction hsetup with
  | refl => exact hempty ▸ hreach
  | @tail _ _ call _ _ hstep ih =>
    refine ih.tail (show Submittable _ (.build call) from trivial) ?_
    simp only [system, Session.step, hrunning]
    exact congrArg (Option.map _) hstep

/-- The steps of the threads, as steps of a session in a round. -/
theorem reaches_run (hreach : system.Reaches Submittable start s) (hrunning : s.running = true)
    (schedule : ℕ → workers.Thread) (time : ℕ) :
    system.Reaches Submittable start
        { s with pool := run Scheduler.next s.pool schedule time } := by
  induction time with
  | zero => exact hreach
  | succ time ih =>
    refine ih.tail (show Submittable _ (.advance (schedule time)) from trivial) ?_
    exact if_pos (.inl hrunning)

end Rounds

end Session

end GameEngine.Core
