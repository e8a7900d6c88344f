import GameEngine.Core.SchedulerProgress

/-!
# The destructor joins the workers

`~Impl` sets `stop_` and joins one worker after the other, whatever the graph has left to do. A
worker reads `stop_` only between two calls of `take_task`: it goes on with the body it is in, and
runs what its `dispatch` calls make it run.

`Teardown` is the pool with the worker loops and the destructor. `destructor_joins` says that, from
any state in which the client may destroy the graph, all workers are joined in every run in which
the client and the workers that have not left their loops are scheduled again and again. Then no
body is half way through: every body that has started has returned, and the tasks that are left over
have not run at all, nor has anything that waits for them.
-/

set_option autoImplicit false
set_option relaxedAutoImplicit false

namespace GameEngine.Core

open GameEngine.Library
open MachineWord FairRun DependencyCount

variable {workers : Workers}

/-! ### The worker loops and the destructor -/

/-- Where a worker is in `worker_loop` when it executes nothing: about to check `stop_`, in
`take_task`, or past the loop. -/
inductive WorkerLoop
  | checking
  | taking
  | left
deriving DecidableEq

/-- Where the client is: not in the destructor, about to join a worker, or past the joins. -/
inductive Destruction
  | live
  | joining (next : ℕ)
  | joined

/-- The pool with `stop_`, the worker loops and the destructor. -/
structure Teardown (workers : Workers) where
  pool : Scheduler workers
  stop : Bool
  loops : Fin workers.count → WorkerLoop
  phase : Destruction

/-- A thread is in no call. -/
def ThreadCalls.idle (calls : ThreadCalls workers) : Bool :=
  calls.stack.isEmpty && calls.dispatching.isNone

theorem ThreadCalls.idle_iff {calls : ThreadCalls workers} :
    calls.idle = true ↔ calls = ⟨[], none⟩ := by
  obtain ⟨stack, dispatching⟩ := calls
  simp [idle]

namespace Teardown

/-- The pool right after `submit` has set its flag. -/
def submitted (graph : TaskGraph) (lane : ℕ → TaskLane) : Teardown workers where
  pool := .submitted graph lane
  stop := false
  loops := fun _ ↦ .checking
  phase := .live

/-- The next step of a worker that executes nothing. A `take_task` is over when the next one would
look into the first queue again. -/
def advanceLoop (t : Teardown workers) (worker : Fin workers.count) : Teardown workers :=
  match t.loops worker with
  | .checking =>
    { t with loops := Function.update t.loops worker (if t.stop then .left else .taking) }
  | .taking =>
    let pool := t.pool.next (some worker)
    { t with
      pool := pool
      loops := if pool.scans worker = 0 then Function.update t.loops worker .checking else t.loops }
  | .left => t

/-- The next step of the client: of the pool, or of the loop over the joins. -/
def advanceClient (t : Teardown workers) : Teardown workers :=
  match t.phase with
  | .live => { t with pool := t.pool.next none }
  | .joining next =>
    if h : next < workers.count then
      if t.loops ⟨next, h⟩ = .left then { t with phase := .joining (next + 1) } else t
    else { t with phase := .joined }
  | .joined => t

/-- The next step of a thread. -/
def next (t : Teardown workers) : workers.Thread → Teardown workers
  | some worker =>
    if (t.pool.threads (some worker)).idle then t.advanceLoop worker
    else { t with pool := t.pool.next (some worker) }
  | none => t.advanceClient

/-- The client may destroy the graph: it is in no call of the graph. -/
def destroyable (t : Teardown workers) : Bool :=
  (t.pool.threads none).idle &&
    match t.phase, t.pool.client with
    | .live, .checking => true
    | .live, .returned => true
    | _, _ => false

/-- The first step of the destructor. -/
def destroy (t : Teardown workers) : Teardown workers :=
  { t with stop := true, phase := .joining 0 }

/-- The pool with its destructor as a transition system: an action is the thread that takes the next
step, or the start of the destructor. -/
def system : TransitionSystem (Teardown workers) (Option workers.Thread) where
  step := fun t action ↦
    match action with
    | some thread => some (t.next thread)
    | none => if t.destroyable then some t.destroy else none

/-- The states that are reached when a graph is submitted. -/
def Reachable (graph : TaskGraph) (lane : ℕ → TaskLane) (t : Teardown workers) : Prop :=
  system.Reaches TransitionSystem.unguarded (submitted graph lane) t

end Teardown

/-! ### What a step of the pool leaves alone -/

namespace Scheduler

variable {s : Scheduler workers} {thread : workers.Thread}

/-- A step changes the calls of its own thread only. -/
theorem threads_next (s : Scheduler workers) (thread : workers.Thread) :
    ∃ calls, (s.next thread).threads = Function.update s.threads thread calls := by
  have hsame : ∃ calls, s.threads = Function.update s.threads thread calls :=
    ⟨_, (Function.update_eq_self thread s.threads).symm⟩
  have hlook : ∀ (visit : Visit workers) (found proceed : Scheduler workers → Scheduler workers),
      (∀ other, (found other).threads = other.threads) → (proceed s).threads = s.threads →
      ∃ calls, (s.look thread visit found proceed).threads =
        Function.update s.threads thread calls := by
    intro visit found proceed hfound hproceed
    unfold look
    cases htake : s.take visit with
    | none =>
      dsimp only
      rwa [hproceed]
    | some result =>
      dsimp only
      rw [hfound, (take_spec htake).2]
      exact ⟨_, rfl⟩
  unfold Scheduler.next
  cases (s.threads thread).dispatching with
  | some call =>
    cases call <;> dsimp only [advanceDispatch] <;> (try split_ifs) <;> exact ⟨_, rfl⟩
  | none =>
    cases (s.threads thread).stack with
    | cons call outer =>
      obtain ⟨node, phase⟩ := call
      dsimp only [advanceExecute]
      cases phase with
      | taken =>
        dsimp only
        split_ifs <;> exact ⟨_, rfl⟩
      | releasing next =>
        dsimp only
        cases (s.graph.nodes node).successors[next]? <;> exact ⟨_, rfl⟩
      | _ => exact ⟨_, rfl⟩
    | nil =>
      cases thread with
      | some worker =>
        dsimp only [advanceWorker]
        cases (workers.visits (some worker))[s.scans worker]? with
        | none => exact hsame
        | some visit => exact hlook visit _ _ (fun _ ↦ rfl) rfl
      | none =>
        dsimp only [advanceClient]
        cases s.client with
        | submitting next =>
          dsimp only
          split_ifs
          · exact ⟨_, rfl⟩
          · exact hsame
        | checking =>
          dsimp only
          split_ifs <;> exact hsame
        | helping next =>
          dsimp only
          cases (workers.visits none)[next]? with
          | none => exact hsame
          | some visit => exact hlook visit _ _ (fun _ ↦ rfl) rfl
        | returned => exact hsame

theorem threads_next_of_ne {other : workers.Thread} (hne : other ≠ thread) :
    (s.next thread).threads other = s.threads other := by
  obtain ⟨calls, hcalls⟩ := threads_next s thread
  rw [hcalls, Function.update_of_ne hne]

/-- A step of a thread in a call, or of the client, does not change where the workers look next. -/
theorem scans_next (hbusy : ∀ worker, thread = some worker → s.threads thread ≠ ⟨[], none⟩) :
    (s.next thread).scans = s.scans := by
  unfold Scheduler.next
  cases hthread : s.threads thread with
  | mk stack dispatching =>
    cases dispatching with
    | some call => cases call <;> dsimp only [advanceDispatch] <;> (try split_ifs) <;> rfl
    | none =>
      cases stack with
      | cons call outer =>
        dsimp only
        rw [advanceExecute_eq]
      | nil =>
        cases thread with
        | some worker => exact absurd hthread (hbusy worker rfl)
        | none =>
          dsimp only [advanceClient]
          cases s.client with
          | submitting next =>
            dsimp only
            split_ifs <;> rfl
          | checking =>
            dsimp only
            split_ifs <;> rfl
          | helping next =>
            dsimp only
            cases (workers.visits none)[next]? with
            | none => rfl
            | some visit =>
              dsimp only [look]
              cases htake : s.take visit with
              | none => rfl
              | some result =>
                dsimp only
                rw [(take_spec htake).2]
                rfl
          | returned => rfl

/-- What the step of a worker that executes nothing does: it takes a node and `take_task` is over,
it passes to the next queue, or `take_task` is over after the last one. -/
theorem next_idle_worker {worker : Fin workers.count}
    (hthread : s.threads (some worker) = ⟨[], none⟩) :
    ((s.next (some worker)).work < s.work ∧
      (s.next (some worker)).scans = Function.update s.scans worker 0) ∨
    (s.scans worker < (workers.visits (some worker)).length ∧ s.next (some worker) =
      { s with scans := Function.update s.scans worker (s.scans worker + 1) }) ∨
    s.next (some worker) = { s with scans := Function.update s.scans worker 0 } := by
  have hnext : s.next (some worker) = s.advanceWorker worker := by
    unfold Scheduler.next
    rw [hthread]
  rw [hnext]
  unfold Scheduler.advanceWorker
  dsimp only
  cases hvisit : (workers.visits (some worker))[s.scans worker]? with
  | none => exact .inr (.inr rfl)
  | some visit =>
    dsimp only
    cases htake : s.take visit with
    | none =>
      refine .inr (.inl ⟨(List.getElem?_eq_some_iff.mp hvisit).1, ?_⟩)
      rw [look, htake]
    | some result =>
      obtain ⟨node, rest⟩ := result
      refine .inl ⟨?_, ?_⟩
      · have hfound : ∀ next : Scheduler workers, next.client = s.client →
            work { next with scans := Function.update next.scans worker 0 } ≤ next.work :=
          fun next _ ↦ (work_scans next _).le
        have hcases : (s.look (some worker) visit _ fun s ↦
            { s with scans := Function.update s.scans worker (s.scans worker + 1) }).work < s.work ∨
              s.hasNode visit = false ∧ _ := look_cases hthread hfound
        rcases hcases with hlower | ⟨hnone, -⟩
        · exact hlower
        · rw [← take_eq_none_iff, htake] at hnone
          contradiction
      · rw [look, htake, (take_spec htake).2]
        rfl

/-- The client moves only by its own steps. -/
theorem client_next_worker (s : Scheduler workers) (worker : Fin workers.count) :
    (s.next (some worker)).client = s.client := by
  unfold Scheduler.next
  cases (s.threads (some worker)).dispatching with
  | some call => exact client_advanceDispatch s _ _ call
  | none =>
    cases (s.threads (some worker)).stack with
    | cons call outer =>
      dsimp only
      rw [advanceExecute_eq]
    | nil =>
      dsimp only
      rw [advanceWorker_eq]

end Scheduler

/-! ### The invariant -/

namespace Teardown

variable {t : Teardown workers} {setup : Setup}

/-- The invariant: the pool is sound, a worker that is in a call or not in `take_task` starts over
with the first queue, only a worker in its loop is in a call, and the destructor has joined only
workers that have left their loops, and has been started by a client that is in no call. -/
structure Sound (setup : Setup) (t : Teardown workers) : Prop where
  pool : t.pool.Sound setup
  scans_eq : ∀ worker, t.loops worker ≠ .taking → t.pool.scans worker = 0
  loop_eq : ∀ worker, t.pool.threads (some worker) ≠ ⟨[], none⟩ → t.loops worker = .checking
  stopped : t.phase ≠ .live → t.stop = true ∧ t.pool.threads none = ⟨[], none⟩ ∧
    ∀ position, t.pool.client ≠ .submitting position
  joining : ∀ next, t.phase = .joining next →
    ∀ worker : Fin workers.count, worker < next → t.loops worker = .left
  joined : t.phase = .joined → ∀ worker, t.loops worker = .left

/-- The invariant holds at the start. -/
theorem sound_submitted {graph : TaskGraph} {lane : ℕ → TaskLane}
    (hpool : (Scheduler.submitted graph lane : Scheduler workers).Sound setup) :
    Sound setup (submitted graph lane : Teardown workers) where
  pool := hpool
  scans_eq := fun _ _ ↦ rfl
  loop_eq := fun _ _ ↦ rfl
  stopped := fun h ↦ absurd rfl h
  joining := fun _ h ↦ by cases h
  joined := fun h ↦ by cases h

/-- A step of the pool, with what becomes of the loops. -/
theorem Sound.pool_next (hcounts : setup.Counts) (hfew : setup.graph.taskCount < word32)
    (hsound : Sound setup t) (thread : workers.Thread) {loops : Fin workers.count → WorkerLoop}
    (hclient : thread = none → t.phase = .live)
    (hscans : ∀ worker, loops worker ≠ .taking → (t.pool.next thread).scans worker = 0)
    (hloop : ∀ worker, (t.pool.next thread).threads (some worker) ≠ ⟨[], none⟩ →
      loops worker = .checking)
    (hleft : ∀ worker, t.loops worker = .left → loops worker = .left) :
    Sound setup { t with pool := t.pool.next thread, loops := loops } where
  pool := hsound.pool.step hcounts hfew thread
  scans_eq := hscans
  loop_eq := hloop
  stopped := by
    intro hphase
    obtain ⟨hstop, hidle, hsubmitted⟩ := hsound.stopped hphase
    cases thread with
    | none => exact absurd (hclient rfl) hphase
    | some worker =>
      refine ⟨hstop, ?_, ?_⟩
      · exact (Scheduler.threads_next_of_ne (by simp)).trans hidle
      · exact fun position ↦ (Scheduler.client_next_worker t.pool worker).symm ▸
          hsubmitted position
  joining := fun next hphase worker hlt ↦ hleft worker (hsound.joining next hphase worker hlt)
  joined := fun hphase worker ↦ hleft worker (hsound.joined hphase worker)

/-- The loop of a worker that executes nothing keeps the invariant. -/
theorem Sound.advanceLoop (hcounts : setup.Counts) (hfew : setup.graph.taskCount < word32)
    (hsound : Sound setup t) {worker : Fin workers.count}
    (hidle : t.pool.threads (some worker) = ⟨[], none⟩) : Sound setup (t.advanceLoop worker) := by
  unfold Teardown.advanceLoop
  cases hworker : t.loops worker with
  | left => exact hsound
  | checking =>
    have hkeep : ∀ other, t.loops other = .left → other ≠ worker := by
      rintro other hother rfl
      rw [hworker] at hother
      contradiction
    dsimp only
    refine { hsound with scans_eq := ?_, loop_eq := ?_, joining := ?_, joined := ?_ }
    · intro other hother
      by_cases hsame : other = worker
      · subst hsame
        exact hsound.scans_eq other (by rw [hworker]; simp)
      · refine hsound.scans_eq other fun htaking ↦ hother ?_
        exact (Function.update_of_ne hsame _ _).trans htaking
    · intro other hother
      have hne : other ≠ worker := by
        rintro rfl
        exact hother hidle
      exact (Function.update_of_ne hne _ _).trans (hsound.loop_eq other hother)
    · intro next hphase other hlt
      have hleft := hsound.joining next hphase other hlt
      exact (Function.update_of_ne (hkeep other hleft) _ _).trans hleft
    · intro hphase other
      have hleft := hsound.joined hphase other
      exact (Function.update_of_ne (hkeep other hleft) _ _).trans hleft
  | taking =>
    have hkeep : ∀ other, t.loops other = .left → other ≠ worker := by
      rintro other hother rfl
      rw [hworker] at hother
      contradiction
    have hscans : ∀ other ≠ worker,
        (t.pool.next (some worker)).scans other = t.pool.scans other := by
      intro other hother
      rcases Scheduler.next_idle_worker hidle with ⟨-, heq⟩ | ⟨-, heq⟩ | heq
      · rw [heq, Function.update_of_ne hother]
      · rw [heq]
        exact Function.update_of_ne hother _ _
      · rw [heq]
        exact Function.update_of_ne hother _ _
    have hthreads : ∀ other ≠ worker, (t.pool.next (some worker)).threads (some other) =
        t.pool.threads (some other) :=
      fun other hother ↦ Scheduler.threads_next_of_ne (by simpa using hother)
    have hstart : (t.pool.next (some worker)).threads (some worker) ≠ ⟨[], none⟩ →
        (t.pool.next (some worker)).scans worker = 0 := by
      intro hbusy
      rcases Scheduler.next_idle_worker hidle with ⟨-, heq⟩ | ⟨-, heq⟩ | heq
      · rw [heq, Function.update_self]
      · rw [heq] at hbusy
        exact absurd hidle hbusy
      · rw [heq]
        exact Function.update_self _ _ _
    refine hsound.pool_next hcounts hfew (some worker) (fun h ↦ by cases h) ?_ ?_ ?_
    · intro other hother
      by_cases hsame : other = worker
      · subst hsame
        by_contra hscan
        rw [if_neg hscan] at hother
        exact hother hworker
      · rw [hscans other hsame]
        refine hsound.scans_eq other fun htaking ↦ hother ?_
        split_ifs
        · rwa [Function.update_of_ne hsame]
        · exact htaking
    · intro other hother
      by_cases hsame : other = worker
      · subst hsame
        rw [if_pos (hstart hother), Function.update_self]
      · rw [hthreads other hsame] at hother
        have hchecking := hsound.loop_eq other hother
        split_ifs
        · rwa [Function.update_of_ne hsame]
        · exact hchecking
    · intro other hother
      split_ifs
      · rwa [Function.update_of_ne (hkeep other hother)]
      · exact hother

/-- Every step keeps the invariant. -/
theorem Sound.next (hcounts : setup.Counts) (hfew : setup.graph.taskCount < word32)
    (hsound : Sound setup t) (thread : workers.Thread) : Sound setup (t.next thread) := by
  cases thread with
  | some worker =>
    unfold Teardown.next
    dsimp only
    split_ifs with hidle
    · exact hsound.advanceLoop hcounts hfew (ThreadCalls.idle_iff.mp hidle)
    · have hbusy : t.pool.threads (some worker) ≠ ⟨[], none⟩ :=
        fun h ↦ hidle (ThreadCalls.idle_iff.mpr h)
      have hscans := @Scheduler.scans_next _ t.pool (some worker) fun other hother ↦ hbusy
      refine hsound.pool_next hcounts hfew (some worker) (fun h ↦ by cases h) ?_ ?_ fun _ ↦ id
      · intro other hother
        rw [hscans]
        exact hsound.scans_eq other hother
      · intro other hother
        by_cases hsame : other = worker
        · exact hsame ▸ hsound.loop_eq worker hbusy
        · rw [Scheduler.threads_next_of_ne (by simpa using hsame)] at hother
          exact hsound.loop_eq other hother
  | none =>
    unfold Teardown.next advanceClient
    cases hphase : t.phase with
    | live =>
      have hscans := @Scheduler.scans_next _ t.pool none fun _ h ↦ by cases h
      have hnext : Sound setup { t with pool := t.pool.next none, loops := t.loops } := by
        refine hsound.pool_next hcounts hfew none (fun _ ↦ hphase) ?_ ?_ fun _ ↦ id
        · intro other hother
          rw [hscans]
          exact hsound.scans_eq other hother
        · intro other hother
          rw [Scheduler.threads_next_of_ne (by simp)] at hother
          exact hsound.loop_eq other hother
      rw [hphase] at hnext
      exact hnext
    | joining next =>
      dsimp only
      have hstopped := hsound.stopped (by rw [hphase]; simp)
      split_ifs with hlt hleft
      · refine { hsound with stopped := fun _ ↦ hstopped, joining := ?_, joined := ?_ }
        · intro next' hnext' worker hworker
          obtain rfl := Destruction.joining.inj hnext'
          rcases Nat.lt_succ_iff_lt_or_eq.mp hworker with hbefore | heq
          · exact hsound.joining next hphase worker hbefore
          · exact (Fin.ext heq : worker = ⟨next, hlt⟩) ▸ hleft
        · exact fun h ↦ by cases h
      · exact hsound
      · refine { hsound with stopped := fun _ ↦ hstopped, joining := ?_, joined := ?_ }
        · exact fun _ h ↦ by cases h
        · exact fun _ worker ↦ hsound.joining next hphase worker (by omega)
    | joined => exact hsound

/-- The start of the destructor keeps the invariant. -/
theorem Sound.destroy (hsound : Sound setup t) (hdestroyable : t.destroyable = true) :
    Sound setup t.destroy := by
  unfold destroyable at hdestroyable
  obtain ⟨hidle, hclient⟩ := Bool.and_eq_true_iff.mp hdestroyable
  refine { hsound with stopped := ?_, joining := ?_, joined := ?_ }
  · refine fun _ ↦ ⟨rfl, ThreadCalls.idle_iff.mp hidle, fun position hposition ↦ ?_⟩
    change t.pool.client = _ at hposition
    rw [hposition] at hclient
    cases hphase : t.phase <;> simp [hphase] at hclient
  · intro next hnext worker hworker
    obtain rfl := Destruction.joining.inj hnext
    exact absurd hworker (Nat.not_lt_zero _)
  · exact fun h ↦ by cases h

theorem Reachable.sound (hcounts : setup.Counts) (hfew : setup.graph.taskCount < word32)
    (hindegree : ∀ task < setup.graph.taskCount, setup.indegree task < word32)
    {lane : ℕ → TaskLane} (hreach : Reachable setup.graph lane t) : Sound setup t := by
  refine hreach.invariant (sound_submitted (Scheduler.sound_submitted hcounts hindegree lane)) ?_
  intro state action after hsound _ hstep
  cases action with
  | some thread => exact Option.some.inj hstep ▸ hsound.next hcounts hfew thread
  | none =>
    have hdestroyable : state.destroyable = true := by
      by_contra hnot
      simp [system, hnot] at hstep
    simp only [system, hdestroyable, if_true, Option.some.injEq] at hstep
    exact hstep ▸ hsound.destroy hdestroyable

/-! ### The workers leave -/

/-- How many steps a worker that executes nothing needs until it leaves, if it finds no node and
`stop_` is set. -/
def distance (t : Teardown workers) (worker : Fin workers.count) : ℕ :=
  match t.loops worker with
  | .checking => 1
  | .taking => (workers.visits (some worker)).length - t.pool.scans worker + 2
  | .left => 0

/-- The joins that are left. -/
def joins (t : Teardown workers) : ℕ :=
  match t.phase with
  | .joining next => workers.count - next
  | _ => 0

/-- The work of the pool, then the steps until the workers leave, then the joins. -/
def rank (t : Teardown workers) : ℕ ×ₗ ℕ ×ₗ ℕ :=
  toLex (t.pool.work, toLex (∑ worker, t.distance worker, t.joins))

/-- A thread that the destructor waits for: the client, or a worker that has not left. -/
def Awaited (t : Teardown workers) (thread : workers.Thread) : Prop :=
  thread = none ∨ ∃ worker, thread = some worker ∧ t.loops worker ≠ .left

open Classical in
/-- A worker that has not left its loop, and otherwise the client. -/
noncomputable def helpful (t : Teardown workers) : workers.Thread :=
  if h : ∃ worker, t.loops worker ≠ .left then some h.choose else none

theorem awaited_helpful (t : Teardown workers) : t.Awaited t.helpful := by
  unfold helpful
  split_ifs with h
  · exact .inr ⟨_, rfl, h.choose_spec⟩
  · exact .inl rfl

theorem rank_lt_of_work {after : Teardown workers} (hwork : after.pool.work < t.pool.work) :
    after.rank < t.rank := Prod.Lex.toLex_lt_toLex.mpr (.inl hwork)

/-- One worker comes closer to leaving. -/
theorem rank_lt_of_distance {after : Teardown workers} (worker : Fin workers.count)
    (hwork : after.pool.work = t.pool.work)
    (hothers : ∀ other ≠ worker, after.distance other = t.distance other)
    (hlt : after.distance worker < t.distance worker) : after.rank < t.rank := by
  have hsum : ∑ other, after.distance other < ∑ other, t.distance other := by
    refine Finset.sum_lt_sum (fun other _ ↦ ?_) ⟨worker, Finset.mem_univ worker, hlt⟩
    by_cases hsame : other = worker
    · exact hsame ▸ hlt.le
    · exact (hothers other hsame).le
  exact Prod.Lex.toLex_lt_toLex.mpr (.inr ⟨hwork, Prod.Lex.toLex_lt_toLex.mpr (.inl hsum)⟩)

/-- Every step in the destructor lowers the rank, or changes nothing and is one of a thread that is
not the helpful one. -/
theorem Sound.rank_next (hfits : Scheduler.Fits setup) (hsound : Sound setup t)
    (hphase : t.phase ≠ .live) (thread : workers.Thread) :
    (t.next thread).phase = .joined ∨ (t.next thread).rank < t.rank ∨
      thread ≠ t.helpful ∧ t.next thread = t := by
  obtain ⟨hstop, -, -⟩ := hsound.stopped hphase
  cases thread with
  | some worker =>
    unfold Teardown.next
    dsimp only
    split_ifs with hcalls
    · have hidle := ThreadCalls.idle_iff.mp hcalls
      unfold Teardown.advanceLoop
      cases hworker : t.loops worker with
      | left =>
        refine .inr (.inr ⟨fun hhelpful ↦ ?_, rfl⟩)
        rcases hhelpful ▸ awaited_helpful t with hnone | ⟨other, hsome, hother⟩
        · cases hnone
        · exact hother (Option.some.inj hsome ▸ hworker)
      | checking =>
        dsimp only
        refine .inr (.inl (rank_lt_of_distance worker rfl (fun other hother ↦ ?_) ?_))
        · simp [distance, Function.update_of_ne hother]
        · simp [distance, hstop, hworker]
      | taking =>
        dsimp only
        refine .inr (.inl ?_)
        rcases Scheduler.next_idle_worker hidle with ⟨hwork, -⟩ | ⟨hlt, hnext⟩ | hnext
        · exact rank_lt_of_work hwork
        · rw [hnext]
          refine rank_lt_of_distance worker rfl (fun other hother ↦ ?_) ?_
          · simp [distance, Function.update_of_ne hother]
          · simp [distance, hworker]
            omega
        · rw [hnext]
          refine rank_lt_of_distance worker rfl (fun other hother ↦ ?_) ?_
          · simp [distance, Function.update_of_ne hother]
          · simp [distance, hworker]
    · have hbusy : t.pool.threads (some worker) ≠ ⟨[], none⟩ :=
        fun h ↦ hcalls (ThreadCalls.idle_iff.mpr h)
      exact .inr (.inl (rank_lt_of_work (hsound.pool.work_next hfits (.inl hbusy))))
  | none =>
    unfold Teardown.next advanceClient
    cases hclient : t.phase with
    | live => exact absurd hclient hphase
    | joined => exact .inl hclient
    | joining next =>
      dsimp only
      split_ifs with hlt hleft
      · refine .inr (.inl (Prod.Lex.toLex_lt_toLex.mpr (.inr ⟨rfl,
          Prod.Lex.toLex_lt_toLex.mpr (.inr ⟨rfl, ?_⟩)⟩)))
        simp only [joins, hclient]
        omega
      · refine .inr (.inr ⟨fun hhelpful ↦ ?_, rfl⟩)
        have hexists : ∃ worker, t.loops worker ≠ .left := ⟨_, hleft⟩
        rw [helpful, dif_pos hexists] at hhelpful
        cases hhelpful
      · exact .inl rfl

theorem phase_next_worker (t : Teardown workers) (worker : Fin workers.count) :
    (t.next (some worker)).phase = t.phase := by
  unfold Teardown.next
  dsimp only
  by_cases hidle : (t.pool.threads (some worker)).idle = true
  · rw [if_pos hidle]
    unfold advanceLoop
    cases t.loops worker <;> rfl
  · rw [if_neg hidle]

/-- A graph that is destroyed stays destroyed. -/
theorem phase_next (hphase : t.phase ≠ .live) (thread : workers.Thread) :
    (t.next thread).phase ≠ .live := by
  cases thread with
  | some worker => rwa [phase_next_worker]
  | none =>
    unfold Teardown.next advanceClient
    cases hclient : t.phase with
    | live => exact absurd hclient hphase
    | joined => simp [hclient]
    | joining next =>
      dsimp only
      split_ifs <;> simp [hclient]

/-! ### What is left -/

/-- What a destroyed pool leaves: no thread is in a call, every body that has started has returned,
once and after those of its prerequisites, and all others are outstanding. -/
structure TornDown (setup : Setup) (s : Scheduler workers) : Prop where
  idle : ∀ thread, s.threads thread = ⟨[], none⟩
  once : s.started.Nodup
  whole : ∀ task, task ∈ s.started ↔ task ∈ s.finished
  ordered : ∀ edge ∈ setup.edges, edge.2 ∈ s.started → edge.1 ∈ s.finished
  outstanding_eq : s.graph.outstanding =
    ((Finset.range setup.graph.taskCount).filter fun task ↦ task ∉ s.started).card

/-- Past the joins no thread is in a call. -/
theorem Sound.idle (hsound : Sound setup t) (hjoined : t.phase = .joined)
    (thread : workers.Thread) :
    t.pool.threads thread = ⟨[], none⟩ := by
  cases thread with
  | none => exact (hsound.stopped (by rw [hjoined]; simp)).2.1
  | some worker =>
    by_contra hbusy
    have hleft := hsound.joined hjoined worker
    rw [hsound.loop_eq worker hbusy] at hleft
    contradiction

/-- Past the joins the pool is torn down. -/
theorem Sound.tornDown (hcounts : setup.Counts) (hacyclic : setup.IsAcyclic)
    (hfew : setup.graph.taskCount < word32) (hsound : Sound setup t) (hjoined : t.phase = .joined) :
    TornDown setup t.pool := by
  have hidle := hsound.idle hjoined
  have hcorrect := hsound.pool.correct hcounts hacyclic hfew
  obtain ⟨a, stage, hrefines, htracks⟩ := hsound.pool.tracked
  -- A task that is held would be in a call.
  have hheld : ∀ task < setup.graph.taskCount, stage task = .waiting ∨ stage task = .retired := by
    intro task htask
    cases hstage : stage task with
    | waiting => exact .inl rfl
    | retired => exact .inr rfl
    | held phase =>
      obtain ⟨exec, hexec⟩ := (htracks.calls.heldOnce.owed_iff task).mp ⟨htask, phase, hstage⟩
      rw [hrefines.calls_eq exec.1 exec.2, hidle] at hexec
      simp [frameAt] at hexec
  have hwhole : ∀ task < setup.graph.taskCount,
      (stage task).hasStarted = (stage task).hasFinished ∧
        (stage task).isRetired = (stage task).hasStarted := by
    intro task htask
    rcases hheld task htask with hstage | hstage <;> rw [hstage] <;> exact ⟨rfl, rfl⟩
  refine ⟨hidle, hcorrect.once, fun task ↦ ?_, hcorrect.ordered, ?_⟩
  · rw [← hrefines.started_eq, ← hrefines.finished_eq, htracks.logs.mem_started,
      htracks.logs.mem_finished]
    exact and_congr_right fun htask ↦ by rw [(hwhole task htask).1]
  · have hcard := htracks.outstanding_eq
    have hle : (unretired setup.graph.taskCount stage).card ≤ setup.graph.taskCount :=
      (Finset.card_filter_le _ _).trans_eq (Finset.card_range _)
    have hoff : unretired setup.graph.taskCount stage =
        (Finset.range setup.graph.taskCount).filter fun task ↦ task ∉ t.pool.started := by
      refine Finset.filter_congr fun task htask ↦ ?_
      have htask := Finset.mem_range.mp htask
      rw [← hrefines.started_eq, htracks.logs.mem_started, (hwhole task htask).2]
      simp [htask]
    rw [Nat.mod_eq_of_lt (by omega), hoff] at hcard
    rw [← hcard, hrefines.graph_eq]

/-- From any state in which the client may destroy the graph, the destructor joins all workers in
every run in which the client, and every worker that has not left its loop, is scheduled at that
time or later; then the pool is torn down. Assumes: accepted dependencies without a cycle, fewer
than `2 ^ 32` tasks and fewer than `2 ^ 32 - 1` dependencies of each task on others. -/
theorem destructor_joins {maxTasks : ℕ} (hsetup : setup.Reachable maxTasks)
    (hacyclic : setup.IsAcyclic) (hfew : setup.graph.taskCount < word32)
    (hindegree : ∀ task < setup.graph.taskCount, setup.indegree task + 1 < word32)
    {lane : ℕ → TaskLane} (hreach : Reachable setup.graph lane t)
    (hdestroyable : t.destroyable = true) (schedule : ℕ → workers.Thread)
    (hfair : ∀ time thread, (run next t.destroy schedule time).Awaited thread →
      ∃ later ≥ time, schedule later = thread) :
    ∃ time, (run next t.destroy schedule time).phase = .joined ∧
      TornDown setup (run next t.destroy schedule time).pool := by
  have hcounts := Setup.reachable_counts hsetup
  have hfits : Scheduler.Fits setup := ⟨hcounts, hfew, hindegree⟩
  have hsound := hreach.sound hcounts hfew
    (fun task htask ↦ (Nat.lt_succ_self _).trans (hindegree task htask))
  let invariant := fun t : Teardown workers ↦ Sound setup t ∧ t.phase ≠ .live
  have hstart : invariant t.destroy := ⟨hsound.destroy hdestroyable, by simp [destroy]⟩
  have hstep : ∀ (t : Teardown workers) thread, invariant t → invariant (t.next thread) :=
    fun t thread h ↦ ⟨h.1.next hcounts hfew thread, phase_next h.2 thread⟩
  obtain ⟨time, hjoined⟩ := exists_goal (fun t ↦ t.phase = .joined) rank helpful hstart
    hstep (fun t thread h _ ↦ by
      rcases h.1.rank_next hfits h.2 thread with hgoal | hlower | ⟨hother, hsame⟩
      · exact .inl hgoal
      · exact .inr (.inl hlower)
      · exact .inr (.inr ⟨hother, by rw [hsame], by rw [hsame]⟩))
    (fun time _ ↦ hfair time _ (awaited_helpful _))
  exact ⟨time, hjoined,
    (run_invariant hstart hstep time).1.tornDown hcounts hacyclic hfew hjoined⟩

/-- The theorem at one worker and a chain of two tasks, destroyed right after the submission, when
the two threads take turns. -/
theorem destructor_joins_chain : ∃ (setup : Setup) (t : Teardown (.new 1 8 none)) (time : ℕ),
    setup.edges = [(0, 1)] ∧ t.pool.started = [] ∧ TornDown setup
      (run next t.destroy (fun time ↦ if time % 2 = 0 then none else some (Workers.ofNat _ 0))
        time).pool := by
  obtain ⟨setup, hsetup, htest⟩ := TransitionSystem.Reaches.exists_of_schedule Setup.system
    (.new 2) [.createTask 8 8 true, .createTask 8 8 true, .addDependency (some 0) (some 1)]
    (fun setup ↦ setup.graph.taskCount = 2 ∧ setup.edges = [(0, 1)] ∧
      ((system : TransitionSystem (Teardown (.new 1 8 none)) _).execute
        (submitted setup.graph fun _ ↦ .general) (List.replicate 5 (some none))).any
        fun t ↦ t.destroyable = true ∧ t.pool.started = [])
    (by decide +kernel)
  obtain ⟨hcount, hedges, hrun⟩ := of_decide_eq_true htest
  obtain ⟨t, hreach, ht⟩ := TransitionSystem.Reaches.exists_of_schedule _ _ _ _ hrun
  obtain ⟨hdestroyable, hstarted⟩ := of_decide_eq_true ht
  have hacyclic : setup.IsAcyclic := by
    refine Acyclic.of_rank (fun task ↦ task) fun source target hedge ↦ ?_
    rw [hedges, List.mem_singleton] at hedge
    obtain ⟨rfl, rfl⟩ := Prod.mk.inj hedge
    exact Nat.zero_lt_one
  have hindegree : ∀ task < setup.graph.taskCount, setup.indegree task + 1 < word32 := by
    intro task _
    refine (Nat.succ_le_succ List.countP_le_length).trans_lt ?_
    rw [hedges]
    decide
  obtain ⟨time, -, htorn⟩ := destructor_joins hsetup hacyclic (by rw [hcount]; decide) hindegree
    hreach hdestroyable
    (fun time ↦ if time % 2 = 0 then none else some (Workers.ofNat (.new 1 8 none) 0))
    (fun time thread _ ↦ by
      cases thread with
      | none => exact ⟨2 * time, by omega, if_pos (by omega)⟩
      | some worker =>
        refine ⟨2 * time + 1, by omega, ?_⟩
        rw [if_neg (by omega)]
        exact congrArg some (Subsingleton.elim (α := Fin 1) _ worker))
  exact ⟨setup, t, time, hedges, hstarted, htorn⟩

end Teardown

end GameEngine.Core
