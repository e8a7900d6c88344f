import GameEngine.Core.SchedulerRefinement
import Mathlib.Data.Prod.Lex
import Mathlib.Order.Monotone.Basic

/-!
# The worker pool finishes a submitted graph

`wait` only polls: it looks into one queue after the other and starts over. `wait_returns` says that
it nevertheless returns, with all bodies run, in every run in which the client and the threads that
are in a call are scheduled again and again. The other workers may stop for good.

`work` bounds the steps that are left: every step of a thread in a call and every node taken from a
queue lowers it. When no thread is in a call, some queue has a node as long as anything is
outstanding, and every step of the client brings `help` closer to it (`distance`). The two are the
rank of the method of helpful threads.
-/

set_option autoImplicit false
set_option relaxedAutoImplicit false

namespace GameEngine.Core

open GameEngine.Library
open MachineWord FairRun DependencyCount

variable {workers : Workers}

/-! ### The work that is left -/

/-- The steps that an `execute` call has left at most, apart from those of its successors. -/
def Phase.weight : Phase → ℕ
  | .taken => 5
  | .starting => 4
  | .running => 3
  | .releasing _ => 2
  | .retiring => 1

/-- The steps that a `dispatch` has left at most. -/
def DispatchCall.weight : DispatchCall workers → ℕ
  | .picking _ => 3
  | .pushing _ _ => 2
  | .enqueueing _ => 1

/-- The steps that the calls of a stack have left at most. -/
def stackWeight (stack : List ExecuteCall) : ℕ := (stack.map fun call ↦ call.phase.weight).sum

@[simp] theorem stackWeight_cons (call : ExecuteCall) (outer : List ExecuteCall) :
    stackWeight (call :: outer) = call.phase.weight + stackWeight outer := List.sum_cons

/-- What a thread has to do: the way of the node in its hand, and its calls. -/
def ThreadCalls.load (calls : ThreadCalls workers) : ℕ :=
  calls.dispatching.elim 0 (fun call ↦ 6 + call.weight) + stackWeight calls.stack

theorem ThreadCalls.load_none (stack : List ExecuteCall) :
    (⟨stack, none⟩ : ThreadCalls workers).load = stackWeight stack := Nat.zero_add _

theorem ThreadCalls.load_some (stack : List ExecuteCall) (call : DispatchCall workers) :
    ThreadCalls.load ⟨stack, some call⟩ = 6 + call.weight + stackWeight stack := rfl

/-- What the counters of the nodes add up to. -/
def TaskGraph.pendingSum (graph : TaskGraph) : ℕ :=
  ∑ task ∈ Finset.range graph.taskCount, (graph.nodes task).pending

theorem TaskGraph.pendingSum_setNode {graph : TaskGraph} {node : ℕ}
    (hnode : node < graph.taskCount) (value : TaskNode) :
    (graph.setNode node value).pendingSum + (graph.nodes node).pending =
      graph.pendingSum + value.pending :=
  sum_change graph.nodes TaskNode.pending (Finset.mem_range.mpr hnode) value

/-- A counter that is not raised does not raise the sum. -/
theorem TaskGraph.pendingSum_setNode_le {graph : TaskGraph} {node : ℕ} {value : TaskNode}
    (hvalue : value.pending ≤ (graph.nodes node).pending) :
    (graph.setNode node value).pendingSum ≤ graph.pendingSum := by
  refine Finset.sum_le_sum fun task _ ↦ ?_
  by_cases htask : task = node
  · subst htask
    simpa [setNode] using hvalue
  · simp [setNode, htask]

namespace Scheduler

variable {s : Scheduler workers} {thread : workers.Thread}

/-- The steps that the submit loop has left after its iterations. -/
def loopWork : ClientLoop → ℕ
  | .submitting _ => 1
  | _ => 0

/-- The work that is left: a count of a counter stands for the step that takes it and for the way of
a node from `dispatch` to `execute`, and a node in a queue for the rest of that way and for its
call. -/
def work (s : Scheduler workers) : ℕ :=
  10 * s.graph.pendingSum + 6 * (∑ worker, (s.deques worker).length + s.inbox.length) +
    ∑ other, (s.threads other).load + loopWork s.client

/-- A thread changes its calls. -/
theorem work_setThread (s : Scheduler workers) (thread : workers.Thread)
    (calls : ThreadCalls workers) :
    (s.setThread thread calls).work + (s.threads thread).load = s.work + calls.load := by
  have hsum := sum_change s.threads ThreadCalls.load (Finset.mem_univ thread) calls
  simp only [work, setThread]
  omega

/-- A deque changes. -/
theorem work_deque (s : Scheduler workers) (worker : Fin workers.count) (nodes : List ℕ) :
    work { s with deques := Function.update s.deques worker nodes } +
      6 * (s.deques worker).length = s.work + 6 * nodes.length := by
  have hsum := sum_change s.deques List.length (Finset.mem_univ worker) nodes
  simp only [work]
  omega

/-- The inbox changes. -/
theorem work_inbox (s : Scheduler workers) (nodes : List ℕ) :
    work { s with inbox := nodes } + 6 * s.inbox.length = s.work + 6 * nodes.length := by
  simp only [work]
  omega

theorem work_setThread_lt {next : Scheduler workers} {calls : ThreadCalls workers}
    (hthreads : next.threads = s.threads)
    (hlt : next.work + calls.load < s.work + (s.threads thread).load) :
    (next.setThread thread calls).work < s.work := by
  have h := work_setThread next thread calls
  rw [hthreads] at h
  omega

/-- Every step of a `dispatch` lowers the work. -/
theorem work_advanceDispatch {stack : List ExecuteCall} {call : DispatchCall workers}
    (hthread : s.threads thread = ⟨stack, some call⟩) :
    (s.advanceDispatch thread stack call).work < s.work := by
  have hload : (s.threads thread).load = 6 + call.weight + stackWeight stack := by
    rw [hthread, ThreadCalls.load_some]
  cases call with
  | picking node =>
    refine work_setThread_lt rfl ?_
    rw [hload, ThreadCalls.load_some]
    exact Nat.add_lt_add_left (Nat.add_lt_add_right (Nat.lt_succ_self 8) _) s.work
  | pushing node worker =>
    dsimp only [Scheduler.advanceDispatch]
    split_ifs
    · refine work_setThread_lt rfl ?_
      have hdeque := work_deque s worker (s.deques worker ++ [node])
      rw [List.length_append, List.length_singleton] at hdeque
      rw [hload, ThreadCalls.load_none, DispatchCall.weight]
      omega
    · refine work_setThread_lt rfl ?_
      rw [hload, ThreadCalls.load_some, DispatchCall.weight, DispatchCall.weight]
      omega
  | enqueueing node =>
    dsimp only [Scheduler.advanceDispatch]
    split_ifs
    · refine work_setThread_lt rfl ?_
      have hinbox := work_inbox s (s.inbox ++ [node])
      rw [List.length_append, List.length_singleton] at hinbox
      rw [hload, ThreadCalls.load_none, DispatchCall.weight]
      omega
    · refine work_setThread_lt rfl ?_
      rw [hload, ThreadCalls.load_none, DispatchCall.weight, stackWeight_cons, Phase.weight]
      omega

/-- Counting down lowers the work. Assumes: the counter is not zero. -/
theorem work_countDown {stack : List ExecuteCall} {node : ℕ}
    (hnode : node < s.graph.taskCount) (hpending : (s.graph.nodes node).pending ≠ 0)
    (hword : (s.graph.nodes node).pending < word32)
    (hload : stackWeight stack ≤ (s.threads thread).load) :
    (s.countDown thread stack node).work < s.work := by
  have hset := TaskGraph.pendingSum_setNode hnode
    { s.graph.nodes node with pending := subMod word32 (s.graph.nodes node).pending 1 }
  dsimp only at hset
  rw [subMod_of_le (by omega) hword] at hset
  refine work_setThread_lt rfl ?_
  rw [subMod_of_le (by omega) hword]
  simp only [work]
  have hcalls : (⟨stack, if (s.graph.nodes node).pending = 1 then some (.picking node) else none⟩ :
      ThreadCalls workers).load ≤ 9 + stackWeight stack := by
    unfold ThreadCalls.load
    split_ifs <;> simp [DispatchCall.weight]
  omega

/-- Every step of an `execute` call lowers the work. Assumes: the counter of a successor that is
released is not zero. -/
theorem work_advanceExecute {call : ExecuteCall} {outer : List ExecuteCall}
    (hthread : s.threads thread = ⟨call :: outer, none⟩)
    (hrelease : ∀ next successor, call.phase = .releasing next →
      (s.graph.nodes call.node).successors[next]? = some successor →
      successor < s.graph.taskCount ∧ (s.graph.nodes successor).pending ≠ 0 ∧
        (s.graph.nodes successor).pending < word32) :
    (s.advanceExecute thread call outer).work < s.work := by
  have hload : (s.threads thread).load = call.phase.weight + stackWeight outer := by
    rw [hthread, ThreadCalls.load_none, stackWeight_cons]
  obtain ⟨node, phase⟩ := call
  have hlower : ∀ (graph : TaskGraph) (started finished : List ℕ) (stack : List ExecuteCall),
      graph.pendingSum ≤ s.graph.pendingSum →
      stackWeight stack < phase.weight + stackWeight outer →
      (setThread { s with graph := graph, started := started, finished := finished } thread
        ⟨stack, none⟩).work < s.work := by
    intro graph started finished stack hsum hstack
    refine work_setThread_lt rfl ?_
    rw [hload, ThreadCalls.load_none]
    simp only [work]
    omega
  unfold Scheduler.advanceExecute
  cases phase with
  | taken =>
    dsimp only
    split_ifs
    · exact hlower _ _ _ _ (TaskGraph.pendingSum_setNode_le le_rfl) (by simp [Phase.weight])
    · exact hlower _ _ _ _ le_rfl (by simp [Phase.weight])
  | starting => exact hlower _ _ _ _ le_rfl (by simp [Phase.weight])
  | running => exact hlower _ _ _ _ le_rfl (by simp [Phase.weight])
  | releasing next =>
    dsimp only
    cases hnext : (s.graph.nodes node).successors[next]? with
    | none =>
      exact hlower _ _ _ _ (TaskGraph.pendingSum_setNode_le (Nat.zero_le _))
          (by simp [Phase.weight])
    | some successor =>
      obtain ⟨hlt, hpos, hword⟩ := hrelease next successor rfl hnext
      exact work_countDown hlt hpos hword (by rw [hload, stackWeight_cons]; rfl)
  | retiring => exact hlower _ _ _ _ le_rfl (by simp [Phase.weight])

/-- Taking a node from a queue lowers the work, even with its call. -/
theorem work_take {rest : Scheduler workers} {visit : Visit workers} {node : ℕ}
    (htake : s.take visit = some (node, rest)) : rest.work + 6 = s.work := by
  cases visit with
  | pop worker =>
    obtain ⟨last, hlast, heq⟩ := Option.map_eq_some_iff.mp htake
    obtain ⟨-, rfl⟩ := Prod.mk.inj heq
    have hdeque := work_deque s worker (s.deques worker).dropLast
    have hne : s.deques worker ≠ [] := by
      rintro hnil
      simp [hnil] at hlast
    have hpos := List.length_pos_iff.mpr hne
    rw [List.length_dropLast] at hdeque
    omega
  | dequeue =>
    obtain ⟨head, hhead, heq⟩ := Option.map_eq_some_iff.mp htake
    obtain ⟨-, rfl⟩ := Prod.mk.inj heq
    have hinbox := work_inbox s s.inbox.tail
    have hpos := List.length_pos_iff.mpr (List.ne_nil_of_mem (List.mem_of_mem_head? hhead))
    rw [List.length_tail] at hinbox
    omega
  | steal worker =>
    obtain ⟨head, hhead, heq⟩ := Option.map_eq_some_iff.mp htake
    obtain ⟨-, rfl⟩ := Prod.mk.inj heq
    have hdeque := work_deque s worker (s.deques worker).tail
    have hpos := List.length_pos_iff.mpr (List.ne_nil_of_mem (List.mem_of_mem_head? hhead))
    rw [List.length_tail] at hdeque
    omega

end Scheduler

/-! ### Counters that are not zero -/

namespace Setup

variable {setup : Setup} {Exec : Type} {stage : ℕ → Stage} {a : Execution Exec}

/-- A task is never due more than before anything has run. -/
theorem due_le (hcounts : setup.Counts) (submitAt : ℕ) (stage : ℕ → Stage) (task : ℕ) :
    setup.due submitAt stage task ≤ 1 + setup.indegree task := by
  have howed := owed_successorsOf (fun edge hedge ↦ (hcounts.edges_lt edge hedge).1) task
  have hle := @owed_le setup.graph.taskCount setup.successors
    (fun other ↦ (stage other).released (setup.successors other).length) task
  unfold due indegree
  rw [← howed]
  refine Nat.add_le_add ?_ hle
  split_ifs <;> omega

/-- The counters hold what is due. Assumes: fewer than `2 ^ 32 - 1` dependencies of each task on
others. -/
theorem Tracks.pending_eq_due (hcounts : setup.Counts) (htracks : setup.Tracks stage a)
    (hindegree : ∀ task < setup.graph.taskCount, setup.indegree task + 1 < word32) {task : ℕ}
    (htask : task < setup.graph.taskCount) :
    (a.graph.nodes task).pending = setup.due a.submitAt stage task := by
  have hle := due_le hcounts a.submitAt stage task
  have hlt := hindegree task htask
  rw [htracks.counted.pending_eq task htask, Nat.mod_eq_of_lt (by omega)]

end Setup

namespace Scheduler

variable {s : Scheduler workers} {thread : workers.Thread} {setup : Setup}

/-- The bounds that keep the counters of a graph from wrapping. -/
structure Fits (setup : Setup) : Prop where
  counts : setup.Counts
  few : setup.graph.taskCount < word32
  indegree_lt : ∀ task < setup.graph.taskCount, setup.indegree task + 1 < word32

/-- The submit loop finds a counter that is not zero. -/
theorem Sound.submit_pos (hfits : Fits setup) (hsound : Sound setup s) {next : ℕ}
    (hclient : s.client = .submitting next) (hlt : next < s.graph.taskCount) :
    (s.graph.nodes next).pending ≠ 0 ∧ (s.graph.nodes next).pending < word32 := by
  obtain ⟨a, stage, hrefines, htracks⟩ := hsound.tracked
  have hgraph := hrefines.graph_eq
  have hcount := htracks.taskCount_eq
  have hat := hrefines.submitAt_eq
  rw [submitAt, hclient] at hat
  have hlt' : next < setup.graph.taskCount := by
    rw [← hcount, hgraph]
    exact hlt
  have hpending := htracks.pending_eq_due hfits.counts hfits.indegree_lt hlt'
  have hle := Setup.due_le hfits.counts a.submitAt stage next
  have hindegree := hfits.indegree_lt next hlt'
  rw [hgraph] at hpending
  dsimp only at hpending
  rw [hpending]
  refine ⟨?_, by omega⟩
  rw [hat]
  simp [Setup.due]

/-- An `execute` call finds the counter of a successor that is not zero. -/
theorem Sound.release_pos (hfits : Fits setup) (hsound : Sound setup s) {node next successor : ℕ}
    {outer : List ExecuteCall} {dispatching : Option (DispatchCall workers)}
    (hthread : s.threads thread = ⟨⟨node, .releasing next⟩ :: outer, dispatching⟩)
    (hsuccessor : (s.graph.nodes node).successors[next]? = some successor) :
    successor < s.graph.taskCount ∧ (s.graph.nodes successor).pending ≠ 0 ∧
      (s.graph.nodes successor).pending < word32 := by
  obtain ⟨a, stage, hrefines, htracks⟩ := hsound.tracked
  have hgraph := hrefines.graph_eq
  have hcall : a.calls (thread, outer.length) = some ⟨node, .releasing next⟩ := by
    rw [hrefines.calls_eq, hthread, frameAt_cons, Function.update_self]
  obtain ⟨hnode, hstage⟩ := htracks.calls.forall_calls _ _ hcall
  have hsuccessors := htracks.nodes.successors_eq node hnode (by rw [hstage]; rfl)
  rw [hgraph] at hsuccessors
  dsimp only at hsuccessors
  rw [hsuccessors] at hsuccessor
  have hlt : successor < setup.graph.taskCount := (hfits.counts.edges_lt _
    (mem_successorsOf.mp (List.mem_of_getElem? hsuccessor))).2
  have hpending := htracks.pending_eq_due hfits.counts hfits.indegree_lt hlt
  have hle := Setup.due_le hfits.counts a.submitAt stage successor
  have hindegree := hfits.indegree_lt successor hlt
  rw [hgraph] at hpending
  dsimp only at hpending
  refine ⟨?_, ?_, by omega⟩
  · have hcount := htracks.taskCount_eq
    rw [hgraph] at hcount
    exact hcount ▸ hlt
  · rw [hpending, ne_eq, Setup.due_eq_zero_iff]
    rintro ⟨-, hpassed⟩
    refine hpassed node hnode ?_
    rw [hstage]
    exact List.mem_of_getElem? (i := 0) (by
      rw [List.getElem?_drop]
      exact hsuccessor)

/-! ### Threads in a call -/

/-- A thread is in a call, or the client is in the submit loop. -/
def Busy (s : Scheduler workers) (thread : workers.Thread) : Prop :=
  s.threads thread ≠ ⟨[], none⟩ ∨ thread = none ∧ ∃ position, s.client = .submitting position

/-- Every step of a busy thread lowers the work. -/
theorem Sound.work_next (hfits : Fits setup) (hsound : Sound setup s) (hbusy : s.Busy thread) :
    (s.next thread).work < s.work := by
  unfold Scheduler.next
  cases hthread : s.threads thread with
  | mk stack dispatching =>
    cases dispatching with
    | some call => exact work_advanceDispatch hthread
    | none =>
      cases stack with
      | cons call outer =>
        refine work_advanceExecute hthread fun next successor hphase hsuccessor ↦ ?_
        obtain ⟨node, phase⟩ := call
        subst hphase
        exact hsound.release_pos hfits hthread hsuccessor
      | nil =>
        rcases hbusy with hcalls | ⟨rfl, position, hclient⟩
        · exact absurd hthread hcalls
        · dsimp only [Scheduler.advanceClient]
          rw [hclient]
          dsimp only
          split_ifs with hlt
          · obtain ⟨hpos, hword⟩ := hsound.submit_pos hfits hclient hlt
            have hsame : work { s with client := .submitting (position + 1) } = s.work := by
              simp only [work, hclient, loopWork]
            rw [← hsame]
            exact work_countDown hlt hpos hword (Nat.zero_le _)
          · simp only [work, hclient, loopWork]
            omega

/-! ### Looking around -/

/-- A queue has a node. -/
def hasNode (s : Scheduler workers) : Visit workers → Bool
  | .pop worker => !(s.deques worker).isEmpty
  | .dequeue => !s.inbox.isEmpty
  | .steal worker => !(s.deques worker).isEmpty

theorem take_eq_none_iff {visit : Visit workers} :
    s.take visit = none ↔ s.hasNode visit = false := by
  cases visit <;> simp [take, hasNode]

/-- Where the client goes on when it is neither in a call nor in the submit loop and takes no
node. -/
inductive Polls (s : Scheduler workers) : ClientLoop → Prop
  | returns : s.client = .checking → s.graph.outstanding = 0 → Polls s .returned
  | helps : s.client = .checking → s.graph.outstanding ≠ 0 → Polls s (.helping 0)
  | passes {next : ℕ} {visit : Visit workers} : s.client = .helping next →
      (workers.visits none)[next]? = some visit → s.hasNode visit = false →
      Polls s (.helping (next + 1))
  | restarts {next : ℕ} : s.client = .helping next → (workers.visits none).length ≤ next →
      Polls s .checking
  | stays : s.client = .returned → Polls s .returned

/-- A thread that looks into a queue takes a node, which lowers the work, or passes on. -/
theorem look_cases (hthread : s.threads thread = ⟨[], none⟩) {visit : Visit workers}
    {found proceed : Scheduler workers → Scheduler workers}
    (hfound : ∀ next : Scheduler workers, next.client = s.client →
      (found next).work ≤ next.work) :
    (s.look thread visit found proceed).work < s.work ∨
      s.hasNode visit = false ∧ s.look thread visit found proceed = proceed s := by
  unfold look
  cases htake : s.take visit with
  | none => exact .inr ⟨take_eq_none_iff.mp htake, rfl⟩
  | some result =>
    obtain ⟨node, rest⟩ := result
    have hrest := (take_spec htake).2
    have hwork := work_take htake
    have hset := work_setThread rest thread ⟨[⟨node, .taken⟩], none⟩
    have hload : (rest.threads thread).load = 0 := by
      rw [hrest, hthread]
      rfl
    have hcall : (⟨[⟨node, .taken⟩], none⟩ : ThreadCalls workers).load = 5 := rfl
    have hle := hfound (rest.setThread thread ⟨[⟨node, .taken⟩], none⟩) (by rw [hrest]; rfl)
    left
    dsimp only
    omega

theorem work_scans (s : Scheduler workers) (scans : Fin workers.count → ℕ) :
    work { s with scans := scans } = s.work := rfl

/-- A worker in no call takes a node or only looks elsewhere next. -/
theorem advanceWorker_cases {worker : Fin workers.count}
    (hthread : s.threads (some worker) = ⟨[], none⟩) : (s.advanceWorker worker).work < s.work ∨
      ∃ scans, s.advanceWorker worker = { s with scans := scans } := by
  unfold Scheduler.advanceWorker
  dsimp only
  cases (workers.visits (some worker))[s.scans worker]? with
  | none => exact .inr ⟨_, rfl⟩
  | some visit =>
    have hfound : ∀ next : Scheduler workers, next.client = s.client →
        work { next with scans := Function.update next.scans worker 0 } ≤ next.work :=
      fun next _ ↦ (work_scans next _).le
    rcases look_cases hthread hfound with hlower | ⟨-, hpass⟩
    · exact .inl hlower
    · exact .inr ⟨_, hpass⟩

/-- The client in no call and past the submit loop takes a node or only goes on. -/
theorem advanceClient_cases (hthread : s.threads none = ⟨[], none⟩)
    (hsubmitted : ∀ position, s.client ≠ .submitting position) : s.advanceClient.work < s.work ∨
      ∃ loop, s.Polls loop ∧ s.advanceClient = { s with client := loop } := by
  unfold Scheduler.advanceClient
  cases hclient : s.client with
  | submitting position => exact absurd hclient (hsubmitted position)
  | checking =>
    dsimp only
    split_ifs with hzero
    · exact .inr ⟨_, .returns hclient hzero, rfl⟩
    · exact .inr ⟨_, .helps hclient hzero, rfl⟩
  | helping next =>
    dsimp only
    cases hvisit : (workers.visits none)[next]? with
    | none => exact .inr ⟨_, .restarts hclient (List.getElem?_eq_none_iff.mp hvisit), rfl⟩
    | some visit =>
      have hfound : ∀ other : Scheduler workers, other.client = s.client →
          work { other with client := .checking } ≤ other.work := by
        intro other hother
        simp only [work, hother, hclient, loopWork]
        exact le_rfl
      rcases look_cases hthread hfound with hlower | ⟨hnone, hpass⟩
      · exact .inl hlower
      · exact .inr ⟨_, .passes hclient hvisit hnone, hpass⟩
  | returned =>
    have heta : { s with client := .returned } = s := by rw [← hclient]
    exact .inr ⟨_, .stays hclient, heta.symm⟩

/-- The first queue in the order of `help` that has a node. -/
def ahead (s : Scheduler workers) : ℕ := (workers.visits none).findIdx s.hasNode

/-- How many steps the client needs until it finds a node, or until it returns when nothing is
outstanding. Past the first node it may have to go round. -/
def distance (s : Scheduler workers) : ℕ :=
  match s.client with
  | .checking => if s.graph.outstanding = 0 then 0 else s.ahead + 1
  | .helping next =>
    if s.graph.outstanding = 0 then (workers.visits none).length - next + 1
    else if next ≤ s.ahead then s.ahead - next
    else (workers.visits none).length - next + s.ahead + 2
  | _ => 0

/-- Going on brings the client closer. Assumes: some queue has a node if anything is outstanding. -/
theorem Polls.distance_lt {loop : ClientLoop} (hpolls : s.Polls loop)
    (hnode : s.graph.outstanding ≠ 0 → ∃ visit ∈ workers.visits none, s.hasNode visit = true) :
    loop = .returned ∨ distance { s with client := loop } < s.distance := by
  have hsame : ∀ loop, ahead { s with client := loop } = s.ahead := fun _ ↦ rfl
  cases hpolls with
  | returns => exact .inl rfl
  | stays => exact .inl rfl
  | helps hclient hzero =>
    right
    simp only [distance, hclient, hsame, hzero, if_false, Nat.zero_le, if_true]
    omega
  | @passes next visit hclient hvisit hempty =>
    right
    obtain ⟨hlt, hget⟩ := List.getElem?_eq_some_iff.mp hvisit
    -- The queue that was empty is not the one that has a node.
    have hfirst : s.ahead ≠ next := by
      intro heq
      have hahead : s.ahead < (workers.visits none).length := heq ▸ hlt
      have hfound := List.findIdx_getElem (w := hahead)
      simp only [← ahead.eq_def, heq, hget, hempty] at hfound
      contradiction
    simp only [distance, hclient, hsame]
    split_ifs with hzero hle hle' hle' <;> omega
  | restarts hclient hlength =>
    right
    simp only [distance, hclient, hsame]
    split_ifs with hzero hle
    · omega
    · have hahead : s.ahead < (workers.visits none).length :=
        List.findIdx_lt_length_of_exists (hnode hzero)
      omega
    · omega

/-- With no busy thread and something outstanding, some queue has a node. -/
theorem Sound.exists_hasNode (hfits : Fits setup) (hacyclic : setup.IsAcyclic)
    (hsound : Sound setup s) (hidle : ∀ thread, ¬ s.Busy thread)
    (houtstanding : s.graph.outstanding ≠ 0) :
    ∃ visit ∈ workers.visits none, s.hasNode visit = true := by
  by_contra hnone
  push Not at hnone
  obtain ⟨a, stage, hrefines, htracks⟩ := hsound.tracked
  have hthreads : ∀ thread, s.threads thread = ⟨[], none⟩ := fun thread ↦
    not_not.mp fun hcalls ↦ hidle thread (.inl hcalls)
  have hinbox : s.inbox = [] := by
    simpa [hasNode] using hnone .dequeue (by simp [Workers.visits])
  have hdeques : ∀ worker, s.deques worker = [] := by
    intro worker
    simpa [hasNode] using hnone (.steal worker) (by simp [Workers.visits])
  have hwaiting : s.waiting = 0 := by
    simp [waiting, hinbox, hdeques, hthreads]
  have hquiescent : a.Quiescent := by
    refine ⟨?_, fun exec ↦ ?_, ?_⟩
    · rw [hrefines.submitAt_eq, hrefines.graph_eq, submitAt]
      cases hclient : s.client with
      | submitting position => exact absurd (.inr ⟨rfl, position, hclient⟩) (hidle none)
      | _ => rfl
    · rw [hrefines.calls_eq exec.1 exec.2, hthreads]
      rfl
    · exact (Multiset.coe_eq_zero _).mp (hrefines.waiting_eq.trans hwaiting)
  have hzero := ((htracks.correct hfits.counts hacyclic).complete hquiescent).2
  rw [hrefines.graph_eq] at hzero
  exact houtstanding hzero

/-! ### The client returns -/

open Classical in
/-- A thread that is busy, and otherwise the client. -/
noncomputable def helpfulOf (busy : workers.Thread → Prop) : workers.Thread :=
  if h : ∃ thread, busy thread then h.choose else none

open Classical in
/-- The work that is left, and when no thread is busy the distance of the client to a node. -/
noncomputable def rank (s : Scheduler workers) : ℕ ×ₗ ℕ :=
  toLex (s.work, if ∃ thread, s.Busy thread then 0 else s.distance)

theorem rank_lt_of_work {next : Scheduler workers} (hwork : next.work < s.work) :
    next.rank < s.rank := Prod.Lex.toLex_lt_toLex.mpr (.inl hwork)

/-- The thread that is helpful when some thread is busy is busy. -/
theorem busy_helpfulOf {busy : workers.Thread → Prop} (hexists : ∃ thread, busy thread) :
    busy (helpfulOf busy) := by
  unfold helpfulOf
  rw [dif_pos hexists]
  exact hexists.choose_spec

theorem helpfulOf_of_idle {busy : workers.Thread → Prop} (hidle : ¬ ∃ thread, busy thread) :
    helpfulOf busy = none := dif_neg hidle

/-- Every step lowers the rank or is one of a thread that is not the helpful one. -/
theorem Sound.rank_next (hfits : Fits setup) (hacyclic : setup.IsAcyclic) (hsound : Sound setup s)
    (thread : workers.Thread) : (s.next thread).client = .returned ∨
      (s.next thread).rank < s.rank ∨ thread ≠ helpfulOf s.Busy ∧ (s.next thread).rank = s.rank ∧
        helpfulOf (s.next thread).Busy = helpfulOf s.Busy := by
  by_cases hbusy : s.Busy thread
  · exact .inr (.inl (rank_lt_of_work (hsound.work_next hfits hbusy)))
  have hthread : s.threads thread = ⟨[], none⟩ := not_not.mp fun hcalls ↦ hbusy (.inl hcalls)
  cases thread with
  | some worker =>
    have hnext : s.next (some worker) = s.advanceWorker worker := by
      unfold Scheduler.next
      rw [hthread]
    rw [hnext]
    rcases advanceWorker_cases hthread with hlower | ⟨scans, hscans⟩
    · exact .inr (.inl (rank_lt_of_work hlower))
    · refine .inr (.inr ⟨?_, by rw [hscans]; rfl, by rw [hscans]; rfl⟩)
      by_cases hexists : ∃ thread, s.Busy thread
      · rintro heq
        exact hbusy (heq ▸ busy_helpfulOf hexists)
      · rw [helpfulOf_of_idle hexists]
        simp
  | none =>
    have hsubmitted : ∀ position, s.client ≠ .submitting position :=
      fun position hclient ↦ hbusy (.inr ⟨rfl, position, hclient⟩)
    have hnext : s.next none = s.advanceClient := by
      unfold Scheduler.next
      rw [hthread]
    rw [hnext]
    rcases advanceClient_cases hthread hsubmitted with hlower | ⟨loop, hpolls, hloop⟩
    · exact .inr (.inl (rank_lt_of_work hlower))
    rw [hloop]
    have hwork : work { s with client := loop } = s.work := by
      have hzero : loopWork loop = loopWork s.client := by cases hpolls <;> simp_all [loopWork]
      simp only [work, hzero]
    have hsame : Busy { s with client := loop } = s.Busy := by
      funext other
      have hpast : ∀ position, loop ≠ .submitting position := by
        cases hpolls <;> simp
      simp [Busy, hpast, hsubmitted]
    by_cases hexists : ∃ thread, s.Busy thread
    · refine .inr (.inr ⟨fun heq ↦ hbusy (heq ▸ busy_helpfulOf hexists), ?_, by rw [hsame]⟩)
      rw [rank, rank, hwork, hsame, if_pos hexists, if_pos hexists]
    · have hidle : ∀ thread, ¬ s.Busy thread := not_exists.mp hexists
      rcases hpolls.distance_lt (hsound.exists_hasNode hfits hacyclic hidle) with rfl | hcloser
      · exact .inl rfl
      · refine .inr (.inl ?_)
        rw [rank, rank, hwork, hsame, if_neg hexists, if_neg hexists]
        exact Prod.Lex.toLex_lt_toLex.mpr (.inr ⟨rfl, hcloser⟩)

/-- From every state of a run, the client comes past `wait` if it, and every thread that is in a
call, is scheduled at that time or later. -/
theorem Sound.exists_returned (hfits : Fits setup) (hacyclic : setup.IsAcyclic)
    (hsound : Sound setup s) {schedule : ℕ → workers.Thread}
    (hfair : ∀ time thread, (thread = none ∨ (run next s schedule time).Busy thread) →
      ∃ later ≥ time, schedule later = thread) :
    ∃ time, (run next s schedule time).client = .returned ∧
      Correct setup (run next s schedule time) := by
  have hstep : ∀ (s : Scheduler workers) thread, Sound setup s → Sound setup (s.next thread) :=
    fun s thread hsound ↦ hsound.step hfits.counts hfits.few thread
  obtain ⟨time, hreturned⟩ := exists_goal (fun s ↦ s.client = .returned) rank
    (fun s ↦ helpfulOf s.Busy) hsound hstep
    (fun s thread hsound _ ↦ hsound.rank_next hfits hacyclic thread) (fun time _ ↦ by
      refine hfair time _ ?_
      by_cases hexists : ∃ thread, (run next s schedule time).Busy thread
      · exact .inr (busy_helpfulOf hexists)
      · exact .inl (helpfulOf_of_idle hexists))
  exact ⟨time, hreturned,
    (run_invariant hsound hstep time).correct hfits.counts hacyclic hfits.few⟩

/-- `wait` returns in every run in which the client, and every thread that is in a call, is
scheduled at that time or later, and then every body has returned. Assumes: accepted dependencies
without a cycle, fewer than `2 ^ 32` tasks and fewer than `2 ^ 32 - 1` dependencies of each task on
others. -/
theorem wait_returns {maxTasks : ℕ} (hsetup : setup.Reachable maxTasks)
    (hacyclic : setup.IsAcyclic) (hfew : setup.graph.taskCount < word32)
    (hindegree : ∀ task < setup.graph.taskCount, setup.indegree task + 1 < word32)
    (lane : ℕ → TaskLane) (schedule : ℕ → workers.Thread)
    (hfair : ∀ time thread,
      (thread = none ∨ (run next (submitted setup.graph lane) schedule time).Busy thread) →
        ∃ later ≥ time, schedule later = thread) :
    ∃ time, (run next (submitted setup.graph lane) schedule time).client = .returned ∧
      Correct setup (run next (submitted setup.graph lane) schedule time) := by
  have hfits : Fits setup := ⟨Setup.reachable_counts hsetup, hfew, hindegree⟩
  have hstart : Sound setup (submitted setup.graph lane : Scheduler workers) :=
    sound_submitted hfits.counts
      (fun task htask ↦ (Nat.lt_succ_self _).trans (hindegree task htask)) lane
  exact hstart.exists_returned hfits hacyclic hfair

/-- The client and the only worker take turns. -/
def turns (time : ℕ) : (Workers.new 1 8 none).Thread :=
  if time % 2 = 0 then none else some (Workers.ofNat _ 0)

/-- Both threads have a turn at every time or later. -/
theorem exists_turn (time : ℕ) (thread : (Workers.new 1 8 none).Thread) :
    ∃ later ≥ time, turns later = thread := by
  cases thread with
  | none => exact ⟨2 * time, by omega, if_pos (by omega)⟩
  | some worker =>
    refine ⟨2 * time + 1, by omega, ?_⟩
    rw [turns, if_neg (by omega)]
    exact congrArg some (Subsingleton.elim (α := Fin 1) _ worker)

/-- The theorem at one worker and a chain of two tasks, when the two threads take turns. -/
theorem wait_returns_chain : ∃ (setup : Setup) (time : ℕ) (s : Scheduler (.new 1 8 none)),
    setup.edges = [(0, 1)] ∧
      s = run next (submitted setup.graph fun _ ↦ .general) turns time ∧
      s.client = .returned ∧ Correct setup s := by
  obtain ⟨setup, hsetup, htest⟩ := TransitionSystem.Reaches.exists_of_schedule Setup.system
    (.new 2) [.createTask 8 8 true, .createTask 8 8 true, .addDependency (some 0) (some 1)]
    (fun setup ↦ setup.graph.taskCount = 2 ∧ setup.edges = [(0, 1)]) (by decide)
  obtain ⟨hcount, hedges⟩ := of_decide_eq_true htest
  have hacyclic : setup.IsAcyclic := by
    refine Acyclic.of_rank (fun task ↦ task) fun source target hedge ↦ ?_
    rw [hedges, List.mem_singleton] at hedge
    obtain ⟨rfl, rfl⟩ := Prod.mk.inj hedge
    exact Nat.zero_lt_one
  have hindegree : ∀ task < setup.graph.taskCount, setup.indegree task + 1 < word32 := by
    intro task _
    refine (Nat.succ_le_succ List.countP_le_length).trans_lt ?_
    rw [hedges]
    decide
  obtain ⟨time, hreturned, hcorrect⟩ := wait_returns hsetup hacyclic
    (by rw [hcount]; decide) hindegree (fun _ ↦ .general) turns fun time thread _ ↦
      exists_turn time thread
  exact ⟨setup, time, _, hedges, rfl, hreturned, hcorrect⟩

end Scheduler

end GameEngine.Core
