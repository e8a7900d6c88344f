import GameEngine.Core.Scheduler
import GameEngine.Core.TaskCorrectness
import Mathlib.Data.Multiset.AddSub
import Mathlib.Data.Fintype.Option
import Mathlib.Tactic.Abel

/-!
# The worker pool runs the tasks of a submitted graph

`Execution` takes the dispatched nodes from one bag, in any order. `Refines` relates the pool to it:
the bag holds the nodes of the deques, of the inbox and of the `dispatch` calls in progress, and an
`execute` call is named by its thread and by its depth on the stack of the thread. `Refines.step` is
the simulation: a step of a thread is a step of the `Execution` or changes nothing there.

So the pool keeps what the `Execution` keeps. `pool_correct` says so for every order in which the
threads take their steps: no body runs twice, none runs before those of its prerequisites have
returned, no node is in two places, the queues stay within their capacities, and once `wait` has
returned every body has returned and no thread has anything left to do.
-/

set_option autoImplicit false
set_option relaxedAutoImplicit false

namespace GameEngine.Core

open GameEngine.Library
open MachineWord FairRun DependencyCount

variable {workers : Workers}

/-! ### Calls on a stack -/

/-- The call of a stack at a depth, counted from the outermost. -/
def frameAt (stack : List ExecuteCall) (depth : ℕ) : Option ExecuteCall := stack.reverse[depth]?

theorem frameAt_length (stack : List ExecuteCall) : frameAt stack stack.length = none := by
  simp [frameAt]

theorem frameAt_cons (call : ExecuteCall) (outer : List ExecuteCall) :
    frameAt (call :: outer) = Function.update (frameAt outer) outer.length (some call) := by
  funext depth
  unfold frameAt
  rw [List.reverse_cons]
  rcases lt_trichotomy depth outer.length with hlt | rfl | hgt
  · rw [List.getElem?_append_left (by simpa using hlt), Function.update_of_ne hlt.ne]
  · simp
  · rw [Function.update_of_ne hgt.ne', List.getElem?_eq_none (by simp; omega),
      List.getElem?_eq_none (by simp; omega)]

/-- The innermost call moves on. -/
theorem frameAt_replace (call other : ExecuteCall) (outer : List ExecuteCall) :
    frameAt (other :: outer) =
      Function.update (frameAt (call :: outer)) outer.length (some other) := by
  rw [frameAt_cons, frameAt_cons, Function.update_idem]

/-- The innermost call ends. -/
theorem frameAt_pop (call : ExecuteCall) (outer : List ExecuteCall) :
    frameAt outer = Function.update (frameAt (call :: outer)) outer.length none := by
  rw [frameAt_cons, Function.update_idem, ← frameAt_length outer, Function.update_eq_self]

/-! ### The nodes that wait for a thread -/

/-- The node that a `dispatch` has in its hand. -/
def DispatchCall.node : DispatchCall workers → ℕ
  | .picking node => node
  | .pushing node _ => node
  | .enqueueing node => node

/-- The node that the `dispatch` of a thread has in its hand, if it is in one. -/
def ThreadCalls.inHand (calls : ThreadCalls workers) : Multiset ℕ :=
  (calls.dispatching.map DispatchCall.node).toList

@[simp] theorem ThreadCalls.inHand_none (stack : List ExecuteCall) :
    (⟨stack, none⟩ : ThreadCalls workers).inHand = 0 := rfl

namespace Scheduler

/-- The nodes that have been dispatched and that no thread has taken yet. -/
def waiting (s : Scheduler workers) : Multiset ℕ :=
  ∑ worker, (s.deques worker : Multiset ℕ) + (s.inbox : Multiset ℕ) +
    ∑ thread, (s.threads thread).inHand

/-- The node that the submit loop looks at next. -/
def submitAt (s : Scheduler workers) : ℕ :=
  match s.client with
  | .submitting next => next
  | _ => s.graph.taskCount

variable {s rest : Scheduler workers} {thread : workers.Thread}

/-- A thread changes what its `dispatch` has in its hand. -/
theorem waiting_setThread (s : Scheduler workers) (thread : workers.Thread)
    (calls : ThreadCalls workers) :
    (s.setThread thread calls).waiting + (s.threads thread).inHand = s.waiting + calls.inHand := by
  have hsum := sum_change s.threads ThreadCalls.inHand (Finset.mem_univ thread) calls
  simp only [waiting, setThread]
  rw [add_assoc, hsum, ← add_assoc]

/-- A deque changes. -/
theorem waiting_deque (s : Scheduler workers) (worker : Fin workers.count) (nodes : List ℕ) :
    waiting { s with deques := Function.update s.deques worker nodes } +
      (s.deques worker : Multiset ℕ) = s.waiting + (nodes : Multiset ℕ) := by
  have hsum := sum_change s.deques (fun queue ↦ (queue : Multiset ℕ)) (Finset.mem_univ worker) nodes
  simp only [waiting]
  rw [add_right_comm, add_right_comm _ (s.inbox : Multiset ℕ), hsum]
  abel

/-- A taken node is one that waited, and only the queues have changed. -/
theorem take_spec {visit : Visit workers} {node : ℕ} (htake : s.take visit = some (node, rest)) :
    s.waiting = node ::ₘ rest.waiting ∧
        rest = { s with deques := rest.deques, inbox := rest.inbox } := by
  cases visit with
  | pop worker =>
    obtain ⟨last, hlast, heq⟩ := Option.map_eq_some_iff.mp htake
    obtain ⟨rfl, rfl⟩ := Prod.mk.inj heq
    have hsplit : (s.deques worker : Multiset ℕ) =
        last ::ₘ ((s.deques worker).dropLast : Multiset ℕ) := by
      rw [Multiset.cons_coe, Multiset.coe_eq_coe]
      conv_lhs => rw [← List.dropLast_append_getLast? _ hlast]
      exact List.perm_append_singleton _ _
    have hdeque := waiting_deque s worker (s.deques worker).dropLast
    rw [hsplit, Multiset.add_cons, ← Multiset.cons_add, add_left_inj] at hdeque
    exact ⟨hdeque.symm, rfl⟩
  | dequeue =>
    obtain ⟨head, hhead, heq⟩ := Option.map_eq_some_iff.mp htake
    obtain ⟨rfl, rfl⟩ := Prod.mk.inj heq
    refine ⟨?_, rfl⟩
    simp only [waiting]
    rw [← List.cons_head?_tail hhead, ← Multiset.cons_coe, Multiset.add_cons, Multiset.cons_add,
      List.tail_cons]
  | steal worker =>
    obtain ⟨head, hhead, heq⟩ := Option.map_eq_some_iff.mp htake
    obtain ⟨rfl, rfl⟩ := Prod.mk.inj heq
    have hsplit : (s.deques worker : Multiset ℕ) =
        head ::ₘ ((s.deques worker).tail : Multiset ℕ) := by
      rw [Multiset.cons_coe, List.cons_head?_tail hhead]
    have hdeque := waiting_deque s worker (s.deques worker).tail
    rw [hsplit, Multiset.add_cons, ← Multiset.cons_add, add_left_inj] at hdeque
    exact ⟨hdeque.symm, rfl⟩

/-! ### The simulation -/

/-- The pool is in a state that an `Execution` describes. -/
structure Refines (s : Scheduler workers) (a : Execution (workers.Thread × ℕ)) : Prop where
  graph_eq : a.graph = { s.graph with dispatched := a.graph.dispatched }
  waiting_eq : (a.graph.dispatched : Multiset ℕ) = s.waiting
  submitAt_eq : a.submitAt = s.submitAt
  calls_eq : ∀ thread depth, a.calls (thread, depth) = frameAt (s.threads thread).stack depth
  started_eq : a.started = s.started
  finished_eq : a.finished = s.finished

theorem refines_submitted {graph : TaskGraph} (lane : ℕ → TaskLane)
    (hdispatched : graph.dispatched = []) :
    (submitted graph lane : Scheduler workers).Refines (.submitted graph) where
  graph_eq := rfl
  waiting_eq := by
    simp [Execution.submitted, hdispatched, waiting, submitted, ThreadCalls.inHand]
  submitAt_eq := rfl
  calls_eq := fun _ _ ↦ rfl
  started_eq := rfl
  finished_eq := rfl

/-- The calls after one thread's stack has changed at one depth. -/
theorem calls_setThread {calls : CallTable (workers.Thread × ℕ) ExecuteCall}
    {threads : workers.Thread → ThreadCalls workers}
    (hcalls : ∀ thread depth, calls (thread, depth) = frameAt (threads thread).stack depth)
    {thread : workers.Thread} {depth : ℕ} {entry : Option ExecuteCall} {next : ThreadCalls workers}
    (hframe : frameAt next.stack =
      Function.update (frameAt (threads thread).stack) depth entry) (other : workers.Thread)
    (level : ℕ) : Function.update calls (thread, depth) entry (other, level) =
      frameAt (Function.update threads thread next other).stack level := by
  by_cases hother : other = thread
  · subst hother
    rw [Function.update_self, hframe]
    by_cases hdepth : level = depth
    · rw [hdepth, Function.update_self, Function.update_self]
    · rw [Function.update_of_ne hdepth, Function.update_of_ne (by simp [hdepth]), hcalls]
  · rw [Function.update_of_ne hother, Function.update_of_ne (by simp [hother]), hcalls]

/-- The calls after a change of what a thread's `dispatch` does. -/
theorem calls_keep {calls : CallTable (workers.Thread × ℕ) ExecuteCall}
    {threads : workers.Thread → ThreadCalls workers}
    (hcalls : ∀ thread depth, calls (thread, depth) = frameAt (threads thread).stack depth)
    {thread : workers.Thread} {next : ThreadCalls workers}
    (hstack : next.stack = (threads thread).stack) (other : workers.Thread) (depth : ℕ) :
    calls (other, depth) = frameAt (Function.update threads thread next other).stack depth := by
  by_cases hother : other = thread
  · subst hother
    rw [Function.update_self, hstack, hcalls]
  · rw [Function.update_of_ne hother, hcalls]

variable {a : Execution (workers.Thread × ℕ)}

/-- What a step of the pool is for the `Execution`. -/
def Simulated (a : Execution (workers.Thread × ℕ)) (s : Scheduler workers) : Prop :=
  s.Refines a ∨ ∃ action next, a.step action = some next ∧ s.Refines next

/-- A free thread, or a `dispatch`, takes a node. -/
theorem Refines.take (hrefines : s.Refines a) {node : ℕ} {next : Scheduler workers}
    (hgraph : next.graph = s.graph) (hwaiting : s.waiting = node ::ₘ next.waiting)
    (hsubmitAt : next.submitAt = s.submitAt) (hstarted : next.started = s.started)
    (hfinished : next.finished = s.finished)
    (hthreads : next.threads = Function.update s.threads thread
      ⟨⟨node, .taken⟩ :: (s.threads thread).stack, none⟩) : Simulated a next := by
  have hmem : node ∈ a.graph.dispatched := by
    rw [← Multiset.mem_coe, hrefines.waiting_eq, hwaiting]
    exact Multiset.mem_cons_self _ _
  have hfree : a.calls (thread, (s.threads thread).stack.length) = none := by
    rw [hrefines.calls_eq, frameAt_length]
  refine .inr ⟨.take (thread, (s.threads thread).stack.length) node, _,
    if_pos ⟨Option.isNone_iff_eq_none.mpr hfree, hmem⟩, ?_⟩
  refine ⟨?_, ?_, ?_, ?_, hrefines.started_eq.trans hstarted.symm,
    hrefines.finished_eq.trans hfinished.symm⟩
  · rw [hgraph, hrefines.graph_eq]
  · dsimp only
    rw [← Multiset.coe_erase, hrefines.waiting_eq, hwaiting, Multiset.erase_cons_head]
  · exact hrefines.submitAt_eq.trans hsubmitAt.symm
  · intro other depth
    rw [hthreads]
    exact calls_setThread hrefines.calls_eq (frameAt_cons _ _) other depth

/-- A step that the `Execution` does not see. -/
theorem Refines.keep (hrefines : s.Refines a) {next : Scheduler workers}
    (hgraph : next.graph = s.graph) (hwaiting : next.waiting = s.waiting)
    (hsubmitAt : next.submitAt = s.submitAt) (hstarted : next.started = s.started)
    (hfinished : next.finished = s.finished)
    (hstack : ∀ thread, (next.threads thread).stack = (s.threads thread).stack) :
    next.Refines a where
  graph_eq := by rw [hgraph, ← hrefines.graph_eq]
  waiting_eq := hrefines.waiting_eq.trans hwaiting.symm
  submitAt_eq := hrefines.submitAt_eq.trans hsubmitAt.symm
  calls_eq := fun thread depth ↦ by rw [hrefines.calls_eq, hstack]
  started_eq := hrefines.started_eq.trans hstarted.symm
  finished_eq := hrefines.finished_eq.trans hfinished.symm

/-- A thread keeps its stack when it keeps it. -/
theorem stack_setThread {stack : List ExecuteCall} (hstack : (s.threads thread).stack = stack)
    (dispatching : Option (DispatchCall workers)) (other : workers.Thread) :
    (Function.update s.threads thread ⟨stack, dispatching⟩ other).stack =
      (s.threads other).stack := by
  by_cases hother : other = thread
  · subst hother
    rw [Function.update_self, hstack]
  · rw [Function.update_of_ne hother]

/-- The steps of `dispatch`. -/
theorem Refines.advanceDispatch (hrefines : s.Refines a) {call : DispatchCall workers}
    (hcall : (s.threads thread).dispatching = some call) :
    Simulated a (s.advanceDispatch thread (s.threads thread).stack call) := by
  have hhand : (s.threads thread).inHand = {call.node} := by
    rw [ThreadCalls.inHand, hcall]
    rfl
  cases call with
  | picking node =>
    have hwaiting := waiting_setThread
      { s with
        laneRr := Function.update s.laneRr (s.lane node) (addMod word64 (s.laneRr (s.lane node)) 1)
        picks := s.picks ++ [(s.lane node, workers.pick (s.lane node) (s.laneRr (s.lane node)))] }
      thread ⟨(s.threads thread).stack,
        some (.pushing node (workers.pick (s.lane node) (s.laneRr (s.lane node))))⟩
    rw [hhand] at hwaiting
    exact .inl (hrefines.keep rfl (add_right_cancel hwaiting) rfl rfl rfl
      (stack_setThread rfl _))
  | pushing node worker =>
    unfold Scheduler.advanceDispatch
    dsimp only
    split_ifs with hroom
    · have hwaiting := waiting_setThread
        { s with deques := Function.update s.deques worker (s.deques worker ++ [node]) }
        thread ⟨(s.threads thread).stack, none⟩
      have hdeque := waiting_deque s worker (s.deques worker ++ [node])
      rw [← Multiset.coe_add, ← add_assoc, add_right_comm, add_left_inj] at hdeque
      rw [hhand, hdeque, ThreadCalls.inHand_none, add_zero] at hwaiting
      exact .inl (hrefines.keep rfl (add_right_cancel hwaiting) rfl rfl rfl
        (stack_setThread rfl _))
    · have hwaiting := waiting_setThread s thread
        ⟨(s.threads thread).stack, some (.enqueueing node)⟩
      rw [hhand] at hwaiting
      exact .inl (hrefines.keep rfl (add_right_cancel hwaiting) rfl rfl rfl
        (stack_setThread rfl _))
  | enqueueing node =>
    unfold Scheduler.advanceDispatch
    dsimp only
    split_ifs with hroom
    · have hwaiting := waiting_setThread { s with inbox := s.inbox ++ [node] } thread
        ⟨(s.threads thread).stack, none⟩
      have hinbox : waiting { s with inbox := s.inbox ++ [node] } = s.waiting + {node} := by
        simp only [waiting]
        rw [← Multiset.coe_add, ← add_assoc, add_right_comm]
        rfl
      rw [hhand, hinbox, ThreadCalls.inHand_none, add_zero] at hwaiting
      exact .inl (hrefines.keep rfl (add_right_cancel hwaiting) rfl rfl rfl
        (stack_setThread rfl _))
    · have hwaiting := waiting_setThread s thread
        ⟨⟨node, .taken⟩ :: (s.threads thread).stack, none⟩
      rw [hhand, ThreadCalls.inHand_none, add_zero] at hwaiting
      refine hrefines.take rfl ?_ rfl rfl rfl rfl
      rw [← Multiset.singleton_add, add_comm]
      exact hwaiting.symm

theorem inHand_of_none (hnone : (s.threads thread).dispatching = none) :
    (s.threads thread).inHand = 0 := by
  rw [ThreadCalls.inHand, hnone]
  rfl

/-- The graph of the `Execution` after a counter has been counted down. -/
theorem Refines.countDown_graph (hrefines : s.Refines a) (thread : workers.Thread)
    (stack : List ExecuteCall) (node : ℕ) :
    a.graph.countDown node = { (s.countDown thread stack node).graph with
      dispatched := (a.graph.countDown node).dispatched } := by
  rw [hrefines.graph_eq]
  unfold TaskGraph.countDown Scheduler.countDown
  dsimp only
  split_ifs <;> rfl

theorem mem_waiting_of_dispatching {call : DispatchCall workers}
    (hcall : (s.threads thread).dispatching = some call) : call.node ∈ s.waiting := by
  refine Multiset.mem_add.mpr (.inr (Multiset.mem_sum.mpr ⟨thread, Finset.mem_univ thread, ?_⟩))
  rw [ThreadCalls.inHand, hcall]
  exact Multiset.mem_singleton_self _

/-- A node whose counter reaches zero waits from then on. -/
theorem waiting_countDown (hnone : (s.threads thread).dispatching = none)
    (stack : List ExecuteCall) (node : ℕ) : (s.countDown thread stack node).waiting =
      s.waiting + if (s.graph.nodes node).pending = 1 then {node} else 0 := by
  have hwaiting := waiting_setThread
    { s with
      graph := s.graph.setNode node
        { s.graph.nodes node with
          pending := subMod word32 (s.graph.nodes node).pending 1 } } thread
    ⟨stack, if (s.graph.nodes node).pending = 1 then some (.picking node) else none⟩
  rw [inHand_of_none hnone, add_zero] at hwaiting
  refine hwaiting.trans (congrArg (s.waiting + ·) ?_)
  split_ifs <;> rfl

/-- A counter is counted down in both. -/
theorem Refines.countDown (hrefines : s.Refines a)
    (hnone : (s.threads thread).dispatching = none) (stack : List ExecuteCall) (node : ℕ) :
    ((a.graph.countDown node).dispatched : Multiset ℕ) =
      (s.countDown thread stack node).waiting := by
  have hpending : (a.graph.nodes node).pending = (s.graph.nodes node).pending := by
    rw [hrefines.graph_eq]
  rw [waiting_countDown hnone, TaskGraph.countDown_dispatched, hpending, ← hrefines.waiting_eq]
  split_ifs
  · rw [← Multiset.coe_add]
    rfl
  · exact (add_zero _).symm

theorem submitAt_congr (s next : Scheduler workers) (hclient : next.client = s.client)
    (hcount : next.graph.taskCount = s.graph.taskCount) : next.submitAt = s.submitAt := by
  rw [submitAt, submitAt, hclient, hcount]

/-- A step of an `execute` call that leaves the queues as they are. -/
theorem Refines.advance (hrefines : s.Refines a) {call : ExecuteCall} {outer : List ExecuteCall}
    (hstack : (s.threads thread).stack = call :: outer)
    (hnone : (s.threads thread).dispatching = none) {entry : Option ExecuteCall}
    {graph : TaskGraph} {started finished : List ℕ} {stack : List ExecuteCall}
    (hcount : graph.taskCount = s.graph.taskCount)
    (hframe : frameAt stack = Function.update (frameAt (call :: outer)) outer.length entry) :
    (setThread { s with graph := graph, started := started, finished := finished } thread
      ⟨stack, none⟩).Refines
      { a with
        graph := { graph with dispatched := a.graph.dispatched }
        calls := Function.update a.calls (thread, outer.length) entry
        started := started
        finished := finished } where
  graph_eq := rfl
  waiting_eq := by
    have hwaiting := waiting_setThread
      { s with graph := graph, started := started, finished := finished } thread ⟨stack, none⟩
    rw [inHand_of_none hnone, add_zero, ThreadCalls.inHand_none, add_zero] at hwaiting
    exact hrefines.waiting_eq.trans hwaiting.symm
  submitAt_eq := by
    rw [hrefines.submitAt_eq]
    exact Eq.symm (submitAt_congr s (setThread _ _ _) rfl hcount)
  calls_eq := calls_setThread hrefines.calls_eq (by rw [hstack, hframe])
  started_eq := rfl
  finished_eq := rfl

theorem Refines.exists_eq (hrefines : s.Refines a) : ∃ dispatched submitAt calls,
    a = ⟨{ s.graph with dispatched := dispatched }, submitAt, calls, s.started, s.finished⟩ := by
  refine ⟨a.graph.dispatched, a.submitAt, a.calls, ?_⟩
  rw [← hrefines.graph_eq, ← hrefines.started_eq, ← hrefines.finished_eq]

/-- The steps of an `execute` call. -/
theorem Refines.advanceExecute (hrefines : s.Refines a) {call : ExecuteCall}
    {outer : List ExecuteCall} (hstack : (s.threads thread).stack = call :: outer)
    (hnone : (s.threads thread).dispatching = none) :
    Simulated a (s.advanceExecute thread call outer) := by
  obtain ⟨node, phase⟩ := call
  have hcall : a.calls (thread, outer.length) = some ⟨node, phase⟩ := by
    rw [hrefines.calls_eq, hstack, frameAt_cons, Function.update_self]
  refine .inr ⟨.advance (thread, outer.length), _, by rw [Execution.step, hcall]; rfl, ?_⟩
  obtain ⟨dispatched, submitAt, calls, rfl⟩ := hrefines.exists_eq
  unfold Execution.advance Scheduler.advanceExecute
  dsimp only
  cases phase with
  | taken =>
    dsimp only
    split_ifs with hinvoke
    · exact hrefines.advance hstack hnone rfl (frameAt_replace _ _ outer)
    · exact hrefines.advance hstack hnone rfl (frameAt_pop _ outer)
  | starting => exact hrefines.advance hstack hnone rfl (frameAt_replace _ _ outer)
  | running => exact hrefines.advance hstack hnone rfl (frameAt_replace _ _ outer)
  | releasing next =>
    dsimp only
    cases hnext : (s.graph.nodes node).successors[next]? with
    | none => exact hrefines.advance hstack hnone rfl (frameAt_replace _ _ outer)
    | some successor =>
      exact ⟨hrefines.countDown_graph _ _ successor, hrefines.countDown hnone _ successor,
        hrefines.submitAt_eq,
        calls_setThread hrefines.calls_eq (by rw [hstack]; exact frameAt_replace _ _ outer),
        rfl, rfl⟩
  | retiring => exact hrefines.advance hstack hnone rfl (frameAt_pop _ outer)

/-- Nothing has changed but where the threads look next. -/
structure SameWork (s next : Scheduler workers) : Prop where
  graph_eq : next.graph = s.graph
  deques_eq : next.deques = s.deques
  inbox_eq : next.inbox = s.inbox
  threads_eq : next.threads = s.threads
  started_eq : next.started = s.started
  finished_eq : next.finished = s.finished

theorem SameWork.waiting_eq {next : Scheduler workers} (hsame : s.SameWork next) :
    next.waiting = s.waiting := by
  rw [waiting, waiting, hsame.deques_eq, hsame.inbox_eq, hsame.threads_eq]

theorem Refines.sameWork (hrefines : s.Refines a) {next : Scheduler workers}
    (hsame : s.SameWork next) (hsubmitAt : next.submitAt = s.submitAt) : next.Refines a :=
  hrefines.keep hsame.graph_eq hsame.waiting_eq hsubmitAt hsame.started_eq hsame.finished_eq
    fun _ ↦ by rw [hsame.threads_eq]

/-- A thread that executes nothing looks into a queue. -/
theorem Refines.look (hrefines : s.Refines a) (hstack : (s.threads thread).stack = [])
    (hnone : (s.threads thread).dispatching = none) {visit : Visit workers}
    {found proceed : Scheduler workers → Scheduler workers}
    (hfound : ∀ next : Scheduler workers, next.SameWork (found next))
    (hfoundAt : ∀ next : Scheduler workers, next.client = s.client → next.graph = s.graph →
      (found next).submitAt = s.submitAt)
    (hproceed : s.SameWork (proceed s)) (hproceedAt : (proceed s).submitAt = s.submitAt) :
    Simulated a (s.look thread visit found proceed) := by
  unfold Scheduler.look
  cases htake : s.take visit with
  | none => exact .inl (hrefines.sameWork hproceed hproceedAt)
  | some result =>
    obtain ⟨node, rest⟩ := result
    obtain ⟨hwaiting, hrest⟩ := take_spec htake
    have hthread : rest.threads = s.threads := by rw [hrest]
    have hgraph : rest.graph = s.graph := by rw [hrest]
    have hclient : rest.client = s.client := by rw [hrest]
    have hstarted : rest.started = s.started := by rw [hrest]
    have hfinished : rest.finished = s.finished := by rw [hrest]
    have hset := waiting_setThread rest thread ⟨[⟨node, .taken⟩], none⟩
    rw [hthread, inHand_of_none hnone, add_zero, ThreadCalls.inHand_none, add_zero] at hset
    have hsame := hfound (rest.setThread thread ⟨[⟨node, .taken⟩], none⟩)
    have hthreads : (found (rest.setThread thread ⟨[⟨node, .taken⟩], none⟩)).threads =
        Function.update s.threads thread ⟨⟨node, .taken⟩ :: (s.threads thread).stack, none⟩ := by
      rw [hsame.threads_eq, hstack, ← hthread]
      rfl
    exact hrefines.take (hsame.graph_eq.trans hgraph) (by rw [hwaiting, hsame.waiting_eq, hset])
      (hfoundAt _ hclient hgraph) (hsame.started_eq.trans hstarted)
      (hsame.finished_eq.trans hfinished) hthreads

/-- The steps of a worker that executes nothing. -/
theorem Refines.advanceWorker (hrefines : s.Refines a) {worker : Fin workers.count}
    (hstack : (s.threads (some worker)).stack = [])
    (hnone : (s.threads (some worker)).dispatching = none) :
    Simulated a (s.advanceWorker worker) := by
  unfold Scheduler.advanceWorker
  dsimp only
  cases (workers.visits (some worker))[s.scans worker]? with
  | none => exact .inl (hrefines.sameWork ⟨rfl, rfl, rfl, rfl, rfl, rfl⟩ rfl)
  | some visit =>
    exact hrefines.look hstack hnone (fun _ ↦ ⟨rfl, rfl, rfl, rfl, rfl, rfl⟩)
      (fun next hclient hgraph ↦ submitAt_congr s _ hclient (congrArg _ hgraph))
      ⟨rfl, rfl, rfl, rfl, rfl, rfl⟩ rfl

/-- The steps of the client when it executes nothing. -/
theorem Refines.advanceClient (hrefines : s.Refines a) (hstack : (s.threads none).stack = [])
    (hnone : (s.threads none).dispatching = none) (hle : a.submitAt ≤ a.graph.taskCount) :
    Simulated a s.advanceClient := by
  unfold Scheduler.advanceClient
  have hat := hrefines.submitAt_eq
  have hcount : a.graph.taskCount = s.graph.taskCount := by rw [hrefines.graph_eq]
  -- After the submit loop the client stays after it.
  have hafter : ∀ loop : ClientLoop, s.submitAt = s.graph.taskCount →
      (∀ position, loop ≠ .submitting position) →
          submitAt { s with client := loop } = s.submitAt := by
    intro loop hdone hloop
    rw [hdone]
    cases loop with
    | submitting position => exact absurd rfl (hloop position)
    | _ => rfl
  cases hclient : s.client with
  | submitting next =>
    rw [submitAt, hclient] at hat
    dsimp only at hat ⊢
    split_ifs with hlt
    · refine .inr ⟨.submitNext, _, if_pos (by rw [hat, hcount]; exact hlt), ?_⟩
      rw [hat]
      exact ⟨hrefines.countDown_graph none [] next, hrefines.countDown hnone [] next, rfl,
        calls_keep hrefines.calls_eq hstack.symm, hrefines.started_eq, hrefines.finished_eq⟩
    · have hdone : s.submitAt = s.graph.taskCount := by
        rw [submitAt, hclient]
        dsimp only
        omega
      exact .inl (hrefines.sameWork ⟨rfl, rfl, rfl, rfl, rfl, rfl⟩ (hafter _ hdone (by simp)))
  | checking =>
    have hdone : s.submitAt = s.graph.taskCount := by rw [submitAt, hclient]
    dsimp only
    split_ifs with hzero <;>
      exact .inl (hrefines.sameWork ⟨rfl, rfl, rfl, rfl, rfl, rfl⟩ (hafter _ hdone (by simp)))
  | helping next =>
    have hdone : s.submitAt = s.graph.taskCount := by rw [submitAt, hclient]
    dsimp only
    cases (workers.visits none)[next]? with
    | none =>
      exact .inl (hrefines.sameWork ⟨rfl, rfl, rfl, rfl, rfl, rfl⟩ (hafter _ hdone (by simp)))
    | some visit =>
      exact hrefines.look hstack hnone (fun _ ↦ ⟨rfl, rfl, rfl, rfl, rfl, rfl⟩)
        (fun other _ hgraph ↦ (congrArg _ hgraph).trans hdone.symm)
        ⟨rfl, rfl, rfl, rfl, rfl, rfl⟩ (hafter _ hdone (by simp))
  | returned => exact .inl hrefines

/-- The simulation: a step of a thread is a step of the `Execution`, or none. -/
theorem Refines.step (hrefines : s.Refines a) (hle : a.submitAt ≤ a.graph.taskCount)
    (thread : workers.Thread) : Simulated a (s.next thread) := by
  unfold Scheduler.next
  cases hcall : (s.threads thread).dispatching with
  | some call => exact hrefines.advanceDispatch hcall
  | none =>
    cases hstack : (s.threads thread).stack with
    | cons call outer => exact hrefines.advanceExecute hstack hcall
    | nil =>
      cases thread with
      | some worker => exact hrefines.advanceWorker hstack hcall
      | none => exact hrefines.advanceClient hstack hcall hle

/-! ### What the steps leave alone -/

theorem client_advanceDispatch (s : Scheduler workers) (thread : workers.Thread)
    (stack : List ExecuteCall) (call : DispatchCall workers) :
    (s.advanceDispatch thread stack call).client = s.client := by
  cases call <;> unfold advanceDispatch <;> dsimp only <;> (try split_ifs) <;> rfl

/-- An `execute` call changes only the graph, the calls of its thread and the records. -/
theorem advanceExecute_eq (s : Scheduler workers) (thread : workers.Thread) (call : ExecuteCall)
    (outer : List ExecuteCall) : s.advanceExecute thread call outer = { s with
      graph := (s.advanceExecute thread call outer).graph
      threads := (s.advanceExecute thread call outer).threads
      started := (s.advanceExecute thread call outer).started
      finished := (s.advanceExecute thread call outer).finished } := by
  obtain ⟨node, phase⟩ := call
  unfold advanceExecute
  cases phase with
  | taken =>
    dsimp only
    split_ifs <;> rfl
  | releasing next =>
    dsimp only
    cases (s.graph.nodes node).successors[next]? <;> rfl
  | _ => rfl

/-- A worker that executes nothing changes only queues, its own calls and where it looks next. -/
theorem advanceWorker_eq (s : Scheduler workers) (worker : Fin workers.count) :
    s.advanceWorker worker = { s with
      deques := (s.advanceWorker worker).deques
      inbox := (s.advanceWorker worker).inbox
      scans := (s.advanceWorker worker).scans
      threads := (s.advanceWorker worker).threads } := by
  unfold advanceWorker
  dsimp only
  cases (workers.visits (some worker))[s.scans worker]? with
  | none => rfl
  | some visit =>
    dsimp only [look]
    cases htake : s.take visit with
    | none => rfl
    | some result =>
      obtain ⟨node, rest⟩ := result
      dsimp only
      rw [(take_spec htake).2]
      rfl

/-- The queues stay within their capacities. -/
structure Bounded (s : Scheduler workers) : Prop where
  deques_le : ∀ worker, (s.deques worker).length ≤ kDequeCap
  inbox_le : s.inbox.length ≤ kQueueCap

theorem Bounded.congr (hbounded : s.Bounded) {next : Scheduler workers}
    (hdeques : next.deques = s.deques) (hinbox : next.inbox = s.inbox) : next.Bounded :=
  ⟨hdeques ▸ hbounded.deques_le, hinbox ▸ hbounded.inbox_le⟩

theorem Bounded.deque (hbounded : s.Bounded) {worker : Fin workers.count} {nodes : List ℕ}
    (hnodes : nodes.length ≤ kDequeCap) :
    Bounded { s with deques := Function.update s.deques worker nodes } := by
  refine ⟨fun other ↦ ?_, hbounded.inbox_le⟩
  dsimp only
  by_cases hother : other = worker
  · subst hother
    rw [Function.update_self]
    exact hnodes
  · rw [Function.update_of_ne hother]
    exact hbounded.deques_le other

theorem Bounded.take (hbounded : s.Bounded) {visit : Visit workers} {node : ℕ}
    (htake : s.take visit = some (node, rest)) : rest.Bounded := by
  cases visit with
  | pop worker =>
    obtain ⟨last, -, heq⟩ := Option.map_eq_some_iff.mp htake
    obtain ⟨-, rfl⟩ := Prod.mk.inj heq
    have hle := hbounded.deques_le worker
    exact hbounded.deque (by rw [List.length_dropLast]; omega)
  | dequeue =>
    obtain ⟨head, -, heq⟩ := Option.map_eq_some_iff.mp htake
    obtain ⟨-, rfl⟩ := Prod.mk.inj heq
    have hle := hbounded.inbox_le
    exact ⟨hbounded.deques_le, by rw [List.length_tail]; omega⟩
  | steal worker =>
    obtain ⟨head, -, heq⟩ := Option.map_eq_some_iff.mp htake
    obtain ⟨-, rfl⟩ := Prod.mk.inj heq
    have hle := hbounded.deques_le worker
    exact hbounded.deque (by rw [List.length_tail]; omega)

theorem Bounded.look (hbounded : s.Bounded) {visit : Visit workers}
    {found proceed : Scheduler workers → Scheduler workers}
    (hfound : ∀ next : Scheduler workers, (found next).deques = next.deques ∧
      (found next).inbox = next.inbox)
    (hproceed : (proceed s).deques = s.deques ∧ (proceed s).inbox = s.inbox) :
    (s.look thread visit found proceed).Bounded := by
  unfold Scheduler.look
  cases htake : s.take visit with
  | none => exact hbounded.congr hproceed.1 hproceed.2
  | some result =>
    exact ((hbounded.take htake).congr rfl rfl).congr (hfound (result.2.setThread thread _)).1
      (hfound _).2

theorem Bounded.step (hbounded : s.Bounded) (thread : workers.Thread) :
    (s.next thread).Bounded := by
  unfold Scheduler.next
  cases (s.threads thread).dispatching with
  | some call =>
    cases call with
    | picking node => exact hbounded.congr rfl rfl
    | pushing node worker =>
      dsimp only [Scheduler.advanceDispatch]
      split_ifs with hroom
      · exact (hbounded.deque (by rw [List.length_append]; exact hroom)).congr rfl rfl
      · exact hbounded.congr rfl rfl
    | enqueueing node =>
      dsimp only [Scheduler.advanceDispatch]
      split_ifs with hroom
      · refine ⟨hbounded.deques_le, ?_⟩
        dsimp only [setThread]
        rw [List.length_append]
        exact hroom
      · exact hbounded.congr rfl rfl
  | none =>
    cases (s.threads thread).stack with
    | cons call outer =>
      dsimp only
      rw [advanceExecute_eq]
      exact hbounded.congr rfl rfl
    | nil =>
      cases thread with
      | some worker =>
        dsimp only [Scheduler.advanceWorker]
        cases (workers.visits (some worker))[s.scans worker]? with
        | none => exact hbounded.congr rfl rfl
        | some visit => exact hbounded.look (fun _ ↦ ⟨rfl, rfl⟩) ⟨rfl, rfl⟩
      | none =>
        dsimp only [Scheduler.advanceClient]
        cases s.client with
        | submitting next =>
          dsimp only
          split_ifs <;> exact hbounded.congr rfl rfl
        | checking =>
          dsimp only
          split_ifs <;> exact hbounded.congr rfl rfl
        | helping next =>
          dsimp only
          cases (workers.visits none)[next]? with
          | none => exact hbounded.congr rfl rfl
          | some visit => exact hbounded.look (fun _ ↦ ⟨rfl, rfl⟩) ⟨rfl, rfl⟩
        | returned => exact hbounded

/-- The client returns from `wait` only when nothing is outstanding. -/
theorem returned_next {thread : workers.Thread} (hreturned : (s.next thread).client = .returned) :
    s.client = .returned ∨ s.graph.outstanding = 0 ∧ (s.next thread).graph = s.graph := by
  revert hreturned
  unfold Scheduler.next
  cases (s.threads thread).dispatching with
  | some call =>
    dsimp only
    rw [client_advanceDispatch]
    exact .inl
  | none =>
    cases (s.threads thread).stack with
    | cons call outer =>
      dsimp only
      rw [advanceExecute_eq]
      exact .inl
    | nil =>
      cases thread with
      | some worker =>
        dsimp only
        rw [advanceWorker_eq]
        exact .inl
      | none =>
        dsimp only [Scheduler.advanceClient]
        cases hclient : s.client with
        | submitting next =>
          dsimp only
          split_ifs <;> exact fun h ↦ absurd h (by simp [Scheduler.countDown, setThread])
        | checking =>
          dsimp only
          split_ifs with hzero
          · exact fun _ ↦ .inr ⟨hzero, rfl⟩
          · exact fun h ↦ absurd h (by simp)
        | helping next =>
          dsimp only
          cases (workers.visits none)[next]? with
          | none => exact fun h ↦ absurd h (by simp)
          | some visit =>
            dsimp only [look]
            cases s.take visit <;> exact fun h ↦ absurd h (by simp)
        | returned => exact fun _ ↦ .inl rfl

/-- A thread in no call leaves the graph as it is, unless it is the client in the submit loop. -/
theorem graph_next_of_idle {thread : workers.Thread} (hidle : s.threads thread = ⟨[], none⟩)
    (hsubmitted : ∀ position, s.client ≠ .submitting position) :
    (s.next thread).graph = s.graph := by
  unfold Scheduler.next
  rw [hidle]
  cases thread with
  | some worker =>
    dsimp only
    rw [advanceWorker_eq]
  | none =>
    dsimp only [Scheduler.advanceClient]
    cases hclient : s.client with
    | submitting position => exact absurd hclient (hsubmitted position)
    | checking =>
      dsimp only
      split_ifs <;> rfl
    | helping next =>
      dsimp only
      cases (workers.visits none)[next]? with
      | none => rfl
      | some visit =>
        dsimp only [look]
        cases htake : s.take visit with
        | none => rfl
        | some result =>
          dsimp only
          rw [(take_spec htake).2]
          rfl
    | returned => rfl

end Scheduler

/-! ### When nothing is outstanding -/

namespace Setup

variable {setup : Setup} {Exec : Type} {stage : ℕ → Stage} {a : Execution Exec}

/-- With nothing outstanding every task is retired. Assumes: fewer than `2 ^ 32` tasks. -/
theorem Tracks.retired_of_outstanding (htracks : setup.Tracks stage a)
    (hfew : setup.graph.taskCount < word32) (hzero : a.graph.outstanding = 0) {task : ℕ}
    (htask : task < setup.graph.taskCount) : stage task = .retired := by
  have hle : (unretired setup.graph.taskCount stage).card ≤ setup.graph.taskCount :=
    (Finset.card_filter_le _ _).trans_eq (Finset.card_range _)
  have hcard := htracks.outstanding_eq
  rw [hzero, Nat.mod_eq_of_lt (by omega)] at hcard
  have hmem : task ∉ unretired setup.graph.taskCount stage := by
    rw [Finset.card_eq_zero.mp hcard.symm]
    exact Finset.notMem_empty task
  simp only [unretired, Finset.mem_filter, Finset.mem_range, htask, true_and,
    Bool.not_eq_false] at hmem
  cases hstage : stage task with
  | retired => rfl
  | _ => simp [hstage, Stage.isRetired] at hmem

/-- With every task retired no call is in progress and no node is dispatched. -/
theorem Tracks.idle_of_retired (htracks : setup.Tracks stage a)
    (hretired : ∀ task < setup.graph.taskCount, stage task = .retired) :
    (∀ exec, a.calls exec = none) ∧ a.graph.dispatched = [] := by
  refine ⟨fun exec ↦ ?_, List.eq_nil_iff_forall_not_mem.mpr fun task hmem ↦ ?_⟩
  · cases hcall : a.calls exec with
    | none => rfl
    | some call =>
      obtain ⟨hlt, hstage⟩ := htracks.calls.forall_calls exec call hcall
      simp [hretired _ hlt] at hstage
  · obtain ⟨hlt, hstage⟩ := htracks.counted.dispatched_waiting task hmem
    simp [hretired _ hlt] at hstage

end Setup

namespace Scheduler

variable {s : Scheduler workers} {thread : workers.Thread} {setup : Setup}

/-! ### The invariant -/

/-- The invariant: the pool is in a state of a run of the graph, the queues are within their
capacities, and the client has only returned with nothing outstanding. -/
structure Sound (setup : Setup) (s : Scheduler workers) : Prop where
  tracked : ∃ a stage, s.Refines a ∧ setup.Tracks stage a
  bounded : s.Bounded
  returned : s.client = .returned → s.graph.outstanding = 0

/-- With nothing outstanding no thread is in a call and no node waits. Assumes: fewer than `2 ^ 32`
tasks. -/
theorem Sound.idle (hsound : Sound setup s) (hfew : setup.graph.taskCount < word32)
    (hzero : s.graph.outstanding = 0) :
    (∀ thread, s.threads thread = ⟨[], none⟩) ∧ s.waiting = 0 ∧
      ∀ task < setup.graph.taskCount, task ∈ s.finished := by
  obtain ⟨a, stage, hrefines, htracks⟩ := hsound.tracked
  have houtstanding : a.graph.outstanding = 0 := by
    rw [hrefines.graph_eq]
    exact hzero
  have hretired : ∀ task < setup.graph.taskCount, stage task = .retired :=
    fun task htask ↦ htracks.retired_of_outstanding hfew houtstanding htask
  obtain ⟨hcalls, hdispatched⟩ := htracks.idle_of_retired hretired
  have hwaiting : s.waiting = 0 := by
    rw [← hrefines.waiting_eq, hdispatched]
    rfl
  refine ⟨fun thread ↦ ?_, hwaiting, fun task htask ↦ ?_⟩
  · cases hthread : s.threads thread with
    | mk stack dispatching =>
      cases dispatching with
      | some call =>
        have hmem := mem_waiting_of_dispatching (congrArg ThreadCalls.dispatching hthread)
        simp [hwaiting] at hmem
      | none =>
        cases stack with
        | nil => rfl
        | cons call outer =>
          have hcall := hcalls (thread, outer.length)
          rw [hrefines.calls_eq, hthread, frameAt_cons, Function.update_self] at hcall
          contradiction
  · rw [← hrefines.finished_eq, htracks.logs.mem_finished, hretired task htask]
    exact ⟨htask, rfl⟩

/-- Every step keeps the invariant. Assumes: fewer than `2 ^ 32` tasks. -/
theorem Sound.step (hcounts : setup.Counts) (hfew : setup.graph.taskCount < word32)
    (hsound : Sound setup s) (thread : workers.Thread) : Sound setup (s.next thread) where
  tracked := by
    obtain ⟨a, stage, hrefines, htracks⟩ := hsound.tracked
    have hle := htracks.submitAt_le
    rw [← htracks.taskCount_eq] at hle
    rcases hrefines.step hle thread with hkeep | ⟨action, next, hstep, hnext⟩
    · exact ⟨a, stage, hkeep, htracks⟩
    · obtain ⟨stage', htracks'⟩ := htracks.step hcounts hstep
      exact ⟨next, stage', hnext, htracks'⟩
  bounded := hsound.bounded.step thread
  returned := by
    intro hreturned
    rcases returned_next hreturned with hbefore | ⟨hzero, hgraph⟩
    · have hzero := hsound.returned hbefore
      rw [graph_next_of_idle ((hsound.idle hfew hzero).1 thread) (by simp [hbefore])]
      exact hzero
    · rw [hgraph]
      exact hzero

/-- The invariant holds when the flag has been set. Assumes: fewer than `2 ^ 32` dependencies of
each task on others. -/
theorem sound_submitted (hcounts : setup.Counts)
    (hindegree : ∀ task < setup.graph.taskCount, setup.indegree task < word32)
    (lane : ℕ → TaskLane) : Sound setup (submitted setup.graph lane : Scheduler workers) where
  tracked := ⟨_, _, refines_submitted lane hcounts.dispatched,
    Setup.tracks_submitted hcounts hindegree⟩
  bounded := ⟨fun _ ↦ Nat.zero_le _, Nat.zero_le _⟩
  returned := fun h ↦ absurd h (by simp [submitted])

/-! ### What the pool guarantees -/

/-- What is expected of the pool: no body has run twice, every body that has started did so after
those of its prerequisites had returned, no node waits in two places, the queues are within their
capacities, and when `wait` has returned all bodies have returned, nothing is outstanding or waiting
and no thread is in a call. -/
structure Correct (setup : Setup) (s : Scheduler workers) : Prop where
  once : s.started.Nodup
  ordered : ∀ edge ∈ setup.edges, edge.2 ∈ s.started → edge.1 ∈ s.finished
  waiting_nodup : s.waiting.Nodup
  bounded : s.Bounded
  complete : s.client = .returned → (∀ task < setup.graph.taskCount, task ∈ s.finished) ∧
    s.graph.outstanding = 0 ∧ s.waiting = 0 ∧ ∀ thread, s.threads thread = ⟨[], none⟩

theorem Sound.correct (hcounts : setup.Counts) (hacyclic : setup.IsAcyclic)
    (hfew : setup.graph.taskCount < word32) (hsound : Sound setup s) : Correct setup s := by
  obtain ⟨a, stage, hrefines, htracks⟩ := hsound.tracked
  have hcorrect := htracks.correct hcounts hacyclic
  refine ⟨?_, ?_, ?_, hsound.bounded, fun hreturned ↦ ?_⟩
  · rw [← hrefines.started_eq]
    exact hcorrect.once
  · rw [← hrefines.started_eq, ← hrefines.finished_eq]
    exact hcorrect.ordered
  · rw [← hrefines.waiting_eq]
    exact Multiset.coe_nodup.mpr htracks.counted.nodup
  · have hzero := hsound.returned hreturned
    obtain ⟨hidle, hwaiting, hfinished⟩ := hsound.idle hfew hzero
    exact ⟨hfinished, hzero, hwaiting, hidle⟩

/-- The pool does what is expected in every state of every run, for any number of workers with any
lanes. Assumes: accepted dependencies without a cycle, fewer than `2 ^ 32` tasks and fewer than
`2 ^ 32` dependencies of each task on others. -/
theorem pool_correct {maxTasks : ℕ} (hsetup : setup.Reachable maxTasks)
    (hacyclic : setup.IsAcyclic) (hfew : setup.graph.taskCount < word32)
    (hindegree : ∀ task < setup.graph.taskCount, setup.indegree task < word32)
    (lane : ℕ → TaskLane) (hreach : Reachable setup.graph lane s) : Correct setup s := by
  have hcounts := Setup.reachable_counts hsetup
  have hsound : Sound setup s := by
    refine hreach.invariant (sound_submitted hcounts hindegree lane) ?_
    intro s thread next hsound _ hnext
    exact Option.some.inj hnext ▸ hsound.step hcounts hfew thread
  exact hsound.correct hcounts hacyclic hfew

/-- The theorem at two workers of different lanes and three tasks in a chain, when the second worker
steals from the first. -/
theorem pool_correct_stealing : ∃ (setup : Setup) (s : Scheduler (.new 2 8 none)),
    setup.edges = [(0, 1), (1, 2)] ∧ s.finished = [0, 1, 2] ∧
      s.picks.map Prod.fst = [.render, .render, .physics] ∧ Correct setup s := by
  obtain ⟨setup, hsetup, htest⟩ := TransitionSystem.Reaches.exists_of_schedule Setup.system
    (.new 3) [.createTask 8 8 true, .createTask 8 8 true, .createTask 8 8 true,
      .addDependency (some 0) (some 1), .addDependency (some 1) (some 2)]
    (fun setup ↦ setup.graph.taskCount = 3 ∧ setup.edges = [(0, 1), (1, 2)] ∧
      ((system : TransitionSystem (Scheduler (.new 2 8 none)) _).execute
        (submitted setup.graph fun task ↦ if task = 2 then .physics else .render)
        (List.replicate 6 none ++ List.replicate 60 (some (Workers.ofNat _ 1)))).any
        fun s ↦ s.finished = [0, 1, 2] ∧ s.picks.map Prod.fst = [.render, .render, .physics])
    (by decide +kernel)
  obtain ⟨hcount, hedges, hrun⟩ := of_decide_eq_true htest
  obtain ⟨s, hreach, hs⟩ := TransitionSystem.Reaches.exists_of_schedule _ _ _ _ hrun
  obtain ⟨hfinished, hpicks⟩ := of_decide_eq_true hs
  have hacyclic : setup.IsAcyclic := by
    refine Acyclic.of_rank (fun task ↦ task) fun source target hedge ↦ ?_
    rw [hedges] at hedge
    simp only [List.mem_cons, Prod.mk.injEq, List.not_mem_nil, or_false] at hedge
    omega
  have hindegree : ∀ task < setup.graph.taskCount, setup.indegree task < word32 := by
    intro task _
    refine List.countP_le_length.trans_lt ?_
    rw [hedges]
    decide
  exact ⟨setup, s, hedges, hfinished, hpicks,
    pool_correct hsetup hacyclic (by rw [hcount]; decide) hindegree _ hreach⟩

end Scheduler

end GameEngine.Core
