import GameEngine.Core.ChaseLevDeque
import GameEngine.Core.MpmcQueue
import GameEngine.Core.TaskExecution
import GameEngine.Library.FairRun

/-!
# The worker pool

`TaskGraph::Impl` runs a submitted graph on a pool of workers. A node whose counter reaches zero is
handed to `dispatch`, which picks a worker by the lane of the node, pushes the node onto the deque
of that worker, falls back on the inbox when the deque is full, and runs the node at once when the
inbox is full too. The workers look for nodes with `take_task`, and the client, after `submit`, with
the `help` calls of `wait`.

`Scheduler` is the state of the pool and `Scheduler.next` the next step of one thread: one access to
the shared state together with the local computation after it. A call of a queue is one step here;
the deques and the inbox are lists, oldest node first. A thread that runs a node inside `dispatch`
has several `execute` calls on its stack. Every thread can always take a step, so a run is given by
the order in which the threads take theirs.
-/

set_option autoImplicit false
set_option relaxedAutoImplicit false

namespace GameEngine.Core

open GameEngine.Library
open MachineWord

/-! ### Lanes and workers -/

/-- `TaskLane`. -/
inductive TaskLane
  | render
  | physics
  | audio
  | inference
  | general
deriving DecidableEq

/-- `kTaskLaneCount`. -/
def kTaskLaneCount : ℕ := 5

/-- The lane of a number below `kTaskLaneCount`. -/
def TaskLane.ofIndex : ℕ → TaskLane
  | 0 => .render
  | 1 => .physics
  | 2 => .audio
  | 3 => .inference
  | _ => .general

/-- The workers with the lanes they prefer. -/
structure Workers where
  count : ℕ
  preferred : Fin count → TaskLane
  count_pos : 0 < count

namespace Workers

/-- How many workers the constructor starts. -/
def countFor (workerCount hardwareConcurrency : ℕ) : ℕ :=
  if workerCount = 0 then if hardwareConcurrency = 0 then 1 else hardwareConcurrency
  else workerCount

theorem countFor_pos (workerCount hardwareConcurrency : ℕ) :
    0 < countFor workerCount hardwareConcurrency := by
  unfold countFor
  split_ifs <;> omega

/-- The workers that the constructor starts. -/
def new (workerCount hardwareConcurrency : ℕ) (pinLane : Option TaskLane) : Workers where
  count := countFor workerCount hardwareConcurrency
  preferred := fun i ↦ pinLane.getD (.ofIndex (i % kTaskLaneCount))
  count_pos := countFor_pos workerCount hardwareConcurrency

variable (workers : Workers)

/-- The worker of a number. -/
def ofNat (n : ℕ) : Fin workers.count := ⟨n % workers.count, Nat.mod_lt _ workers.count_pos⟩

/-- `pick_worker`, when `lane_rr_` says `start` for the lane. -/
def pick (lane : TaskLane) (start : ℕ) : Fin workers.count :=
  (((List.range workers.count).map fun k ↦ workers.ofNat (addMod word64 start k)).find?
    fun idx ↦ workers.preferred idx = lane).getD (workers.ofNat start)

/-- A thread: the client, or a worker. -/
abbrev Thread := Option (Fin workers.count)

end Workers

/-- A queue that `take_task` or `help` looks into, from the end it takes from. -/
inductive Visit (workers : Workers)
  | pop (worker : Fin workers.count)
  | dequeue
  | steal (worker : Fin workers.count)

/-- The queues that `take_task` and `help` look into, in order. -/
def Workers.visits (workers : Workers) : workers.Thread → List (Visit workers)
  | some worker => .pop worker :: .dequeue ::
      (List.range (workers.count - 1)).map fun k ↦ .steal (workers.ofNat (worker + (k + 1)))
  | none => .dequeue :: (List.finRange workers.count).map .steal

/-! ### The state -/

/-- How far a `dispatch` has come: it is about to pick a worker, to push onto its deque, or to
enqueue into the inbox. -/
inductive DispatchCall (workers : Workers)
  | picking (node : ℕ)
  | pushing (node : ℕ) (worker : Fin workers.count)
  | enqueueing (node : ℕ)

/-- The calls of a thread: the `execute` calls, innermost first, and the `dispatch` that the
innermost of them, or the submit loop, is in. -/
structure ThreadCalls (workers : Workers) where
  stack : List ExecuteCall
  dispatching : Option (DispatchCall workers)

/-- Where the client is when it executes nothing: in the submit loop, before the check of `wait`, at
one of the queues that `help` looks into, or past `wait`. -/
inductive ClientLoop
  | submitting (next : ℕ)
  | checking
  | helping (next : ℕ)
  | returned

/-- The pool. The field `dispatched` of the graph stays empty, as the queues stand in its place.
`scans` says which queue the `take_task` of each worker is about to look into. The tasks whose
bodies have started and have returned, and the workers that `pick_worker` has returned, are
bookkeeping. -/
structure Scheduler (workers : Workers) where
  graph : TaskGraph
  lane : ℕ → TaskLane
  deques : Fin workers.count → List ℕ
  inbox : List ℕ
  laneRr : TaskLane → ℕ
  client : ClientLoop
  scans : Fin workers.count → ℕ
  threads : workers.Thread → ThreadCalls workers
  started : List ℕ
  finished : List ℕ
  picks : List (TaskLane × Fin workers.count)

namespace Scheduler

variable {workers : Workers}

/-- The pool right after `submit` has set its flag. -/
def submitted (graph : TaskGraph) (lane : ℕ → TaskLane) : Scheduler workers where
  graph := { graph with submitted := true }
  lane := lane
  deques := fun _ ↦ []
  inbox := []
  laneRr := fun _ ↦ 0
  client := .submitting 0
  scans := fun _ ↦ 0
  threads := fun _ ↦ ⟨[], none⟩
  started := []
  finished := []
  picks := []

/-- Changes the calls of a thread. -/
def setThread (s : Scheduler workers) (thread : workers.Thread) (calls : ThreadCalls workers) :
    Scheduler workers :=
  { s with threads := Function.update s.threads thread calls }

/-! ### The queues -/

/-- Takes a node from a queue, if it has one. -/
def take (s : Scheduler workers) : Visit workers → Option (ℕ × Scheduler workers)
  | .pop worker => (s.deques worker).getLast?.map fun node ↦
      (node, { s with deques := Function.update s.deques worker (s.deques worker).dropLast })
  | .dequeue => s.inbox.head?.map fun node ↦ (node, { s with inbox := s.inbox.tail })
  | .steal worker => (s.deques worker).head?.map fun node ↦
      (node, { s with deques := Function.update s.deques worker (s.deques worker).tail })

/-! ### The steps -/

/-- The decrement of a counter by a thread whose `execute` calls are given. The node whose counter
was one is handed to `dispatch`. -/
def countDown (s : Scheduler workers) (thread : workers.Thread) (stack : List ExecuteCall)
    (node : ℕ) : Scheduler workers :=
  let pending := (s.graph.nodes node).pending
  { s with
    graph := s.graph.setNode node
      { s.graph.nodes node with pending := subMod word32 pending 1 } }.setThread thread
    ⟨stack, if pending = 1 then some (.picking node) else none⟩

/-- The next step of a `dispatch`. -/
def advanceDispatch (s : Scheduler workers) (thread : workers.Thread) (stack : List ExecuteCall) :
    DispatchCall workers → Scheduler workers
  | .picking node =>
    let lane := s.lane node
    let worker := workers.pick lane (s.laneRr lane)
    { s with
      laneRr := Function.update s.laneRr lane (addMod word64 (s.laneRr lane) 1)
      picks := s.picks ++ [(lane, worker)] }.setThread thread ⟨stack, some (.pushing node worker)⟩
  | .pushing node worker =>
    if (s.deques worker).length < kDequeCap then
      { s with
        deques := Function.update s.deques worker (s.deques worker ++ [node]) }.setThread thread
        ⟨stack, none⟩
    else s.setThread thread ⟨stack, some (.enqueueing node)⟩
  | .enqueueing node =>
    if s.inbox.length < kQueueCap then
      { s with inbox := s.inbox ++ [node] }.setThread thread ⟨stack, none⟩
    else s.setThread thread ⟨⟨node, .taken⟩ :: stack, none⟩

/-- The next step of the innermost `execute` call of a thread. `outer` are the other ones. -/
def advanceExecute (s : Scheduler workers) (thread : workers.Thread) (call : ExecuteCall)
    (outer : List ExecuteCall) : Scheduler workers :=
  let node := s.graph.nodes call.node
  match call.phase with
  | .taken =>
    if node.invoke then
      { s with graph := s.graph.setNode call.node { node with invoke := false } }.setThread thread
        ⟨⟨call.node, .starting⟩ :: outer, none⟩
    else s.setThread thread ⟨outer, none⟩
  | .starting =>
    { s with started := s.started ++ [call.node] }.setThread thread
      ⟨⟨call.node, .running⟩ :: outer, none⟩
  | .running =>
    { s with finished := s.finished ++ [call.node] }.setThread thread
      ⟨⟨call.node, .releasing 0⟩ :: outer, none⟩
  | .releasing next =>
    match node.successors[next]? with
    | some successor => s.countDown thread (⟨call.node, .releasing (next + 1)⟩ :: outer) successor
    | none =>
      { s with graph := s.graph.recycle call.node }.setThread thread
        ⟨⟨call.node, .retiring⟩ :: outer, none⟩
  | .retiring =>
    { s with graph :=
        { s.graph with outstanding := subMod word32 s.graph.outstanding 1 } }.setThread
      thread ⟨outer, none⟩

/-- A thread that executes nothing looks into the queue that is next in its order. With a node it
starts to execute it, and otherwise `proceed` says where the thread goes on. -/
def look (s : Scheduler workers) (thread : workers.Thread) (visit : Visit workers)
    (found proceed : Scheduler workers → Scheduler workers) : Scheduler workers :=
  match s.take visit with
  | some (node, rest) => found (rest.setThread thread ⟨[⟨node, .taken⟩], none⟩)
  | none => proceed s

/-- The next step of a worker that executes nothing: `take_task` looks into its queues one after the
other, and the worker loop starts over when all of them were empty. -/
def advanceWorker (s : Scheduler workers) (worker : Fin workers.count) : Scheduler workers :=
  let goTo (next : ℕ) (s : Scheduler workers) : Scheduler workers :=
    { s with scans := Function.update s.scans worker next }
  match (workers.visits (some worker))[s.scans worker]? with
  | some visit => s.look (some worker) visit (goTo 0) (goTo (s.scans worker + 1))
  | none => goTo 0 s

/-- The next step of the client when it executes nothing: an iteration of the submit loop, or the
loop of `wait` with the `help` call in it. -/
def advanceClient (s : Scheduler workers) : Scheduler workers :=
  match s.client with
  | .submitting next =>
    if next < s.graph.taskCount then
      { s with client := .submitting (next + 1) }.countDown none [] next
    else { s with client := .checking }
  | .checking =>
    if s.graph.outstanding = 0 then { s with client := .returned }
    else { s with client := .helping 0 }
  | .helping next =>
    match (workers.visits none)[next]? with
    | some visit => s.look none visit (fun s ↦ { s with client := .checking })
        fun s ↦ { s with client := .helping (next + 1) }
    | none => { s with client := .checking }
  | .returned => s

/-- The next step of a thread. -/
def next (s : Scheduler workers) (thread : workers.Thread) : Scheduler workers :=
  match (s.threads thread).dispatching with
  | some call => s.advanceDispatch thread (s.threads thread).stack call
  | none =>
    match (s.threads thread).stack with
    | call :: outer => s.advanceExecute thread call outer
    | [] =>
      match thread with
      | some worker => s.advanceWorker worker
      | none => s.advanceClient

/-- The pool as a transition system: an action is the thread that takes the next step. -/
def system : TransitionSystem (Scheduler workers) workers.Thread where
  step := fun s thread ↦ some (s.next thread)

/-- The states that the pool reaches when a graph is submitted to it. -/
def Reachable (graph : TaskGraph) (lane : ℕ → TaskLane) (s : Scheduler workers) : Prop :=
  system.Reaches TransitionSystem.unguarded (submitted graph lane) s

end Scheduler

end GameEngine.Core
