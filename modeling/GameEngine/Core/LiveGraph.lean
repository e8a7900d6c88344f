import GameEngine.Core.TaskGraph
import GameEngine.Library.CallTable
import Mathlib.Data.Fintype.Basic

/-!
# The task graph in use

`TaskGraph` is used by clients, which create tasks, add dependencies, submit, wait, reset and in the
end destroy the graph, while threads execute the tasks. A `LiveGraph` is the state they share, and
`liveGraph` the transition system of their steps. Every access of `create_task` and `submit` to
`tasks_`, `task_count_`, `submitted_` and `pending` is a step of its own; what holds the lock of the
free list, `add_dependency` and `reset_nodes` are one step each. As in `Execution`, the deques and
the inbox are one bag, and a `dispatch` that finds them full and runs the node at once is one that
is taken at once.

A node holds the object that `construct` made in it under the number of the task it was made for,
and its `invoke` pointer runs the body of a task. Tasks are numbered in the order of the
`create_task` calls. These numbers, the handles, the dependencies and the events are bookkeeping
that the code does not have.
-/

set_option autoImplicit false
set_option relaxedAutoImplicit false

namespace GameEngine.Core

open GameEngine.Library
open MachineWord

/-! ### The shared state -/

/-- A task node. -/
structure LiveNode where
  invoke : Option ℕ
  destroy : Bool
  pending : ℕ
  successors : List ℕ
  callable : Option ℕ
deriving DecidableEq

/-- A node that holds nothing. -/
def LiveNode.blank : LiveNode := ⟨none, false, 0, [], none⟩

/-- How far a `create_task` call has come with the node it got. A node from the pool is first
entered into `tasks_`: the call reads `task_count_`, writes it, and stores the node. Then it stores
`invoke` and `destroy`, loads `submitted_`, stores `pending`, constructs the callable, adds to
`outstanding_` and, if the graph was submitted, dispatches the node. -/
inductive CreateStage
  | counting
  | bumping (index : ℕ)
  | slotting (index : ℕ)
  | arming
  | sampling
  | charging (live : Bool)
  | constructing (live : Bool)
  | adding (live : Bool)
  | dispatching
deriving DecidableEq

/-- A call of a client in progress. `pooling` and `allocating` are `create_task` calls that have
found the free list empty when `seen` tasks were live; `sweeping`, `reading` and `lowering` are the
loop of `submit`, `resetting` and `reopening` the rest of a `reset` that is done with waiting, and
`stopping`, `joined` and `closed` the destructor. -/
inductive ClientCall
  | pooling (task seen : ℕ)
  | allocating (task seen : ℕ)
  | creating (task node : ℕ) (stage : CreateStage)
  | sweeping (index : ℕ)
  | reading (index : ℕ)
  | lowering (index node : ℕ)
  | resetting
  | reopening
  | stopping
  | joined
  | closed
deriving DecidableEq

/-- How far an `execute` call has come with the task whose `invoke` it exchanged. -/
inductive ExecutePhase
  | starting
  | running
  | releasing (next : ℕ)
  | cleared
deriving DecidableEq

/-- An `execute` call in progress: it has the node, it has its task, or it has put the node on the
free list. -/
inductive ExecutorCall
  | taken (node : ℕ)
  | executing (node task : ℕ) (phase : ExecutePhase)
  | retiring
deriving DecidableEq

/-- What happens to a task. `refused` is a `create_task` call that returned an empty handle although
its callable fits, after it had found the free list empty when `live` tasks were live. -/
inductive TaskEvent
  | refused (live : ℕ)
  | constructed (task : ℕ)
  | started (task : ℕ)
  | finished (task : ℕ)
  | destroyed (task : ℕ)
deriving DecidableEq

/-- A handle that `create_task` returned: the task, its node, and whether it was dispatched by the
call. -/
structure LiveHandle where
  task : ℕ
  node : ℕ
  live : Bool
deriving DecidableEq

/-- The task graph in use. A node is named by its block in the pool; `freeBlocks` are those the pool
has, the next to be allocated first. -/
structure LiveGraph (Client Exec : Type) where
  nodes : ℕ → LiveNode
  freeBlocks : List ℕ
  tasks : ℕ → Option ℕ
  taskCount : ℕ
  maxTasks : ℕ
  freeNodes : List ℕ
  submitted : Bool
  outstanding : ℕ
  dispatched : List ℕ
  halted : Bool
  clients : CallTable Client ClientCall
  execs : CallTable Exec ExecutorCall
  nextTask : ℕ
  handles : List LiveHandle
  edges : List (ℕ × ℕ)
  events : List TaskEvent

namespace LiveGraph

variable {Client Exec : Type}

/-- The number of blocks that a pool of `maxTasks` nodes hands out: its indices are 32-bit words, of
which the last stands for none. -/
def poolBlocks (maxTasks : ℕ) : ℕ := min (max maxTasks 1) (word32 - 1)

/-- A new graph. -/
def new (maxTasks : ℕ) : LiveGraph Client Exec where
  nodes := fun _ ↦ .blank
  freeBlocks := List.range (poolBlocks maxTasks)
  tasks := fun _ ↦ none
  taskCount := 0
  maxTasks := maxTasks
  freeNodes := []
  submitted := false
  outstanding := 0
  dispatched := []
  halted := false
  clients := CallTable.idle
  execs := CallTable.idle
  nextTask := 0
  handles := []
  edges := []
  events := []

/-- Replaces one node. -/
def setNode (s : LiveGraph Client Exec) (node : ℕ) (value : LiveNode) : LiveGraph Client Exec :=
  { s with nodes := Function.update s.nodes node value }

/-- Puts a node into a queue. -/
def dispatch (s : LiveGraph Client Exec) (node : ℕ) : LiveGraph Client Exec :=
  { s with dispatched := s.dispatched ++ [node] }

/-- Records an event. -/
def emit (s : LiveGraph Client Exec) (event : TaskEvent) : LiveGraph Client Exec :=
  { s with events := s.events ++ [event] }

/-- The decrement of a counter that `submit` and `execute` share. -/
def countDown (s : LiveGraph Client Exec) (node : ℕ) : LiveGraph Client Exec :=
  let pending := (s.nodes node).pending
  let lowered := s.setNode node { s.nodes node with pending := subMod word32 pending 1 }
  if pending = 1 then lowered.dispatch node else lowered

/-- Calls the destructor of a node's callable if the node has one. -/
def destroyCallable (s : LiveGraph Client Exec) (node : ℕ) : LiveGraph Client Exec :=
  match (s.nodes node).destroy, (s.nodes node).callable with
  | true, some task => s.emit (.destroyed task)
  | _, _ => s

/-- One turn of the loop of `reset_nodes`. -/
def resetSlot (s : LiveGraph Client Exec) (index : ℕ) : LiveGraph Client Exec :=
  match s.tasks index with
  | none => s
  | some node =>
    { (s.destroyCallable node).setNode node .blank with
      freeBlocks := node :: s.freeBlocks
      tasks := Function.update s.tasks index none }

/-- Destroys all callables and gives all nodes back to the pool. -/
def resetNodes (s : LiveGraph Client Exec) : LiveGraph Client Exec :=
  { (List.range s.taskCount).foldl resetSlot { s with freeNodes := [] } with taskCount := 0 }

/-- The number of live tasks: nodes that are neither in the pool nor on the free list. -/
def liveCount (s : LiveGraph Client Exec) : ℕ :=
  ((List.range (poolBlocks s.maxTasks)).filter fun node ↦
    node ∉ s.freeBlocks ∧ node ∉ s.freeNodes).length

/-! ### The steps of the clients -/

variable [DecidableEq Client] [DecidableEq Exec]

/-- The entry of a client. -/
def setClient (s : LiveGraph Client Exec) (client : Client) (call : Option ClientCall) :
    LiveGraph Client Exec :=
  { s with clients := Function.update s.clients client call }

/-- The entry of an executor. -/
def setExec (s : LiveGraph Client Exec) (exec : Exec) (call : Option ExecutorCall) :
    LiveGraph Client Exec :=
  { s with execs := Function.update s.execs exec call }

/-- `create_task` returns a handle. -/
def returnHandle (s : LiveGraph Client Exec) (client : Client) (task node : ℕ) (live : Bool) :
    LiveGraph Client Exec :=
  { s.setClient client none with handles := s.handles ++ [⟨task, node, live⟩] }

/-- `create_task` with a callable of a size and an alignment. A callable that fits takes the last
node of the free list. -/
def create (s : LiveGraph Client Exec) (client : Client) (size alignment : ℕ) :
    LiveGraph Client Exec :=
  if kCallableBytes < size ∨ 16 < alignment then s
  else
    let task := s.nextTask
    let s' := { s with nextTask := s.nextTask + 1 }
    match s.freeNodes.getLast? with
    | some node =>
      { s' with freeNodes := s.freeNodes.dropLast }.setClient client
        (some (.creating task node .arming))
    | none => s'.setClient client (some (.pooling task s.liveCount))

/-- The next step of a `create_task` call that has a node. -/
def advanceCreate (s : LiveGraph Client Exec) (client : Client) (task node : ℕ) :
    CreateStage → LiveGraph Client Exec
  | .counting => s.setClient client (some (.creating task node (.bumping s.taskCount)))
  | .bumping index =>
    { s with taskCount := index + 1 }.setClient client
      (some (.creating task node (.slotting index)))
  | .slotting index =>
    { s with tasks := Function.update s.tasks index (some node) }.setClient client
      (some (.creating task node .arming))
  | .arming =>
    (s.setNode node { s.nodes node with invoke := some task, destroy := true }).setClient client
      (some (.creating task node .sampling))
  | .sampling => s.setClient client (some (.creating task node (.charging s.submitted)))
  | .charging live =>
    (s.setNode node { s.nodes node with pending := if live then 0 else 1 }).setClient client
      (some (.creating task node (.constructing live)))
  | .constructing live =>
    ((s.setNode node { s.nodes node with successors := [], callable := some task }).emit
      (.constructed task)).setClient client (some (.creating task node (.adding live)))
  | .adding live =>
    let s' := { s with outstanding := addMod word32 s.outstanding 1 }
    if live then s'.setClient client (some (.creating task node .dispatching))
    else s'.returnHandle client task node false
  | .dispatching => (s.dispatch node).returnHandle client task node true

/-- The next step of a client's call. -/
def advance [Fintype Exec] (s : LiveGraph Client Exec) (client : Client) :
    ClientCall → Option (LiveGraph Client Exec)
  | .pooling task seen =>
    some (if s.maxTasks ≤ s.taskCount then (s.setClient client none).emit (.refused seen)
      else s.setClient client (some (.allocating task seen)))
  | .allocating task seen =>
    some (match s.freeBlocks with
      | [] => (s.setClient client none).emit (.refused seen)
      | node :: rest =>
        { s.setNode node .blank with freeBlocks := rest }.setClient client
          (some (.creating task node .counting)))
  | .creating task node stage => some (s.advanceCreate client task node stage)
  | .sweeping index =>
    some (s.setClient client (if index < s.taskCount then some (.reading index) else none))
  | .reading index =>
    some (s.setClient client (some (match s.tasks index with
      | none => .sweeping (index + 1)
      | some node => .lowering index node)))
  | .lowering index node =>
    some ((s.countDown node).setClient client (some (.sweeping (index + 1))))
  | .resetting => some (s.resetNodes.setClient client (some .reopening))
  | .reopening =>
    some { s.setClient client none with submitted := false, handles := [] }
  | .stopping =>
    if ∀ exec, s.execs exec = none then
      some { s.setClient client (some .joined) with halted := true }
    else none
  | .joined => some (s.resetNodes.setClient client (some .closed))
  | .closed => none

/-- `add_dependency` on two handles. -/
def addDependency (s : LiveGraph Client Exec) (prerequisite dependent : LiveHandle) :
    LiveGraph Client Exec :=
  let pred := prerequisite.node
  let dep := dependent.node
  if pred = dep ∨ kMaxSuccessors ≤ (s.nodes pred).successors.length then s
  else
    let linked := s.setNode pred
      { s.nodes pred with successors := (s.nodes pred).successors ++ [dep] }
    { linked.setNode dep
        { linked.nodes dep with pending := addMod word32 (linked.nodes dep).pending 1 } with
      edges := s.edges ++ [(prerequisite.task, dependent.task)] }

/-! ### The steps of the executors -/

/-- The next step of an `execute` call. -/
def run (s : LiveGraph Client Exec) (exec : Exec) : ExecutorCall → LiveGraph Client Exec
  | .taken node =>
    match (s.nodes node).invoke with
    | none => s.setExec exec none
    | some task =>
      (s.setNode node { s.nodes node with invoke := none }).setExec exec
        (some (.executing node task .starting))
  | .executing node task .starting =>
    (s.emit (.started task)).setExec exec (some (.executing node task .running))
  | .executing node task .running =>
    (s.emit (.finished task)).setExec exec (some (.executing node task (.releasing 0)))
  | .executing node task (.releasing next) =>
    match (s.nodes node).successors[next]? with
    | some successor =>
      (s.countDown successor).setExec exec (some (.executing node task (.releasing (next + 1))))
    | none =>
      ((s.destroyCallable node).setNode node .blank).setExec exec
        (some (.executing node task .cleared))
  | .executing node _ .cleared =>
    { s with freeNodes := s.freeNodes ++ [node] }.setExec exec (some .retiring)
  | .retiring => { s with outstanding := subMod word32 s.outstanding 1 }.setExec exec none

end LiveGraph

/-! ### The transition system -/

/-- A step: a client calls a function, continues its call, or an executor takes a node out of a
queue or continues its `execute` call. -/
inductive LiveAction (Client Exec : Type)
  | create (client : Client) (size alignment : ℕ)
  | addDependency (client : Client) (prerequisite dependent : LiveHandle)
  | submit (client : Client)
  | wait (client : Client)
  | reset (client : Client)
  | destroy (client : Client)
  | advance (client : Client)
  | take (exec : Exec) (node : ℕ)
  | run (exec : Exec)
deriving DecidableEq

namespace LiveGraph

variable {Client Exec : Type} [DecidableEq Client] [DecidableEq Exec] [Fintype Exec]

/-- One step. `submit` returns at once when its exchange finds the flag set, and `wait` and `reset`
go on when `outstanding_` is zero. The handles of a dependency are not null and have been returned
since the last reset. -/
def step (s : LiveGraph Client Exec) : LiveAction Client Exec → Option (LiveGraph Client Exec)
  | .create client size alignment =>
    if s.clients client = none then some (s.create client size alignment) else none
  | .addDependency client prerequisite dependent =>
    if s.clients client = none ∧ prerequisite ∈ s.handles ∧ dependent ∈ s.handles then
      some (s.addDependency prerequisite dependent)
    else none
  | .submit client =>
    if s.clients client = none then
      some (if s.submitted then s
        else { s.setClient client (some (.sweeping 0)) with submitted := true })
    else none
  | .wait client => if s.clients client = none ∧ s.outstanding = 0 then some s else none
  | .reset client =>
    if s.clients client = none ∧ s.outstanding = 0 then
      some (s.setClient client (some .resetting))
    else none
  | .destroy client =>
    if s.clients client = none then some (s.setClient client (some .stopping)) else none
  | .advance client => (s.clients client).bind (s.advance client)
  | .take exec node =>
    if s.execs exec = none ∧ s.halted = false ∧ node ∈ s.dispatched then
      some ({ s with dispatched := s.dispatched.erase node }.setExec exec (some (.taken node)))
    else none
  | .run exec => (s.execs exec).map (s.run exec)

/-- What a step can do. -/
inductive Stepped (s : LiveGraph Client Exec) :
    LiveAction Client Exec → LiveGraph Client Exec → Prop
  | create {client : Client} {size alignment : ℕ} : s.clients client = none →
      Stepped s (.create client size alignment) (s.create client size alignment)
  | addDependency {client : Client} {prerequisite dependent : LiveHandle} :
      s.clients client = none → prerequisite ∈ s.handles → dependent ∈ s.handles →
      Stepped s (.addDependency client prerequisite dependent)
        (s.addDependency prerequisite dependent)
  | submit {client : Client} : s.clients client = none →
      Stepped s (.submit client) (if s.submitted then s
        else { s.setClient client (some (.sweeping 0)) with submitted := true })
  | wait {client : Client} : s.clients client = none → s.outstanding = 0 →
      Stepped s (.wait client) s
  | reset {client : Client} : s.clients client = none → s.outstanding = 0 →
      Stepped s (.reset client) (s.setClient client (some .resetting))
  | destroy {client : Client} : s.clients client = none →
      Stepped s (.destroy client) (s.setClient client (some .stopping))
  | advance {client : Client} {call : ClientCall} {next : LiveGraph Client Exec} :
      s.clients client = some call → s.advance client call = some next →
      Stepped s (.advance client) next
  | take {exec : Exec} {node : ℕ} : s.execs exec = none → s.halted = false →
      node ∈ s.dispatched → Stepped s (.take exec node)
        ({ s with dispatched := s.dispatched.erase node }.setExec exec (some (.taken node)))
  | run {exec : Exec} {call : ExecutorCall} : s.execs exec = some call →
      Stepped s (.run exec) (s.run exec call)

theorem stepped_of_step {s next : LiveGraph Client Exec} {action : LiveAction Client Exec}
    (hnext : s.step action = some next) : s.Stepped action next := by
  cases action with
  | create client size alignment =>
    rw [step, Option.ite_none_right_eq_some] at hnext
    exact Option.some.inj hnext.2 ▸ .create hnext.1
  | addDependency client prerequisite dependent =>
    rw [step, Option.ite_none_right_eq_some] at hnext
    obtain ⟨⟨hidle, hprerequisite, hdependent⟩, hnext⟩ := hnext
    exact Option.some.inj hnext ▸ .addDependency hidle hprerequisite hdependent
  | submit client =>
    rw [step, Option.ite_none_right_eq_some] at hnext
    exact Option.some.inj hnext.2 ▸ .submit hnext.1
  | wait client =>
    rw [step, Option.ite_none_right_eq_some] at hnext
    exact Option.some.inj hnext.2 ▸ .wait hnext.1.1 hnext.1.2
  | reset client =>
    rw [step, Option.ite_none_right_eq_some] at hnext
    exact Option.some.inj hnext.2 ▸ .reset hnext.1.1 hnext.1.2
  | destroy client =>
    rw [step, Option.ite_none_right_eq_some] at hnext
    exact Option.some.inj hnext.2 ▸ .destroy hnext.1
  | advance client =>
    obtain ⟨call, hcall, hadvance⟩ := Option.bind_eq_some_iff.mp hnext
    exact .advance hcall hadvance
  | take exec node =>
    rw [step, Option.ite_none_right_eq_some] at hnext
    obtain ⟨⟨hexec, hhalted, hnode⟩, hnext⟩ := hnext
    exact Option.some.inj hnext ▸ .take hexec hhalted hnode
  | run exec =>
    obtain ⟨call, hcall, rfl⟩ := Option.map_eq_some_iff.mp hnext
    exact .run hcall

end LiveGraph

/-- The task graph in use, as a transition system. -/
def liveGraph (Client Exec : Type) [DecidableEq Client] [DecidableEq Exec] [Fintype Exec] :
    TransitionSystem (LiveGraph Client Exec) (LiveAction Client Exec) where
  step := LiveGraph.step

end GameEngine.Core
