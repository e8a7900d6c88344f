import GameEngine.Core.LiveGraph
import GameEngine.Library.Placement
import Mathlib.Algebra.BigOperators.Group.Finset.Piecewise

/-!
# Where the nodes of a task graph are

A node of a task graph in use is in one `Mode`: in the pool, on the free list, with a client that
creates a task in it, waiting for its dependencies, in a queue, or with an executor. This module
says what a mode implies for the containers of the graph (`PoolPlaced` to `ExecPlaced`) and for the
contents of the node (`Mode.Fits`, `Mode.PendingFits`), and how these facts follow a node that moves
from one mode to another.
-/

set_option autoImplicit false
set_option relaxedAutoImplicit false

namespace GameEngine.Core

open GameEngine.Library
open MachineWord DependencyCount

/-! ### Modes -/

/-- Where a node is, and which task it belongs to. -/
inductive Mode (Client Exec : Type)
  | pooled
  | free
  | creating (client : Client) (task : ℕ) (stage : CreateStage)
  | waiting (task : ℕ)
  | queued (task : ℕ)
  | taken (exec : Exec) (task : ℕ)
  | executing (exec : Exec) (task : ℕ) (phase : ExecutePhase)

namespace CreateStage

/-- The node is in `tasks_`. -/
def slotted : CreateStage → Bool
  | .counting | .bumping _ | .slotting _ => false
  | _ => true

/-- `invoke` and `destroy` are set. -/
def armed : CreateStage → Bool
  | .counting | .bumping _ | .slotting _ | .arming => false
  | _ => true

/-- The callable is constructed. -/
def constructed : CreateStage → Bool
  | .adding _ | .dispatching => true
  | _ => false

/-- The call has found the graph not submitted. -/
def unsubmitted : CreateStage → Bool
  | .charging false | .constructing false | .adding false => true
  | _ => false

/-- The call has found the graph submitted. -/
def live : CreateStage → Bool
  | .charging true | .constructing true | .adding true | .dispatching => true
  | _ => false

/-- The task is counted in `outstanding_`. -/
def counted : CreateStage → Bool
  | .dispatching => true
  | _ => false

end CreateStage

/-- The body has not returned. -/
def ExecutePhase.unfinished : ExecutePhase → Bool
  | .starting | .running => true
  | _ => false

namespace Mode

variable {Client Exec : Type}

/-- The task a node belongs to. -/
def task : Mode Client Exec → Option ℕ
  | .pooled | .free => none
  | .creating _ task _ | .waiting task | .queued task | .taken _ task | .executing _ task _ =>
    some task

/-- What `invoke` holds. -/
def invoke : Mode Client Exec → Option ℕ
  | .creating _ task stage => if stage.armed then some task else none
  | .waiting task | .queued task | .taken _ task => some task
  | _ => none

/-- Whether `destroy` is set. -/
def destroy : Mode Client Exec → Bool
  | .creating _ _ stage => stage.armed
  | .waiting _ | .queued _ | .taken _ _ => true
  | .executing _ _ phase => phase ≠ .cleared
  | _ => false

/-- The callable in the node. -/
def callable : Mode Client Exec → Option ℕ
  | .creating _ task stage => if stage.constructed then some task else none
  | .waiting task | .queued task | .taken _ task => some task
  | .executing _ task phase => if phase = .cleared then none else some task
  | _ => none

/-- The node is in `tasks_`. -/
def slotted : Mode Client Exec → Bool
  | .pooled => false
  | .creating _ _ stage => stage.slotted
  | _ => true

/-- The task is counted in `outstanding_` and is not yet on the free list. -/
def counted : Mode Client Exec → Bool
  | .pooled | .free => false
  | .creating _ _ stage => stage.counted
  | _ => true

/-- The task is created and its body has not returned. -/
def unfinished : Mode Client Exec → Option ℕ
  | .waiting task | .queued task | .taken _ task => some task
  | .executing _ task phase => if phase.unfinished then some task else none
  | _ => none

/-- The sentinel of `submit` is still to be taken from the counter, or to be put there. -/
def owesSentinel : Mode Client Exec → Bool
  | .creating _ _ stage => stage.unsubmitted
  | .waiting _ => true
  | _ => false

/-- What a node can be while the graph is not submitted. -/
def dormant : Mode Client Exec → Bool
  | .pooled | .free | .waiting _ => true
  | .creating _ _ stage => !stage.live
  | _ => false

/-- The entries of the successor array that the task has not counted down yet. -/
def remaining (successors : List ℕ) : Mode Client Exec → List ℕ
  | .waiting _ | .queued _ | .taken _ _ => successors
  | .executing _ _ .starting | .executing _ _ .running => successors
  | .executing _ _ (.releasing next) => successors.drop next
  | _ => []

/-- What a mode says of the contents of its node, the counter apart. -/
structure Fits (mode : Mode Client Exec) (node : LiveNode) : Prop where
  invoke_eq : node.invoke = mode.invoke
  destroy_eq : node.destroy = mode.destroy
  callable_eq : node.callable = mode.callable
  fresh : ∀ client task stage, mode = .creating client task stage → stage.constructed = true →
    node.successors = []

/-- What a mode says of the counter of its node. A waiting node holds what it is due: the sentinel,
unless `submit` has swept it, and what the successor lists owe it. Other nodes hold zero, or the
word before zero if the sweep has come past them, but for those that are about to wait. -/
def PendingFits (swept : Prop) (owed pending : ℕ) : Mode Client Exec → Prop
  | .pooled => True
  | .waiting _ => ∃ sentinel, (sentinel = 0 ∧ swept ∨ sentinel = 1 ∧ ¬ swept) ∧
      0 < sentinel + owed ∧ sentinel + owed ≤ word32 ∧ pending = (sentinel + owed) % word32
  | .creating _ _ (.charging false) => ¬ swept ∧ pending = 0
  | .creating _ _ (.constructing false) => ¬ swept ∧ pending = 1
  | .creating _ _ (.adding false) => ¬ swept ∧ pending = 1
  | _ => pending = 0 ∨ swept ∧ pending = word32 - 1

end Mode

/-! ### The containers -/

section Placed

variable {Client Exec : Type}

/-- The pool has the pooled nodes, and there are no nodes beyond its blocks. -/
structure PoolPlaced (mode : ℕ → Mode Client Exec) (blocks : ℕ) (freeBlocks : List ℕ) : Prop where
  matches_pool : Matches mode (· = .pooled) fun node ↦ node ∈ freeBlocks ∨ blocks ≤ node
  nodup : freeBlocks.Nodup
  lt : ∀ node ∈ freeBlocks, node < blocks

/-- The free list has the free nodes. -/
structure FreePlaced (mode : ℕ → Mode Client Exec) (freeNodes : List ℕ) : Prop where
  matches_list : Matches mode (· = .free) (· ∈ freeNodes)
  nodup : freeNodes.Nodup

/-- The clients that create tasks have the nodes in creation. -/
def ClientPlaced (mode : ℕ → Mode Client Exec) (clients : CallTable Client ClientCall) : Prop :=
  ∀ client task stage, Matches mode (· = .creating client task stage) fun node ↦
    clients client = some (.creating task node stage)

/-- The queues have the queued nodes. -/
structure QueuePlaced (mode : ℕ → Mode Client Exec) (dispatched : List ℕ) : Prop where
  matches_list : Matches mode (fun place ↦ ∃ task, place = .queued task) (· ∈ dispatched)
  nodup : dispatched.Nodup

/-- The executors have the nodes in execution. -/
structure ExecPlaced (mode : ℕ → Mode Client Exec)
    (execs : CallTable Exec ExecutorCall) : Prop where
  matches_taken : ∀ exec, Matches mode (fun place ↦ ∃ task, place = .taken exec task) fun node ↦
    execs exec = some (.taken node)
  matches_executing : ∀ exec task phase, Matches mode (· = .executing exec task phase) fun node ↦
    execs exec = some (.executing node task phase)

variable {mode : ℕ → Mode Client Exec} {node : ℕ} {next : Mode Client Exec}

theorem PoolPlaced.keep {blocks : ℕ} {freeBlocks : List ℕ}
    (hplaced : PoolPlaced mode blocks freeBlocks)
    (hnode : mode node ≠ .pooled) (hnext : next ≠ .pooled) :
    PoolPlaced (Function.update mode node next) blocks freeBlocks where
  matches_pool := hplaced.matches_pool.keep (by simp [hnode, hnext])
  nodup := hplaced.nodup
  lt := hplaced.lt

/-- Nodes beyond the pool are never in use. -/
theorem PoolPlaced.lt_of_ne {blocks : ℕ} {freeBlocks : List ℕ}
    (hplaced : PoolPlaced mode blocks freeBlocks) (hnode : mode node ≠ .pooled) :
    node < blocks := by
  by_contra hle
  exact hnode ((hplaced.matches_pool node).mpr (.inr (Nat.le_of_not_lt hle)))

/-- A block is allocated. -/
theorem PoolPlaced.allocate {blocks : ℕ} {rest : List ℕ}
    (hplaced : PoolPlaced mode blocks (node :: rest)) (hnext : next ≠ .pooled) :
    PoolPlaced (Function.update mode node next) blocks rest where
  matches_pool := by
    have hlt := hplaced.lt node List.mem_cons_self
    refine hplaced.matches_pool.move (fun other hother ↦ ?_) ?_
    · simp [hother]
    · have hfresh := (List.nodup_cons.mp hplaced.nodup).1
      simp [hnext, hfresh, hlt]
  nodup := (List.nodup_cons.mp hplaced.nodup).2
  lt := fun other hother ↦ hplaced.lt other (List.mem_cons_of_mem _ hother)

/-- A block is given back. -/
theorem PoolPlaced.release {blocks : ℕ} {freeBlocks : List ℕ}
    (hplaced : PoolPlaced mode blocks freeBlocks) (hnode : mode node ≠ .pooled) :
    PoolPlaced (Function.update mode node .pooled) blocks (node :: freeBlocks) where
  matches_pool := by
    refine hplaced.matches_pool.move (fun other hother ↦ ?_) ?_
    · simp [hother]
    · simp
  nodup := List.nodup_cons.mpr
    ⟨fun hmem ↦ hnode ((hplaced.matches_pool node).mpr (.inl hmem)), hplaced.nodup⟩
  lt := by
    intro other hother
    rcases List.mem_cons.mp hother with rfl | hbefore
    · exact hplaced.lt_of_ne hnode
    · exact hplaced.lt other hbefore

theorem FreePlaced.keep {freeNodes : List ℕ} (hplaced : FreePlaced mode freeNodes)
    (hnode : mode node ≠ .free) (hnext : next ≠ .free) :
    FreePlaced (Function.update mode node next) freeNodes :=
  ⟨hplaced.matches_list.keep (by simp [hnode, hnext]), hplaced.nodup⟩

/-- The last free node is taken. -/
theorem FreePlaced.pop {freeNodes : List ℕ} (hplaced : FreePlaced mode freeNodes)
    (hlast : freeNodes.getLast? = some node) (hnext : next ≠ .free) :
    FreePlaced (Function.update mode node next) freeNodes.dropLast :=
  ⟨hplaced.matches_list.dropLast hplaced.nodup hlast hnext,
    hplaced.nodup.sublist (List.dropLast_sublist freeNodes)⟩

/-- A node is put on the free list. -/
theorem FreePlaced.push {freeNodes : List ℕ} (hplaced : FreePlaced mode freeNodes)
    (hnode : mode node ≠ .free) :
    FreePlaced (Function.update mode node .free) (freeNodes ++ [node]) := by
  refine ⟨hplaced.matches_list.append rfl, List.nodup_append'.mpr
    ⟨hplaced.nodup, List.nodup_singleton node, List.disjoint_singleton.mpr fun hmem ↦ hnode ?_⟩⟩
  exact (hplaced.matches_list node).mpr hmem

theorem ClientPlaced.keep {clients : CallTable Client ClientCall}
    (hplaced : ClientPlaced mode clients)
    (hnode : ∀ client task stage, mode node ≠ .creating client task stage)
    (hnext : ∀ client task stage, next ≠ .creating client task stage) :
    ClientPlaced (Function.update mode node next) clients := fun client task stage ↦
  (hplaced client task stage).keep (by simp [hnode, hnext])

section Clients

variable [DecidableEq Client] {clients : CallTable Client ClientCall} {client : Client}
  {call : Option ClientCall} {task task' : ℕ} {stage stage' : CreateStage}

/-- A client goes from one call to another, neither of which has a node. -/
theorem ClientPlaced.other (hplaced : ClientPlaced mode clients)
    (hcall : ∀ task node stage, clients client ≠ some (.creating task node stage))
    (hnext : ∀ task node stage, call ≠ some (.creating task node stage)) :
    ClientPlaced mode (Function.update clients client call) := by
  intro other task stage node
  rw [hplaced other task stage node]
  by_cases hother : other = client
  · subst hother
    simp [hcall, hnext]
  · rw [Function.update_of_ne hother]

/-- A node and the call of one client change together. Assumes: no other client is at the node,
before or after, and the client is at no other one. -/
theorem ClientPlaced.change (hplaced : ClientPlaced mode clients)
    (hothers : ∀ other, other ≠ client → ∀ task stage, mode node ≠ .creating other task stage)
    (hnext : ∀ other, other ≠ client → ∀ task stage, next ≠ .creating other task stage)
    (hbefore : ∀ other, other ≠ node → ∀ task stage,
      clients client ≠ some (.creating task other stage))
    (hafter : ∀ other, other ≠ node → ∀ task stage, call ≠ some (.creating task other stage))
    (hagree : ∀ task stage,
      next = .creating client task stage ↔ call = some (.creating task node stage)) :
    ClientPlaced (Function.update mode node next) (Function.update clients client call) := by
  intro other task stage
  refine (hplaced other task stage).move (fun node' hnode ↦ ?_) ?_
  · by_cases hother : other = client
    · subst hother
      simp [hbefore node' hnode, hafter node' hnode]
    · rw [Function.update_of_ne hother]
  · by_cases hother : other = client
    · subst hother
      rw [Function.update_self]
      exact hagree task stage
    · rw [Function.update_of_ne hother]
      have hnot : clients other ≠ some (.creating task node stage) := fun h ↦
        hothers other hother task stage ((hplaced other task stage node).mpr h)
      simp [hnext other hother, hnot]

/-- A client gets a node. -/
theorem ClientPlaced.enter (hplaced : ClientPlaced mode clients)
    (hcall : ∀ task node stage, clients client ≠ some (.creating task node stage))
    (hnode : ∀ client task stage, mode node ≠ .creating client task stage) :
    ClientPlaced (Function.update mode node (.creating client task stage))
      (Function.update clients client (some (.creating task node stage))) := by
  refine hplaced.change (fun other _ ↦ hnode other) (fun other hother ↦ ?_)
    (fun other _ task ↦ hcall task other) (fun other hother ↦ ?_) (by simp)
  · simp [Ne.symm hother]
  · simp [Ne.symm hother]

omit [DecidableEq Client] in
/-- The node of a client is at no other client, and the client at no other node. -/
theorem ClientPlaced.alone (hplaced : ClientPlaced mode clients)
    (hcall : clients client = some (.creating task node stage)) :
    (∀ other, other ≠ client → ∀ task stage, mode node ≠ .creating other task stage) ∧
      ∀ other, other ≠ node → ∀ task stage, clients client ≠ some (.creating task other stage) := by
  have hmode : mode node = .creating client task stage := (hplaced client task stage node).mpr hcall
  refine ⟨fun other hother ↦ ?_, fun other hother ↦ ?_⟩
  · simp [hmode, Ne.symm hother]
  · simp [hcall, Ne.symm hother]

/-- A client goes on to the next stage. -/
theorem ClientPlaced.advance (hplaced : ClientPlaced mode clients)
    (hcall : clients client = some (.creating task node stage)) :
    ClientPlaced (Function.update mode node (.creating client task stage'))
      (Function.update clients client (some (.creating task node stage'))) := by
  obtain ⟨hothers, hbefore⟩ := hplaced.alone hcall
  refine hplaced.change hothers (fun other hother ↦ ?_) hbefore (fun other hother ↦ ?_) (by simp)
  · simp [Ne.symm hother]
  · simp [Ne.symm hother]

/-- A client is done with its node. -/
theorem ClientPlaced.leave (hplaced : ClientPlaced mode clients)
    (hcall : clients client = some (.creating task node stage))
    (hnext : ∀ client task stage, next ≠ .creating client task stage)
    (hafter : ∀ task node stage, call ≠ some (.creating task node stage)) :
    ClientPlaced (Function.update mode node next) (Function.update clients client call) := by
  obtain ⟨hothers, hbefore⟩ := hplaced.alone hcall
  refine hplaced.change hothers (fun other _ ↦ hnext other) hbefore
    (fun other _ task ↦ hafter task other) fun task stage ↦ ?_
  exact iff_of_false (hnext client task stage) (hafter task node stage)

end Clients

theorem QueuePlaced.keep {dispatched : List ℕ} (hplaced : QueuePlaced mode dispatched)
    (hnode : ∀ task, mode node ≠ .queued task) (hnext : ∀ task, next ≠ .queued task) :
    QueuePlaced (Function.update mode node next) dispatched :=
  ⟨hplaced.matches_list.keep (by simp [hnode, hnext]), hplaced.nodup⟩

/-- A node is dispatched. -/
theorem QueuePlaced.push {dispatched : List ℕ} {task : ℕ} (hplaced : QueuePlaced mode dispatched)
    (hnode : ∀ task, mode node ≠ .queued task) :
    QueuePlaced (Function.update mode node (.queued task)) (dispatched ++ [node]) := by
  refine ⟨hplaced.matches_list.append ⟨task, rfl⟩, List.nodup_append'.mpr
    ⟨hplaced.nodup, List.nodup_singleton node, List.disjoint_singleton.mpr fun hmem ↦ ?_⟩⟩
  obtain ⟨other, hother⟩ := (hplaced.matches_list node).mpr hmem
  exact hnode other hother

/-- A dispatched node is taken. -/
theorem QueuePlaced.erase {dispatched : List ℕ} (hplaced : QueuePlaced mode dispatched)
    (hnext : ∀ task, next ≠ .queued task) :
    QueuePlaced (Function.update mode node next) (dispatched.erase node) :=
  ⟨hplaced.matches_list.erase hplaced.nodup (by simp [hnext]), hplaced.nodup.erase node⟩

theorem ExecPlaced.keep {execs : CallTable Exec ExecutorCall} (hplaced : ExecPlaced mode execs)
    (hnode : ∀ exec task, mode node ≠ .taken exec task)
    (hnode' : ∀ exec task phase, mode node ≠ .executing exec task phase)
    (hnext : ∀ exec task, next ≠ .taken exec task)
    (hnext' : ∀ exec task phase, next ≠ .executing exec task phase) :
    ExecPlaced (Function.update mode node next) execs where
  matches_taken := fun exec ↦ (hplaced.matches_taken exec).keep (by simp [hnode, hnext])
  matches_executing := fun exec task phase ↦
    (hplaced.matches_executing exec task phase).keep (by simp [hnode', hnext'])

/-- An executor goes on with a node, gets one or leaves it. Assumes: the executor's call before and
after, and the modes of the node before and after, are about no other node and no other executor. -/
theorem ExecPlaced.move [DecidableEq Exec] {execs : CallTable Exec ExecutorCall} {exec : Exec}
    {call : Option ExecutorCall} (hplaced : ExecPlaced mode execs)
    (hold : ∀ other, other ≠ node → execs exec ≠ some (.taken other) ∧
      ∀ task phase, execs exec ≠ some (.executing other task phase))
    (hcall : ∀ other, other ≠ node → call ≠ some (.taken other) ∧
      ∀ task phase, call ≠ some (.executing other task phase))
    (hnode : ∀ other task, other ≠ exec → mode node ≠ .taken other task ∧
      ∀ phase, mode node ≠ .executing other task phase)
    (hnext : ∀ other task, other ≠ exec → next ≠ .taken other task ∧
      ∀ phase, next ≠ .executing other task phase)
    (htaken : (∃ task, next = .taken exec task) ↔ call = some (.taken node))
    (hexecuting : ∀ task phase, next = .executing exec task phase ↔
      call = some (.executing node task phase)) :
    ExecPlaced (Function.update mode node next) (Function.update execs exec call) := by
  refine ⟨fun other ↦ ?_, fun other task phase ↦ ?_⟩
  · refine (hplaced.matches_taken other).move (fun node' hnode' ↦ ?_) ?_
    · by_cases hother : other = exec
      · subst hother
        simp [(hold node' hnode').1, (hcall node' hnode').1]
      · rw [Function.update_of_ne hother]
    · by_cases hother : other = exec
      · subst hother
        rw [Function.update_self]
        exact htaken
      · have hnot : execs other ≠ some (.taken node) := by
          intro h
          obtain ⟨task, htask⟩ := (hplaced.matches_taken other node).mpr h
          exact (hnode other task hother).1 htask
        simp [hother, hnot, fun task ↦ (hnext other task hother).1]
  · refine (hplaced.matches_executing other task phase).move (fun node' hnode' ↦ ?_) ?_
    · by_cases hother : other = exec
      · subst hother
        simp [(hold node' hnode').2, (hcall node' hnode').2]
      · rw [Function.update_of_ne hother]
    · by_cases hother : other = exec
      · subst hother
        rw [Function.update_self]
        exact hexecuting task phase
      · have hnot : execs other ≠ some (.executing node task phase) := by
          intro h
          have hmode := (hplaced.matches_executing other task phase node).mpr h
          exact (hnode other task hother).2 phase hmode
        simp [hother, hnot, fun task ↦ (hnext other task hother).2]

/-- An executor without a node gets another call without one. -/
theorem ExecPlaced.other [DecidableEq Exec] {execs : CallTable Exec ExecutorCall} {exec : Exec}
    {call : Option ExecutorCall} (hplaced : ExecPlaced mode execs)
    (hold : ∀ node, execs exec ≠ some (.taken node) ∧
      ∀ task phase, execs exec ≠ some (.executing node task phase))
    (hcall : ∀ node, call ≠ some (.taken node) ∧
      ∀ task phase, call ≠ some (.executing node task phase)) :
    ExecPlaced mode (Function.update execs exec call) := by
  refine ⟨fun other node ↦ ?_, fun other task phase node ↦ ?_⟩
  · rw [hplaced.matches_taken other node]
    by_cases hother : other = exec
    · subst hother
      simp [(hold node).1, (hcall node).1]
    · rw [Function.update_of_ne hother]
  · rw [hplaced.matches_executing other task phase node]
    by_cases hother : other = exec
    · subst hother
      simp [(hold node).2, (hcall node).2]
    · rw [Function.update_of_ne hother]

end Placed

/-! ### The entries of `tasks_` -/

section Slotted

variable {Client Exec : Type}

/-- A call of a client that is between reading `task_count_` and entering its node into `tasks_`. -/
def ClientCall.entering : ClientCall → Option ℕ
  | .creating _ _ (.bumping index) => some index
  | .creating _ _ (.slotting index) => some index
  | _ => none

/-- The entries of `tasks_` up to `task_count_` are the nodes in use, each once, but for the last
one while its node is being entered. -/
structure Slotted (mode : ℕ → Mode Client Exec) (tasks : ℕ → Option ℕ) (taskCount : ℕ)
    (clients : CallTable Client ClientCall) : Prop where
  slotted_iff : ∀ node, (mode node).slotted = true ↔ ∃ index, tasks index = some node
  lt : ∀ index node, tasks index = some node → index < taskCount
  full : ∀ index < taskCount, (∃ node, tasks index = some node) ∨
    ∃ client task node, clients client = some (.creating task node (.slotting index))
  injective : ∀ first second node, tasks first = some node → tasks second = some node →
    first = second
  bumping : ∀ client task node index, clients client = some (.creating task node (.bumping index)) →
    index = taskCount
  slotting : ∀ client task node index,
    clients client = some (.creating task node (.slotting index)) →
      index + 1 = taskCount ∧ tasks index = none
  exclusive : ∀ first second call call', clients first = some call → clients second = some call' →
    call.entering.isSome → call'.entering.isSome → first = second

variable {mode mode' : ℕ → Mode Client Exec} {tasks : ℕ → Option ℕ} {taskCount : ℕ}
  {clients clients' : CallTable Client ClientCall}

/-- Only the calls that are entering a node matter, and whether the nodes are entered. -/
theorem Slotted.congr (hslotted : Slotted mode tasks taskCount clients)
    (hmode : ∀ node, (mode' node).slotted = (mode node).slotted)
    (hnew : ∀ client call, clients' client = some call → call.entering.isSome →
      clients client = some call)
    (hold : ∀ client call, clients client = some call → call.entering.isSome →
      clients' client = some call) :
    Slotted mode' tasks taskCount clients' where
  slotted_iff := fun node ↦ by rw [hmode, hslotted.slotted_iff]
  lt := hslotted.lt
  full := by
    intro index hindex
    refine (hslotted.full index hindex).imp_right ?_
    rintro ⟨client, task, node, hcall⟩
    exact ⟨client, task, node, hold client _ hcall rfl⟩
  injective := hslotted.injective
  bumping := fun client task node index hcall ↦
    hslotted.bumping client task node index (hnew client _ hcall rfl)
  slotting := fun client task node index hcall ↦
    hslotted.slotting client task node index (hnew client _ hcall rfl)
  exclusive := fun first second call call' hfirst hsecond hcall hcall' ↦
    hslotted.exclusive first second call call' (hnew first call hfirst hcall)
      (hnew second call' hsecond hcall') hcall hcall'

/-- A node moves, and stays entered or not entered. -/
theorem Slotted.keep {node : ℕ} {next : Mode Client Exec}
    (hslotted : Slotted mode tasks taskCount clients)
    (hnext : next.slotted = (mode node).slotted) :
    Slotted (Function.update mode node next) tasks taskCount clients := by
  refine hslotted.congr (fun other ↦ ?_) (fun _ _ hcall _ ↦ hcall) fun _ _ hcall _ ↦ hcall
  by_cases hother : other = node
  · subst hother
    rw [Function.update_self, hnext]
  · rw [Function.update_of_ne hother]

/-- A client goes from one call to another, neither of which is entering a node. -/
theorem Slotted.setClient [DecidableEq Client] {client : Client} {call : Option ClientCall}
    (hslotted : Slotted mode tasks taskCount clients)
    (hold : ∀ before, clients client = some before → before.entering = none)
    (hnew : ∀ after, call = some after → after.entering = none) :
    Slotted mode tasks taskCount (Function.update clients client call) := by
  refine hslotted.congr (fun _ ↦ rfl) (fun other entry hentry hentering ↦ ?_)
    fun other entry hentry hentering ↦ ?_
  · by_cases hother : other = client
    · subst hother
      rw [Function.update_self] at hentry
      rw [hnew entry hentry] at hentering
      contradiction
    · rwa [Function.update_of_ne hother] at hentry
  · by_cases hother : other = client
    · subst hother
      rw [hold entry hentry] at hentering
      contradiction
    · rwa [Function.update_of_ne hother]

end Slotted

end GameEngine.Core
