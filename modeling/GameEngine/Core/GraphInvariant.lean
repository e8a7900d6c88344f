import GameEngine.Core.NodeModes
import Mathlib.Data.Finset.Card
import Mathlib.Data.Fintype.Card

/-!
# The invariant of the task graph in use

`Tracks` relates a task graph in use to the modes of its nodes: the containers hold the nodes that
are in their modes, the nodes hold what their modes say, the counters hold what the nodes are due,
the events tell what has happened to the tasks, and `outstanding_` counts the tasks that are not
done. `swept` is the number of entries of `tasks_` that the loop of `submit` has passed.

`Disciplined` says which steps keep it. The lemmas here are about the single parts; the steps follow
in `GraphCreation` to `GraphExecution`.
-/

set_option autoImplicit false
set_option relaxedAutoImplicit false

namespace GameEngine.Core

open GameEngine.Library
open MachineWord DependencyCount

variable {Client Exec : Type}

/-! ### The parts -/

/-- The loop of `submit` has passed the entry of a node. -/
def SweptNode (tasks : ℕ → Option ℕ) (swept node : ℕ) : Prop :=
  ∃ index < swept, tasks index = some node

/-- The entries of its successor array that a node has not counted down yet. -/
def remainingAt (mode : ℕ → Mode Client Exec) (nodes : ℕ → LiveNode) (node : ℕ) : List ℕ :=
  (mode node).remaining (nodes node).successors

/-- The counters hold what the nodes are due, and only waiting nodes are owed anything, at most as
much as dependencies on their tasks have been accepted. -/
structure Charged (mode : ℕ → Mode Client Exec) (blocks swept : ℕ) (tasks : ℕ → Option ℕ)
    (nodes : ℕ → LiveNode) (edges : List (ℕ × ℕ)) : Prop where
  pending : ∀ node, (mode node).PendingFits (SweptNode tasks swept node)
    (listed blocks (remainingAt mode nodes) node) (nodes node).pending
  waiting : ∀ node, 0 < listed blocks (remainingAt mode nodes) node →
    ∃ task, mode node = .waiting task
  edges_le : ∀ node task, mode node = .waiting task →
    listed blocks (remainingAt mode nodes) node ≤ edges.countP fun edge ↦ edge.2 = task

namespace ClientCall

/-- The entry that the loop of `submit` is at. -/
def sweepIndex : ClientCall → Option ℕ
  | .sweeping index | .reading index | .lowering index _ => some index
  | _ => none

/-- The task of a `create_task` call that has no node yet. -/
def asking : ClientCall → Option ℕ
  | .pooling task _ | .allocating task _ => some task
  | _ => none

/-- The calls that must not overlap with others. -/
def exclusive : ClientCall → Bool
  | .resetting | .reopening | .stopping | .joined | .closed => true
  | _ => false

end ClientCall

/-- The sweep of the `submit` that has set the flag: no node has been dispatched before, at most one
client sweeps, and when it is done no task waits for the sentinel. -/
structure Sweeping (mode : ℕ → Mode Client Exec) (swept : ℕ) (tasks : ℕ → Option ℕ)
    (submitted : Bool) (clients : CallTable Client ClientCall) : Prop where
  zero : submitted = false → swept = 0
  dormant : submitted = false → ∀ node, (mode node).dormant = true
  sweeper : ∀ client call index, clients client = some call → call.sweepIndex = some index →
    submitted = true ∧ swept = index
  lowering : ∀ client index node, clients client = some (.lowering index node) →
    tasks index = some node
  unique : ∀ first second call call', clients first = some call → clients second = some call' →
    call.sweepIndex.isSome → call'.sweepIndex.isSome → first = second
  late : submitted = true →
    (∀ client call, clients client = some call → call.sweepIndex = none) →
    ∀ node, (mode node).owesSentinel = true → SweptNode tasks swept node

/-- The task an event is about. -/
def TaskEvent.task : TaskEvent → Option ℕ
  | .refused _ => none
  | .constructed task | .started task | .finished task | .destroyed task => some task

/-- The task of a node whose callable is not constructed yet. -/
def Mode.unmade : Mode Client Exec → Option ℕ
  | .creating _ task stage => if stage.constructed then none else some task
  | _ => none

/-- A body that has been destroyed neither starts nor returns. -/
def EventOrder (first second : TaskEvent) : Prop :=
  ∀ task, first = .destroyed task → second ≠ .started task ∧ second ≠ .finished task

/-- Tasks are numbered, a task belongs to one node or to one call that has no node yet, and there
are no events of a task whose callable is not constructed. -/
structure Named (mode : ℕ → Mode Client Exec) (clients : CallTable Client ClientCall)
    (nextTask : ℕ) (events : List TaskEvent) : Prop where
  events_lt : ∀ event ∈ events, ∀ task, event.task = some task → task < nextTask
  mode_lt : ∀ node task, (mode node).task = some task → task < nextTask
  distinct : ∀ first second task, (mode first).task = some task → (mode second).task = some task →
    first = second
  asking : ∀ client task, (clients client).bind ClientCall.asking = some task →
    task < nextTask ∧ (∀ node, (mode node).task ≠ some task) ∧
      ∀ event ∈ events, event.task ≠ some task
  asking_distinct : ∀ first second task, (clients first).bind ClientCall.asking = some task →
    (clients second).bind ClientCall.asking = some task → first = second
  unmade : ∀ node task, (mode node).unmade = some task → ∀ event ∈ events, event.task ≠ some task

/-- The callables that are constructed and not destroyed are those in the nodes. -/
structure Built (mode : ℕ → Mode Client Exec) (events : List TaskEvent) : Prop where
  present : ∀ node task, (mode node).callable = some task →
    events.count (.constructed task) = events.count (.destroyed task) + 1
  absent : ∀ task, (∀ node, (mode node).callable ≠ some task) →
    events.count (.constructed task) = events.count (.destroyed task)
  once : ∀ task, events.count (.constructed task) ≤ 1

/-- Bodies start and return when their executors say so, and not after their destruction. -/
structure Ordered (mode : ℕ → Mode Client Exec) (events : List TaskEvent) : Prop where
  order : events.Pairwise EventOrder
  begun : ∀ node exec task phase, mode node = .executing exec task phase → phase ≠ .starting →
    .started task ∈ events
  ended : ∀ node exec task phase, mode node = .executing exec task phase →
    phase.unfinished = false → .finished task ∈ events
  started : ∀ task, .finished task ∈ events → .started task ∈ events

/-- `outstanding_` counts, modulo `2 ^ 32`, the tasks that have been counted and are not retired. -/
def OutstandingCounts [Fintype Exec] (mode : ℕ → Mode Client Exec) (blocks : ℕ)
    (execs : CallTable Exec ExecutorCall) (outstanding : ℕ) : Prop :=
  outstanding = (((Finset.range blocks).filter fun node ↦ (mode node).counted = true).card +
    (Finset.univ.filter fun exec ↦ execs exec = some .retiring).card) % word32

/-- The tasks of the handles are created. While the graph is not submitted they wait; until its body
has returned, a task is in the node of its handle; a task that was dispatched when it was created
does not wait. -/
structure Handled (mode : ℕ → Mode Client Exec) (submitted : Bool) (handles : List LiveHandle)
    (events : List TaskEvent) : Prop where
  constructed : ∀ handle ∈ handles, .constructed handle.task ∈ events
  made : ∀ handle ∈ handles, ∀ node client stage, mode node ≠ .creating client handle.task stage
  waiting : submitted = false → ∀ handle ∈ handles, mode handle.node = .waiting handle.task
  unfinished : ∀ handle ∈ handles, .finished handle.task ∈ events ∨
    (mode handle.node).unfinished = some handle.task
  live : ∀ handle ∈ handles, handle.live = true → mode handle.node ≠ .waiting handle.task

/-- What an exclusive call has achieved. -/
def ClientCall.Exclusively (mode : ℕ → Mode Client Exec) (execs : CallTable Exec ExecutorCall)
    (halted : Bool) : ClientCall → Prop
  | .resetting => (∀ node, mode node = .pooled ∨ mode node = .free) ∧ (∀ exec, execs exec = none) ∧
      halted = false
  | .reopening => (∀ node, mode node = .pooled) ∧ (∀ exec, execs exec = none) ∧ halted = false
  | .stopping => halted = false
  | .joined => (∀ exec, execs exec = none) ∧ halted = true
  | _ => False

/-- No exclusive call is in progress, or a single one is and no other call. -/
def Exclusive (mode : ℕ → Mode Client Exec) (clients : CallTable Client ClientCall)
    (execs : CallTable Exec ExecutorCall) (halted : Bool) : Prop :=
  ((∀ client call, clients client = some call → call.exclusive = false) ∧ halted = false) ∨
    ∃ client call, clients client = some call ∧ (∀ other, other ≠ client → clients other = none) ∧
      call.Exclusively mode execs halted

/-- The part of the invariant that does not depend on how far `submit` has come. -/
structure Placed [Fintype Exec] (mode : ℕ → Mode Client Exec) (s : LiveGraph Client Exec) :
    Prop where
  pool : PoolPlaced mode (LiveGraph.poolBlocks s.maxTasks) s.freeBlocks
  free : FreePlaced mode s.freeNodes
  client : ClientPlaced mode s.clients
  queue : QueuePlaced mode s.dispatched
  exec : ExecPlaced mode s.execs
  fits : ∀ node, (mode node).Fits (s.nodes node)
  slotted : Slotted mode s.tasks s.taskCount s.clients
  named : Named mode s.clients s.nextTask s.events
  built : Built mode s.events
  ordered : Ordered mode s.events
  counted : OutstandingCounts mode (LiveGraph.poolBlocks s.maxTasks) s.execs s.outstanding
  handled : Handled mode s.submitted s.handles s.events
  exclusive : Exclusive mode s.clients s.execs s.halted

/-- The invariant. -/
structure Tracks [Fintype Exec] (mode : ℕ → Mode Client Exec) (swept : ℕ)
    (s : LiveGraph Client Exec) : Prop extends Placed mode s where
  charged : Charged mode (LiveGraph.poolBlocks s.maxTasks) swept s.tasks s.nodes s.edges
  sweeping : Sweeping mode swept s.tasks s.submitted s.clients

/-- The fields of a node, by its mode. -/
theorem Placed.fits_of_eq [Fintype Exec] {mode : ℕ → Mode Client Exec} {s : LiveGraph Client Exec}
    {node : ℕ} {current : Mode Client Exec} (hplaced : Placed mode s)
    (hmode : mode node = current) :
    current.Fits (s.nodes node) :=
  hmode ▸ hplaced.fits node

/-! ### The discipline -/

/-- Which steps keep the invariant.

A `create_task` reads `task_count_` to enter its node into `tasks_` only while no other one is doing
so, and the sweep of `submit` lowers the counter of a node only while no `create_task` that has
found the graph not submitted is still at that node. A dependency is added before `submit`, on a
task of which fewer than `2 ^ 32 - 1` have been accepted. `reset` and the destructor do not overlap
with other calls, and a graph that is reset has fewer than `2 ^ 32` nodes and executors. -/
def Disciplined [Fintype Exec] (s : LiveGraph Client Exec) : LiveAction Client Exec → Prop
  | .create _ _ _ | .submit _ | .wait _ =>
    ∀ other call, s.clients other = some call → call.exclusive = false
  | .addDependency _ _ dependent =>
    (∀ other call, s.clients other = some call → call.exclusive = false) ∧ s.submitted = false ∧
      s.edges.countP (fun edge ↦ edge.2 = dependent.task) + 1 < word32
  | .reset _ => (∀ other, s.clients other = none) ∧
      LiveGraph.poolBlocks s.maxTasks + Fintype.card Exec < word32
  | .destroy _ => ∀ other, s.clients other = none
  | .advance client =>
    match s.clients client with
    | some (.creating _ _ .counting) =>
      ∀ other call, s.clients other = some call → call.entering = none
    | some (.lowering _ node) =>
      ∀ other task stage, s.clients other = some (.creating task node stage) →
        stage.unsubmitted = false
    | _ => True
  | .take _ _ | .run _ => True

/-! ### The counters -/

/-- What a counter that is one when it is lowered makes of a waiting node. -/
def Mode.lower (pending : ℕ) : Mode Client Exec → Mode Client Exec
  | .waiting task => if pending = 1 then .queued task else .waiting task
  | mode => mode

section Charged

variable {mode : ℕ → Mode Client Exec} {blocks swept : ℕ} {tasks : ℕ → Option ℕ}
  {nodes : ℕ → LiveNode} {edges : List (ℕ × ℕ)} {node : ℕ} {next : Mode Client Exec}

theorem remainingAt_update (mode : ℕ → Mode Client Exec) (nodes : ℕ → LiveNode) (node : ℕ)
    (next : Mode Client Exec) (value : LiveNode) :
    remainingAt (Function.update mode node next) (Function.update nodes node value) =
      Function.update (remainingAt mode nodes) node (next.remaining value.successors) := by
  funext other
  by_cases hother : other = node
  · subst hother
    simp [remainingAt]
  · simp [remainingAt, hother]

/-- Only a waiting node is owed anything. -/
theorem Charged.listed_eq_zero (hcharged : Charged mode blocks swept tasks nodes edges)
    (hnode : ∀ task, mode node ≠ .waiting task) :
    listed blocks (remainingAt mode nodes) node = 0 := by
  by_contra hne
  obtain ⟨task, htask⟩ := hcharged.waiting node (Nat.pos_of_ne_zero hne)
  exact hnode task htask

/-- The counter of a node that is not waiting, by its mode. -/
theorem Charged.pending_of_ne (hcharged : Charged mode blocks swept tasks nodes edges)
    {current : Mode Client Exec} (hmode : mode node = current)
    (hnot : ∀ task, current ≠ .waiting task) :
    current.PendingFits (SweptNode tasks swept node) 0 (nodes node).pending := by
  have hpending := hcharged.pending node
  rw [hmode, hcharged.listed_eq_zero fun task ↦ hmode ▸ hnot task] at hpending
  exact hpending

/-- A node that is not waiting moves on. -/
theorem Charged.move (hcharged : Charged mode blocks swept tasks nodes edges) (value : LiveNode)
    (hnode : ∀ task, mode node ≠ .waiting task)
    (hremaining : next.remaining value.successors = (mode node).remaining (nodes node).successors)
    (hpending : next.PendingFits (SweptNode tasks swept node) 0 value.pending) :
    Charged (Function.update mode node next) blocks swept tasks
      (Function.update nodes node value) edges := by
  have hlists : remainingAt (Function.update mode node next) (Function.update nodes node value) =
      remainingAt mode nodes := by
    rw [remainingAt_update, hremaining]
    exact Function.update_eq_self node (remainingAt mode nodes)
  have hzero := hcharged.listed_eq_zero hnode
  refine ⟨fun other ↦ ?_, fun other hother ↦ ?_, fun other task hother ↦ ?_⟩
  · rw [hlists]
    by_cases heq : other = node
    · subst heq
      rw [Function.update_self, Function.update_self, hzero]
      exact hpending
    · rw [Function.update_of_ne heq, Function.update_of_ne heq]
      exact hcharged.pending other
  · rw [hlists] at hother
    by_cases heq : other = node
    · subst heq
      omega
    · rw [Function.update_of_ne heq]
      exact hcharged.waiting other hother
  · rw [hlists]
    by_cases heq : other = node
    · subst heq
      omega
    · rw [Function.update_of_ne heq] at hother
      exact hcharged.edges_le other task hother

/-- A node that is not waiting changes its mode only. -/
theorem Charged.keep (hcharged : Charged mode blocks swept tasks nodes edges)
    (hnode : ∀ task, mode node ≠ .waiting task)
    (hremaining : next.remaining (nodes node).successors =
      (mode node).remaining (nodes node).successors)
    (hpending : next.PendingFits (SweptNode tasks swept node) 0 (nodes node).pending) :
    Charged (Function.update mode node next) blocks swept tasks nodes edges := by
  have hmove := hcharged.move (nodes node) hnode hremaining hpending
  rwa [Function.update_eq_self] at hmove

/-- A waiting node is due something, and its counter is one exactly when that is one. -/
theorem Mode.PendingFits.due {task owed pending : ℕ} {swept : Prop}
    (hfits : (Mode.waiting task : Mode Client Exec).PendingFits swept owed pending) :
    ∃ sentinel, (sentinel = 0 ∧ swept ∨ sentinel = 1 ∧ ¬ swept) ∧ 0 < sentinel + owed ∧
      sentinel + owed ≤ word32 ∧ (pending = 1 ↔ sentinel + owed = 1) ∧
      subMod word32 pending 1 = (sentinel + owed - 1) % word32 := by
  obtain ⟨sentinel, hsentinel, hpos, hle, hpending⟩ := hfits
  refine ⟨sentinel, hsentinel, hpos, hle, ?_, ?_⟩
  · rw [hpending]
    unfold word32 at hle ⊢
    omega
  · rw [hpending, subMod_mod_left hpos (by decide)]

/-- A node that waits for the sentinel is passed by the sweep. -/
theorem Mode.PendingFits.lower_swept {task owed pending : ℕ} {swept swept' : Prop}
    (hfits : (Mode.waiting task : Mode Client Exec).PendingFits swept owed pending)
    (hswept : ¬ swept) (hswept' : swept') :
    ((Mode.waiting task : Mode Client Exec).lower pending).PendingFits swept' owed
      (subMod word32 pending 1) := by
  obtain ⟨sentinel, hsentinel, hpos, hle, hone, hlowered⟩ := hfits.due
  obtain ⟨rfl, -⟩ := hsentinel.resolve_left fun h ↦ hswept h.2
  rw [Mode.lower, hlowered]
  split_ifs with hpending
  · have hzero : owed = 0 := by
      have hdue := hone.mp hpending
      omega
    exact .inl (by rw [hzero]; rfl)
  · have hdue : 1 + owed ≠ 1 := fun h ↦ hpending (hone.mpr h)
    exact ⟨0, .inl ⟨rfl, hswept'⟩, by omega, by omega,
      by rw [Nat.zero_add, Nat.add_sub_cancel_left]⟩

/-- A prerequisite of a waiting node counts it down. -/
theorem Mode.PendingFits.lower_owed {task owed owed' pending : ℕ} {swept : Prop}
    (hfits : (Mode.waiting task : Mode Client Exec).PendingFits swept owed pending)
    (howed : owed' + 1 = owed) :
    ((Mode.waiting task : Mode Client Exec).lower pending).PendingFits swept owed'
      (subMod word32 pending 1) := by
  obtain ⟨sentinel, hsentinel, hpos, hle, hone, hlowered⟩ := hfits.due
  rw [Mode.lower, hlowered]
  split_ifs with hpending
  · have hdue := hone.mp hpending
    exact .inl (by rw [hdue]; rfl)
  · have hdue : sentinel + owed ≠ 1 := fun h ↦ hpending (hone.mpr h)
    exact ⟨sentinel, hsentinel, by omega, by omega,
      by rw [← howed, ← Nat.add_assoc, Nat.add_sub_cancel]⟩

/-- A node that was counted down to nothing is owed nothing. -/
theorem Mode.PendingFits.owed_of_last {task owed pending : ℕ} {swept : Prop}
    (hfits : (Mode.waiting task : Mode Client Exec).PendingFits swept owed pending)
    (hpending : pending = 1) : owed ≤ 1 ∧ (¬ swept → owed = 0) := by
  obtain ⟨sentinel, hsentinel, -, -, hone, -⟩ := hfits.due
  have hdue := hone.mp hpending
  refine ⟨by omega, fun hswept ↦ ?_⟩
  have hsentinel := (hsentinel.resolve_left fun h ↦ hswept h.2).1
  omega

theorem Mode.remaining_lower (successors : List ℕ) (pending : ℕ) (mode : Mode Client Exec) :
    (mode.lower pending).remaining successors = mode.remaining successors := by
  cases mode with
  | waiting task =>
    rw [Mode.lower]
    split_ifs <;> rfl
  | _ => rfl

/-- Lowering a counter changes no list. -/
theorem remainingAt_lower (mode : ℕ → Mode Client Exec) (nodes : ℕ → LiveNode) (node pending : ℕ)
    (next : Mode Client Exec) (hnext : next = (mode node).lower (nodes node).pending) :
    remainingAt (Function.update mode node next)
        (Function.update nodes node { nodes node with pending := pending }) =
      remainingAt mode nodes := by
  rw [remainingAt_update, hnext, Mode.remaining_lower]
  exact Function.update_eq_self node (remainingAt mode nodes)

/-- Only a waiting node waits after its counter is lowered. -/
theorem Mode.waiting_of_lower {pending task : ℕ} {mode : Mode Client Exec}
    (hlower : mode.lower pending = .waiting task) : mode = .waiting task := by
  cases mode with
  | waiting other =>
    rw [Mode.lower] at hlower
    split_ifs at hlower
    exact hlower
  | _ => exact hlower

/-- Lowering the counter of a node that does not wait leaves it where it is. -/
theorem Mode.lower_of_not_owes {mode : Mode Client Exec} (howes : mode.owesSentinel = false)
    {pending : ℕ} : mode.lower pending = mode := by
  cases mode with
  | waiting task => simp [Mode.owesSentinel] at howes
  | _ => rfl

/-- The counter of a node that neither waits nor is about to wait. -/
theorem Mode.pendingFits_iff {swept : Prop} {owed pending : ℕ} {mode : Mode Client Exec}
    (howes : mode.owesSentinel = false) (hpooled : mode ≠ .pooled) :
    mode.PendingFits swept owed pending ↔ pending = 0 ∨ swept ∧ pending = word32 - 1 := by
  cases mode with
  | pooled => exact absurd rfl hpooled
  | waiting task => simp [Mode.owesSentinel] at howes
  | creating client task stage =>
    cases stage with
    | charging live =>
      cases live <;> simp_all [Mode.owesSentinel, Mode.PendingFits, CreateStage.unsubmitted]
    | constructing live =>
      cases live <;> simp_all [Mode.owesSentinel, Mode.PendingFits, CreateStage.unsubmitted]
    | adding live =>
      cases live <;> simp_all [Mode.owesSentinel, Mode.PendingFits, CreateStage.unsubmitted]
    | _ => rfl
  | _ => rfl

/-- The sweep passes the entry of a node: it takes the sentinel of a waiting node, and the counters
of the other nodes wrap. -/
theorem Charged.sweep (hcharged : Charged mode blocks swept tasks nodes edges)
    (hentry : tasks swept = some node)
    (hinjective : ∀ first second node, tasks first = some node → tasks second = some node →
      first = second)
    (howes : (mode node).owesSentinel = true → ∃ task, mode node = .waiting task)
    (hpooled : mode node ≠ .pooled) :
    Charged (Function.update mode node ((mode node).lower (nodes node).pending)) blocks (swept + 1)
      tasks (Function.update nodes node
        { nodes node with pending := subMod word32 (nodes node).pending 1 }) edges := by
  have hbefore : ¬ SweptNode tasks swept node := by
    rintro ⟨index, hlt, hindex⟩
    exact hlt.ne (hinjective index swept node hindex hentry)
  have hafter : SweptNode tasks (swept + 1) node := ⟨swept, Nat.lt_succ_self swept, hentry⟩
  have hothers : ∀ other, other ≠ node →
      (SweptNode tasks (swept + 1) other ↔ SweptNode tasks swept other) := by
    intro other hother
    refine ⟨?_, fun ⟨index, hlt, hindex⟩ ↦ ⟨index, Nat.lt_succ_of_lt hlt, hindex⟩⟩
    rintro ⟨index, hlt, hindex⟩
    refine ⟨index, lt_of_le_of_ne (Nat.le_of_lt_succ hlt) ?_, hindex⟩
    rintro rfl
    exact hother (Option.some.inj (hindex.symm.trans hentry))
  have hlists := remainingAt_lower mode nodes node (subMod word32 (nodes node).pending 1)
    ((mode node).lower (nodes node).pending) rfl
  have hpending := hcharged.pending node
  refine ⟨fun other ↦ ?_, fun other howed ↦ ?_, fun other task hother ↦ ?_⟩ <;> rw [hlists] at *
  · by_cases heq : other = node
    · subst heq
      rw [Function.update_self, Function.update_self]
      by_cases hwaits : (mode other).owesSentinel = true
      · obtain ⟨task, htask⟩ := howes hwaits
        rw [htask] at hpending ⊢
        exact hpending.lower_swept hbefore hafter
      · rw [Bool.not_eq_true] at hwaits
        rw [Mode.pendingFits_iff hwaits hpooled] at hpending
        rw [Mode.lower_of_not_owes hwaits, Mode.pendingFits_iff hwaits hpooled]
        rcases hpending with hzero | ⟨hswept, -⟩
        · exact .inr ⟨hafter, by rw [hzero]; rfl⟩
        · exact absurd hswept hbefore
    · rw [Function.update_of_ne heq, Function.update_of_ne heq, hothers other heq]
      exact hcharged.pending other
  · by_cases heq : other = node
    · subst heq
      obtain ⟨task, htask⟩ := hcharged.waiting other howed
      rw [htask] at hpending
      rw [Function.update_self, htask, Mode.lower, if_neg]
      · exact ⟨task, rfl⟩
      · intro hone
        have hzero := (hpending.owed_of_last hone).2 hbefore
        omega
    · rw [Function.update_of_ne heq]
      exact hcharged.waiting other howed
  · by_cases heq : other = node
    · subst heq
      rw [Function.update_self] at hother
      exact hcharged.edges_le other task (Mode.waiting_of_lower hother)
    · rw [Function.update_of_ne heq] at hother
      exact hcharged.edges_le other task hother

/-- The next successor of a node that is being released is owed something. -/
theorem listed_successor {exec : Exec} {task at_ successor : ℕ}
    (hnode : mode node = .executing exec task (.releasing at_))
    (hsuccessor : (nodes node).successors[at_]? = some successor) (hlt : node < blocks) :
    0 < listed blocks (remainingAt mode nodes) successor := by
  obtain ⟨hbound, hget⟩ := List.getElem?_eq_some_iff.mp hsuccessor
  refine listed_pos.mpr ⟨node, hlt, ?_⟩
  rw [remainingAt, hnode, Mode.remaining, List.drop_eq_getElem_cons hbound, hget]
  exact List.mem_cons_self

/-- The next successor of a node that is being released waits. -/
theorem Charged.waiting_successor {exec : Exec} {task at_ successor : ℕ}
    (hcharged : Charged mode blocks swept tasks nodes edges)
    (hnode : mode node = .executing exec task (.releasing at_))
    (hsuccessor : (nodes node).successors[at_]? = some successor) (hlt : node < blocks) :
    ∃ waiter, mode successor = .waiting waiter :=
  hcharged.waiting successor (listed_successor hnode hsuccessor hlt)

/-- An executor counts down the next successor of its node. -/
theorem Charged.release {exec : Exec} {task at_ successor : ℕ}
    (hcharged : Charged mode blocks swept tasks nodes edges)
    (hnode : mode node = .executing exec task (.releasing at_))
    (hsuccessor : (nodes node).successors[at_]? = some successor) (hlt : node < blocks) :
    Charged
      (Function.update (Function.update mode successor ((mode successor).lower
        (nodes successor).pending)) node (.executing exec task (.releasing (at_ + 1))))
      blocks swept tasks (Function.update nodes successor
        { nodes successor with pending := subMod word32 (nodes successor).pending 1 }) edges := by
  obtain ⟨hbound, hget⟩ := List.getElem?_eq_some_iff.mp hsuccessor
  have hlist : remainingAt mode nodes node =
      successor :: (nodes node).successors.drop (at_ + 1) := by
    rw [remainingAt, hnode, Mode.remaining, List.drop_eq_getElem_cons hbound, hget]
  obtain ⟨waiter, hwaiter⟩ := hcharged.waiting_successor hnode hsuccessor hlt
  have hne : node ≠ successor := by
    rintro rfl
    rw [hnode] at hwaiter
    contradiction
  have hlists : remainingAt (Function.update (Function.update mode successor
      ((mode successor).lower (nodes successor).pending)) node
        (.executing exec task (.releasing (at_ + 1)))) (Function.update nodes successor
        { nodes successor with pending := subMod word32 (nodes successor).pending 1 }) =
      Function.update (remainingAt mode nodes) node ((nodes node).successors.drop (at_ + 1)) := by
    have hlower := remainingAt_lower mode nodes successor
      (subMod word32 (nodes successor).pending 1)
      ((mode successor).lower (nodes successor).pending) rfl
    funext other
    by_cases hother : other = node
    · subst hother
      rw [Function.update_self, remainingAt, Function.update_self, Function.update_of_ne hne]
      rfl
    · rw [Function.update_of_ne hother, ← hlower, remainingAt, remainingAt,
        Function.update_of_ne hother]
  have hcount := fun target ↦ listed_tail hlt hlist target
  have hpending := hcharged.pending successor
  rw [hwaiter] at hpending
  refine ⟨fun other ↦ ?_, fun other howed' ↦ ?_, fun other waiter' hother ↦ ?_⟩ <;>
    rw [hlists] at * <;> have hcount := hcount other
  · by_cases heq : other = node
    · subst heq
      have hfits := hcharged.pending other
      rw [Function.update_self, Function.update_of_ne hne]
      rw [hnode] at hfits
      exact hfits
    · rw [Function.update_of_ne heq]
      by_cases hsucc : other = successor
      · subst hsucc
        rw [if_pos rfl] at hcount
        rw [Function.update_self, Function.update_self, hwaiter]
        exact hpending.lower_owed hcount
      · rw [if_neg hsucc, Nat.add_zero] at hcount
        rw [Function.update_of_ne hsucc, Function.update_of_ne hsucc, hcount]
        exact hcharged.pending other
  · have hbefore : 0 < listed blocks (remainingAt mode nodes) other := by omega
    obtain ⟨waiter', hwaiter'⟩ := hcharged.waiting other hbefore
    have heq : other ≠ node := by
      rintro rfl
      rw [hnode] at hwaiter'
      contradiction
    rw [Function.update_of_ne heq]
    by_cases hsucc : other = successor
    · subst hsucc
      rw [if_pos rfl] at hcount
      rw [Function.update_self, hwaiter, Mode.lower, if_neg]
      · exact ⟨waiter, rfl⟩
      · intro hone
        have hlast := (hpending.owed_of_last hone).1
        omega
    · rw [Function.update_of_ne hsucc]
      exact ⟨waiter', hwaiter'⟩
  · have heq : other ≠ node := by
      rintro rfl
      rw [Function.update_self] at hother
      contradiction
    rw [Function.update_of_ne heq] at hother
    have hbefore : mode other = .waiting waiter' := by
      by_cases hsucc : other = successor
      · subst hsucc
        rw [Function.update_self] at hother
        exact Mode.waiting_of_lower hother
      · rwa [Function.update_of_ne hsucc] at hother
    have hle := hcharged.edges_le other waiter' hbefore
    omega

/-- A dependency between two waiting tasks is added. -/
theorem Charged.link {pred dep waiter waiter' : ℕ}
    (hcharged : Charged mode blocks swept tasks nodes edges) (hne : pred ≠ dep)
    (hpred : mode pred = .waiting waiter) (hdep : mode dep = .waiting waiter') (hlt : pred < blocks)
    (hbound : edges.countP (fun edge ↦ edge.2 = waiter') + 1 < word32) :
    Charged mode blocks swept tasks
      (Function.update
        (Function.update nodes pred
          { nodes pred with successors := (nodes pred).successors ++ [dep] }) dep
        { nodes dep with pending := addMod word32 (nodes dep).pending 1 })
      (edges ++ [(waiter, waiter')]) := by
  have hlists : remainingAt mode (Function.update (Function.update nodes pred
      { nodes pred with successors := (nodes pred).successors ++ [dep] }) dep
      { nodes dep with pending := addMod word32 (nodes dep).pending 1 }) =
      Function.update (remainingAt mode nodes) pred (remainingAt mode nodes pred ++ [dep]) := by
    funext other
    by_cases hotherDep : other = dep
    · subst hotherDep
      rw [Function.update_of_ne hne.symm, remainingAt, Function.update_self]
      rfl
    · by_cases hother : other = pred
      · subst hother
        rw [Function.update_self, remainingAt, Function.update_of_ne hotherDep,
          Function.update_self, remainingAt, hpred]
        rfl
      · rw [Function.update_of_ne hother, remainingAt, Function.update_of_ne hotherDep,
          Function.update_of_ne hother]
        rfl
  have hcount := fun target ↦ listed_append (remainingAt mode nodes) hlt dep target
  refine ⟨fun other ↦ ?_, fun other howed ↦ ?_, fun other task hother ↦ ?_⟩ <;>
    rw [hlists] at * <;> have hcount := hcount other
  · by_cases hotherDep : other = dep
    · subst hotherDep
      rw [if_pos rfl] at hcount
      have hfits := hcharged.pending other
      have hle := hcharged.edges_le other waiter' hdep
      rw [Function.update_self, hcount]
      rw [hdep] at hfits ⊢
      obtain ⟨sentinel, hsentinel, hpos, -, hpending⟩ := hfits
      have hsmall : sentinel ≤ 1 := by
        rcases hsentinel with ⟨rfl, -⟩ | ⟨rfl, -⟩ <;> omega
      refine ⟨sentinel, hsentinel, by omega, by omega, ?_⟩
      rw [hpending, addMod_mod, Nat.add_assoc]
    · rw [if_neg hotherDep, Nat.add_zero] at hcount
      have hsame : (Function.update (Function.update nodes pred
          { nodes pred with successors := (nodes pred).successors ++ [dep] }) dep
          { nodes dep with pending := addMod word32 (nodes dep).pending 1 } other).pending =
          (nodes other).pending := by
        rw [Function.update_of_ne hotherDep]
        by_cases hother : other = pred
        · subst hother
          rw [Function.update_self]
        · rw [Function.update_of_ne hother]
      rw [hcount, hsame]
      exact hcharged.pending other
  · by_cases hotherDep : other = dep
    · exact ⟨waiter', hotherDep ▸ hdep⟩
    · rw [if_neg hotherDep, Nat.add_zero] at hcount
      exact hcharged.waiting other (hcount ▸ howed)
  · have hle := hcharged.edges_le other task hother
    rw [hcount, List.countP_append]
    by_cases hotherDep : other = dep
    · subst hotherDep
      obtain rfl : waiter' = task := Mode.waiting.inj (hdep.symm.trans hother)
      simp only [List.countP_singleton, decide_true, if_true]
      omega
    · rw [if_neg hotherDep]
      omega

/-- Only which nodes are swept matters. -/
theorem Charged.congr_swept {tasks' : ℕ → Option ℕ} {swept' : ℕ}
    (hcharged : Charged mode blocks swept tasks nodes edges)
    (hswept : ∀ node, SweptNode tasks' swept' node ↔ SweptNode tasks swept node) :
    Charged mode blocks swept' tasks' nodes edges := by
  refine ⟨fun node ↦ ?_, hcharged.waiting, hcharged.edges_le⟩
  rw [propext (hswept node)]
  exact hcharged.pending node

/-- A node whose counter is zero is stored in `tasks_`. -/
theorem Charged.store {client : Client} {task index : ℕ}
    (hcharged : Charged mode blocks swept tasks nodes edges) (hnone : tasks index = none)
    (hnode : mode node = .creating client task .arming) (hpending : (nodes node).pending = 0) :
    Charged mode blocks swept (Function.update tasks index (some node)) nodes edges := by
  refine ⟨fun other ↦ ?_, hcharged.waiting, hcharged.edges_le⟩
  by_cases heq : other = node
  · subst heq
    rw [hnode]
    exact .inl hpending
  · have hswept : SweptNode (Function.update tasks index (some node)) swept other ↔
        SweptNode tasks swept other := by
      refine exists_congr fun entry ↦ and_congr_right fun _ ↦ ?_
      by_cases hentry : entry = index
      · subst hentry
        simp [hnone, Ne.symm heq]
      · rw [Function.update_of_ne hentry]
    rw [propext hswept]
    exact hcharged.pending other

/-- A graph whose nodes are all in the pool. -/
theorem Charged.pooled (hmode : ∀ node, mode node = .pooled) :
    Charged mode blocks swept tasks nodes edges := by
  have hlists : ∀ node, remainingAt mode nodes node = [] := by
    intro node
    rw [remainingAt, hmode]
    rfl
  refine ⟨fun node ↦ ?_, fun node howed ↦ ?_, fun node task hnode ↦ ?_⟩
  · rw [hmode]
    trivial
  · obtain ⟨other, -, hmem⟩ := listed_pos.mp howed
    rw [hlists] at hmem
    contradiction
  · rw [hmode] at hnode
    contradiction

end Charged

/-! ### The sweep -/

section Sweeping

variable {mode mode' : ℕ → Mode Client Exec} {swept : ℕ} {tasks tasks' : ℕ → Option ℕ}
  {submitted : Bool} {clients clients' : CallTable Client ClientCall}

/-- Steps that neither sweep nor set or clear the flag. -/
theorem Sweeping.congr (hsweeping : Sweeping mode swept tasks submitted clients)
    (hdormant : submitted = false → ∀ node, (mode' node).dormant = true)
    (howes : submitted = true → ∀ node, (mode' node).owesSentinel = true →
      (mode node).owesSentinel = true)
    (htasks : ∀ index node, tasks index = some node → tasks' index = some node)
    (hclients : ∀ client call, call.sweepIndex.isSome →
      (clients' client = some call ↔ clients client = some call)) :
    Sweeping mode' swept tasks' submitted clients' where
  zero := hsweeping.zero
  dormant := hdormant
  sweeper := fun client call index hcall hindex ↦
    hsweeping.sweeper client call index
      ((hclients client call (by rw [hindex]; rfl)).mp hcall) hindex
  lowering := fun client index node hcall ↦
    htasks index node (hsweeping.lowering client index node ((hclients client _ rfl).mp hcall))
  unique := fun first second call call' hfirst hsecond hcall hcall' ↦
    hsweeping.unique first second call call' ((hclients first call hcall).mp hfirst)
      ((hclients second call' hcall').mp hsecond) hcall hcall'
  late := by
    intro hsubmitted hnone node hnode
    have hbefore : ∀ client call, clients client = some call → call.sweepIndex = none := by
      intro client call hcall
      cases hindex : call.sweepIndex with
      | none => rfl
      | some index =>
        have hafter := (hclients client call (by rw [hindex]; rfl)).mpr hcall
        exact hindex.symm.trans (hnone client call hafter)
    obtain ⟨index, hlt, hindex⟩ :=
      hsweeping.late hsubmitted hbefore node (howes hsubmitted node hnode)
    exact ⟨index, hlt, htasks index node hindex⟩

/-- A node moves on. -/
theorem Sweeping.keep {node : ℕ} {next : Mode Client Exec}
    (hsweeping : Sweeping mode swept tasks submitted clients)
    (hdormant : submitted = false → next.dormant = true)
    (howes : submitted = true → next.owesSentinel = true → (mode node).owesSentinel = true) :
    Sweeping (Function.update mode node next) swept tasks submitted clients := by
  refine hsweeping.congr (fun hsubmitted other ↦ ?_) (fun hsubmitted other hother ↦ ?_)
    (fun _ _ h ↦ h) fun _ _ _ ↦ Iff.rfl
  · by_cases heq : other = node
    · subst heq
      rw [Function.update_self]
      exact hdormant hsubmitted
    · rw [Function.update_of_ne heq]
      exact hsweeping.dormant hsubmitted other
  · by_cases heq : other = node
    · subst heq
      rw [Function.update_self] at hother
      exact howes hsubmitted hother
    · rwa [Function.update_of_ne heq] at hother

/-- A client goes from one call to another, neither of which sweeps. -/
theorem Sweeping.setClient [DecidableEq Client] {client : Client} {call : Option ClientCall}
    (hsweeping : Sweeping mode swept tasks submitted clients)
    (hold : (clients client).bind ClientCall.sweepIndex = none)
    (hnew : call.bind ClientCall.sweepIndex = none) :
    Sweeping mode swept tasks submitted (Function.update clients client call) := by
  refine hsweeping.congr hsweeping.dormant (fun _ _ h ↦ h) (fun _ _ h ↦ h)
    fun other entry hentry ↦ ?_
  by_cases hother : other = client
  · subst hother
    rw [Function.update_self]
    constructor
    · rintro rfl
      rw [Option.bind_some] at hnew
      rw [hnew] at hentry
      contradiction
    · intro hcall
      rw [hcall, Option.bind_some] at hold
      rw [hold] at hentry
      contradiction
  · rw [Function.update_of_ne hother]

/-- A client goes on with its sweep. -/
theorem Sweeping.next [DecidableEq Client] {client : Client} {call after : ClientCall} {index : ℕ}
    (hsweeping : Sweeping mode swept tasks submitted clients)
    (hcall : clients client = some call) (hindex : call.sweepIndex = some index) {swept' : ℕ}
    (hafter : after.sweepIndex = some swept')
    (hlowering : ∀ index node, after = .lowering index node → tasks index = some node) :
    Sweeping mode swept' tasks submitted (Function.update clients client (some after)) := by
  obtain ⟨hsubmitted, -⟩ := hsweeping.sweeper client call index hcall hindex
  have hothers : ∀ other entry, other ≠ client → clients other = some entry →
      entry.sweepIndex = none := by
    intro other entry hother hentry
    cases hsweep : entry.sweepIndex with
    | none => rfl
    | some _ =>
      exact absurd (hsweeping.unique other client entry call hentry hcall (by rw [hsweep]; rfl)
        (by rw [hindex]; rfl)) hother
  have hentry : ∀ other entry, Function.update clients client (some after) other = some entry →
      entry.sweepIndex.isSome → other = client ∧ entry = after := by
    intro other entry hentry hsome
    by_cases hother : other = client
    · subst hother
      rw [Function.update_self] at hentry
      exact ⟨rfl, (Option.some.inj hentry).symm⟩
    · rw [Function.update_of_ne hother] at hentry
      rw [hothers other entry hother hentry] at hsome
      contradiction
  constructor
  · intro hzero
    rw [hsubmitted] at hzero
    contradiction
  · exact hsweeping.dormant
  · intro other entry index' hother hindex'
    obtain ⟨rfl, rfl⟩ := hentry other entry hother (by rw [hindex']; rfl)
    rw [hafter] at hindex'
    exact ⟨hsubmitted, Option.some.inj hindex'⟩
  · intro other index' node hother
    obtain ⟨rfl, heq⟩ := hentry other _ hother rfl
    exact hlowering index' node heq.symm
  · intro first second entry entry' hfirst hsecond hsome hsome'
    rw [(hentry first entry hfirst hsome).1, (hentry second entry' hsecond hsome').1]
  · intro _ hnone
    have hcontra := hnone client after (Function.update_self ..)
    rw [hafter] at hcontra
    contradiction

end Sweeping

end GameEngine.Core
