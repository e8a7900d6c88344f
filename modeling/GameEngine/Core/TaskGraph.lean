import GameEngine.Library.DependencyCount
import GameEngine.Library.MachineWord
import GameEngine.Library.TransitionSystem

/-!
# The task graph before it is submitted

`TaskGraph` is the state that scheduling works on: the nodes with their `invoke` pointer, their
32-bit counter of pending prerequisites and their successors, the free nodes, the counter of
outstanding tasks and the nodes handed to `dispatch` and not yet taken by a thread. The worker
deques and the shared inbox are one bag here: a dispatched node may be taken at any later time, in
any order, which also covers a `dispatch` that runs the node at once.

A `Setup` is a graph on which `createTaskImpl` and `addDependency` have been called, with the
accepted dependencies. `Setup.reachable_counts` says what these calls leave in the nodes: a counter
that holds one for the submission and one for each dependency on another task, modulo `2 ^ 32`, and
successors that list the accepted dependencies in order.
-/

set_option autoImplicit false
set_option relaxedAutoImplicit false

namespace GameEngine.Core

open GameEngine.Library
open MachineWord DependencyCount

/-- The room for a callable in a node. -/
def kCallableBytes : ℕ := 96

/-- The number of successors a node can hold. -/
def kMaxSuccessors : ℕ := 16

/-- A task node: `invoke` says whether the pointer is set, `pending` is a 32-bit word, and
`successors` holds the first `successor_count` entries of the array. -/
structure TaskNode where
  invoke : Bool
  pending : ℕ
  successors : List ℕ

/-- The task graph. A node is named by its index in `tasks_`. `dispatched` holds the nodes that
`dispatch` was called with and that no thread has taken yet. -/
structure TaskGraph where
  nodes : ℕ → TaskNode
  taskCount : ℕ
  maxTasks : ℕ
  freeNodes : List ℕ
  outstanding : ℕ
  submitted : Bool
  dispatched : List ℕ

/-- A handle is null or points to a node. -/
abbrev TaskHandle := Option ℕ

namespace TaskGraph

/-- A graph without tasks. -/
def new (maxTasks : ℕ) : TaskGraph where
  nodes := fun _ ↦ ⟨false, 0, []⟩
  taskCount := 0
  maxTasks := maxTasks
  freeNodes := []
  outstanding := 0
  submitted := false
  dispatched := []

/-- Replaces one node. -/
def setNode (graph : TaskGraph) (node : ℕ) (value : TaskNode) : TaskGraph :=
  { graph with nodes := Function.update graph.nodes node value }

/-- Puts a node into a queue. -/
def dispatch (graph : TaskGraph) (node : ℕ) : TaskGraph :=
  { graph with dispatched := graph.dispatched ++ [node] }

/-- The node of a new task: the last free node, else the next node of the pool. `allocated` says
whether the pool has memory for it. -/
def takeNode (graph : TaskGraph) (allocated : Bool) : Option (TaskGraph × ℕ) :=
  match graph.freeNodes.getLast? with
  | some node => some ({ graph with freeNodes := graph.freeNodes.dropLast }, node)
  | none =>
    if graph.maxTasks ≤ graph.taskCount ∨ allocated = false then none
    else some ({ graph with taskCount := graph.taskCount + 1 }, graph.taskCount)

/-- Creates a task. Before the submission its counter starts at one, the sentinel that `submit`
removes; afterwards it starts at zero and the task is dispatched at once. -/
def createTaskImpl (graph : TaskGraph) (callableSize callableAlign : ℕ) (allocated : Bool) :
    TaskGraph × TaskHandle :=
  if kCallableBytes < callableSize ∨ 16 < callableAlign then (graph, none)
  else
    match graph.takeNode allocated with
    | none => (graph, none)
    | some (taken, node) =>
      let live := graph.submitted
      let filled := taken.setNode node
        { invoke := true, pending := if live then 0 else 1, successors := [] }
      let counted := { filled with outstanding := addMod word32 filled.outstanding 1 }
      (if live then counted.dispatch node else counted, some node)

/-- Records that the second task waits for the first. A null handle, a dependency of a task on
itself and a seventeenth successor are refused. -/
def addDependency (graph : TaskGraph) (prerequisite dependent : TaskHandle) : TaskGraph × Bool :=
  match prerequisite, dependent with
  | some pred, some dep =>
    if pred = dep ∨ kMaxSuccessors ≤ (graph.nodes pred).successors.length then (graph, false)
    else
      let linked := graph.setNode pred
        { graph.nodes pred with successors := (graph.nodes pred).successors ++ [dep] }
      (linked.setNode dep
        { linked.nodes dep with pending := addMod word32 (linked.nodes dep).pending 1 }, true)
  | _, _ => (graph, false)

end TaskGraph

/-! ### The calls before the submission -/

/-- A call that builds the graph. -/
inductive SetupCall
  | createTask (callableSize callableAlign : ℕ) (allocated : Bool)
  | addDependency (prerequisite dependent : TaskHandle)

/-- A graph under construction, with the dependencies that `addDependency` accepted, oldest first:
the prerequisite, then the task that waits for it. -/
structure Setup where
  graph : TaskGraph
  edges : List (ℕ × ℕ)

namespace Setup

/-- A new graph. -/
def new (maxTasks : ℕ) : Setup := ⟨.new maxTasks, []⟩

/-- A handle that some earlier call may have returned. -/
def isHandle (setup : Setup) (handle : TaskHandle) : Bool :=
  handle.all fun node ↦ decide (node < setup.graph.taskCount)

/-- The dependencies after a call of `addDependency` with its result. -/
def recordEdge (edges : List (ℕ × ℕ)) : TaskHandle → TaskHandle → Bool → List (ℕ × ℕ)
  | some pred, some dep, true => edges ++ [(pred, dep)]
  | _, _, _ => edges

/-- One call. -/
def step (setup : Setup) : SetupCall → Option Setup
  | .createTask callableSize callableAlign allocated =>
    some { setup with
      graph := (setup.graph.createTaskImpl callableSize callableAlign allocated).1 }
  | .addDependency prerequisite dependent =>
    if setup.isHandle prerequisite && setup.isHandle dependent then
      let result := setup.graph.addDependency prerequisite dependent
      some ⟨result.1, recordEdge setup.edges prerequisite dependent result.2⟩
    else none

/-- Building a graph, as a transition system. -/
def system : TransitionSystem Setup SetupCall where
  step := step

/-- A graph that some calls have built from a new one. -/
def Reachable (maxTasks : ℕ) (setup : Setup) : Prop :=
  system.Reaches TransitionSystem.unguarded (new maxTasks) setup

/-- How many accepted dependencies a task has on other tasks. -/
def indegree (setup : Setup) (task : ℕ) : ℕ := setup.edges.countP fun edge ↦ edge.2 = task

/-- The tasks that wait for a task, as often as they were added. -/
def successors (setup : Setup) (task : ℕ) : List ℕ := successorsOf setup.edges task

/-- What the calls leave in the graph. -/
structure Counts (setup : Setup) : Prop where
  freeNodes : setup.graph.freeNodes = []
  submitted : setup.graph.submitted = false
  dispatched : setup.graph.dispatched = []
  edges_lt : ∀ edge ∈ setup.edges,
    edge.1 < setup.graph.taskCount ∧ edge.2 < setup.graph.taskCount
  node_eq : ∀ task < setup.graph.taskCount, setup.graph.nodes task =
    ⟨true, (1 + setup.indegree task) % word32, setup.successors task⟩
  outstanding : setup.graph.outstanding = setup.graph.taskCount % word32

theorem counts_new (maxTasks : ℕ) : (new maxTasks).Counts where
  freeNodes := rfl
  submitted := rfl
  dispatched := rfl
  edges_lt := fun _ hedge ↦ absurd hedge List.not_mem_nil
  node_eq := fun task htask ↦ absurd htask (Nat.not_lt_zero task)
  outstanding := rfl

/-- Creating a task keeps the counts: nothing depends on the new task yet. -/
theorem Counts.createTask {setup : Setup} (hcounts : setup.Counts)
    (callableSize callableAlign : ℕ) (allocated : Bool) :
    Counts { setup with
      graph := (setup.graph.createTaskImpl callableSize callableAlign allocated).1 } := by
  unfold TaskGraph.createTaskImpl
  split_ifs with hfits
  · exact hcounts
  · cases htake : setup.graph.takeNode allocated with
    | none => exact hcounts
    | some result =>
      obtain ⟨taken, node⟩ := result
      simp only [TaskGraph.takeNode, hcounts.freeNodes, List.getLast?_nil,
        Option.ite_none_left_eq_some, Option.some.injEq, Prod.mk.injEq] at htake
      obtain ⟨-, rfl, rfl⟩ := htake
      have hfresh : ∀ edge ∈ setup.edges,
          edge.1 ≠ setup.graph.taskCount ∧ edge.2 ≠ setup.graph.taskCount :=
        fun edge hedge ↦ ⟨(hcounts.edges_lt edge hedge).1.ne, (hcounts.edges_lt edge hedge).2.ne⟩
      refine ⟨?_, ?_, ?_, ?_, ?_, ?_⟩
      · simp [hcounts.submitted, TaskGraph.setNode]
      · simp [hcounts.submitted, TaskGraph.setNode]
      · simp [hcounts.submitted, TaskGraph.setNode, hcounts.dispatched]
      · intro edge hedge
        obtain ⟨hfirst, hsecond⟩ := hcounts.edges_lt edge hedge
        simp only [hcounts.submitted, Bool.false_eq_true, if_false, TaskGraph.setNode]
        exact ⟨Nat.lt_succ_of_lt hfirst, Nat.lt_succ_of_lt hsecond⟩
      · intro task htask
        simp only [hcounts.submitted, Bool.false_eq_true, if_false, TaskGraph.setNode] at htask ⊢
        by_cases hnew : task = setup.graph.taskCount
        · have hindegree : setup.edges.countP (fun edge ↦ edge.2 = task) = 0 := by
            rw [List.countP_eq_zero]
            intro edge hedge
            simpa [hnew] using (hfresh edge hedge).2
          have hsuccessors : successorsOf setup.edges task = [] := by
            rw [List.eq_nil_iff_forall_not_mem]
            intro target hmem
            exact (hfresh _ (mem_successorsOf.mp hmem)).1 hnew
          rw [hnew, Function.update_self, ← hnew]
          simp only [indegree, successors, hindegree, hsuccessors]
          rfl
        · rw [Function.update_of_ne hnew]
          exact hcounts.node_eq task (by omega)
      · simp only [hcounts.submitted, Bool.false_eq_true, if_false, TaskGraph.setNode,
          hcounts.outstanding]
        exact addMod_mod word32 _ 1

/-- An accepted dependency adds one to the counter of the task that waits, and that task to the
successors of the other. -/
theorem Counts.addDependency {setup : Setup} (hcounts : setup.Counts)
    {prerequisite dependent : TaskHandle} (hprerequisite : setup.isHandle prerequisite)
    (hdependent : setup.isHandle dependent) :
    Counts ⟨(setup.graph.addDependency prerequisite dependent).1,
      recordEdge setup.edges prerequisite dependent
        (setup.graph.addDependency prerequisite dependent).2⟩ := by
  match prerequisite, dependent with
  | none, _ => exact hcounts
  | some _, none => exact hcounts
  | some pred, some dep =>
    have hpred : pred < setup.graph.taskCount := by simpa [isHandle] using hprerequisite
    have hdep : dep < setup.graph.taskCount := by simpa [isHandle] using hdependent
    simp only [TaskGraph.addDependency]
    split_ifs with hrefused
    · exact hcounts
    · have hne : pred ≠ dep := fun heq ↦ hrefused (.inl heq)
      refine ⟨hcounts.freeNodes, hcounts.submitted, hcounts.dispatched, ?_, ?_,
        hcounts.outstanding⟩
      · intro edge hedge
        rcases List.mem_append.mp hedge with hold | hnew
        · exact hcounts.edges_lt edge hold
        · rw [List.mem_singleton.mp hnew]
          exact ⟨hpred, hdep⟩
      · intro task htask
        have hnode := hcounts.node_eq task htask
        simp only [TaskGraph.setNode, recordEdge, indegree, successors, List.countP_append,
          successorsOf_append] at hnode ⊢
        by_cases htdep : task = dep
        · subst htdep
          rw [Function.update_self, Function.update_of_ne hne.symm, hnode, if_neg hne.symm]
          simp only [addMod_mod, List.countP_singleton, decide_true, if_true]
          rw [Nat.add_assoc]
        · rw [Function.update_of_ne htdep]
          by_cases htpred : task = pred
          · subst htpred
            rw [Function.update_self, hnode]
            simp [Ne.symm hne]
          · rw [Function.update_of_ne htpred, hnode]
            simp [htpred, Ne.symm htdep]

/-- The counters and successors of every graph that calls of `createTaskImpl` and `addDependency`
have built. -/
theorem reachable_counts {maxTasks : ℕ} {setup : Setup} (hreach : Reachable maxTasks setup) :
    setup.Counts := by
  refine hreach.invariant (counts_new maxTasks) ?_
  intro setup call next hcounts _ hstep
  cases call with
  | createTask callableSize callableAlign allocated =>
    simp only [system, step, Option.some.injEq] at hstep
    exact hstep ▸ hcounts.createTask callableSize callableAlign allocated
  | addDependency prerequisite dependent =>
    simp only [system, step, Bool.and_eq_true, Option.ite_none_right_eq_some,
      Option.some.injEq] at hstep
    obtain ⟨⟨hprerequisite, hdependent⟩, rfl⟩ := hstep
    exact hcounts.addDependency hprerequisite hdependent

end Setup

end GameEngine.Core
