import GameEngine.Core.TaskExecution

/-!
# What a submitted task graph guarantees

`tasksCorrect` says that in every state a submitted graph reaches, every body has run at most once
and only after the bodies of its prerequisites have returned, and that with nothing left to do all
bodies have returned and nothing is outstanding. It assumes that the accepted dependencies have no
cycle and that no task has `2 ^ 32` of them or more on other tasks.

The bound is the range of the counter of pending prerequisites: `addDependency` checks the room for
successors of the prerequisite but not the counter of the dependent task. `tasksCorrect_fails` gives
a graph with a task of exactly `2 ^ 32` dependencies, whose counter is one before the submission, so
that `submit` dispatches it at once.
-/

set_option autoImplicit false
set_option relaxedAutoImplicit false

namespace GameEngine.Core

open GameEngine.Library
open MachineWord DependencyCount

namespace Setup

variable {setup : Setup} {Exec : Type}

/-- The accepted dependencies have no cycle. -/
def IsAcyclic (setup : Setup) : Prop :=
  Acyclic fun prerequisite dependent ↦ (prerequisite, dependent) ∈ setup.edges

/-- What is expected of a state: no body has run twice, every body that has started did so after
the bodies of its prerequisites had returned, and nothing is missing when nothing is left to do. -/
structure TasksCorrect (setup : Setup) (s : Execution Exec) : Prop where
  once : s.started.Nodup
  ordered : ∀ edge ∈ setup.edges, edge.2 ∈ s.started → edge.1 ∈ s.finished
  complete : s.Quiescent →
    (∀ task < setup.graph.taskCount, task ∈ s.finished) ∧ s.graph.outstanding = 0

/-! ### What the invariant gives -/

variable {stage : ℕ → Stage} {s : Execution Exec}

/-- A task that waits for nothing any more has prerequisites whose bodies have all returned. -/
theorem Tracks.finished_of_due_eq_zero (hcounts : setup.Counts) (htracks : setup.Tracks stage s)
    {edge : ℕ × ℕ} (hedge : edge ∈ setup.edges)
    (hdue : setup.due s.submitAt stage edge.2 = 0) : edge.1 ∈ s.finished := by
  have hlt := (hcounts.edges_lt edge hedge).1
  have hpassed := (due_eq_zero_iff.mp hdue).2 edge.1 hlt
  have hmem : edge.2 ∈ setup.successors edge.1 := mem_successorsOf.mpr hedge
  rw [htracks.logs.mem_finished]
  refine ⟨hlt, ?_⟩
  cases hstage : stage edge.1 with
  | waiting => exact absurd hmem (by simpa [hstage, Stage.released] using hpassed)
  | retired => rfl
  | held phase =>
    cases phase with
    | releasing next => rfl
    | retiring => rfl
    | _ => exact absurd hmem (by simpa [hstage, Stage.released] using hpassed)

/-- With nothing left to do, a task whose prerequisites are all retired is retired. -/
theorem Tracks.retired_of_quiescent (htracks : setup.Tracks stage s) (hquiescent : s.Quiescent)
    {task : ℕ} (htask : task < setup.graph.taskCount)
    (hprerequisites : ∀ source, (source, task) ∈ setup.edges → stage source = .retired) :
    stage task = .retired := by
  have hdue : setup.due s.submitAt stage task = 0 := by
    refine due_eq_zero_iff.mpr ⟨?_, fun source _ hmem ↦ ?_⟩
    · rw [hquiescent.submitAt_eq, htracks.taskCount_eq]
      exact htask
    · have hedge := mem_successorsOf.mp (List.mem_of_mem_drop hmem)
      simp [hprerequisites source hedge, Stage.released] at hmem
  rcases (htracks.counted.ready_iff task htask).mp hdue with hmem | htaken
  · simp [hquiescent.dispatched] at hmem
  · cases hstage : stage task with
    | waiting => exact absurd hstage htaken
    | retired => rfl
    | held phase =>
      obtain ⟨exec, hexec⟩ :=
        (htracks.calls.heldOnce.owed_iff task).mp ⟨htask, phase, hstage⟩
      simp [hquiescent.idle exec] at hexec

/-- The invariant gives what is expected. -/
theorem Tracks.correct (hcounts : setup.Counts) (hacyclic : setup.IsAcyclic)
    (htracks : setup.Tracks stage s) : setup.TasksCorrect s := by
  refine ⟨htracks.logs.nodup, fun edge hedge hstarted ↦ ?_, fun hquiescent ↦ ?_⟩
  · obtain ⟨hlt, hstage⟩ := (htracks.logs.mem_started edge.2).mp hstarted
    have htaken : stage edge.2 ≠ .waiting := fun hwaiting ↦ by
      simp [hwaiting, Stage.hasStarted] at hstage
    exact htracks.finished_of_due_eq_zero hcounts hedge
      (htracks.counted.due_eq_zero_of_taken hlt htaken)
  · have hretired : ∀ task, task < setup.graph.taskCount → stage task = .retired := by
      refine hacyclic.induction (fun source target hedge ↦ (hcounts.edges_lt _ hedge).1) ?_
      intro task ih htask
      exact htracks.retired_of_quiescent hquiescent htask
        fun source hedge ↦ ih source hedge (hcounts.edges_lt _ hedge).1
    refine ⟨fun task htask ↦ ?_, ?_⟩
    · rw [htracks.logs.mem_finished, hretired task htask]
      exact ⟨htask, rfl⟩
    · have hempty : unretired setup.graph.taskCount stage = ∅ := by
        refine Finset.filter_eq_empty_iff.mpr fun task htask ↦ ?_
        rw [hretired task (Finset.mem_range.mp htask)]
        decide
      rw [htracks.outstanding_eq, hempty]
      rfl

/-! ### A task with too many prerequisites -/

/-- Each of the tasks after the first is a prerequisite of the first, as often as it may be. -/
def fanInEdges (sources : ℕ) : List (ℕ × ℕ) :=
  (List.range sources).flatMap fun source ↦ List.replicate kMaxSuccessors (source + 1, 0)

theorem fanInEdges_succ (sources : ℕ) :
    fanInEdges (sources + 1) =
      fanInEdges sources ++ List.replicate kMaxSuccessors (sources + 1, 0) := by
  simp [fanInEdges, List.range_succ]

theorem mem_fanInEdges {sources : ℕ} {edge : ℕ × ℕ} (hedge : edge ∈ fanInEdges sources) :
    ∃ source < sources, edge = (source + 1, 0) := by
  simp only [fanInEdges, List.mem_flatMap, List.mem_range, List.mem_replicate] at hedge
  obtain ⟨source, hlt, -, rfl⟩ := hedge
  exact ⟨source, hlt, rfl⟩

theorem countP_fanInEdges (sources : ℕ) :
    ((fanInEdges sources).countP fun edge ↦ edge.2 = 0) = kMaxSuccessors * sources := by
  induction sources with
  | zero => rfl
  | succ sources ih =>
    rw [fanInEdges_succ, List.countP_append, ih, List.countP_replicate, Nat.mul_succ]
    simp

/-- Tasks can be created up to the limit. -/
theorem reachable_tasks (maxTasks : ℕ) : ∀ count ≤ maxTasks, ∃ setup : Setup,
    Reachable maxTasks setup ∧ setup.graph.taskCount = count ∧
      setup.graph.maxTasks = maxTasks ∧ setup.edges = [] := by
  intro count
  induction count with
  | zero => exact fun _ ↦ ⟨new maxTasks, .refl, rfl, rfl, rfl⟩
  | succ count ih =>
    intro hle
    obtain ⟨setup, hreach, hcount, hmax, hedges⟩ := ih (Nat.le_of_succ_le hle)
    have hcounts := reachable_counts hreach
    have hroom : ¬ setup.graph.maxTasks ≤ setup.graph.taskCount := by omega
    have htake : setup.graph.takeNode true =
        some ({ setup.graph with taskCount := setup.graph.taskCount + 1 },
          setup.graph.taskCount) := by
      simp [TaskGraph.takeNode, hcounts.freeNodes, hroom]
    have hstep : system.step setup (.createTask 0 1 true) =
        some { setup with graph := (setup.graph.createTaskImpl 0 1 true).1 } := rfl
    refine ⟨_, hreach.tail trivial hstep, ?_⟩
    simp [TaskGraph.createTaskImpl, htake, hcounts.submitted, TaskGraph.setNode, hcount, hmax,
      hedges, kCallableBytes]

/-- A dependency between different tasks is accepted while the prerequisite has room for it. -/
theorem reachable_addDependency {maxTasks pred dep : ℕ} (hreach : Reachable maxTasks setup)
    (hpred : pred < setup.graph.taskCount) (hdep : dep < setup.graph.taskCount) (hne : pred ≠ dep)
    (hroom : (setup.successors pred).length < kMaxSuccessors) : ∃ next : Setup,
      Reachable maxTasks next ∧ next.graph.taskCount = setup.graph.taskCount ∧
        next.edges = setup.edges ++ [(pred, dep)] := by
  have hnode := (reachable_counts hreach).node_eq pred hpred
  have hstep : system.step setup (.addDependency (some pred) (some dep)) =
      some ⟨(setup.graph.addDependency (some pred) (some dep)).1,
        setup.edges ++ [(pred, dep)]⟩ := by
    simp [system, step, isHandle, hpred, hdep, TaskGraph.addDependency, hnode, hne,
      Nat.not_le.mpr hroom, recordEdge]
  refine ⟨_, hreach.tail trivial hstep, ?_, rfl⟩
  simp [TaskGraph.addDependency, hnode, hne, Nat.not_le.mpr hroom, TaskGraph.setNode]

/-- A task without successors can be made a prerequisite of another as often as it has room. -/
theorem reachable_repeat {maxTasks pred dep : ℕ} (hreach : Reachable maxTasks setup)
    (hpred : pred < setup.graph.taskCount) (hdep : dep < setup.graph.taskCount) (hne : pred ≠ dep)
    (hnone : setup.successors pred = []) : ∀ count ≤ kMaxSuccessors, ∃ next : Setup,
      Reachable maxTasks next ∧ next.graph.taskCount = setup.graph.taskCount ∧
        next.edges = setup.edges ++ List.replicate count (pred, dep) := by
  intro count
  induction count with
  | zero => exact fun _ ↦ ⟨setup, hreach, rfl, by simp⟩
  | succ count ih =>
    intro hle
    obtain ⟨next, hnext, hcount, hedges⟩ := ih (Nat.le_of_succ_le hle)
    have hsuccessors : next.successors pred = List.replicate count dep := by
      unfold successors at hnone ⊢
      rw [hedges, successorsOf_append_list, hnone]
      simp [successorsOf]
    obtain ⟨last, hlast, hcount', hedges'⟩ := reachable_addDependency hnext (hcount ▸ hpred)
      (hcount ▸ hdep) hne (by rw [hsuccessors, List.length_replicate]; omega)
    refine ⟨last, hlast, hcount'.trans hcount, ?_⟩
    rw [hedges', hedges, List.append_assoc, List.replicate_succ']

/-- The calls accept all the dependencies of the graph in which one task has all the others as
prerequisites, sixteen times each. -/
theorem reachable_fanIn (maxSources : ℕ) : ∀ sources ≤ maxSources, ∃ setup : Setup,
    Reachable (maxSources + 1) setup ∧ setup.graph.taskCount = maxSources + 1 ∧
      setup.edges = fanInEdges sources := by
  intro sources
  induction sources with
  | zero =>
    intro _
    obtain ⟨setup, hreach, hcount, -, hedges⟩ := reachable_tasks (maxSources + 1) _ le_rfl
    exact ⟨setup, hreach, hcount, hedges⟩
  | succ sources ih =>
    intro hle
    obtain ⟨setup, hreach, hcount, hedges⟩ := ih (Nat.le_of_succ_le hle)
    have hnone : setup.successors (sources + 1) = [] := by
      rw [List.eq_nil_iff_forall_not_mem]
      intro target hmem
      rw [successors, mem_successorsOf, hedges] at hmem
      obtain ⟨source, hlt, heq⟩ := mem_fanInEdges hmem
      have hsource := congrArg Prod.fst heq
      dsimp only at hsource
      omega
    obtain ⟨next, hnext, hcount', hedges'⟩ := reachable_repeat hreach (by omega)
      (show 0 < setup.graph.taskCount by omega) (Nat.succ_ne_zero sources) hnone _ le_rfl
    refine ⟨next, hnext, hcount'.trans hcount, ?_⟩
    rw [hedges', hedges, fanInEdges_succ]

/-- A first task whose counter is one when the graph is submitted starts before any other. -/
theorem starts_first (hcounts : setup.Counts) (hpos : 0 < setup.graph.taskCount)
    (hpending : (1 + setup.indegree 0) % word32 = 1) : ∃ s : Execution Unit,
      Execution.system.Reaches TransitionSystem.unguarded (.submitted setup.graph) s ∧
        s.started = [0] ∧ s.finished = [] := by
  have hnode := hcounts.node_eq 0 hpos
  rw [hpending] at hnode
  have htest : (Execution.system.execute (Execution.submitted setup.graph)
      [.submitNext, .take () 0, .advance (), .advance ()]).any
        (fun s ↦ s.started = [0] ∧ s.finished = []) = true := by
    simp [TransitionSystem.execute, Execution.system, Execution.step, Execution.submitted, hpos,
      TaskGraph.countDown, hnode, TaskGraph.setNode, TaskGraph.dispatch, hcounts.dispatched,
      CallTable.idle, Execution.advance]
  obtain ⟨s, hreach, hs⟩ :=
    TransitionSystem.Reaches.exists_of_schedule _ _ _ _ htest
  exact ⟨s, hreach, of_decide_eq_true hs⟩

end Setup

open Setup

/-- `2 ^ 28` tasks are each added sixteen times as a prerequisite of the task 0. All calls return
true and there is no cycle, but the counter of the task 0 is back at one, so the first iteration of
the submit loop dispatches it and its body starts while no body has returned. -/
theorem tasksCorrect_fails : ∃ setup : Setup, Setup.Reachable (2 ^ 28 + 1) setup ∧
    setup.graph.taskCount = 2 ^ 28 + 1 ∧ setup.edges = fanInEdges (2 ^ 28) ∧ setup.IsAcyclic ∧
    ∃ s : Execution Unit,
      Execution.system.Reaches TransitionSystem.unguarded (.submitted setup.graph) s ∧
      s.started = [0] ∧ s.finished = [] ∧ ¬ setup.TasksCorrect s := by
  obtain ⟨setup, hreach, hcount, hedges⟩ := reachable_fanIn (2 ^ 28) (2 ^ 28) le_rfl
  have hacyclic : setup.IsAcyclic := by
    refine Acyclic.of_rank (fun task ↦ if task = 0 then 1 else 0) fun source target hedge ↦ ?_
    rw [hedges] at hedge
    obtain ⟨other, -, heq⟩ := mem_fanInEdges hedge
    obtain ⟨rfl, rfl⟩ := Prod.mk.inj heq
    simp
  have hindegree : setup.indegree 0 = word32 := by
    rw [indegree, hedges, countP_fanInEdges]
    norm_num [kMaxSuccessors, word32]
  obtain ⟨s, hrun, hstarted, hfinished⟩ := starts_first (reachable_counts hreach)
    (by rw [hcount]; exact Nat.succ_pos _) (by rw [hindegree, Nat.add_mod_right]; rfl)
  refine ⟨setup, hreach, hcount, hedges, hacyclic, s, hrun, hstarted, hfinished, fun hcorrect ↦ ?_⟩
  have hedge : (1, 0) ∈ setup.edges := by
    rw [hedges, fanInEdges, List.mem_flatMap]
    exact ⟨0, List.mem_range.mpr (by norm_num), by simp [kMaxSuccessors]⟩
  have hbefore := hcorrect.ordered _ hedge (by rw [hstarted]; exact List.mem_singleton_self 0)
  rw [hfinished] at hbefore
  exact List.not_mem_nil hbefore

/-! ### The guarantee -/

/-- In every state that a submitted graph reaches, in any interleaving of the submit loop with any
number of `execute` calls, no body has run twice, every body that has started did so after the
bodies of its prerequisites had returned, and with nothing left to do every body has returned and
nothing is outstanding. Assumes: the accepted dependencies have no cycle, and no task has `2 ^ 32`
of them or more on other tasks. -/
theorem tasksCorrect {Exec : Type} [DecidableEq Exec] {maxTasks : ℕ} {setup : Setup}
    (hsetup : Setup.Reachable maxTasks setup) (hacyclic : setup.IsAcyclic)
    (hindegree : ∀ task < setup.graph.taskCount, setup.indegree task < word32)
    {s : Execution Exec}
    (hreach : Execution.system.Reaches TransitionSystem.unguarded (.submitted setup.graph) s) :
    setup.TasksCorrect s := by
  obtain ⟨stage, htracks⟩ := reachable_tracks (reachable_counts hsetup) hindegree hreach
  exact htracks.correct (reachable_counts hsetup) hacyclic

/-- The theorem at three tasks in a chain with one dependency added twice, run to the end by two
threads that overlap the submit loop. -/
theorem tasksCorrect_chain : ∃ (setup : Setup) (s : Execution (Fin 2)),
    setup.edges = [(0, 1), (0, 1), (1, 2)] ∧ s.Quiescent ∧ setup.TasksCorrect s := by
  obtain ⟨setup, hsetup, htest⟩ := TransitionSystem.Reaches.exists_of_schedule Setup.system
    (.new 3) [.createTask 8 8 true, .createTask 8 8 true, .createTask 8 8 true,
      .addDependency (some 0) (some 1), .addDependency (some 0) (some 1),
      .addDependency (some 1) (some 2)]
    (fun setup ↦ setup.edges = [(0, 1), (0, 1), (1, 2)] ∧
      (Execution.system.execute (Execution.submitted setup.graph : Execution (Fin 2))
        ([.submitNext, .take 0 0] ++ List.replicate 4 (.advance 0) ++
          [.submitNext, .advance 0, .take 1 1, .advance 0] ++ List.replicate 3 (.advance 1) ++
          [.submitNext, .advance 1, .advance 0, .take 0 2] ++ List.replicate 5 (.advance 0) ++
          List.replicate 2 (.advance 1))).any
        fun s ↦ s.submitAt = s.graph.taskCount ∧ (∀ exec, (s.calls exec).isNone) ∧
          s.graph.dispatched = []) (by decide)
  obtain ⟨hedges, hrun⟩ := of_decide_eq_true htest
  obtain ⟨s, hreach, hs⟩ := TransitionSystem.Reaches.exists_of_schedule _ _ _ _ hrun
  obtain ⟨hsubmitAt, hidle, hdispatched⟩ := of_decide_eq_true hs
  have hacyclic : setup.IsAcyclic := by
    refine Acyclic.of_rank (fun task ↦ task) fun source target hedge ↦ ?_
    rw [hedges] at hedge
    simp only [List.mem_cons, Prod.mk.injEq, List.not_mem_nil, or_false] at hedge
    omega
  have hindegree : ∀ task < setup.graph.taskCount, setup.indegree task < word32 := by
    intro task _
    refine (List.countP_le_length).trans_lt ?_
    rw [hedges]
    decide
  exact ⟨setup, s, hedges,
    ⟨hsubmitAt, fun exec ↦ Option.isNone_iff_eq_none.mp (hidle exec), hdispatched⟩,
    tasksCorrect hsetup hacyclic hindegree hreach⟩

end GameEngine.Core
