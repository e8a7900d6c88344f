import GameEngine.Core.GraphExecution
import Mathlib.Data.Set.Card

/-!
# Who owns a node, and what becomes of a callable

One client uses a task graph: it creates tasks, adds dependencies before `submit`, submits, waits,
resets, and in the end destroys the graph. `accounted` shows that in every state of every run the
nodes are accounted for (`Accounted`): a node that the pool has handed out is on the free list once
or belongs to exactly one live task, `outstanding_` counts the live tasks, `create_task` refuses a
callable that fits only when `max_tasks` tasks are live, and every callable is destroyed once and
not run afterwards.

The counters and the block indices of the pool are 32-bit words, and the nodes are accounted for as
long as they suffice (`WithinCounters`): a graph for `2 ^ 32` tasks refuses a task when one fewer is
live.
-/

set_option autoImplicit false
set_option relaxedAutoImplicit false

namespace GameEngine.Core

open GameEngine.Library
open MachineWord DependencyCount

variable {Client Exec : Type} {mode : ℕ → Mode Client Exec} {swept : ℕ}
  {s : LiveGraph Client Exec} {node task : ℕ}

/-! ### Live tasks -/

namespace LiveGraph

/-- A task is live in a node: the node has its callable, or a `create_task` or `execute` call is at
work on the task in that node. -/
def Holds (s : LiveGraph Client Exec) (node task : ℕ) : Prop :=
  (s.nodes node).callable = some task ∨
    (∃ client stage, s.clients client = some (.creating task node stage)) ∨
    ∃ exec phase, s.execs exec = some (.executing node task phase)

/-- The live tasks. -/
def liveTasks (s : LiveGraph Client Exec) : Set ℕ := {task | ∃ node, s.Holds node task}

theorem liveCount_eq (s : LiveGraph Client Exec) :
    s.liveCount = ((Finset.range (poolBlocks s.maxTasks)).filter fun node ↦
      node ∉ s.freeBlocks ∧ node ∉ s.freeNodes).card := rfl

/-- While the pool has a block, fewer tasks are live than it has blocks in all. -/
theorem liveCount_lt (s : LiveGraph Client Exec) (hmem : node ∈ s.freeBlocks)
    (hlt : node < poolBlocks s.maxTasks) : s.liveCount < poolBlocks s.maxTasks := by
  rw [s.liveCount_eq]
  calc ((Finset.range (poolBlocks s.maxTasks)).filter fun node ↦
      node ∉ s.freeBlocks ∧ node ∉ s.freeNodes).card
      < (Finset.range (poolBlocks s.maxTasks)).card := Finset.card_lt_card
        (Finset.filter_ssubset.mpr ⟨node, Finset.mem_range.mpr hlt, fun hnot ↦ hnot.1 hmem⟩)
    _ = poolBlocks s.maxTasks := Finset.card_range _

end LiveGraph

section Tracked

variable [Fintype Exec]

/-- A task is live in the node it belongs to. -/
theorem Placed.holds_iff (hplaced : Placed mode s) :
    s.Holds node task ↔ (mode node).task = some task := by
  have hfits := hplaced.fits node
  constructor
  · rintro (hcallable | ⟨client, stage, hcall⟩ | ⟨exec, phase, hexec⟩)
    · exact Mode.task_of_callable (hfits.callable_eq.symm.trans hcallable)
    · rw [(hplaced.client client task stage node).mpr hcall]
      rfl
    · rw [(hplaced.exec.matches_executing exec task phase node).mpr hexec]
      rfl
  · intro htask
    rw [LiveGraph.Holds, hfits.callable_eq]
    cases hmode : mode node with
    | pooled =>
      rw [hmode] at htask
      contradiction
    | free =>
      rw [hmode] at htask
      contradiction
    | creating client other stage =>
      rw [hmode] at htask
      obtain rfl := Option.some.inj htask
      exact .inr (.inl ⟨client, stage, (hplaced.client client other stage node).mp hmode⟩)
    | executing exec other phase =>
      rw [hmode] at htask
      obtain rfl := Option.some.inj htask
      exact .inr (.inr ⟨exec, phase,
        (hplaced.exec.matches_executing exec other phase node).mp hmode⟩)
    | _ =>
      rw [hmode] at htask
      exact .inl htask

/-- The nodes of the live tasks. -/
theorem Placed.used_iff (hplaced : Placed mode s) (hlt : node < LiveGraph.poolBlocks s.maxTasks) :
    (mode node).task.isSome ↔ node ∉ s.freeBlocks ∧ node ∉ s.freeNodes := by
  have hpool : mode node = .pooled ↔ node ∈ s.freeBlocks :=
    (hplaced.pool.matches_pool node).trans (or_iff_left (Nat.not_le_of_lt hlt))
  have hfree : mode node = .free ↔ node ∈ s.freeNodes := hplaced.free.matches_list node
  rw [← hpool, ← hfree]
  cases mode node <;> simp [Mode.task]

/-- There are as many live tasks as nodes that are neither in the pool nor on the free list. -/
theorem Placed.liveCount_eq (hplaced : Placed mode s) : s.liveCount = s.liveTasks.ncard := by
  have hlive : s.liveTasks = (fun node ↦ ((mode node).task).getD 0) ''
      ((Finset.range (LiveGraph.poolBlocks s.maxTasks)).filter fun node ↦
        node ∉ s.freeBlocks ∧ node ∉ s.freeNodes : Finset ℕ) := by
    ext task
    simp only [LiveGraph.liveTasks, Set.mem_ofPred_eq, hplaced.holds_iff, Set.mem_image,
      Finset.coe_filter, Finset.mem_range]
    constructor
    · rintro ⟨node, htask⟩
      have hlt : node < LiveGraph.poolBlocks s.maxTasks :=
        hplaced.pool.lt_of_ne fun hmode ↦ by simp [hmode, Mode.task] at htask
      exact ⟨node, ⟨hlt, (hplaced.used_iff hlt).mp (by rw [htask]; rfl)⟩, by rw [htask]; rfl⟩
    · rintro ⟨node, ⟨hlt, hused⟩, rfl⟩
      obtain ⟨task, htask⟩ := Option.isSome_iff_exists.mp ((hplaced.used_iff hlt).mpr hused)
      exact ⟨node, by rw [htask]; rfl⟩
  rw [hlive, Set.InjOn.ncard_image, Set.ncard_coe_finset, s.liveCount_eq]
  intro first hfirst second hsecond hsame
  rw [Finset.mem_coe, Finset.mem_filter, Finset.mem_range] at hfirst hsecond
  obtain ⟨task, htask⟩ := Option.isSome_iff_exists.mp ((hplaced.used_iff hfirst.1).mpr hfirst.2)
  obtain ⟨task', htask'⟩ := Option.isSome_iff_exists.mp ((hplaced.used_iff hsecond.1).mpr hsecond.2)
  dsimp only at hsame
  rw [htask, htask', Option.getD_some, Option.getD_some] at hsame
  exact hplaced.named.distinct first second task htask (hsame ▸ htask')

/-- Between operations and executions `outstanding_` is the number of live tasks. -/
theorem Placed.outstanding_eq (hplaced : Placed mode s)
    (hclients : ∀ client, s.clients client = none) (hexecs : ∀ exec, s.execs exec = none) :
    s.outstanding = s.liveTasks.ncard := by
  have hfilter : ((Finset.range (LiveGraph.poolBlocks s.maxTasks)).filter fun node ↦
      (mode node).counted = true) = (Finset.range (LiveGraph.poolBlocks s.maxTasks)).filter
        fun node ↦ node ∉ s.freeBlocks ∧ node ∉ s.freeNodes := by
    refine Finset.filter_congr fun node hnode ↦ ?_
    rw [← hplaced.used_iff (Finset.mem_range.mp hnode)]
    cases hmode : mode node with
    | creating client task stage =>
      have hcall := (hplaced.client client task stage node).mp hmode
      rw [hclients client] at hcall
      contradiction
    | _ => simp [Mode.counted, Mode.task]
  have hcounted := hplaced.counted
  rw [OutstandingCounts, hfilter, ← s.liveCount_eq, hplaced.liveCount_eq] at hcounted
  rw [hcounted, ← hplaced.liveCount_eq, s.liveCount_eq]
  simp only [hexecs, reduceCtorEq, Finset.filter_false, Finset.card_empty, Nat.add_zero]
  refine Nat.mod_eq_of_lt ?_
  have hle := Finset.card_filter_le (Finset.range (LiveGraph.poolBlocks s.maxTasks)) fun node ↦
    node ∉ s.freeBlocks ∧ node ∉ s.freeNodes
  rw [Finset.card_range] at hle
  have hblocks : LiveGraph.poolBlocks s.maxTasks ≤ word32 - 1 := Nat.min_le_right ..
  have hword : word32 - 1 < word32 := by decide
  omega

/-- While no `create_task` call has a node, `task_count_` is the number of nodes that the pool has
handed out. -/
theorem Placed.taskCount_eq (hplaced : Placed mode s)
    (hnone : ∀ client task node stage, s.clients client ≠ some (.creating task node stage)) :
    s.taskCount = ((Finset.range (LiveGraph.poolBlocks s.maxTasks)).filter fun node ↦
      node ∉ s.freeBlocks).card := by
  have hused : ∀ node, (mode node).slotted = true ↔
      node < LiveGraph.poolBlocks s.maxTasks ∧ node ∉ s.freeBlocks := by
    intro node
    have hpool := hplaced.pool.matches_pool node
    dsimp only at hpool
    rw [← Nat.not_le, ← not_or, or_comm, ← hpool]
    cases hmode : mode node with
    | creating client task stage =>
      exact absurd ((hplaced.client client task stage node).mp hmode) (hnone client task node stage)
    | _ => simp [Mode.slotted]
  have hentry : ∀ index < s.taskCount, ∃ node, s.tasks index = some node := by
    intro index hindex
    refine (hplaced.slotted.full index hindex).resolve_right ?_
    rintro ⟨client, task, node, hcall⟩
    exact hnone client task node _ hcall
  rw [← Finset.card_range s.taskCount]
  refine Finset.card_bij (fun index _ ↦ (s.tasks index).getD 0) (fun index hindex ↦ ?_)
    (fun first hfirst second hsecond hsame ↦ ?_) fun node hnode ↦ ?_
  · obtain ⟨node, hnode⟩ := hentry index (Finset.mem_range.mp hindex)
    rw [hnode, Option.getD_some, Finset.mem_filter, Finset.mem_range, ← hused]
    exact (hplaced.slotted.slotted_iff node).mpr ⟨index, hnode⟩
  · obtain ⟨node, hnode⟩ := hentry first (Finset.mem_range.mp hfirst)
    obtain ⟨node', hnode'⟩ := hentry second (Finset.mem_range.mp hsecond)
    rw [hnode, hnode', Option.getD_some, Option.getD_some] at hsame
    exact hplaced.slotted.injective first second node hnode (hsame ▸ hnode')
  · rw [Finset.mem_filter, Finset.mem_range, ← hused, hplaced.slotted.slotted_iff] at hnode
    obtain ⟨index, hindex⟩ := hnode
    exact ⟨index, Finset.mem_range.mpr (hplaced.slotted.lt index node hindex), by
      rw [hindex, Option.getD_some]⟩

end Tracked

/-! ### One client -/

/-- What holds between any two steps of one client and the executors. -/
structure Accounted (s : LiveGraph Unit Exec) : Prop where
  distinct : ∀ first second node, s.tasks first = some node → s.tasks second = some node →
    first = second
  entries : ∀ index node, s.tasks index = some node → index < s.taskCount ∧
    node < LiveGraph.poolBlocks s.maxTasks ∧ node ∉ s.freeBlocks
  bounded : s.taskCount ≤ s.maxTasks
  owned : ∀ node < LiveGraph.poolBlocks s.maxTasks, node ∉ s.freeBlocks →
    (s.freeNodes.count node = 1 ∧ ∀ task, ¬ s.Holds node task) ∨
      (node ∉ s.freeNodes ∧ ∃! task, s.Holds node task)
  separate : ∀ first second task, s.Holds first task → s.Holds second task → first = second
  outstanding : s.clients () = none → (∀ exec, s.execs exec = none) →
    s.outstanding = s.liveTasks.ncard
  counted : s.liveCount = s.liveTasks.ncard
  refused : ∀ live, .refused live ∈ s.events → live = s.maxTasks
  constructed : ∀ task, s.events.count (.constructed task) ≤ 1
  destroyed : ∀ task, s.events.count (.destroyed task) ≤ s.events.count (.constructed task)
  closed : s.clients () = some .closed →
    ∀ task, s.events.count (.destroyed task) = s.events.count (.constructed task)
  ordered : s.events.Pairwise EventOrder

/-- Dependencies are added before `submit`, fewer than `2 ^ 32` on one task, and a graph that is
reset has fewer than `2 ^ 32` nodes and executors together. -/
def WithinCounters [Fintype Exec] (s : LiveGraph Unit Exec) : LiveAction Unit Exec → Prop
  | .addDependency _ _ dependent => s.submitted = false ∧
      s.edges.countP (fun edge ↦ edge.2 = dependent.task) + 1 < word32
  | .reset _ => LiveGraph.poolBlocks s.maxTasks + Fintype.card Exec < word32
  | _ => True

instance [Fintype Exec] (s : LiveGraph Unit Exec) : DecidablePred (WithinCounters s)
  | .addDependency _ _ _ => inferInstanceAs (Decidable (_ ∧ _))
  | .reset _ => inferInstanceAs (Decidable (_ < _))
  | .create _ _ _ | .submit _ | .wait _ | .destroy _ | .advance _ | .take _ _ | .run _ =>
    isTrue trivial

/-- The invariant of a single client: a `create_task` call without a node knows the number of live
tasks, and one that is about to enter its node into `tasks_` has found room there. -/
structure Sole (s : LiveGraph Unit Exec) : Prop where
  small : s.maxTasks < word32
  bounded : s.taskCount ≤ s.maxTasks
  refused : ∀ live, .refused live ∈ s.events → live = s.maxTasks
  pooling : ∀ task seen, s.clients () = some (.pooling task seen) → seen = s.taskCount
  allocating : ∀ task seen, s.clients () = some (.allocating task seen) → s.taskCount < s.maxTasks
  counting : ∀ task node, s.clients () = some (.creating task node .counting) →
    s.taskCount < s.maxTasks
  bumping : ∀ task node index, s.clients () = some (.creating task node (.bumping index)) →
    index < s.maxTasks

/-- A step of a single client within the counters is disciplined. -/
theorem WithinCounters.disciplined [Fintype Exec] [DecidableEq Exec] {s next : LiveGraph Unit Exec}
    {action : LiveAction Unit Exec} (hwithin : WithinCounters s action)
    (hnext : LiveGraph.step s action = some next) : Disciplined s action := by
  have hnormal : s.clients () = none → ∀ other call, s.clients other = some call →
      call.exclusive = false := by
    intro hidle other call hcall
    exact absurd (hidle.symm.trans hcall) (by simp)
  cases LiveGraph.stepped_of_step hnext with
  | create hidle => exact hnormal hidle
  | addDependency hidle => exact ⟨hnormal hidle, hwithin⟩
  | submit hidle => exact hnormal hidle
  | wait hidle => exact hnormal hidle
  | reset hidle => exact ⟨fun _ ↦ hidle, hwithin⟩
  | destroy hidle => exact fun _ ↦ hidle
  | @advance client call _ hcall =>
    rw [Disciplined, hcall]
    cases call with
    | creating task node stage =>
      cases stage with
      | counting =>
        intro other call hother
        rw [← Option.some.inj (hcall.symm.trans hother)]
        rfl
      | _ => trivial
    | lowering index node =>
      intro other task stage hother
      exact absurd (hcall.symm.trans hother) (by simp)
    | _ => trivial
  | take => trivial
  | run => trivial

section Sole

/-- A call of which the invariant says nothing. -/
def ClientCall.settled : ClientCall → Bool
  | .pooling _ _ | .allocating _ _ => false
  | .creating _ _ .counting | .creating _ _ (.bumping _) => false
  | _ => true

variable {s s' : LiveGraph Unit Exec} {mode : ℕ → Mode Unit Exec}

/-- A step after which the client is where it was, or where the invariant says nothing of it. -/
theorem Sole.keep (hsole : Sole s) (hmax : s'.maxTasks = s.maxTasks)
    (hcount : s'.taskCount = s.taskCount)
    (hrefused : ∀ live, .refused live ∈ s'.events → .refused live ∈ s.events)
    (hclients : s'.clients () = s.clients () ∨ (s'.clients ()).all ClientCall.settled) :
    Sole s' := by
  have hother : ∀ call, s'.clients () = some call → call.settled = false →
      (s'.clients ()).all ClientCall.settled = false := by
    intro call hcall hsettled
    rw [hcall]
    exact hsettled
  refine ⟨hmax ▸ hsole.small, by rw [hmax, hcount]; exact hsole.bounded,
    fun live hlive ↦ hmax ▸ hsole.refused live (hrefused live hlive), ?_, ?_, ?_, ?_⟩ <;>
    simp only [hcount, hmax] <;> rcases hclients with hsame | hsettled
  · rw [hsame]
    exact hsole.pooling
  · exact fun task seen hcall ↦ absurd hsettled (by simp [hother _ hcall rfl])
  · rw [hsame]
    exact hsole.allocating
  · exact fun task seen hcall ↦ absurd hsettled (by simp [hother _ hcall rfl])
  · rw [hsame]
    exact hsole.counting
  · exact fun task node hcall ↦ absurd hsettled (by simp [hother _ hcall rfl])
  · rw [hsame]
    exact hsole.bumping
  · exact fun task node index hcall ↦ absurd hsettled (by simp [hother _ hcall rfl])

variable [Fintype Exec] [DecidableEq Exec]

omit [DecidableEq Exec] in
/-- A `create_task` call starts. -/
theorem Sole.create (hsole : Sole s) (hplaced : Placed mode s) (hidle : s.clients () = none)
    (size alignment : ℕ) : Sole (s.create () size alignment) := by
  unfold LiveGraph.create
  split_ifs with hfits
  · exact hsole
  · cases hlast : s.freeNodes.getLast? with
    | some node => exact hsole.keep rfl rfl (fun _ h ↦ h) (.inr rfl)
    | none =>
      have hfree : s.freeNodes = [] := List.getLast?_eq_none_iff.mp hlast
      have hseen : s.liveCount = s.taskCount := by
        rw [s.liveCount_eq, hplaced.taskCount_eq (by simp [hidle]), hfree]
        simp
      have hcall : ∀ call, some (ClientCall.pooling s.nextTask s.liveCount) = some call →
          ∃ task, call = .pooling task s.taskCount := by
        rintro _ ⟨rfl⟩
        exact ⟨s.nextTask, by rw [hseen]⟩
      refine ⟨hsole.small, hsole.bounded, hsole.refused, fun task seen h ↦ ?_, fun task seen h ↦ ?_,
        fun task node h ↦ ?_, fun task node index h ↦ ?_⟩ <;> obtain ⟨other, hother⟩ := hcall _ h
      · exact (ClientCall.pooling.inj hother).2
      all_goals contradiction

omit [Fintype Exec] [DecidableEq Exec] in
/-- `reset_nodes` is done. -/
theorem Sole.empty (hsole : Sole s) (call : ClientCall) (hcall : call.settled) :
    Sole (s.resetNodes.setClient () (some call)) := by
  obtain ⟨nodes, freeBlocks, tasks, new, hreset, hnew⟩ :=
    LiveGraph.keepsRest_range { s with freeNodes := [] } s.taskCount
  rw [LiveGraph.resetNodes, hreset]
  have hempty : Sole { s with taskCount := 0, clients := CallTable.idle } :=
    ⟨hsole.small, Nat.zero_le _, hsole.refused, by simp [CallTable.idle], by simp [CallTable.idle],
      by simp [CallTable.idle], by simp [CallTable.idle]⟩
  refine hempty.keep rfl rfl (fun live hlive ↦ ?_) (.inr hcall)
  rcases List.mem_append.mp hlive with hbefore | hafter
  · exact hbefore
  · obtain ⟨task, htask⟩ := hnew _ hafter
    contradiction

omit [DecidableEq Exec] in
/-- A call that has found room in `tasks_` finds a block in the pool. -/
theorem Sole.freeBlocks_ne_nil (hsole : Sole s) (hplaced : Placed mode s) {task seen : ℕ}
    (hcall : s.clients () = some (.allocating task seen)) : s.freeBlocks ≠ [] := by
  intro hblocks
  have hroom := hsole.allocating task seen hcall
  have hcount := hplaced.taskCount_eq fun _ _ _ _ h ↦ absurd (hcall.symm.trans h) (by simp)
  have hsmall := hsole.small
  simp only [hblocks, List.not_mem_nil, not_false_eq_true, Finset.filter_true,
    Finset.card_range] at hcount
  rw [LiveGraph.poolBlocks] at hcount
  omega

omit [DecidableEq Exec] in
/-- The client's call takes its next step. -/
theorem Sole.advance (hsole : Sole s) (hplaced : Placed mode s) {call : ClientCall}
    (hcall : s.clients () = some call) (hnext : s.advance () call = some s') : Sole s' := by
  cases call with
  | pooling task seen =>
    rw [← Option.some.inj hnext]
    split_ifs with hfull
    · have hseen : seen = s.maxTasks :=
        (hsole.pooling task seen hcall).trans (hsole.bounded.antisymm hfull)
      refine ⟨hsole.small, hsole.bounded, fun live hlive ↦ ?_, nofun, nofun, nofun, nofun⟩
      rcases List.mem_append.mp hlive with hbefore | hafter
      · exact hsole.refused live hbefore
      · exact (TaskEvent.refused.inj (List.mem_singleton.mp hafter)).trans hseen
    · exact ⟨hsole.small, hsole.bounded, hsole.refused, nofun, fun _ _ _ ↦ Nat.lt_of_not_le hfull,
        nofun, nofun⟩
  | allocating task seen =>
    have hroom := hsole.allocating task seen hcall
    rw [← Option.some.inj hnext]
    cases hblocks : s.freeBlocks with
    | nil => exact absurd hblocks (hsole.freeBlocks_ne_nil hplaced hcall)
    | cons node rest =>
      exact ⟨hsole.small, hsole.bounded, hsole.refused, nofun, nofun, fun _ _ _ ↦ hroom, nofun⟩
  | creating task node stage =>
    rw [← Option.some.inj hnext]
    cases stage with
    | counting =>
      have hroom := hsole.counting task node hcall
      refine ⟨hsole.small, hsole.bounded, hsole.refused, nofun, nofun, nofun, fun _ _ index h ↦ ?_⟩
      have hindex : s.taskCount = index :=
        CreateStage.bumping.inj (ClientCall.creating.inj (Option.some.inj h)).2.2
      exact hindex ▸ hroom
    | bumping index =>
      exact ⟨hsole.small, hsole.bumping task node index hcall, hsole.refused, nofun, nofun, nofun,
        nofun⟩
    | constructing live =>
      exact hsole.keep rfl rfl (fun _ hevent ↦ (List.mem_append.mp hevent).resolve_right (by simp))
        (.inr rfl)
    | adding live =>
      cases live with
      | false => exact hsole.keep rfl rfl (fun _ h ↦ h) (.inr rfl)
      | true => exact hsole.keep rfl rfl (fun _ h ↦ h) (.inr rfl)
    | _ => exact hsole.keep rfl rfl (fun _ h ↦ h) (.inr rfl)
  | sweeping index =>
    rw [← Option.some.inj hnext]
    split_ifs
    · exact hsole.keep rfl rfl (fun _ h ↦ h) (.inr rfl)
    · exact hsole.keep rfl rfl (fun _ h ↦ h) (.inr rfl)
  | reading index =>
    rw [← Option.some.inj hnext]
    cases s.tasks index with
    | none => exact hsole.keep rfl rfl (fun _ h ↦ h) (.inr rfl)
    | some node => exact hsole.keep rfl rfl (fun _ h ↦ h) (.inr rfl)
  | lowering index node =>
    rw [← Option.some.inj hnext, s.countDown_eq]
    exact hsole.keep rfl rfl (fun _ h ↦ h) (.inr rfl)
  | resetting =>
    rw [← Option.some.inj hnext]
    exact hsole.empty .reopening rfl
  | reopening =>
    rw [← Option.some.inj hnext]
    exact hsole.keep rfl rfl (fun _ h ↦ h) (.inr rfl)
  | stopping =>
    rw [LiveGraph.advance] at hnext
    split_ifs at hnext
    rw [← Option.some.inj hnext]
    exact hsole.keep rfl rfl (fun _ h ↦ h) (.inr rfl)
  | joined =>
    rw [← Option.some.inj hnext]
    exact hsole.empty .closed rfl
  | closed => contradiction

/-- A step of the client or of an executor. -/
theorem Sole.step (hsole : Sole s) (hstate : Tracked s ∨ Closed s) {action : LiveAction Unit Exec}
    (hdisciplined : Disciplined s action) (hnext : LiveGraph.step s action = some s') :
    Sole s' := by
  rcases hstate with ⟨mode, swept, htracks⟩ | hclosed
  swap
  · exact absurd (hnext.symm.trans (hclosed.no_step hdisciplined)) (by simp)
  cases LiveGraph.stepped_of_step hnext with
  | @create client size alignment hidle =>
    exact hsole.create htracks.toPlaced hidle size alignment
  | addDependency =>
    unfold LiveGraph.addDependency
    dsimp only
    split_ifs
    · exact hsole
    · exact hsole.keep rfl rfl (fun _ h ↦ h) (.inl rfl)
  | submit =>
    split_ifs
    · exact hsole
    · exact hsole.keep rfl rfl (fun _ h ↦ h) (.inr rfl)
  | wait => exact hsole
  | reset => exact hsole.keep rfl rfl (fun _ h ↦ h) (.inr rfl)
  | destroy => exact hsole.keep rfl rfl (fun _ h ↦ h) (.inr rfl)
  | advance hcall hadvance => exact hsole.advance htracks.toPlaced hcall hadvance
  | take => exact hsole.keep rfl rfl (fun _ h ↦ h) (.inl rfl)
  | @run exec call hcall =>
    have hsame := s.sameClients_run exec call
    obtain ⟨new, hnew, htask⟩ := hsame.events
    refine hsole.keep hsame.maxTasks hsame.taskCount (fun live hlive ↦ ?_)
      (.inl (by rw [hsame.clients]))
    rw [hnew] at hlive
    rcases List.mem_append.mp hlive with hbefore | hafter
    · exact hbefore
    · exact absurd (htask _ hafter) (by simp [TaskEvent.task])

omit [Fintype Exec] [DecidableEq Exec] in
/-- A new graph. -/
theorem sole_new {maxTasks : ℕ} (hmax : maxTasks < word32) :
    Sole (.new maxTasks : LiveGraph Unit Exec) :=
  ⟨hmax, Nat.zero_le _, nofun, nofun, nofun, nofun, nofun⟩

end Sole

/-! ### Accounting -/

section Accounting

variable [Fintype Exec] {s : LiveGraph Unit Exec} {mode : ℕ → Mode Unit Exec}

theorem Placed.accounts (hplaced : Placed mode s) (hsole : Sole s) : Accounted s where
  distinct := hplaced.slotted.injective
  entries := by
    intro index node hnode
    have hslotted := (hplaced.slotted.slotted_iff node).mpr ⟨index, hnode⟩
    have hused : mode node ≠ .pooled := fun hmode ↦ by
      rw [hmode] at hslotted
      contradiction
    exact ⟨hplaced.slotted.lt index node hnode, hplaced.pool.lt_of_ne hused,
      fun hmem ↦ hused ((hplaced.pool.matches_pool node).mpr (.inl hmem))⟩
  bounded := hsole.bounded
  owned := by
    intro node hlt hblock
    by_cases hfree : node ∈ s.freeNodes
    · refine .inl ⟨List.count_eq_one_of_mem hplaced.free.nodup hfree, fun task hholds ↦ ?_⟩
      have hmode : mode node = .free := (hplaced.free.matches_list node).mpr hfree
      rw [hplaced.holds_iff, hmode] at hholds
      contradiction
    · obtain ⟨task, htask⟩ := Option.isSome_iff_exists.mp
        ((hplaced.used_iff hlt).mpr ⟨hblock, hfree⟩)
      refine .inr ⟨hfree, task, hplaced.holds_iff.mpr htask, fun other hother ↦ ?_⟩
      exact Option.some.inj ((hplaced.holds_iff.mp hother).symm.trans htask)
  separate := fun first second task hfirst hsecond ↦ hplaced.named.distinct first second task
    (hplaced.holds_iff.mp hfirst) (hplaced.holds_iff.mp hsecond)
  outstanding := fun hidle hexecs ↦ hplaced.outstanding_eq (fun _ ↦ hidle) hexecs
  counted := hplaced.liveCount_eq
  refused := hsole.refused
  constructed := hplaced.built.once
  destroyed := by
    intro task
    by_cases hpresent : ∃ node, (mode node).callable = some task
    · obtain ⟨node, hnode⟩ := hpresent
      have hcount := hplaced.built.present node task hnode
      omega
    · have hcount := hplaced.built.absent task fun node hnode ↦ hpresent ⟨node, hnode⟩
      omega
  closed := by
    intro hclosed
    have hcontra := (hplaced.exclusive.of_call hclosed rfl).2
    contradiction
  ordered := hplaced.ordered.order

omit [Fintype Exec] in
theorem Closed.accounts (hclosed : Closed s) (hsole : Sole s) : Accounted s := by
  obtain ⟨client, hclient, -⟩ := hclosed.alone
  have hholds : ∀ node task, ¬ s.Holds node task := by
    rintro node task (hcallable | ⟨other, stage, hcall⟩ | ⟨exec, phase, hexec⟩)
    · exact absurd (hcallable.symm.trans (hclosed.fits node).callable_eq) (by simp [Mode.callable])
    · exact absurd (hclient.symm.trans hcall) (by simp)
    · exact absurd (hexec.symm.trans (hclosed.idle exec)) (by simp)
  have hpool : ∀ node < LiveGraph.poolBlocks s.maxTasks, node ∈ s.freeBlocks := fun node hlt ↦
    ((hclosed.pool.matches_pool node).mp rfl).resolve_right (Nat.not_le_of_lt hlt)
  have habsent := fun task ↦ hclosed.built.absent task (by simp [Mode.callable])
  refine ⟨fun first second node hfirst ↦ ?_, fun index node hnode ↦ ?_, hsole.bounded,
    fun node hlt hblock ↦ absurd (hpool node hlt) hblock, fun first second task hfirst ↦ ?_,
    fun hidle ↦ ?_, ?_, hsole.refused, hclosed.built.once, fun task ↦ (habsent task).ge,
    fun _ task ↦ (habsent task).symm, hclosed.ordered.order⟩
  · rw [hclosed.tasks] at hfirst
    contradiction
  · rw [hclosed.tasks] at hnode
    contradiction
  · exact absurd hfirst (hholds first task)
  · exact absurd (hclient.symm.trans hidle) (by simp)
  · have hlive : s.liveTasks = ∅ := by
      ext task
      simp [LiveGraph.liveTasks, hholds]
    rw [hlive, Set.ncard_empty, s.liveCount_eq, Finset.card_eq_zero, Finset.filter_eq_empty_iff]
    exact fun node hnode hused ↦ hused.1 (hpool node (Finset.mem_range.mp hnode))

variable [DecidableEq Exec]

/-- A single client within the counters keeps the graph tracked until the destructor is done. -/
theorem WithinCounters.keeps {next : LiveGraph Unit Exec} {action : LiveAction Unit Exec}
    (hwithin : WithinCounters s action) (hstate : Tracked s ∨ Closed s)
    (hnext : LiveGraph.step s action = some next) : Tracked next ∨ Closed next := by
  have hdisciplined := hwithin.disciplined hnext
  rcases hstate with ⟨mode, swept, htracks⟩ | hclosed
  · exact htracks.step hdisciplined hnext
  · exact absurd (hnext.symm.trans (hclosed.no_step hdisciplined)) (by simp)

theorem tracked_and_sole {maxTasks : ℕ} (hmax : maxTasks < word32)
    (hreach : (liveGraph Unit Exec).Reaches WithinCounters (.new maxTasks) s) :
    (Tracked s ∨ Closed s) ∧ Sole s := by
  refine hreach.invariant ⟨.inl ⟨_, _, tracks_new maxTasks⟩, sole_new hmax⟩ ?_
  rintro state action next ⟨hstate, hsole⟩ hwithin hnext
  exact ⟨hwithin.keeps hstate hnext, hsole.step hstate (hwithin.disciplined hnext) hnext⟩

/-- While the 32-bit counters suffice, every state of every run of one client is accounted for. -/
theorem accounted {maxTasks : ℕ} (hmax : maxTasks < word32)
    (hreach : (liveGraph Unit Exec).Reaches WithinCounters (.new maxTasks) s) : Accounted s := by
  have hinvariant := tracked_and_sole hmax hreach
  rcases hinvariant with ⟨⟨mode, swept, htracks⟩ | hclosed, hsole⟩
  · exact htracks.toPlaced.accounts hsole
  · exact hclosed.accounts hsole

end Accounting

/-- Two tasks are created, one waits for the other, both are executed, and the graph is reset and
destroyed. -/
def pairSchedule (exec : Exec) : List (LiveAction Unit Exec) :=
  let create := .create () 8 8 :: List.replicate 10 (.advance ())
  create ++ create ++ [.addDependency () ⟨0, 0, false⟩ ⟨1, 1, false⟩, .submit ()] ++
    List.replicate 7 (.advance ()) ++ .take exec 0 :: List.replicate 7 (.run exec) ++
    .take exec 1 :: List.replicate 6 (.run exec) ++
    [.wait (), .reset (), .advance (), .advance (), .destroy (), .advance (), .advance ()]

theorem accounted_pair : ∃ s : LiveGraph Unit (Fin 1),
    (liveGraph Unit (Fin 1)).Reaches WithinCounters (.new 2) s ∧ Accounted s ∧
      s.events = [.constructed 0, .constructed 1, .started 0, .finished 0, .destroyed 0, .started 1,
        .finished 1, .destroyed 1] := by
  obtain ⟨s, hreach, htest⟩ := TransitionSystem.Reaches.exists_of_any (liveGraph Unit (Fin 1))
    (.new 2) (pairSchedule 0) (fun s action ↦ decide (WithinCounters s action))
    (fun s ↦ decide (s.events = [.constructed 0, .constructed 1, .started 0, .finished 0,
      .destroyed 0, .started 1, .finished 1, .destroyed 1]))
    (fun _ _ h ↦ of_decide_eq_true h) (by decide +kernel) (by decide +kernel)
  exact ⟨s, hreach, accounted (by decide) hreach, of_decide_eq_true htest⟩

/-! ### A graph for `2 ^ 32` tasks -/

/-- Dependencies are added before `submit`. -/
def BeforeSubmit (s : LiveGraph Unit Exec) : LiveAction Unit Exec → Prop
  | .addDependency _ _ _ => s.submitted = false
  | _ => True

/-- A graph for `2 ^ 32` tasks that has not been submitted and whose free list is empty: the call of
its client, the blocks of its pool, and its `task_count_`. -/
structure Filling (call : Option ClientCall) (blocks : List ℕ) (taskCount : ℕ)
    (s : LiveGraph Unit (Fin 1)) : Prop where
  call : s.clients () = call
  free : s.freeNodes = []
  blocks : s.freeBlocks = blocks
  taskCount : s.taskCount = taskCount
  maxTasks : s.maxTasks = word32
  submitted : s.submitted = false

section Filling

variable {call : ClientCall} {blocks : List ℕ} {taskCount : ℕ} {s : LiveGraph Unit (Fin 1)}

/-- The client's call takes its next step. -/
theorem Filling.reaches (hfilling : Filling (some call) blocks taskCount s)
    {next : LiveGraph Unit (Fin 1)} (hnext : s.advance () call = some next) :
    (liveGraph Unit (Fin 1)).Reaches BeforeSubmit s next := by
  have hguard : BeforeSubmit s (.advance ()) := trivial
  have hstep : (s.clients ()).bind (s.advance ()) = some next := by
    rw [hfilling.call, Option.bind_some, hnext]
  exact .single hguard hstep

/-- A `create_task` call finds no free node, and room in `tasks_`. -/
theorem Filling.ask (hfilling : Filling none blocks taskCount s) (hlt : taskCount < word32) :
    ∃ s', (liveGraph Unit (Fin 1)).Reaches BeforeSubmit s s' ∧
      Filling (some (.allocating s.nextTask s.liveCount)) blocks taskCount s' := by
  have hguard : BeforeSubmit s (.create () 0 1) := trivial
  have hasked : (liveGraph Unit (Fin 1)).Reaches BeforeSubmit s
      ({ s with nextTask := s.nextTask + 1 }.setClient ()
        (some (.pooling s.nextTask s.liveCount))) := by
    refine .single hguard ?_
    simp [liveGraph, LiveGraph.step, hfilling.call, LiveGraph.create, hfilling.free, kCallableBytes]
  have hpooling : Filling (some (.pooling s.nextTask s.liveCount)) blocks taskCount
      ({ s with nextTask := s.nextTask + 1 }.setClient ()
        (some (.pooling s.nextTask s.liveCount))) :=
    ⟨rfl, hfilling.free, hfilling.blocks, hfilling.taskCount, hfilling.maxTasks, hfilling.submitted⟩
  refine ⟨_, hasked.trans (hpooling.reaches (congrArg some (if_neg ?_))), rfl, hfilling.free,
    hfilling.blocks, hfilling.taskCount, hfilling.maxTasks, hfilling.submitted⟩
  rw [hpooling.maxTasks, hpooling.taskCount]
  exact Nat.not_le_of_lt hlt

/-- A `create_task` call that has a node takes its next step. -/
theorem Filling.goOn {task node : ℕ} {stage : CreateStage}
    (hfilling : Filling (some (.creating task node stage)) blocks taskCount s) :
    (liveGraph Unit (Fin 1)).Reaches BeforeSubmit s (s.advanceCreate () task node stage) ∧
      Filling ((s.advanceCreate () task node stage).clients ()) blocks
        (s.advanceCreate () task node stage).taskCount (s.advanceCreate () task node stage) := by
  refine ⟨hfilling.reaches rfl, ?_⟩
  cases stage with
  | adding live =>
    cases live with
    | false =>
      exact ⟨rfl, hfilling.free, hfilling.blocks, rfl, hfilling.maxTasks, hfilling.submitted⟩
    | true =>
      exact ⟨rfl, hfilling.free, hfilling.blocks, rfl, hfilling.maxTasks, hfilling.submitted⟩
  | _ => exact ⟨rfl, hfilling.free, hfilling.blocks, rfl, hfilling.maxTasks, hfilling.submitted⟩

/-- A `create_task` call finds the graph not submitted. -/
theorem Filling.sample {task node : ℕ}
    (hfilling : Filling (some (.creating task node .sampling)) blocks taskCount s) :
    Filling (some (.creating task node (.charging false))) blocks taskCount
      (s.advanceCreate () task node .sampling) := by
  have hcall : (s.advanceCreate () task node .sampling).clients () =
      some (.creating task node (.charging s.submitted)) := rfl
  rw [hfilling.submitted] at hcall
  exact ⟨hcall, hfilling.free, hfilling.blocks, hfilling.taskCount, hfilling.maxTasks,
    hfilling.submitted⟩

/-- One more task is created. -/
theorem Filling.create {node : ℕ} (hfilling : Filling none (node :: blocks) taskCount s)
    (hlt : taskCount < word32) : ∃ s', (liveGraph Unit (Fin 1)).Reaches BeforeSubmit s s' ∧
      Filling none blocks (taskCount + 1) s' := by
  obtain ⟨asked, hasked, hallocating⟩ := hfilling.ask hlt
  have hallocated := hallocating.reaches (by rw [LiveGraph.advance, hallocating.blocks] :
    asked.advance () _ = some ({ asked.setNode node .blank with freeBlocks := blocks }.setClient ()
      (some (.creating s.nextTask node .counting))))
  have hcounting : Filling (some (.creating s.nextTask node .counting)) blocks taskCount
      ({ asked.setNode node .blank with freeBlocks := blocks }.setClient ()
        (some (.creating s.nextTask node .counting))) :=
    ⟨rfl, hallocating.free, rfl, hallocating.taskCount, hallocating.maxTasks, hallocating.submitted⟩
  obtain ⟨hcounted, hbumping⟩ := hcounting.goOn
  obtain ⟨hbumped, hslotting⟩ := hbumping.goOn
  obtain ⟨hslotted, harming⟩ := hslotting.goOn
  obtain ⟨harmed, hsampling⟩ := harming.goOn
  have hsampled := hsampling.goOn.1
  obtain ⟨hcharged, hconstructing⟩ := hsampling.sample.goOn
  obtain ⟨hconstructed, hadding⟩ := hconstructing.goOn
  obtain ⟨hadded, hreturned⟩ := hadding.goOn
  have hrun := ((((((((hasked.trans hallocated).trans hcounted).trans hbumped).trans hslotted).trans
    harmed).trans hsampled).trans hcharged).trans hconstructed).trans hadded
  exact ⟨_, hrun, rfl, hreturned.free, hreturned.blocks,
    congrArg (· + 1) hallocating.taskCount, hreturned.maxTasks, hreturned.submitted⟩

/-- As many tasks are created as the pool has blocks. -/
theorem Filling.fill {created : ℕ} (hle : created ≤ word32 - 1) :
    ∃ s, (liveGraph Unit (Fin 1)).Reaches BeforeSubmit (.new word32) s ∧
      Filling none (List.range' created (word32 - 1 - created)) created s := by
  induction created with
  | zero =>
    refine ⟨.new word32, .refl, rfl, rfl, ?_, rfl, rfl, rfl⟩
    have hblocks : LiveGraph.poolBlocks word32 = word32 - 1 := by decide
    rw [LiveGraph.new, hblocks, List.range_eq_range', Nat.sub_zero]
  | succ created ih =>
    obtain ⟨s, hreach, hfilling⟩ := ih (by omega)
    have hlength : word32 - 1 - created = word32 - 1 - (created + 1) + 1 := by omega
    rw [hlength, List.range'_succ] at hfilling
    obtain ⟨s', hreach', hfilling'⟩ := hfilling.create (by omega)
    exact ⟨s', hreach.trans hreach', hfilling'⟩

end Filling

/-- A graph for `2 ^ 32` tasks refuses a task when `2 ^ 32 - 1` are live: the pool has no more
blocks. -/
theorem accounted_fails : ¬ ∀ (maxTasks : ℕ) (s : LiveGraph Unit (Fin 1)),
    (liveGraph Unit (Fin 1)).Reaches BeforeSubmit (.new maxTasks) s → Accounted s := by
  intro hclaim
  obtain ⟨full, hreach, hfilling⟩ := Filling.fill (Nat.le_refl (word32 - 1))
  obtain ⟨asked, hasked, hallocating⟩ := hfilling.ask (by decide)
  have hrefused := hallocating.reaches (by
    rw [LiveGraph.advance, hallocating.blocks, Nat.sub_self, List.range'_zero] :
      asked.advance () _ = some ((asked.setClient () none).emit (.refused full.liveCount)))
  have haccounted := hclaim word32 _ ((hreach.trans hasked).trans hrefused)
  have hlive : full.liveCount = asked.maxTasks :=
    haccounted.refused _ (List.mem_append_right _ (List.mem_singleton_self _))
  have hle := Finset.card_filter_le (Finset.range (LiveGraph.poolBlocks full.maxTasks)) fun node ↦
    node ∉ full.freeBlocks ∧ node ∉ full.freeNodes
  rw [← full.liveCount_eq, Finset.card_range, hlive, hallocating.maxTasks, hfilling.maxTasks] at hle
  exact absurd hle (by decide)

end GameEngine.Core
