import GameEngine.Core.ConcurrentSubmit
import GameEngine.Core.TaskAccounting

/-!
# No task is forgotten

A task that a client has asked for and that is not refused is being created, is live in a node, or
its body has returned (`Present`), whatever the clients and the executors do short of a reset.
-/

set_option autoImplicit false
set_option relaxedAutoImplicit false

namespace GameEngine.Core

open GameEngine.Library

variable {Client Exec : Type} {mode : ℕ → Mode Client Exec} {swept : ℕ}
  {s next : LiveGraph Client Exec} {client : Client} {exec : Exec} {node task : ℕ}

/-- Every task is asked for by a `create_task` call, is live, or its body has returned. -/
def Present (s : LiveGraph Client Exec) : Prop :=
  ∀ task < s.nextTask, (∃ client, (s.clients client).bind ClientCall.asking = some task) ∨
    (∃ node, s.Holds node task) ∨ .finished task ∈ s.events

/-- A state without tasks. -/
theorem present_new (maxTasks : ℕ) : Present (.new maxTasks : LiveGraph Client Exec) := nofun

/-- A node is replaced by one that keeps the callable. -/
theorem LiveGraph.callable_update {nodes : ℕ → LiveNode} {value : LiveNode}
    (hvalue : ∀ task, (nodes node).callable = some task → value.callable = some task) (other : ℕ)
    (task : ℕ) (hother : (nodes other).callable = some task) :
    (Function.update nodes node value other).callable = some task := by
  by_cases heq : other = node
  · subst heq
    rw [Function.update_self]
    exact hvalue task hother
  · rw [Function.update_of_ne heq]
    exact hother

/-! ### The clients -/

section Clients

variable [DecidableEq Client]

/-- A client's call goes on: what it asks for it keeps asking for or holds, and what it holds is
held. -/
theorem Present.recall (hpresent : Present s) {before after : Option ClientCall}
    (hnextTask : next.nextTask = s.nextTask) (hevents : s.events <+: next.events)
    (hexecs : next.execs = s.execs)
    (hcallable : ∀ node task, (s.nodes node).callable = some task →
      (next.nodes node).callable = some task)
    (hcall : s.clients client = before)
    (hclients : next.clients = Function.update s.clients client after)
    (hasking : ∀ task, before.bind ClientCall.asking = some task →
      after.bind ClientCall.asking = some task ∨ ∃ node, next.Holds node task)
    (hholds : ∀ node task stage, before = some (.creating task node stage) →
      next.Holds node task) : Present next := by
  intro task htask
  rw [hnextTask] at htask
  rcases hpresent task htask with ⟨other, hother⟩ | ⟨node, hnode⟩ | hfinished
  · by_cases heq : other = client
    · subst heq
      rw [hcall] at hother
      rcases hasking task hother with hafter | hheld
      · exact .inl ⟨other, by rw [hclients, Function.update_self, hafter]⟩
      · exact .inr (.inl hheld)
    · exact .inl ⟨other, by rw [hclients, Function.update_of_ne heq, hother]⟩
  · rcases hnode with hnode | ⟨other, stage, hother⟩ | ⟨exec, phase, hexec⟩
    · exact .inr (.inl ⟨node, .inl (hcallable node task hnode)⟩)
    · by_cases heq : other = client
      · subst heq
        exact .inr (.inl ⟨node, hholds node task stage (hcall.symm.trans hother)⟩)
      · exact .inr (.inl ⟨node, .inr (.inl ⟨other, stage, by
          rw [hclients, Function.update_of_ne heq, hother]⟩)⟩)
    · exact .inr (.inl ⟨node, .inr (.inr ⟨exec, phase, by rw [hexecs, hexec]⟩)⟩)
  · exact .inr (.inr (hevents.subset hfinished))

/-- A client that creates a task in a node holds it there. -/
theorem LiveGraph.holds_of_creating {stage : CreateStage}
    (hclients : next.clients = Function.update s.clients client
      (some (.creating task node stage))) : next.Holds node task :=
  .inr (.inl ⟨client, stage, by rw [hclients, Function.update_self]⟩)

/-- A `create_task` call starts. -/
theorem Present.create (hpresent : Present s) (hidle : s.clients client = none)
    (size alignment : ℕ) : Present (s.create client size alignment) := by
  unfold LiveGraph.create
  split_ifs
  · exact hpresent
  cases s.freeNodes.getLast? with
  | some node =>
    have hbefore : Present ({ s with freeNodes := s.freeNodes.dropLast }.setClient client
        (some (.creating s.nextTask node .arming))) :=
      hpresent.recall rfl (List.prefix_refl _) rfl (fun _ _ h ↦ h) hidle rfl nofun nofun
    intro task htask
    rcases Nat.lt_succ_iff_lt_or_eq.mp htask with hlt | rfl
    · exact hbefore task hlt
    · exact .inr (.inl ⟨node, LiveGraph.holds_of_creating rfl⟩)
  | none =>
    have hbefore : Present (s.setClient client (some (.pooling s.nextTask s.liveCount))) :=
      hpresent.recall rfl (List.prefix_refl _) rfl (fun _ _ h ↦ h) hidle rfl nofun nofun
    intro task htask
    rcases Nat.lt_succ_iff_lt_or_eq.mp htask with hlt | rfl
    · exact hbefore task hlt
    · refine .inl ⟨client, ?_⟩
      simp [LiveGraph.setClient, ClientCall.asking]

variable [Fintype Exec]

/-- A `create_task` call that has a node takes its next step. -/
theorem Present.advanceCreate (hpresent : Present s) (hplaced : Placed mode s) {stage : CreateStage}
    (hcall : s.clients client = some (.creating task node stage)) :
    Present (s.advanceCreate client task node stage) := by
  have hnode := (hplaced.client client task stage node).mpr hcall
  have hfits := (hplaced.fits node).callable_eq
  rw [hnode] at hfits
  cases stage with
  | arming =>
    refine hpresent.recall rfl (List.prefix_refl _) rfl
      (LiveGraph.callable_update fun _ h ↦ h) hcall rfl nofun fun _ _ _ h ↦ ?_
    obtain ⟨rfl, rfl, -⟩ := ClientCall.creating.inj (Option.some.inj h)
    exact LiveGraph.holds_of_creating rfl
  | charging live =>
    refine hpresent.recall rfl (List.prefix_refl _) rfl
      (LiveGraph.callable_update fun _ h ↦ h) hcall rfl nofun fun _ _ _ h ↦ ?_
    obtain ⟨rfl, rfl, -⟩ := ClientCall.creating.inj (Option.some.inj h)
    exact LiveGraph.holds_of_creating rfl
  | constructing live =>
    refine hpresent.recall rfl (List.prefix_append ..) rfl
      (LiveGraph.callable_update fun task' h ↦ ?_) hcall rfl nofun fun _ _ _ h ↦ ?_
    · rw [h] at hfits
      contradiction
    · obtain ⟨rfl, rfl, -⟩ := ClientCall.creating.inj (Option.some.inj h)
      exact LiveGraph.holds_of_creating rfl
  | adding live =>
    cases live with
    | false =>
      refine hpresent.recall rfl (List.prefix_refl _) rfl (fun _ _ h ↦ h) hcall rfl nofun
        fun _ _ _ h ↦ ?_
      obtain ⟨rfl, rfl, -⟩ := ClientCall.creating.inj (Option.some.inj h)
      exact .inl hfits
    | true =>
      refine hpresent.recall rfl (List.prefix_refl _) rfl (fun _ _ h ↦ h) hcall rfl nofun
        fun _ _ _ h ↦ ?_
      obtain ⟨rfl, rfl, -⟩ := ClientCall.creating.inj (Option.some.inj h)
      exact .inl hfits
  | dispatching =>
    refine hpresent.recall rfl (List.prefix_refl _) rfl (fun _ _ h ↦ h) hcall rfl nofun
      fun _ _ _ h ↦ ?_
    obtain ⟨rfl, rfl, -⟩ := ClientCall.creating.inj (Option.some.inj h)
    exact .inl hfits
  | _ =>
    refine hpresent.recall rfl (List.prefix_refl _) rfl (fun _ _ h ↦ h) hcall rfl nofun
      fun _ _ _ h ↦ ?_
    obtain ⟨rfl, rfl, -⟩ := ClientCall.creating.inj (Option.some.inj h)
    exact LiveGraph.holds_of_creating rfl

/-- A client's call that is not refused takes its next step. -/
theorem Present.advance (hpresent : Present s) (hplaced : Placed mode s) {call : ClientCall}
    (hcall : s.clients client = some call) (hnormal : call.exclusive = false)
    (hpooling : ∀ task seen, call = .pooling task seen → s.taskCount < s.maxTasks)
    (hallocating : ∀ task seen, call = .allocating task seen → s.freeBlocks ≠ [])
    (hnext : s.advance client call = some next) : Present next := by
  cases call with
  | pooling task seen =>
    have hroom := hpooling task seen rfl
    rw [← Option.some.inj hnext, if_neg (Nat.not_le_of_lt hroom)]
    exact hpresent.recall rfl (List.prefix_refl _) rfl (fun _ _ h ↦ h) hcall rfl
      (fun _ h ↦ .inl h) nofun
  | allocating task seen =>
    rw [← Option.some.inj hnext]
    cases hblocks : s.freeBlocks with
    | nil => exact absurd hblocks (hallocating task seen rfl)
    | cons node rest =>
      have hpooled : mode node = .pooled := (hplaced.pool.matches_pool node).mpr
        (.inl (hblocks ▸ List.mem_cons_self))
      have hnone := (hplaced.fits node).callable_eq
      rw [hpooled] at hnone
      refine hpresent.recall rfl (List.prefix_refl _) rfl
        (LiveGraph.callable_update fun task' h ↦ ?_) hcall rfl (fun task' htask' ↦ .inr ⟨node, ?_⟩)
        nofun
      · rw [h] at hnone
        contradiction
      · obtain rfl := Option.some.inj htask'
        exact LiveGraph.holds_of_creating rfl
  | creating task node stage => exact Option.some.inj hnext ▸ hpresent.advanceCreate hplaced hcall
  | sweeping index =>
    rw [← Option.some.inj hnext]
    exact hpresent.recall rfl (List.prefix_refl _) rfl (fun _ _ h ↦ h) hcall rfl nofun nofun
  | reading index =>
    rw [← Option.some.inj hnext]
    exact hpresent.recall rfl (List.prefix_refl _) rfl (fun _ _ h ↦ h) hcall rfl nofun nofun
  | lowering index node =>
    rw [← Option.some.inj hnext, s.countDown_eq]
    exact hpresent.recall rfl (List.prefix_refl _) rfl
      (LiveGraph.callable_update fun _ h ↦ h) hcall rfl nofun nofun
  | _ => contradiction

end Clients

/-! ### The executors -/

section Executors

variable [Fintype Exec] [DecidableEq Exec]

omit [Fintype Exec] in
/-- An executor goes on: what it executes it keeps executing. -/
theorem LiveGraph.Holds.work (hholds : s.Holds node task) {before after : Option ExecutorCall}
    (hcallable : (s.nodes node).callable = some task → next.Holds node task)
    (hclients : next.clients = s.clients) (hexec : s.execs exec = before)
    (hexecs : next.execs = Function.update s.execs exec after)
    (hkeeps : ∀ phase, before = some (.executing node task phase) → next.Holds node task) :
    next.Holds node task := by
  rcases hholds with hnode | ⟨client, stage, hclient⟩ | ⟨other, phase, hother⟩
  · exact hcallable hnode
  · exact .inr (.inl ⟨client, stage, hclients ▸ hclient⟩)
  · by_cases heq : other = exec
    · subst heq
      exact hkeeps phase (hexec.symm.trans hother)
    · exact .inr (.inr ⟨other, phase, by rw [hexecs, Function.update_of_ne heq, hother]⟩)

omit [Fintype Exec] in
/-- An executor that executes a task holds it. -/
theorem LiveGraph.holds_of_executing {phase : ExecutePhase}
    (hexecs : next.execs = Function.update s.execs exec (some (.executing node task phase))) :
    next.Holds node task :=
  .inr (.inr ⟨exec, phase, by rw [hexecs, Function.update_self]⟩)

/-- The end of a body is recorded before its task stops being live. -/
theorem Placed.holds_run (hplaced : Placed mode s) {call : ExecutorCall}
    (hexec : s.execs exec = some call) (hholds : s.Holds node task) :
    (s.run exec call).Holds node task ∨ .finished task ∈ s.events := by
  cases call with
  | taken at_ =>
    cases hinvoke : (s.nodes at_).invoke with
    | none =>
      left
      simp only [LiveGraph.run, hinvoke]
      exact hholds.work .inl rfl hexec rfl (by simp)
    | some own =>
      left
      simp only [LiveGraph.run, hinvoke]
      refine hholds.work (fun h ↦ .inl ?_) rfl hexec rfl (by simp)
      apply LiveGraph.callable_update _ node task h
      exact fun _ h ↦ h
  | executing at_ own phase =>
    have hmode := (hplaced.exec.matches_executing exec own phase at_).mpr hexec
    cases phase with
    | starting =>
      refine .inl (hholds.work .inl rfl hexec rfl fun _ h ↦ ?_)
      obtain ⟨rfl, rfl, -⟩ := ExecutorCall.executing.inj (Option.some.inj h)
      exact LiveGraph.holds_of_executing rfl
    | running =>
      refine .inl (hholds.work .inl rfl hexec rfl fun _ h ↦ ?_)
      obtain ⟨rfl, rfl, -⟩ := ExecutorCall.executing.inj (Option.some.inj h)
      exact LiveGraph.holds_of_executing rfl
    | releasing left_ =>
      left
      cases hsuccessor : (s.nodes at_).successors[left_]? with
      | some successor =>
        simp only [LiveGraph.run, hsuccessor, s.countDown_eq]
        refine hholds.work (fun h ↦ .inl ?_) rfl hexec rfl fun _ h ↦ ?_
        · apply LiveGraph.callable_update _ node task h
          exact fun _ h ↦ h
        · obtain ⟨rfl, rfl, -⟩ := ExecutorCall.executing.inj (Option.some.inj h)
          exact LiveGraph.holds_of_executing rfl
      | none =>
        simp only [LiveGraph.run, hsuccessor]
        have hclear : (s.destroyCallable at_).nodes = s.nodes ∧
            (s.destroyCallable at_).clients = s.clients ∧
            (s.destroyCallable at_).execs = s.execs := by
          unfold LiveGraph.destroyCallable
          split <;> exact ⟨rfl, rfl, rfl⟩
        obtain ⟨hnodes, hclients, hexecs⟩ := hclear
        have hfits := (hplaced.fits at_).callable_eq
        rw [hmode] at hfits
        refine hholds.work (fun h ↦ ?_) hclients hexec (congrArg (Function.update · exec _) hexecs)
          fun _ h ↦ ?_
        · by_cases heq : node = at_
          · subst heq
            obtain rfl : own = task := Option.some.inj (hfits.symm.trans h)
            exact LiveGraph.holds_of_executing (congrArg (Function.update · exec _) hexecs)
          · refine .inl ?_
            simpa [LiveGraph.setNode, LiveGraph.setExec, heq, hnodes] using h
        · obtain ⟨rfl, rfl, -⟩ := ExecutorCall.executing.inj (Option.some.inj h)
          exact LiveGraph.holds_of_executing (congrArg (Function.update · exec _) hexecs)
    | cleared =>
      by_cases hown : (s.execs exec) = some (.executing node task .cleared)
      · obtain ⟨rfl, rfl, -⟩ := ExecutorCall.executing.inj (Option.some.inj (hexec.symm.trans hown))
        exact .inr (hplaced.ordered.ended at_ exec own .cleared hmode rfl)
      · refine .inl (hholds.work .inl rfl hexec rfl fun phase h ↦ ?_)
        obtain ⟨rfl, rfl, rfl⟩ := ExecutorCall.executing.inj (Option.some.inj h)
        exact absurd hexec hown
  | retiring => exact .inl (hholds.work .inl rfl hexec rfl (by simp))

end Executors

/-! ### What a step records -/

section Records

variable [DecidableEq Client] [DecidableEq Exec] [Fintype Exec]

/-- `next` has the tasks and the events of `s`, and new events that are allowed. No `create_task`
call has found the free list empty since. -/
structure LiveGraph.Extends (allowed : TaskEvent → Prop)
    (s next : LiveGraph Client Exec) : Prop where
  nextTask : next.nextTask = s.nextTask
  maxTasks : next.maxTasks = s.maxTasks
  pooling : ∀ client task seen, next.clients client = some (.pooling task seen) →
    s.clients client = some (.pooling task seen)
  events : ∃ new, next.events = s.events ++ new ∧ ∀ event ∈ new, allowed event

/-- An event that is no return of a body. -/
def TaskEvent.NotFinished (event : TaskEvent) : Prop := ∀ task, event ≠ .finished task

/-- An event that an `execute` call records: it constructs nothing, and a body that returns is the
one it is in. -/
def ExecutorCall.Records (call : ExecutorCall) (event : TaskEvent) : Prop :=
  (∀ task, event ≠ .constructed task) ∧
    ∀ task, event = .finished task → ∃ node, call = .executing node task .running

omit [DecidableEq Client] [DecidableEq Exec] [Fintype Exec] in
theorem LiveGraph.Extends.refl (allowed : TaskEvent → Prop) (s : LiveGraph Client Exec) :
    LiveGraph.Extends allowed s s :=
  ⟨rfl, rfl, fun _ _ _ h ↦ h, [], by rw [List.append_nil], nofun⟩

omit [DecidableEq Exec] [Fintype Exec] in
/-- A call that creates or submits tasks records no return of a body. -/
theorem LiveGraph.ClientMoved.extends (hmoved : s.ClientMoved client next) :
    LiveGraph.Extends TaskEvent.NotFinished s next := by
  obtain ⟨after, hclients, -, hafter⟩ := hmoved.clients
  refine ⟨hmoved.nextTask, hmoved.maxTasks, fun other task seen hother ↦ ?_, hmoved.events⟩
  rw [hclients] at hother
  by_cases heq : other = client
  · subst heq
    rw [Function.update_self] at hother
    exact absurd hother (hafter task seen)
  · rwa [Function.update_of_ne heq] at hother

omit [DecidableEq Exec] [Fintype Exec] in
/-- A `create_task` call with a callable that fits takes the next number. -/
theorem LiveGraph.create_frame (s : LiveGraph Client Exec) (client : Client) {size alignment : ℕ}
    (hsize : size ≤ kCallableBytes) (halignment : alignment ≤ 16) :
    (s.create client size alignment).nextTask = s.nextTask + 1 ∧
      (s.create client size alignment).maxTasks = s.maxTasks ∧
      (s.create client size alignment).events = s.events ∧
      ∀ task seen, (s.create client size alignment).clients client = some (.pooling task seen) →
        seen = s.liveCount := by
  rw [create, if_neg (by omega)]
  cases s.freeNodes.getLast? with
  | some node => exact ⟨rfl, rfl, rfl, by simp [setClient]⟩
  | none => exact ⟨rfl, rfl, rfl, by simp [setClient]⟩

omit [DecidableEq Client] [Fintype Exec] in
/-- An executor records the return of the body that it is in. -/
theorem LiveGraph.extends_run (s : LiveGraph Client Exec) (exec : Exec) (call : ExecutorCall) :
    LiveGraph.Extends call.Records s (s.run exec call) := by
  have hsame := s.sameClients_run exec call
  refine ⟨hsame.nextTask, hsame.maxTasks, fun _ _ _ h ↦ hsame.clients ▸ h, ?_⟩
  have hsilent : ∃ new, s.events = s.events ++ new ∧ ∀ event ∈ new, call.Records event :=
    ⟨[], by rw [List.append_nil], by simp⟩
  cases call with
  | taken node =>
    cases hinvoke : (s.nodes node).invoke <;> simp only [run, hinvoke] <;> exact hsilent
  | executing node task phase =>
    cases phase with
    | starting => exact ⟨[.started task], rfl, by simp [ExecutorCall.Records]⟩
    | running => exact ⟨[.finished task], rfl, by simp [ExecutorCall.Records]⟩
    | releasing at_ =>
      cases hsuccessor : (s.nodes node).successors[at_]? with
      | some successor =>
        simp only [run, hsuccessor, s.countDown_eq]
        exact hsilent
      | none =>
        simp only [run, hsuccessor]
        unfold destroyCallable
        split
        · exact ⟨[.destroyed _], rfl, by simp [ExecutorCall.Records]⟩
        · exact hsilent
    | cleared => exact hsilent
  | retiring => exact hsilent

end Records

/-! ### Calls return -/

section Returns

variable [DecidableEq Client] [DecidableEq Exec] [Fintype Exec]

/-- A bound on the steps that a call that creates or submits tasks still takes. -/
def ClientCall.rank (taskCount : ℕ) : ClientCall → ℕ
  | .pooling _ _ => 11
  | .allocating _ _ => 10
  | .creating _ _ stage =>
    match stage with
    | .counting => 9
    | .bumping _ => 8
    | .slotting _ => 7
    | .arming => 6
    | .sampling => 5
    | .charging _ => 4
    | .constructing _ => 3
    | .adding _ => 2
    | .dispatching => 1
  | .sweeping index => 3 * (taskCount - index) + 1
  | .reading index => 3 * (taskCount - (index + 1)) + 3
  | .lowering index _ => 3 * (taskCount - (index + 1)) + 2
  | _ => 0

omit [DecidableEq Exec] in
/-- A call that creates or submits tasks is never stuck, and it comes closer to its end. -/
theorem LiveGraph.advance_rank {call : ClientCall} (s : LiveGraph Client Exec) (client : Client)
    (hnormal : call.exclusive = false) : ∃ next after, s.advance client call = some next ∧
      next.clients client = after ∧
      ∀ call' ∈ after, call'.exclusive = false ∧
        call'.rank next.taskCount < call.rank s.taskCount := by
  cases call with
  | pooling task seen =>
    refine ⟨_, _, rfl, rfl, ?_⟩
    split_ifs <;> simp [emit, setClient, ClientCall.exclusive, ClientCall.rank]
  | allocating task seen =>
    refine ⟨_, _, rfl, rfl, ?_⟩
    cases s.freeBlocks <;> simp [emit, setClient, ClientCall.exclusive, ClientCall.rank]
  | creating task node stage =>
    refine ⟨_, _, rfl, rfl, ?_⟩
    cases stage with
    | adding live =>
      cases live <;> simp [advanceCreate, returnHandle, setClient, ClientCall.exclusive,
        ClientCall.rank]
    | _ => simp [advanceCreate, returnHandle, setClient, ClientCall.exclusive, ClientCall.rank]
  | sweeping index =>
    refine ⟨_, _, rfl, rfl, ?_⟩
    split_ifs with hlt
    · simp only [setClient, Function.update_self, Option.mem_def, Option.some.injEq, forall_eq',
        ClientCall.exclusive, ClientCall.rank, true_and]
      omega
    · simp [setClient]
  | reading index =>
    refine ⟨_, _, rfl, rfl, ?_⟩
    cases s.tasks index with
    | none =>
      simp only [setClient, Function.update_self, Option.mem_def, Option.some.injEq, forall_eq',
        ClientCall.exclusive, ClientCall.rank, true_and]
      omega
    | some node => simp [setClient, ClientCall.exclusive, ClientCall.rank]
  | lowering index node =>
    refine ⟨_, _, rfl, rfl, ?_⟩
    rw [s.countDown_eq]
    simp [setClient, ClientCall.exclusive, ClientCall.rank]
  | _ => contradiction

/-- Left alone, a call that creates or submits tasks returns. -/
theorem LiveGraph.returns (bound : ℕ) (s : LiveGraph Client Exec) (client : Client)
    (hcall : ∀ call ∈ s.clients client, call.exclusive = false ∧ call.rank s.taskCount < bound) :
    ∃ next, (liveGraph Client Exec).Reaches (fun _ action ↦ action = .advance client) s next ∧
      next.clients client = none := by
  induction bound generalizing s with
  | zero =>
    cases hclient : s.clients client with
    | none => exact ⟨s, .refl, hclient⟩
    | some call => exact absurd (hcall call hclient).2 (Nat.not_lt_zero _)
  | succ bound ih =>
    cases hclient : s.clients client with
    | none => exact ⟨s, .refl, hclient⟩
    | some call =>
      obtain ⟨hnormal, hrank⟩ := hcall call hclient
      obtain ⟨middle, after, hadvance, hafter, hcloser⟩ := s.advance_rank client hnormal
      have hstep : (liveGraph Client Exec).step s (.advance client) = some middle := by
        simp only [liveGraph, LiveGraph.step, hclient, Option.bind_some, hadvance]
      obtain ⟨next, hreach, hnone⟩ := ih middle fun call' h ↦
        ⟨(hcloser call' (hafter ▸ h)).1,
          (hcloser call' (hafter ▸ h)).2.trans_le (Nat.le_of_lt_succ hrank)⟩
      refine ⟨next, TransitionSystem.Reaches.trans (.single ?_ hstep) hreach, hnone⟩
      rfl

end Returns

/-! ### A single client -/

section Single

variable [Fintype Exec] {s next : LiveGraph Unit Exec} {mode : ℕ → Mode Unit Exec}

/-- The single client of the graph only creates and submits tasks. -/
structure Feeding (s : LiveGraph Unit Exec) : Prop where
  tracked : Tracked s
  sole : Sole s
  plain : Plain s

/-- A new graph. -/
theorem feeding_new {maxTasks : ℕ} (hmax : maxTasks < MachineWord.word32) :
    Feeding (.new maxTasks : LiveGraph Unit Exec) :=
  ⟨⟨_, _, tracks_new maxTasks⟩, sole_new hmax, rfl, nofun⟩

variable [DecidableEq Exec]

theorem Feeding.step (hfeeding : Feeding s) {action : LiveAction Unit Exec}
    (hsubmitting : Submitting action) (hnext : LiveGraph.step s action = some next) :
    Feeding next := by
  obtain ⟨htracked, hsole, hplain⟩ := hfeeding
  have hwithin : WithinCounters s action := by
    cases action <;> trivial
  have hdisciplined := hwithin.disciplined hnext
  have hplain' := hplain.step hsubmitting hnext
  refine ⟨?_, hsole.step (.inl htracked) hdisciplined hnext, hplain'⟩
  obtain ⟨mode, swept, htracks⟩ := htracked
  rcases htracks.step hdisciplined hnext with htracked' | hclosed
  · exact htracked'
  · obtain ⟨client, hclient, -⟩ := hclosed.alone
    exact absurd (hplain'.normal client _ hclient) (by simp [ClientCall.exclusive])

/-- Left alone, the client's call returns. -/
theorem Feeding.returns (hfeeding : Feeding s) : ∃ next,
    (liveGraph Unit Exec).Reaches (fun _ action ↦ action = .advance ()) s next ∧ Feeding next ∧
      next.maxTasks = s.maxTasks ∧ next.clients () = none := by
  have hbound : ∃ bound, ∀ call ∈ s.clients (), call.exclusive = false ∧
      call.rank s.taskCount < bound := by
    cases hcall : s.clients () with
    | none => exact ⟨0, nofun⟩
    | some call =>
      refine ⟨call.rank s.taskCount + 1, fun call' h ↦ ?_⟩
      obtain rfl := Option.some.inj h
      exact ⟨hfeeding.plain.normal () call hcall, Nat.lt_succ_self _⟩
  obtain ⟨bound, hcall⟩ := hbound
  obtain ⟨next, hreach, hnone⟩ := LiveGraph.returns bound s () hcall
  have hinvariant : Feeding next ∧ next.maxTasks = s.maxTasks := by
    refine hreach.invariant ⟨hfeeding, rfl⟩ ?_
    rintro state action after ⟨hstate, hmaxTasks⟩ rfl hnext
    have hsubmitting : Submitting (.advance () : LiveAction Unit Exec) := trivial
    obtain ⟨call, hcall, hadvance⟩ := Option.bind_eq_some_iff.mp hnext
    have hmoved := LiveGraph.clientMoved_advance (hstate.plain.normal () call hcall) hadvance
    exact ⟨hstate.step hsubmitting hnext, hmoved.maxTasks.trans hmaxTasks⟩
  exact ⟨next, hreach, hinvariant.1, hinvariant.2, hnone⟩

/-- Tasks stay present while none is refused. -/
theorem Present.step (hpresent : Present s) (hfeeding : Feeding s) {action : LiveAction Unit Exec}
    (hsubmitting : Submitting action)
    (hroom : ∀ task seen, s.clients () = some (.pooling task seen) → seen < s.maxTasks)
    (hnext : LiveGraph.step s action = some next) : Present next := by
  obtain ⟨⟨mode, swept, htracks⟩, hsole, hplain⟩ := hfeeding
  cases LiveGraph.stepped_of_step hnext with
  | @create client size alignment hidle => exact hpresent.create hidle size alignment
  | submit hidle =>
    split_ifs
    · exact hpresent
    · exact hpresent.recall rfl (List.prefix_refl _) rfl (fun _ _ h ↦ h) hidle rfl
        (by simp) (by simp)
  | @advance client call next hcall hadvance =>
    refine hpresent.advance htracks.toPlaced hcall (hplain.normal client call hcall) ?_ ?_ hadvance
    · rintro task seen rfl
      exact hsole.pooling task seen hcall ▸ hroom task seen hcall
    · rintro task seen rfl
      exact hsole.freeBlocks_ne_nil htracks.toPlaced hcall
  | take hexec hhalted hnode =>
    intro task htask
    refine (hpresent task htask).imp_right (Or.imp_left ?_)
    rintro ⟨node, hnode⟩
    exact ⟨node, hnode.work .inl rfl hexec rfl (by simp)⟩
  | @run exec call hcall =>
    have hsame := s.sameClients_run exec call
    obtain ⟨new, hevents, -⟩ := hsame.events
    intro task htask
    rw [hsame.nextTask] at htask
    rw [hsame.clients, hevents]
    rcases hpresent task htask with hasked | ⟨node, hnode⟩ | hfinished
    · exact .inl hasked
    · rcases htracks.toPlaced.holds_run hcall hnode with hholds | hfinished
      · exact .inr (.inl ⟨node, hholds⟩)
      · exact .inr (.inr (List.mem_append_left _ hfinished))
    · exact .inr (.inr (List.mem_append_left _ hfinished))
  | _ => contradiction

end Single

end GameEngine.Core
