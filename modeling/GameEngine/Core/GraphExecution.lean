import GameEngine.Core.GraphReset

/-!
# Executing tasks in the task graph in use

Every step of an `execute` call keeps `Tracks`: the node goes from its queue to the executor,
through the phases of the call, and to the free list. With the steps of the clients this shows that
disciplined runs stay in graphs that are `Tracked`, until the destructor is done.
-/

set_option autoImplicit false
set_option relaxedAutoImplicit false

namespace GameEngine.Core

open GameEngine.Library
open MachineWord DependencyCount

variable {Client Exec : Type} [Fintype Exec] [DecidableEq Exec] {mode : ℕ → Mode Client Exec}
  {swept : ℕ} {s : LiveGraph Client Exec} {exec : Exec} {task node : ℕ}
  {phase phase' : ExecutePhase}

/-! ### The node of an executor -/

/-- An executor has a node for a task. -/
def Mode.AtWork (exec : Exec) (task : ℕ) (mode : Mode Client Exec) : Prop :=
  mode = .taken exec task ∨ ∃ phase, mode = .executing exec task phase

omit [Fintype Exec] in
/-- An executor goes on with its node. -/
theorem ExecPlaced.goOn {execs : CallTable Exec ExecutorCall} (hplaced : ExecPlaced mode execs)
    (hwork : (mode node).AtWork exec task) :
    ExecPlaced (Function.update mode node (.executing exec task phase))
      (Function.update execs exec (some (.executing node task phase))) := by
  have hbefore : ∀ other, other ≠ node → execs exec ≠ some (.taken other) ∧
      ∀ task phase, execs exec ≠ some (.executing other task phase) := by
    intro other hother
    rcases hwork with hmode | ⟨before, hmode⟩
    · have hexec := (hplaced.matches_taken exec node).mp ⟨task, hmode⟩
      simp [hexec, Ne.symm hother]
    · have hexec := (hplaced.matches_executing exec task before node).mp hmode
      simp [hexec, Ne.symm hother]
  refine hplaced.move hbefore (fun other hother ↦ ?_) (fun other task' hother ↦ ?_)
    (fun other task' hother ↦ ?_) (by simp) (by simp)
  · simp [Ne.symm hother]
  · rcases hwork with hmode | ⟨before, hmode⟩ <;> simp [hmode, Ne.symm hother]
  · simp [Ne.symm hother]

omit [Fintype Exec] [DecidableEq Exec] in
theorem Mode.AtWork.shape {mode : Mode Client Exec} (hwork : mode.AtWork exec task) :
    mode ≠ .pooled ∧ mode ≠ .free ∧ (∀ client task stage, mode ≠ .creating client task stage) ∧
      (∀ task, mode ≠ .waiting task) ∧ (∀ task, mode ≠ .queued task) ∧ mode.slotted = true ∧
      mode.counted = true ∧ mode.task = some task ∧ mode.unmade = none ∧ mode.dormant = false := by
  rcases hwork with rfl | ⟨phase, rfl⟩ <;> simp [slotted, counted, Mode.task, unmade, dormant]

/-- An executor goes on with its node. What happens to the callable and what is recorded is
assumed to fit. -/
theorem Placed.work (hplaced : Placed mode s) (hwork : (mode node).AtWork exec task)
    (hexec : s.execs exec ≠ none) (hbusy : s.execs exec ≠ some .retiring) (value : LiveNode)
    (new : List TaskEvent)
    (hfits : (Mode.executing exec task phase : Mode Client Exec).Fits value)
    (hnew : ∀ event ∈ new, event.task = some task)
    (hbuilt : Built (Function.update mode node (.executing exec task phase)) (s.events ++ new))
    (hordered : Ordered (Function.update mode node (.executing exec task phase)) (s.events ++ new))
    (hunfinished : ∀ other, (mode node).unfinished = some other →
      (Mode.executing exec task phase : Mode Client Exec).unfinished = some other ∨
        .finished other ∈ s.events ++ new) :
    Placed (Function.update mode node (.executing exec task phase))
      ({ s.setNode node value with events := s.events ++ new }.setExec exec
        (some (.executing node task phase))) := by
  obtain ⟨hpooled, hfree, hcreating, hwaiting, hqueued, hslotted, hcounted, htask, hmade, -⟩ :=
    hwork.shape
  exact
    { pool := hplaced.pool.keep hpooled (by simp)
      free := hplaced.free.keep hfree (by simp)
      client := hplaced.client.keep hcreating (by simp)
      queue := hplaced.queue.keep hqueued (by simp)
      exec := hplaced.exec.goOn hwork
      fits := fits_update hplaced.fits hfits
      slotted := hplaced.slotted.keep (by rw [hslotted]; rfl)
      named := hplaced.named.move (by rw [htask]; rfl)
        (fun event hevent other hother ↦ by rw [htask, ← hnew event hevent, hother])
        (by simp [Mode.unmade])
      built := hbuilt
      ordered := hordered
      counted := (hplaced.counted.keep (by rw [hcounted]; rfl)).setExec hbusy (by simp)
      handled := (hplaced.handled.emit new).keep (by simp) (fun _ ↦ hwaiting) hunfinished (by simp)
      exclusive := hplaced.exclusive.exec exec hexec }

omit [Fintype Exec] [DecidableEq Exec] in
/-- Executors are at work only after `submit`. -/
theorem Sweeping.work {tasks : ℕ → Option ℕ} {submitted : Bool}
    {clients : CallTable Client ClientCall}
    (hsweeping : Sweeping mode swept tasks submitted clients)
    (hwork : (mode node).AtWork exec task) {next : Mode Client Exec}
    (hnext : next.owesSentinel = false) :
    Sweeping (Function.update mode node next) swept tasks submitted clients := by
  refine hsweeping.keep (fun hsubmitted ↦ ?_) (by simp [hnext])
  have hdormant := hsweeping.dormant hsubmitted node
  rw [hwork.shape.2.2.2.2.2.2.2.2.2] at hdormant
  contradiction

/-! ### The steps -/

/-- An executor takes a node out of a queue. -/
theorem Tracks.take (htracks : Tracks mode swept s) (hidle : s.execs exec = none)
    (hhalted : s.halted = false) (hnode : node ∈ s.dispatched) :
    Tracked ({ s with dispatched := s.dispatched.erase node }.setExec exec
      (some (.taken node))) := by
  obtain ⟨task, hmode⟩ := (htracks.queue.matches_list node).mpr hnode
  have hpending := htracks.charged.pending_of_ne hmode (by simp)
  have hfits := htracks.fits_of_eq hmode
  have hnext : (Mode.taken exec task : Mode Client Exec).Fits (s.nodes node) :=
    ⟨hfits.invoke_eq, hfits.destroy_eq, hfits.callable_eq, by simp⟩
  refine ⟨Function.update mode node (.taken exec task), swept,
    { pool := htracks.pool.keep (by simp [hmode]) (by simp)
      free := htracks.free.keep (by simp [hmode]) (by simp)
      client := htracks.client.keep (by simp [hmode]) (by simp)
      queue := htracks.queue.erase (by simp)
      exec := ?_
      fits := fits_keep htracks.fits hnext
      slotted := htracks.slotted.keep (by rw [hmode]; rfl)
      named := htracks.named.keep (by rw [hmode]; rfl) (by simp [Mode.unmade])
      built := htracks.built.move (by rw [hmode]; rfl)
      ordered := htracks.ordered.move (by simp)
      counted := (htracks.counted.keep (by rw [hmode]; rfl)).setExec (by simp [hidle]) (by simp)
      handled := htracks.handled.keep (by simp) (by simp [hmode]) (by simp [hmode, Mode.unfinished])
        (by simp)
      exclusive := htracks.exclusive.take hmode hhalted
      charged := htracks.charged.keep (by simp [hmode]) (by rw [hmode]; rfl) hpending
      sweeping := htracks.sweeping.keep (fun hsubmitted ↦ ?_) (by simp [Mode.owesSentinel]) }⟩
  · refine htracks.exec.move (by simp [hidle]) (fun other hother ↦ ?_) (by simp [hmode])
      (fun other task' hother ↦ ?_) (by simp) (by simp)
    · simp [Ne.symm hother]
    · simp [Ne.symm hother]
  · have hdormant := htracks.sweeping.dormant hsubmitted node
    rw [hmode] at hdormant
    contradiction

/-- An executor exchanges `invoke`. -/
theorem Tracks.exchange (htracks : Tracks mode swept s)
    (hexec : s.execs exec = some (.taken node)) :
    Tracked (s.run exec (.taken node)) := by
  obtain ⟨task, hmode⟩ := (htracks.exec.matches_taken exec node).mpr hexec
  have hpending := htracks.charged.pending_of_ne hmode (by simp)
  have hfits := htracks.fits_of_eq hmode
  have hinvoke : (s.nodes node).invoke = some task := hfits.invoke_eq
  have hnext : (Mode.executing exec task .starting : Mode Client Exec).Fits
      { s.nodes node with invoke := none } := ⟨rfl, hfits.destroy_eq, hfits.callable_eq, by simp⟩
  have hbuilt : Built (Function.update mode node (.executing exec task .starting))
      (s.events ++ []) := by
    rw [List.append_nil]
    exact htracks.built.move (by rw [hmode]; rfl)
  have hordered : Ordered (Function.update mode node (.executing exec task .starting))
      (s.events ++ []) := by
    rw [List.append_nil]
    exact htracks.ordered.move (by simp [ExecutePhase.unfinished])
  have hplaced := htracks.toPlaced.work (.inl hmode) (by simp [hexec]) (by simp [hexec]) _ [] hnext
    (by simp) hbuilt hordered (by simp [hmode, Mode.unfinished, ExecutePhase.unfinished])
  rw [List.append_nil] at hplaced
  simp only [LiveGraph.run, hinvoke]
  exact ⟨_, swept, hplaced, htracks.charged.move _ (by simp [hmode]) (by rw [hmode]; rfl) hpending,
    htracks.sweeping.work (.inl hmode) rfl⟩

/-- A body starts. -/
theorem Tracks.start (htracks : Tracks mode swept s)
    (hexec : s.execs exec = some (.executing node task .starting)) :
    Tracked (s.run exec (.executing node task .starting)) := by
  have hmode := (htracks.exec.matches_executing exec task .starting node).mpr hexec
  have hpending := htracks.charged.pending_of_ne hmode (by simp)
  have hfits := htracks.fits_of_eq hmode
  have hnext : (Mode.executing exec task .running : Mode Client Exec).Fits (s.nodes node) :=
    ⟨hfits.invoke_eq, hfits.destroy_eq, hfits.callable_eq, by simp⟩
  have hcallable : (mode node).callable = some task := by
    rw [hmode]
    rfl
  have hdestroyed := htracks.built.not_destroyed hcallable
  have hordered : Ordered (Function.update mode node (.executing exec task .running))
      (s.events ++ [.started task]) := by
    refine (htracks.ordered.append (fun other hother ↦ ?_) (by simp)).move
      (by simp [ExecutePhase.unfinished])
    rcases hother with hother | hother
    · rwa [← TaskEvent.started.inj hother]
    · contradiction
  have hplaced := htracks.toPlaced.work (.inr ⟨_, hmode⟩) (by simp [hexec]) (by simp [hexec])
    (s.nodes node) [.started task] hnext (by simp [TaskEvent.task])
    ((htracks.built.emit (by simp)).move (by rw [hmode]; rfl)) hordered
    (by simp [hmode, Mode.unfinished, ExecutePhase.unfinished])
  rw [s.setNode_self] at hplaced
  exact ⟨_, swept, hplaced, htracks.charged.keep (by simp [hmode]) (by rw [hmode]; rfl) hpending,
    htracks.sweeping.work (.inr ⟨_, hmode⟩) rfl⟩

/-- A body returns. -/
theorem Tracks.finish (htracks : Tracks mode swept s)
    (hexec : s.execs exec = some (.executing node task .running)) :
    Tracked (s.run exec (.executing node task .running)) := by
  have hmode := (htracks.exec.matches_executing exec task .running node).mpr hexec
  have hpending := htracks.charged.pending_of_ne hmode (by simp)
  have hfits := htracks.fits_of_eq hmode
  have hnext : (Mode.executing exec task (.releasing 0) : Mode Client Exec).Fits (s.nodes node) :=
    ⟨hfits.invoke_eq, hfits.destroy_eq, hfits.callable_eq, by simp⟩
  have hcallable : (mode node).callable = some task := by
    rw [hmode]
    rfl
  have hdestroyed := htracks.built.not_destroyed hcallable
  have hbegun := htracks.ordered.begun node exec task .running hmode (by simp)
  have hordered : Ordered (Function.update mode node (.executing exec task (.releasing 0)))
      (s.events ++ [.finished task]) := by
    refine (htracks.ordered.append (fun other hother ↦ ?_) fun other hother ↦ ?_).move ?_
    · rcases hother with hother | hother
      · contradiction
      · rwa [← TaskEvent.finished.inj hother]
    · rwa [← TaskEvent.finished.inj hother]
    · rintro _ _ _ ⟨rfl, rfl, rfl⟩
      exact ⟨fun _ ↦ List.mem_append_left _ hbegun, fun _ ↦ by simp⟩
  have hplaced := htracks.toPlaced.work (.inr ⟨_, hmode⟩) (by simp [hexec]) (by simp [hexec])
    (s.nodes node) [.finished task] hnext (by simp [TaskEvent.task])
    ((htracks.built.emit (by simp)).move (by rw [hmode]; rfl)) hordered
    (by simp [hmode, Mode.unfinished, ExecutePhase.unfinished])
  rw [s.setNode_self] at hplaced
  exact ⟨_, swept, hplaced, htracks.charged.keep (by simp [hmode]) (by rw [hmode]; rfl) hpending,
    htracks.sweeping.work (.inr ⟨_, hmode⟩) rfl⟩

/-- An executor counts down the next successor of its node. -/
theorem Tracks.release (htracks : Tracks mode swept s) {next successor : ℕ}
    (hexec : s.execs exec = some (.executing node task (.releasing next)))
    (hsuccessor : (s.nodes node).successors[next]? = some successor) :
    Tracked ((s.countDown successor).setExec exec
      (some (.executing node task (.releasing (next + 1))))) := by
  have hmode := (htracks.exec.matches_executing exec task (.releasing next) node).mpr hexec
  have hlt := htracks.pool.lt_of_ne (by simp [hmode] : mode node ≠ .pooled)
  have hfits := htracks.fits node
  have hwaiter := htracks.charged.waiting_successor hmode hsuccessor hlt
  have hne : node ≠ successor := by
    rintro rfl
    obtain ⟨waiter, hwaiter⟩ := hwaiter
    rw [hmode] at hwaiter
    contradiction
  have hsubmitted : s.submitted = true := by
    by_contra hnot
    have hdormant := htracks.sweeping.dormant (Bool.not_eq_true _ ▸ hnot) node
    rw [hmode] at hdormant
    contradiction
  have hlowered := htracks.toPlaced.countDown hsubmitted fun _ ↦ hwaiter
  have hwork : (Function.update mode successor ((mode successor).lower (s.nodes successor).pending)
      node).AtWork exec task := by
    rw [Function.update_of_ne hne]
    exact .inr ⟨_, hmode⟩
  have hsame : (s.countDown successor).nodes node = s.nodes node := by
    rw [s.countDown_eq]
    exact Function.update_of_ne hne ..
  rw [hmode] at hfits
  have hnext : (Mode.executing exec task (.releasing (next + 1)) : Mode Client Exec).Fits
      (s.nodes node) := ⟨hfits.invoke_eq, hfits.destroy_eq, hfits.callable_eq, by simp⟩
  have hexec' : (s.countDown successor).execs exec =
      some (.executing node task (.releasing next)) := by
    rw [s.countDown_eq]
    exact hexec
  have hmode' : Function.update mode successor ((mode successor).lower (s.nodes successor).pending)
      node = .executing exec task (.releasing next) := (Function.update_of_ne hne ..).trans hmode
  have hended := hlowered.ordered.ended node exec task _ hmode' rfl
  have hbegun := hlowered.ordered.begun node exec task _ hmode' (by simp)
  have hbuilt := hlowered.built.move (by rw [hmode']; rfl :
    (Mode.executing exec task (.releasing (next + 1)) : Mode Client Exec).callable = _)
  have hordered : Ordered (Function.update (Function.update mode successor
      ((mode successor).lower (s.nodes successor).pending)) node
      (.executing exec task (.releasing (next + 1)))) (s.countDown successor).events := by
    refine hlowered.ordered.move ?_
    rintro _ _ _ ⟨rfl, rfl, rfl⟩
    exact ⟨fun _ ↦ hbegun, fun _ ↦ hended⟩
  have hplaced := hlowered.work hwork (by simp [hexec']) (by simp [hexec']) _ [] hnext (by simp)
    (by rw [List.append_nil]; exact hbuilt) (by rw [List.append_nil]; exact hordered)
    (by simp [hmode', Mode.unfinished, ExecutePhase.unfinished])
  rw [← hsame, LiveGraph.setNode_self, List.append_nil] at hplaced
  have hsweeping := htracks.sweeping.keep (by simp [hsubmitted] : s.submitted = false →
      ((mode successor).lower (s.nodes successor).pending).dormant = true)
    fun _ howes ↦ Mode.owes_of_lower howes
  have hcharged := htracks.charged.release hmode hsuccessor hlt
  rw [s.countDown_eq] at hplaced ⊢
  exact ⟨_, swept, hplaced, hcharged, hsweeping.work hwork rfl⟩

/-- An executor destroys the callable of its node and clears the node. -/
theorem Tracks.clear (htracks : Tracks mode swept s) {next : ℕ}
    (hexec : s.execs exec = some (.executing node task (.releasing next)))
    (hsuccessor : (s.nodes node).successors[next]? = none) :
    Tracked (((s.destroyCallable node).setNode node .blank).setExec exec
      (some (.executing node task .cleared))) := by
  have hmode := (htracks.exec.matches_executing exec task (.releasing next) node).mpr hexec
  have hfits := htracks.fits node
  rw [hmode] at hfits
  have hcallable : (mode node).callable = some task := by
    rw [hmode]
    rfl
  have hdestroy : s.destroyCallable node = s.emit (.destroyed task) := by
    rw [LiveGraph.destroyCallable, hfits.destroy_eq, hfits.callable_eq]
    rfl
  have hbegun := htracks.ordered.begun node exec task _ hmode (by simp)
  have hended := htracks.ordered.ended node exec task _ hmode rfl
  have hnext : (Mode.executing exec task .cleared : Mode Client Exec).Fits .blank :=
    ⟨rfl, rfl, rfl, by simp⟩
  have hbuilt : Built (Function.update mode node (.executing exec task .cleared))
      (s.events ++ [.destroyed task]) :=
    htracks.built.destroy hcallable rfl fun other hother hsame ↦ hother
      (htracks.named.distinct other node task (Mode.task_of_callable hsame) (by rw [hmode]; rfl))
  have hordered : Ordered (Function.update mode node (.executing exec task .cleared))
      (s.events ++ [.destroyed task]) := by
    refine (htracks.ordered.append (by simp) (by simp)).move ?_
    rintro _ _ _ ⟨rfl, rfl, rfl⟩
    exact ⟨fun _ ↦ List.mem_append_left _ hbegun, fun _ ↦ List.mem_append_left _ hended⟩
  have hplaced := htracks.toPlaced.work (.inr ⟨_, hmode⟩) (by simp [hexec]) (by simp [hexec]) _
    [.destroyed task] hnext (by simp [TaskEvent.task]) hbuilt hordered
    (by simp [hmode, Mode.unfinished, ExecutePhase.unfinished])
  have hremaining : (s.nodes node).successors.drop next = [] :=
    List.drop_eq_nil_of_le (List.getElem?_eq_none_iff.mp hsuccessor)
  rw [hdestroy]
  exact ⟨_, swept, hplaced, htracks.charged.move _ (by simp [hmode])
    (by rw [hmode]; exact hremaining.symm) (Or.inl rfl),
    htracks.sweeping.work (.inr ⟨_, hmode⟩) rfl⟩

/-- An executor puts its node on the free list. -/
theorem Tracks.push (htracks : Tracks mode swept s)
    (hexec : s.execs exec = some (.executing node task .cleared)) :
    Tracked (s.run exec (.executing node task .cleared)) := by
  have hmode := (htracks.exec.matches_executing exec task .cleared node).mpr hexec
  have hlt := htracks.pool.lt_of_ne (by simp [hmode] : mode node ≠ .pooled)
  have hpending := htracks.charged.pending_of_ne hmode (by simp)
  have hfits := htracks.fits_of_eq hmode
  have hnext : (Mode.free : Mode Client Exec).Fits (s.nodes node) :=
    ⟨hfits.invoke_eq, hfits.destroy_eq, hfits.callable_eq, by simp⟩
  refine ⟨Function.update mode node .free, swept,
    { pool := htracks.pool.keep (by simp [hmode]) (by simp)
      free := htracks.free.push (by simp [hmode])
      client := htracks.client.keep (by simp [hmode]) (by simp)
      queue := htracks.queue.keep (by simp [hmode]) (by simp)
      exec := htracks.exec.move (fun other hother ↦ ?_) (by simp) (fun other task' hother ↦ ?_)
        (by simp) (by simp) (by simp)
      fits := fits_keep htracks.fits hnext
      slotted := htracks.slotted.keep (by rw [hmode]; rfl)
      named := htracks.named.drop rfl
      built := htracks.built.move (by rw [hmode]; rfl)
      ordered := htracks.ordered.move (by simp)
      counted := htracks.counted.push hlt (by rw [hmode]; rfl) rfl (by simp [hexec])
      handled := htracks.handled.keep (by simp) (by simp [hmode])
        (by simp [hmode, Mode.unfinished, ExecutePhase.unfinished]) (by simp)
      exclusive := htracks.exclusive.exec exec (by simp [hexec])
      charged := htracks.charged.keep (by simp [hmode]) (by rw [hmode]; rfl) hpending
      sweeping := htracks.sweeping.work (.inr ⟨_, hmode⟩) rfl }⟩
  · simp [hexec, Ne.symm hother]
  · simp [hmode, Ne.symm hother]

/-- An executor is done. -/
theorem Tracks.retire (htracks : Tracks mode swept s) (hexec : s.execs exec = some .retiring) :
    Tracked (s.run exec .retiring) :=
  ⟨mode, swept, { htracks with
    exec := htracks.exec.other (by simp [hexec]) (by simp)
    counted := htracks.counted.retire hexec (by simp)
    exclusive := htracks.exclusive.exec exec (by simp [hexec]) }⟩

/-- A state in which the clients are where they were, and so is what only they change. -/
structure LiveGraph.SameClients (s s' : LiveGraph Client Exec) : Prop where
  clients : s'.clients = s.clients
  tasks : s'.tasks = s.tasks
  taskCount : s'.taskCount = s.taskCount
  maxTasks : s'.maxTasks = s.maxTasks
  submitted : s'.submitted = s.submitted
  halted : s'.halted = s.halted
  nextTask : s'.nextTask = s.nextTask
  handles : s'.handles = s.handles
  edges : s'.edges = s.edges
  events : ∃ new, s'.events = s.events ++ new ∧ ∀ event ∈ new, event.task.isSome

omit [Fintype Exec] in
/-- Executors do not change what only the clients change. -/
theorem LiveGraph.sameClients_run (s : LiveGraph Client Exec) (exec : Exec) (call : ExecutorCall) :
    s.SameClients (s.run exec call) := by
  have hsilent : ∃ new, s.events = s.events ++ new ∧ ∀ event ∈ new, event.task.isSome :=
    ⟨[], by rw [List.append_nil], by simp⟩
  cases call with
  | taken node =>
    cases hinvoke : (s.nodes node).invoke <;> simp only [run, hinvoke] <;>
      exact ⟨rfl, rfl, rfl, rfl, rfl, rfl, rfl, rfl, rfl, hsilent⟩
  | executing node task phase =>
    cases phase with
    | starting =>
      exact ⟨rfl, rfl, rfl, rfl, rfl, rfl, rfl, rfl, rfl, [.started task], rfl,
        by simp [TaskEvent.task]⟩
    | running =>
      exact ⟨rfl, rfl, rfl, rfl, rfl, rfl, rfl, rfl, rfl, [.finished task], rfl,
        by simp [TaskEvent.task]⟩
    | releasing next =>
      cases hsuccessor : (s.nodes node).successors[next]? with
      | some successor =>
        simp only [run, hsuccessor]
        rw [s.countDown_eq]
        exact ⟨rfl, rfl, rfl, rfl, rfl, rfl, rfl, rfl, rfl, hsilent⟩
      | none =>
        simp only [run, hsuccessor]
        unfold destroyCallable
        split
        · exact ⟨rfl, rfl, rfl, rfl, rfl, rfl, rfl, rfl, rfl, [.destroyed _], rfl,
            by simp [TaskEvent.task]⟩
        · exact ⟨rfl, rfl, rfl, rfl, rfl, rfl, rfl, rfl, rfl, hsilent⟩
    | cleared => exact ⟨rfl, rfl, rfl, rfl, rfl, rfl, rfl, rfl, rfl, hsilent⟩
  | retiring => exact ⟨rfl, rfl, rfl, rfl, rfl, rfl, rfl, rfl, rfl, hsilent⟩

/-- An `execute` call takes its next step. -/
theorem Tracks.run (htracks : Tracks mode swept s) {call : ExecutorCall}
    (hexec : s.execs exec = some call) : Tracked (s.run exec call) := by
  cases call with
  | taken node => exact htracks.exchange hexec
  | executing node task phase =>
    cases phase with
    | starting => exact htracks.start hexec
    | running => exact htracks.finish hexec
    | releasing next =>
      cases hsuccessor : (s.nodes node).successors[next]? with
      | some successor =>
        have hnext := htracks.release hexec hsuccessor
        simpa only [LiveGraph.run, hsuccessor] using hnext
      | none =>
        have hnext := htracks.clear hexec hsuccessor
        simpa only [LiveGraph.run, hsuccessor] using hnext
    | cleared => exact htracks.push hexec
  | retiring => exact htracks.retire hexec

/-! ### What a client's step leaves -/

variable [DecidableEq Client] {client : Client}

/-- A state in which one client is at another point of creating or submitting tasks, and what only
the executors, a reset or `add_dependency` change is as it was. -/
structure LiveGraph.ClientMoved (s : LiveGraph Client Exec) (client : Client)
    (s' : LiveGraph Client Exec) : Prop where
  edges : s'.edges = s.edges
  nextTask : s'.nextTask = s.nextTask
  maxTasks : s'.maxTasks = s.maxTasks
  clients : ∃ after, s'.clients = Function.update s.clients client after ∧
    after.any ClientCall.exclusive = false ∧ ∀ task seen, after ≠ some (.pooling task seen)
  events : ∃ new, s'.events = s.events ++ new ∧ ∀ event ∈ new, ∀ task, event ≠ .finished task

omit [DecidableEq Exec] in
/-- A call that creates or submits tasks takes its next step. -/
theorem LiveGraph.clientMoved_advance {call : ClientCall} {next : LiveGraph Client Exec}
    (hnormal : call.exclusive = false) (hnext : s.advance client call = some next) :
    s.ClientMoved client next := by
  have hsilent : ∃ new, s.events = s.events ++ new ∧
      ∀ event ∈ new, ∀ task, event ≠ .finished task :=
    ⟨[], (List.append_nil _).symm, by simp⟩
  have hrefused : ∀ seen, ∃ new, s.events ++ [.refused seen] = s.events ++ new ∧
      ∀ event ∈ new, ∀ task, event ≠ .finished task := fun seen ↦ ⟨_, rfl, by simp⟩
  cases call with
  | pooling task seen =>
    rw [← Option.some.inj hnext]
    split_ifs
    · exact ⟨rfl, rfl, rfl, ⟨none, rfl, rfl, by simp⟩, hrefused seen⟩
    · exact ⟨rfl, rfl, rfl, ⟨some (.allocating task seen), rfl, rfl, by simp⟩, hsilent⟩
  | allocating task seen =>
    rw [← Option.some.inj hnext]
    cases s.freeBlocks with
    | nil => exact ⟨rfl, rfl, rfl, ⟨none, rfl, rfl, by simp⟩, hrefused seen⟩
    | cons node rest =>
      exact ⟨rfl, rfl, rfl, ⟨some (.creating task node .counting), rfl, rfl, by simp⟩, hsilent⟩
  | creating task node stage =>
    rw [← Option.some.inj hnext]
    cases stage with
    | constructing live =>
      exact ⟨rfl, rfl, rfl, ⟨some (.creating task node (.adding live)), rfl, rfl, by simp⟩,
        [.constructed task], rfl, by simp⟩
    | adding live =>
      cases live with
      | false => exact ⟨rfl, rfl, rfl, ⟨none, rfl, rfl, by simp⟩, hsilent⟩
      | true =>
        exact ⟨rfl, rfl, rfl, ⟨some (.creating task node .dispatching), rfl, rfl, by simp⟩, hsilent⟩
    | dispatching => exact ⟨rfl, rfl, rfl, ⟨none, rfl, rfl, by simp⟩, hsilent⟩
    | _ => exact ⟨rfl, rfl, rfl, ⟨some (.creating task node _), rfl, rfl, by simp⟩, hsilent⟩
  | sweeping index =>
    rw [← Option.some.inj hnext]
    split_ifs
    · exact ⟨rfl, rfl, rfl, ⟨some (.reading index), rfl, rfl, by simp⟩, hsilent⟩
    · exact ⟨rfl, rfl, rfl, ⟨none, rfl, rfl, by simp⟩, hsilent⟩
  | reading index =>
    rw [← Option.some.inj hnext]
    cases s.tasks index with
    | none => exact ⟨rfl, rfl, rfl, ⟨some (.sweeping (index + 1)), rfl, rfl, by simp⟩, hsilent⟩
    | some node => exact ⟨rfl, rfl, rfl, ⟨some (.lowering index node), rfl, rfl, by simp⟩, hsilent⟩
  | lowering index node =>
    rw [← Option.some.inj hnext, s.countDown_eq]
    exact ⟨rfl, rfl, rfl, ⟨some (.sweeping (index + 1)), rfl, rfl, by simp⟩, hsilent⟩
  | _ => contradiction

omit [DecidableEq Exec] in
/-- A call that creates or submits tasks leaves the flag as it is once it is in progress. -/
theorem LiveGraph.submitted_advance {call : ClientCall} {next : LiveGraph Client Exec}
    (hnormal : call.exclusive = false) (hnext : s.advance client call = some next) :
    next.submitted = s.submitted := by
  cases call with
  | pooling task seen =>
    rw [← Option.some.inj hnext]
    split_ifs <;> rfl
  | allocating task seen =>
    rw [← Option.some.inj hnext]
    cases s.freeBlocks <;> rfl
  | creating task node stage =>
    rw [← Option.some.inj hnext]
    cases stage with
    | adding live => cases live <;> rfl
    | _ => rfl
  | lowering index node =>
    rw [← Option.some.inj hnext, s.countDown_eq]
    rfl
  | sweeping index =>
    rw [← Option.some.inj hnext]
    rfl
  | reading index =>
    rw [← Option.some.inj hnext]
    rfl
  | _ => contradiction

/-- A call begins to submit, or finds the graph submitted and returns. -/
theorem LiveGraph.clientMoved_submit {next : LiveGraph Client Exec}
    (hnext : LiveGraph.step s (.submit client) = some next) : s.ClientMoved client next := by
  cases stepped_of_step hnext with
  | submit hidle =>
    have hsilent : ∃ new, s.events = s.events ++ new ∧
        ∀ event ∈ new, ∀ task, event ≠ .finished task := ⟨[], (List.append_nil _).symm, by simp⟩
    split_ifs
    · have hsame : s.clients = Function.update s.clients client none :=
        (Function.update_eq_self_iff.mpr hidle.symm).symm
      exact ⟨rfl, rfl, rfl, ⟨none, hsame, rfl, by simp⟩, hsilent⟩
    · exact ⟨rfl, rfl, rfl, ⟨some (.sweeping 0), rfl, rfl, by simp⟩, hsilent⟩

/-! ### Runs -/

omit [DecidableEq Exec] in
/-- A client's call takes its next step. -/
theorem Tracks.advance {client : Client} {call : ClientCall} {next : LiveGraph Client Exec}
    (htracks : Tracks mode swept s) (hcall : s.clients client = some call)
    (hdisciplined : Disciplined s (.advance client)) (hnext : s.advance client call = some next) :
    Tracked next ∨ Closed next := by
  rw [Disciplined, hcall] at hdisciplined
  cases call with
  | pooling task seen =>
    refine .inl ⟨mode, swept, ?_⟩
    rw [← Option.some.inj hnext]
    split_ifs
    · exact htracks.refuse hcall rfl seen
    · exact htracks.recall hcall rfl (by simp [ClientCall.asking])
  | allocating task seen =>
    rw [← Option.some.inj hnext]
    cases hblocks : s.freeBlocks with
    | nil => exact .inl ⟨_, _, htracks.refuse hcall rfl seen⟩
    | cons node rest => exact .inl ⟨_, _, htracks.allocate hcall hblocks⟩
  | creating task node stage =>
    rw [← Option.some.inj hnext]
    refine .inl (htracks.advanceCreate hcall ?_)
    rintro rfl
    exact hdisciplined
  | sweeping index =>
    rw [← Option.some.inj hnext]
    exact .inl ⟨_, _, htracks.sweep hcall⟩
  | reading index =>
    rw [← Option.some.inj hnext]
    exact .inl (htracks.read hcall)
  | lowering index node =>
    rw [← Option.some.inj hnext]
    exact .inl ⟨_, _, htracks.lower hcall hdisciplined⟩
  | resetting =>
    rw [← Option.some.inj hnext]
    exact .inl ⟨_, _, htracks.empty hcall⟩
  | reopening =>
    rw [← Option.some.inj hnext]
    exact .inl ⟨_, _, htracks.reopen hcall⟩
  | stopping =>
    rw [LiveGraph.advance] at hnext
    split_ifs at hnext with hexecs
    rw [← Option.some.inj hnext]
    exact .inl ⟨_, _, htracks.join hcall hexecs⟩
  | joined =>
    rw [← Option.some.inj hnext]
    exact .inr (htracks.close hcall)
  | closed => contradiction

/-- A disciplined step. -/
theorem Tracks.step {action : LiveAction Client Exec} {next : LiveGraph Client Exec}
    (htracks : Tracks mode swept s) (hdisciplined : Disciplined s action)
    (hnext : LiveGraph.step s action = some next) : Tracked next ∨ Closed next := by
  cases LiveGraph.stepped_of_step hnext with
  | @create client size alignment hidle =>
    exact .inl (htracks.create hidle hdisciplined size alignment)
  | addDependency hidle hprerequisite hdependent =>
    exact .inl ⟨_, _, htracks.addDependency hdisciplined.2.1 hprerequisite hdependent
      hdisciplined.2.2⟩
  | submit hidle => exact .inl (htracks.submit hidle hdisciplined)
  | wait hidle hnone => exact .inl ⟨_, _, htracks⟩
  | reset hidle hnone => exact .inl ⟨_, _, htracks.reset hdisciplined.1 hdisciplined.2 hnone⟩
  | destroy hidle => exact .inl ⟨_, _, htracks.destroy hdisciplined⟩
  | advance hcall hadvance => exact htracks.advance hcall hdisciplined hadvance
  | take hexec hhalted hnode => exact .inl (htracks.take hexec hhalted hnode)
  | run hcall => exact .inl (htracks.run hcall)

/-- Disciplined runs stay in graphs that are tracked, until the destructor is done. -/
theorem tracked_or_closed {maxTasks : ℕ}
    (hreach : (liveGraph Client Exec).Reaches Disciplined (.new maxTasks) s) :
    Tracked s ∨ Closed s := by
  refine hreach.invariant (.inl ⟨_, _, tracks_new maxTasks⟩) ?_
  intro state action next hstate hdisciplined hnext
  rcases hstate with ⟨mode, swept, htracks⟩ | hclosed
  · exact htracks.step hdisciplined hnext
  · exact absurd (hnext.symm.trans (hclosed.no_step hdisciplined)) (by simp)

end GameEngine.Core
