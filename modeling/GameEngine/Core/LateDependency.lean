import GameEngine.Core.GraphExecution

/-!
# Dependencies added after `submit`

After `submit` a new task is dispatched at once, and `add_dependency` on it still returns true: it
raises a counter that nothing looks at before the body of the dependent starts. So a late dependency
is honoured only if the body of the prerequisite has returned by then and that of the dependent has
not started before (`late_dependencies`): in every run whose late dependencies are all of this kind
they are honoured in every state, and in a reachable graph to which a late dependency is added
otherwise, at least two executors can go on so that it is not.
-/

set_option autoImplicit false
set_option relaxedAutoImplicit false

namespace GameEngine.Core

open GameEngine.Library
open MachineWord DependencyCount TransitionSystem

variable {Client Exec : Type} {mode : ℕ → Mode Client Exec} {swept : ℕ}
  {s next : LiveGraph Client Exec} {exec : Exec} {node task : ℕ}

/-! ### Honoured dependencies -/

/-- The body of the dependent does not start before the body of the prerequisite has returned. -/
def Honoured (events : List TaskEvent) (edge : ℕ × ℕ) : Prop :=
  ∀ before, before ++ [.started edge.2] <+: events → .finished edge.1 ∈ before

/-- What is honoured when the prerequisite has returned stays honoured. -/
theorem Honoured.append {events : List TaskEvent} {edge : ℕ × ℕ} (hhonoured : Honoured events edge)
    (hfinished : .finished edge.1 ∈ events) (new : List TaskEvent) :
    Honoured (events ++ new) edge := by
  intro before hbefore
  rcases List.prefix_or_prefix_of_prefix hbefore (List.prefix_append events new) with hshort | hlong
  · exact hhonoured before hshort
  · rcases List.prefix_concat_iff.mp hlong with heq | hinside
    · exact hhonoured before (heq ▸ List.prefix_refl _)
    · exact hinside.subset hfinished

/-- `add_dependency` returns true. -/
def Accepts (s : LiveGraph Client Exec) (prerequisite dependent : LiveHandle) : Prop :=
  ¬ (prerequisite.node = dependent.node ∨
    kMaxSuccessors ≤ (s.nodes prerequisite.node).successors.length)

/-- The dependencies that have been accepted since a state are honoured. -/
def LateHonoured (start s : LiveGraph Client Exec) : Prop :=
  ∀ edge ∈ s.edges.drop start.edges.length, Honoured s.events edge

/-- `create_task` and `add_dependency` calls and the steps of the executors, in which a dependency
is accepted only when the body of its prerequisite has returned and that of its dependent has not
started before. -/
def AfterReturn (s : LiveGraph Client Exec) : LiveAction Client Exec → Prop
  | .addDependency _ prerequisite dependent => Accepts s prerequisite dependent →
      .finished prerequisite.task ∈ s.events ∧
        Honoured s.events (prerequisite.task, dependent.task)
  | .create _ _ _ | .advance _ | .take _ _ | .run _ => True
  | _ => False

/-! ### What a step adds -/

section Frame

variable [DecidableEq Client] [Fintype Exec] {client : Client}

/-- A call of a client records events and leaves the dependencies. -/
theorem LiveGraph.advance_frame {call : ClientCall} (hnext : s.advance client call = some next) :
    next.edges = s.edges ∧ s.events <+: next.events := by
  have hreset : s.resetNodes.edges = s.edges ∧ s.events <+: s.resetNodes.events := by
    obtain ⟨nodes, freeBlocks, tasks, new, hrest, -⟩ :=
      keepsRest_range { s with freeNodes := [] } s.taskCount
    rw [resetNodes, hrest]
    exact ⟨rfl, List.prefix_append ..⟩
  cases hexclusive : call.exclusive with
  | false =>
    have hmoved := clientMoved_advance hexclusive hnext
    obtain ⟨new, hevents, -⟩ := hmoved.events
    exact ⟨hmoved.edges, hevents ▸ List.prefix_append ..⟩
  | true =>
    cases call with
    | resetting => exact Option.some.inj hnext ▸ hreset
    | joined => exact Option.some.inj hnext ▸ hreset
    | stopping =>
      rw [LiveGraph.advance] at hnext
      split_ifs at hnext
      exact Option.some.inj hnext ▸ ⟨rfl, List.prefix_refl _⟩
    | reopening => exact Option.some.inj hnext ▸ ⟨rfl, List.prefix_refl _⟩
    | closed => contradiction
    | _ => contradiction

variable [DecidableEq Exec]

/-- A step records events, and accepts a dependency at most. -/
theorem LiveGraph.step_frame {action : LiveAction Client Exec}
    (hnext : LiveGraph.step s action = some next) :
    s.events <+: next.events ∧ (next.edges = s.edges ∨ ∃ client prerequisite dependent,
      action = .addDependency client prerequisite dependent ∧ Accepts s prerequisite dependent ∧
        next.edges = s.edges ++ [(prerequisite.task, dependent.task)]) := by
  cases stepped_of_step hnext with
  | create =>
    rw [create]
    split_ifs
    · exact ⟨List.prefix_refl _, .inl rfl⟩
    · cases s.freeNodes.getLast? with
      | some node => exact ⟨List.prefix_refl _, .inl rfl⟩
      | none => exact ⟨List.prefix_refl _, .inl rfl⟩
  | @addDependency client prerequisite dependent =>
    rw [addDependency]
    dsimp only
    split_ifs with hrefused
    · exact ⟨List.prefix_refl _, .inl rfl⟩
    · exact ⟨List.prefix_refl _, .inr ⟨client, prerequisite, dependent, rfl, hrefused, rfl⟩⟩
  | submit =>
    have hmoved := clientMoved_submit hnext
    obtain ⟨new, hevents, -⟩ := hmoved.events
    exact ⟨hevents ▸ List.prefix_append .., .inl hmoved.edges⟩
  | advance hcall hadvance =>
    obtain ⟨hedges, hevents⟩ := advance_frame hadvance
    exact ⟨hevents, .inl hedges⟩
  | @run exec call hcall =>
    have hsame := s.sameClients_run exec call
    obtain ⟨new, hnew, -⟩ := hsame.events
    exact ⟨hnew ▸ List.prefix_append .., .inl hsame.edges⟩
  | _ => exact ⟨List.prefix_refl _, .inl rfl⟩

/-- The dependencies that are accepted after the return of their prerequisites are honoured. -/
theorem lateHonoured_of_afterReturn {start : LiveGraph Client Exec}
    (hreach : (liveGraph Client Exec).Reaches AfterReturn start s) : LateHonoured start s := by
  have hinvariant : ∃ late, s.edges = start.edges ++ late ∧
      ∀ edge ∈ late, .finished edge.1 ∈ s.events ∧ Honoured s.events edge := by
    refine hreach.invariant ⟨[], (List.append_nil _).symm, by simp⟩ ?_
    rintro state action next ⟨late, hedges, hlate⟩ hguard hnext
    obtain ⟨⟨new, hnew⟩, hadded⟩ := LiveGraph.step_frame hnext
    have hkept : ∀ edge, .finished edge.1 ∈ state.events ∧ Honoured state.events edge →
        .finished edge.1 ∈ next.events ∧ Honoured next.events edge := by
      rintro edge ⟨hfinished, hhonoured⟩
      rw [← hnew]
      exact ⟨List.mem_append_left _ hfinished, hhonoured.append hfinished new⟩
    rcases hadded with hsame | ⟨client, prerequisite, dependent, rfl, haccepts, hadded⟩
    · exact ⟨late, hsame.trans hedges, fun edge hedge ↦ hkept edge (hlate edge hedge)⟩
    · refine ⟨late ++ [(prerequisite.task, dependent.task)], ?_, fun edge hedge ↦ hkept edge ?_⟩
      · rw [hadded, hedges, List.append_assoc]
      · rcases List.mem_append.mp hedge with hbefore | hafter
        · exact hlate edge hbefore
        · rw [List.mem_singleton.mp hafter]
          exact hguard haccepts
  obtain ⟨late, hedges, hlate⟩ := hinvariant
  intro edge hedge
  rw [hedges, List.drop_left] at hedge
  exact (hlate edge hedge).2

end Frame

/-! ### Executors that go on alone -/

section Alone

/-- What an executor leaves as it is while it works on a task in a node. -/
structure Aside (node task : ℕ) (s s' : LiveGraph Client Exec) : Prop where
  invoke : ∀ other, other ≠ node → (s'.nodes other).invoke = (s.nodes other).invoke
  dispatched : ∀ other ∈ s.dispatched, other ∈ s'.dispatched
  halted : s'.halted = s.halted
  finished : ∀ other, .finished other ∈ s'.events → .finished other ∈ s.events ∨ other = task

theorem Aside.refl (node task : ℕ) (s : LiveGraph Client Exec) : Aside node task s s :=
  ⟨fun _ _ ↦ rfl, fun _ h ↦ h, rfl, fun _ h ↦ .inl h⟩

theorem Aside.trans {s' s'' : LiveGraph Client Exec} (hfirst : Aside node task s s')
    (hsecond : Aside node task s' s'') : Aside node task s s'' where
  invoke := fun other hother ↦ (hsecond.invoke other hother).trans (hfirst.invoke other hother)
  dispatched := fun other hother ↦ hsecond.dispatched other (hfirst.dispatched other hother)
  halted := hsecond.halted.trans hfirst.halted
  finished := fun other hother ↦ (hsecond.finished other hother).elim (hfirst.finished other) .inr

/-- A node is changed, and other tasks are not finished. -/
theorem Aside.of_node (value : LiveNode) {events : List TaskEvent}
    (hevents : ∀ other, .finished other ∈ events → .finished other ∈ s.events ∨ other = task)
    (execs : CallTable Exec ExecutorCall) :
    Aside node task s { s.setNode node value with events := events, execs := execs } where
  invoke := fun _ hother ↦ congrArg LiveNode.invoke (Function.update_of_ne hother ..)
  dispatched := fun _ h ↦ h
  halted := rfl
  finished := hevents

variable [DecidableEq Client] [Fintype Exec] [DecidableEq Exec]

/-- An executor can come to the end of its `execute` call. -/
def Completes (exec : Exec) (node task : ℕ) (s : LiveGraph Client Exec) : Prop :=
  ∃ s', (liveGraph Client Exec).Reaches unguarded s s' ∧ s'.execs exec = none ∧ Aside node task s s'

theorem reaches_run {call : ExecutorCall} (hexec : s.execs exec = some call) :
    (liveGraph Client Exec).Reaches unguarded s (s.run exec call) := by
  have hstep : (s.execs exec).map (s.run exec) = some (s.run exec call) := by
    rw [hexec, Option.map_some]
  have hguard : unguarded s (.run exec : LiveAction Client Exec) := trivial
  exact .single hguard hstep

theorem Completes.step {call : ExecutorCall} (hexec : s.execs exec = some call)
    (haside : Aside node task s (s.run exec call))
    (hcompletes : Completes exec node task (s.run exec call)) : Completes exec node task s := by
  obtain ⟨s', hreach, hidle, haside'⟩ := hcompletes
  exact ⟨s', (reaches_run hexec).trans hreach, hidle, haside.trans haside'⟩

theorem completes_retiring (hexec : s.execs exec = some .retiring) (node task : ℕ) :
    Completes exec node task s :=
  .step hexec ⟨fun _ _ ↦ rfl, fun _ h ↦ h, rfl, fun _ h ↦ .inl h⟩
    ⟨_, .refl, Function.update_self .., .refl node task _⟩

theorem completes_cleared (hexec : s.execs exec = some (.executing node task .cleared)) :
    Completes exec node task s :=
  .step hexec ⟨fun _ _ ↦ rfl, fun _ h ↦ h, rfl, fun _ h ↦ .inl h⟩
    (completes_retiring (Function.update_self ..) node task)

/-- The successor array is finite. -/
theorem completes_releasing {left at_ : ℕ}
    (hexec : s.execs exec = some (.executing node task (.releasing at_)))
    (hleft : (s.nodes node).successors.length - at_ = left) : Completes exec node task s := by
  induction left generalizing s at_ with
  | zero =>
    have hnone : (s.nodes node).successors[at_]? = none := List.getElem?_eq_none_iff.mpr (by omega)
    have hrun : ∃ new, s.run exec (.executing node task (.releasing at_)) =
        { s.setNode node .blank with
          events := s.events ++ new
          execs := Function.update s.execs exec (some (.executing node task .cleared)) } ∧
        ∀ event ∈ new, ∃ other, event = .destroyed other := by
      simp only [LiveGraph.run, hnone]
      unfold LiveGraph.destroyCallable
      split
      · exact ⟨[.destroyed _], rfl, by simp⟩
      · exact ⟨[], by rw [List.append_nil]; rfl, by simp⟩
    obtain ⟨new, hrun, hnew⟩ := hrun
    refine .step hexec ?_ (completes_cleared ?_)
    · rw [hrun]
      refine .of_node _ (fun other hother ↦ .inl ?_) _
      rcases List.mem_append.mp hother with hbefore | hafter
      · exact hbefore
      · obtain ⟨destroyed, hdestroyed⟩ := hnew _ hafter
        contradiction
    · rw [hrun]
      exact Function.update_self ..
  | succ left ih =>
    have hlt : at_ < (s.nodes node).successors.length := by omega
    have hsome : (s.nodes node).successors[at_]? = some (s.nodes node).successors[at_] :=
      List.getElem?_eq_getElem hlt
    have hrun : s.run exec (.executing node task (.releasing at_)) =
        (s.countDown (s.nodes node).successors[at_]).setExec exec
          (some (.executing node task (.releasing (at_ + 1)))) := by
      simp only [LiveGraph.run, hsome]
    have hsame : ∀ successor other,
        ((s.countDown successor).nodes other).invoke = (s.nodes other).invoke ∧
          ((s.countDown successor).nodes other).successors = (s.nodes other).successors := by
      intro successor other
      rw [s.countDown_eq]
      by_cases heq : other = successor
      · subst heq
        simp
      · simp [heq]
    have hexec' : (s.run exec (.executing node task (.releasing at_))).execs exec =
        some (.executing node task (.releasing (at_ + 1))) := by
      rw [hrun]
      exact Function.update_self ..
    have hleft' : ((s.run exec (.executing node task (.releasing at_))).nodes
        node).successors.length - (at_ + 1) = left := by
      have hlength := congrArg List.length (hsame (s.nodes node).successors[at_] node).2
      rw [hrun]
      dsimp only [LiveGraph.setExec]
      omega
    refine .step hexec ?_ (ih hexec' hleft')
    rw [hrun]
    refine ⟨fun other _ ↦ (hsame _ other).1, fun other hother ↦ ?_, ?_, fun other hother ↦ .inl ?_⟩
    · rw [s.countDown_eq]
      dsimp only [LiveGraph.setExec]
      split_ifs
      · exact List.mem_append_left _ hother
      · exact hother
    · rw [s.countDown_eq]
      rfl
    · rw [s.countDown_eq] at hother
      exact hother

theorem completes_running (hexec : s.execs exec = some (.executing node task .running)) :
    Completes exec node task s := by
  refine .step hexec ⟨fun _ _ ↦ rfl, fun _ h ↦ h, rfl, fun other hother ↦ ?_⟩
    (completes_releasing (Function.update_self ..) rfl)
  rcases List.mem_append.mp hother with hbefore | hafter
  · exact .inl hbefore
  · exact .inr (TaskEvent.finished.inj (List.mem_singleton.mp hafter))

theorem completes_starting (hexec : s.execs exec = some (.executing node task .starting)) :
    Completes exec node task s :=
  .step hexec ⟨fun _ _ ↦ rfl, fun _ h ↦ h, rfl,
    fun _ hother ↦ .inl ((List.mem_append.mp hother).resolve_right (by simp))⟩
    (completes_running (Function.update_self ..))

theorem completes_executing {phase : ExecutePhase}
    (hexec : s.execs exec = some (.executing node task phase)) : Completes exec node task s := by
  cases phase with
  | starting => exact completes_starting hexec
  | running => exact completes_running hexec
  | releasing at_ => exact completes_releasing hexec rfl
  | cleared => exact completes_cleared hexec

theorem completes_taken (hexec : s.execs exec = some (.taken node))
    (hinvoke : (s.nodes node).invoke = some task) : Completes exec node task s := by
  have hrun : s.run exec (.taken node) = { s.setNode node { s.nodes node with invoke := none } with
      events := s.events
      execs := Function.update s.execs exec (some (.executing node task .starting)) } := by
    simp only [LiveGraph.run, hinvoke]
    rfl
  refine .step hexec ?_ (completes_starting ?_)
  · rw [hrun]
    exact .of_node _ (fun _ h ↦ .inl h) _
  · rw [hrun]
    exact Function.update_self ..

/-! ### Dependencies that are not honoured -/

/-- A run in which the dependent starts before the prerequisite has returned is possible. -/
def Ignores (s : LiveGraph Client Exec) (edge : ℕ × ℕ) : Prop :=
  ∃ s', (liveGraph Client Exec).Reaches unguarded s s' ∧ ¬ Honoured s'.events edge

variable {edge : ℕ × ℕ}

theorem Ignores.of_reaches {s' : LiveGraph Client Exec}
    (hreach : (liveGraph Client Exec).Reaches unguarded s s') (hignores : Ignores s' edge) :
    Ignores s edge := by
  obtain ⟨s'', hreach', hnot⟩ := hignores
  exact ⟨s'', hreach.trans hreach', hnot⟩

theorem ignores_starting (hfinished : .finished edge.1 ∉ s.events)
    (hexec : s.execs exec = some (.executing node edge.2 .starting)) : Ignores s edge :=
  ⟨_, reaches_run hexec, fun hhonoured ↦ hfinished (hhonoured s.events (List.prefix_refl _))⟩

theorem ignores_taken (hfinished : .finished edge.1 ∉ s.events)
    (hexec : s.execs exec = some (.taken node)) (hinvoke : (s.nodes node).invoke = some edge.2) :
    Ignores s edge := by
  have hreach := reaches_run hexec
  simp only [LiveGraph.run, hinvoke] at hreach
  have hstarting : ((s.setNode node { s.nodes node with invoke := none }).setExec exec
      (some (.executing node edge.2 .starting))).execs exec =
      some (.executing node edge.2 .starting) := Function.update_self ..
  exact .of_reaches hreach (ignores_starting hfinished hstarting)

theorem ignores_queued (hfinished : .finished edge.1 ∉ s.events) (hexec : s.execs exec = none)
    (hhalted : s.halted = false) (hnode : node ∈ s.dispatched)
    (hinvoke : (s.nodes node).invoke = some edge.2) : Ignores s edge := by
  have hguard : unguarded s (.take exec node : LiveAction Client Exec) := trivial
  have hstep : LiveGraph.step s (.take exec node) =
      some ({ s with dispatched := s.dispatched.erase node }.setExec exec
        (some (.taken node))) := by
    rw [LiveGraph.step, if_pos ⟨hexec, hhalted, hnode⟩]
  have htaken : ({ s with dispatched := s.dispatched.erase node }.setExec exec
      (some (.taken node))).execs exec = some (.taken node) := Function.update_self ..
  exact .of_reaches (.single hguard hstep) (ignores_taken hfinished htaken hinvoke)

/-- While a dependent is queued, an executor that is not at the prerequisite can start it. -/
theorem Completes.ignores {own other : ℕ} (hcompletes : Completes exec own other s)
    (hfinished : .finished edge.1 ∉ s.events) (hne : edge.1 ≠ other) (hnode : node ≠ own)
    (hhalted : s.halted = false) (hqueued : node ∈ s.dispatched)
    (hinvoke : (s.nodes node).invoke = some edge.2) : Ignores s edge := by
  obtain ⟨s', hreach, hidle, haside⟩ := hcompletes
  refine .of_reaches hreach (ignores_queued ?_ hidle (haside.halted.trans hhalted)
    (haside.dispatched node hqueued) ((haside.invoke node hnode).trans hinvoke))
  exact fun hafter ↦ (haside.finished _ hafter).elim hfinished hne

end Alone

section Exact

variable [DecidableEq Client] [Fintype Exec] [DecidableEq Exec]
  {prerequisite dependent : LiveHandle}

omit [Fintype Exec] [DecidableEq Client] [DecidableEq Exec] in
/-- An accepted dependency changes no `invoke`, no queue and no event. -/
theorem addDependency_frame (s : LiveGraph Client Exec) (prerequisite dependent : LiveHandle) :
    (∀ node, ((s.addDependency prerequisite dependent).nodes node).invoke = (s.nodes node).invoke) ∧
      (s.addDependency prerequisite dependent).dispatched = s.dispatched ∧
      (s.addDependency prerequisite dependent).halted = s.halted ∧
      (s.addDependency prerequisite dependent).execs = s.execs ∧
      (s.addDependency prerequisite dependent).events = s.events := by
  unfold LiveGraph.addDependency
  dsimp only
  split_ifs with hrefused
  · exact ⟨fun _ ↦ rfl, rfl, rfl, rfl, rfl⟩
  · refine ⟨fun node ↦ ?_, rfl, rfl, rfl, rfl⟩
    have hne : dependent.node ≠ prerequisite.node := fun heq ↦ hrefused (.inl heq.symm)
    by_cases hdep : node = dependent.node
    · subst hdep
      simp [LiveGraph.setNode, hne]
    · by_cases hpred : node = prerequisite.node
      · subst hpred
        simp [LiveGraph.setNode, hdep]
      · simp [LiveGraph.setNode, hdep, hpred]

omit [Fintype Exec] [DecidableEq Exec] [DecidableEq Client] in
/-- One of two executors is not at work on a task. -/
theorem exists_not_atWork [Nontrivial Exec] (mode : Mode Client Exec) (task : ℕ) :
    ∃ exec, ¬ mode.AtWork exec task := by
  by_cases hwork : ∃ exec, mode.AtWork exec task
  · obtain ⟨exec, hexec⟩ := hwork
    obtain ⟨other, hother⟩ := exists_ne exec
    refine ⟨other, fun hwork' ↦ hother ?_⟩
    rcases hexec with rfl | ⟨phase, rfl⟩ <;> rcases hwork' with heq | ⟨phase', heq⟩
    · exact (Mode.taken.inj heq).1.symm
    · contradiction
    · contradiction
    · exact (Mode.executing.inj heq).1.symm
  · obtain ⟨exec, -, -⟩ := exists_pair_ne Exec
    exact ⟨exec, fun hexec ↦ hwork ⟨exec, hexec⟩⟩

omit [Fintype Exec] [DecidableEq Exec] [DecidableEq Client] in
/-- A body that has started is recorded before everything that follows. -/
theorem not_honoured_of_started {events : List TaskEvent} {edge : ℕ × ℕ}
    (hstarted : .started edge.2 ∈ events) (hfinished : .finished edge.1 ∉ events) :
    ¬ Honoured events edge := by
  intro hhonoured
  obtain ⟨before, after, hsplit⟩ := List.append_of_mem hstarted
  have hinside : before ++ [.started edge.2] <+: events :=
    ⟨after, by rw [hsplit, List.append_assoc, List.singleton_append]⟩
  exact hfinished (hinside.subset (List.mem_append_left _ (hhonoured before hinside)))

/-- A late dependency on a task that has not returned can be ignored. -/
theorem Tracks.ignores [Nontrivial Exec] (htracks : Tracks mode swept s)
    (hhalted : s.halted = false) (hpred : prerequisite ∈ s.handles) (hdep : dependent ∈ s.handles)
    (hpredLive : prerequisite.live = true) (hdepLive : dependent.live = true)
    (haccepts : Accepts s prerequisite dependent)
    (hfinished : .finished prerequisite.task ∉ s.events) :
    Ignores (s.addDependency prerequisite dependent) (prerequisite.task, dependent.task) := by
  obtain ⟨hinvoke, hdispatched, hhalted', hexecs, hevents⟩ :=
    addDependency_frame s prerequisite dependent
  have hne : dependent.node ≠ prerequisite.node := fun heq ↦ haccepts (.inl heq.symm)
  rw [← hevents] at hfinished
  have hpredMode :=
    (htracks.handled.unfinished prerequisite hpred).resolve_left (hevents ▸ hfinished)
  have hpredWaits := htracks.handled.live prerequisite hpred hpredLive
  have hdepWaits := htracks.handled.live dependent hdep hdepLive
  have hpredTask : (mode prerequisite.node).task = some prerequisite.task :=
    Mode.task_of_unfinished hpredMode
  rcases htracks.handled.unfinished dependent hdep with hdepFinished | hdepMode
  · exact ⟨_, .refl, not_honoured_of_started (hevents ▸ htracks.ordered.started _ hdepFinished)
      hfinished⟩
  have hdepFits := (htracks.fits dependent.node).invoke_eq
  cases hmode : mode dependent.node with
  | waiting task =>
    rw [hmode] at hdepMode hdepWaits
    exact absurd (congrArg Mode.waiting (Option.some.inj hdepMode)) hdepWaits
  | queued task =>
    rw [hmode] at hdepMode hdepFits
    obtain rfl := Option.some.inj hdepMode
    have hqueued := (htracks.queue.matches_list dependent.node).mp ⟨_, hmode⟩
    rw [← hdispatched] at hqueued
    obtain ⟨exec, hexec⟩ := exists_not_atWork (mode prerequisite.node) prerequisite.task
    have hignores : ∀ own other, Completes exec own other
        (s.addDependency prerequisite dependent) → prerequisite.task ≠ other →
          dependent.node ≠ own → Ignores (s.addDependency prerequisite dependent)
            (prerequisite.task, dependent.task) := fun own other hcompletes hother hown ↦
      hcompletes.ignores hfinished hother hown (hhalted'.trans hhalted) hqueued
        ((hinvoke dependent.node).trans hdepFits)
    have hapart : ∀ own other, (mode own).AtWork exec other →
        prerequisite.task ≠ other ∧ dependent.node ≠ own := by
      refine fun own other hwork ↦ ⟨?_, ?_⟩
      · rintro rfl
        exact hexec (htracks.named.distinct own _ _ hwork.shape.2.2.2.2.2.2.2.1 hpredTask ▸ hwork)
      · rintro rfl
        exact hwork.shape.2.2.2.2.1 _ hmode
    cases hcall : s.execs exec with
    | none =>
      exact hignores (dependent.node + 1) (prerequisite.task + 1)
        ⟨_, .refl, (congrFun hexecs exec).trans hcall, .refl _ _ _⟩ (by omega) (by omega)
    | some call =>
      rw [← hexecs] at hcall
      cases call with
      | taken own =>
        obtain ⟨other, hother⟩ := (htracks.exec.matches_taken exec own).mpr (hexecs ▸ hcall)
        have hown : (s.nodes own).invoke = some other := by
          rw [(htracks.fits own).invoke_eq, hother]
          rfl
        obtain ⟨htask, hnode⟩ := hapart own other (.inl hother)
        exact hignores own other (completes_taken hcall ((hinvoke own).trans hown)) htask hnode
      | executing own other phase =>
        have hother := (htracks.exec.matches_executing exec other phase own).mpr (hexecs ▸ hcall)
        obtain ⟨htask, hnode⟩ := hapart own other (.inr ⟨phase, hother⟩)
        exact hignores own other (completes_executing hcall) htask hnode
      | retiring =>
        exact hignores (dependent.node + 1) (prerequisite.task + 1) (completes_retiring hcall _ _)
          (by omega) (by omega)
  | taken exec task =>
    rw [hmode] at hdepMode hdepFits
    obtain rfl := Option.some.inj hdepMode
    have hexec := (htracks.exec.matches_taken exec dependent.node).mp ⟨_, hmode⟩
    exact ignores_taken hfinished (hexecs ▸ hexec) ((hinvoke dependent.node).trans hdepFits)
  | executing exec task phase =>
    have hexec := (htracks.exec.matches_executing exec task phase dependent.node).mp hmode
    rw [hmode, Mode.unfinished] at hdepMode
    split_ifs at hdepMode with hphase
    obtain rfl := Option.some.inj hdepMode
    cases phase with
    | starting => exact ignores_starting hfinished (hexecs ▸ hexec)
    | running =>
      have hstarted := htracks.ordered.begun dependent.node exec _ .running hmode (by simp)
      exact ⟨_, .refl, not_honoured_of_started (hevents ▸ hstarted) hfinished⟩
    | _ => contradiction
  | _ =>
    rw [hmode] at hdepMode
    contradiction

/-- What was honoured after the return of its prerequisite is honoured in every continuation. -/
theorem honoured_of_reaches {start : LiveGraph Client Exec} {edge : ℕ × ℕ}
    (hfinished : .finished edge.1 ∈ start.events) (hhonoured : Honoured start.events edge)
    (hreach : (liveGraph Client Exec).Reaches unguarded start s) : Honoured s.events edge := by
  have hinvariant : .finished edge.1 ∈ s.events ∧ Honoured s.events edge := by
    refine hreach.invariant ⟨hfinished, hhonoured⟩ ?_
    rintro state action next ⟨hfinished, hhonoured⟩ - hnext
    obtain ⟨⟨new, hnew⟩, -⟩ := LiveGraph.step_frame hnext
    rw [← hnew]
    exact ⟨List.mem_append_left _ hfinished, hhonoured.append hfinished new⟩
  exact hinvariant.2

/-- Late dependencies are honoured when they are added after the return of their prerequisites and
before the start of their dependents. In a reachable graph to which no other late dependency has
been added, a late dependency is honoured in all continuations of at least two executors only if it
is added so. -/
theorem late_dependencies :
    (∀ start s : LiveGraph Client Exec, start.submitted = true →
      (liveGraph Client Exec).Reaches AfterReturn start s → LateHonoured start s) ∧
    (Nontrivial Exec → ∀ (maxTasks : ℕ) (s : LiveGraph Client Exec)
      (prerequisite dependent : LiveHandle),
      (liveGraph Client Exec).Reaches Disciplined (.new maxTasks) s →
      (∀ client call, s.clients client = some call → call.exclusive = false) →
      prerequisite ∈ s.handles → dependent ∈ s.handles →
      prerequisite.live = true → dependent.live = true → Accepts s prerequisite dependent →
      ((∀ s', (liveGraph Client Exec).Reaches unguarded
          (s.addDependency prerequisite dependent) s' →
          Honoured s'.events (prerequisite.task, dependent.task)) ↔
        .finished prerequisite.task ∈ s.events ∧
          Honoured s.events (prerequisite.task, dependent.task))) := by
  refine ⟨fun start s _ hreach ↦ lateHonoured_of_afterReturn hreach, ?_⟩
  intro hexecs maxTasks s prerequisite dependent hreach hnormal hpred hdep hpredLive
    hdepLive haccepts
  have hevents := (addDependency_frame s prerequisite dependent).2.2.2.2
  rcases tracked_or_closed hreach with ⟨mode, swept, htracks⟩ | hclosed
  swap
  · obtain ⟨client, hclient, -⟩ := hclosed.alone
    exact absurd (hnormal client _ hclient) (by simp [ClientCall.exclusive])
  constructor
  · intro hall
    refine ⟨?_, hevents ▸ hall _ .refl⟩
    by_contra hfinished
    obtain ⟨s', hreach', hnot⟩ := htracks.ignores (htracks.exclusive.normal hnormal) hpred hdep
      hpredLive hdepLive haccepts hfinished
    exact hnot (hall s' hreach')
  · rintro ⟨hfinished, hhonoured⟩ s' hreach'
    rw [← hevents] at hfinished hhonoured
    exact honoured_of_reaches hfinished hhonoured hreach'

end Exact

/-! ### One late dependency -/

/-- A graph that has been submitted without tasks. -/
def submittedGraph : LiveGraph Unit (Fin 2) :=
  { (LiveGraph.new 4).setClient () (some (.sweeping 0)) with submitted := true }.setClient () none

theorem reaches_submittedGraph :
    (liveGraph Unit (Fin 2)).Reaches Disciplined (.new 4) submittedGraph := by
  have hsubmit : Disciplined (LiveGraph.new 4 : LiveGraph Unit (Fin 2)) (.submit ()) := nofun
  have hsweep : Disciplined { (LiveGraph.new 4 : LiveGraph Unit (Fin 2)).setClient ()
      (some (.sweeping 0)) with submitted := true } (.advance ()) := trivial
  exact (Reaches.single hsubmit rfl).tail hsweep rfl

/-- Two tasks are created, and the first is executed before the second is made to wait for it. -/
def lateSchedule (first second : Exec) : List (LiveAction Unit Exec) :=
  .create () 8 8 :: List.replicate 11 (.advance ()) ++
    .create () 8 8 :: List.replicate 11 (.advance ()) ++
    .take first 0 :: List.replicate 6 (.run first) ++
    .addDependency () ⟨0, 0, true⟩ ⟨1, 1, true⟩ :: .take second 1 :: List.replicate 6 (.run second)

/-- A test of `AfterReturn`. -/
def afterReturnCheck (s : LiveGraph Unit (Fin 2)) : LiveAction Unit (Fin 2) → Bool
  | .addDependency _ prerequisite dependent => decide (.finished prerequisite.task ∈ s.events ∧
      .started dependent.task ∉ s.events)
  | .create _ _ _ | .advance _ | .take _ _ | .run _ => true
  | _ => false

theorem afterReturn_of_check {s : LiveGraph Unit (Fin 2)} {action : LiveAction Unit (Fin 2)}
    (hcheck : afterReturnCheck s action = true) : AfterReturn s action := by
  cases action with
  | addDependency client prerequisite dependent =>
    obtain ⟨hfinished, hstarted⟩ := of_decide_eq_true hcheck
    refine fun _ ↦ ⟨hfinished, fun before hbefore ↦ absurd (hbefore.subset ?_) hstarted⟩
    exact List.mem_append_right _ (List.mem_singleton_self _)
  | create client size alignment => trivial
  | advance client => trivial
  | take exec node => trivial
  | run exec => trivial
  | _ => contradiction

theorem late_dependencies_after : ∃ s : LiveGraph Unit (Fin 2),
    (liveGraph Unit (Fin 2)).Reaches AfterReturn submittedGraph s ∧ s.edges = [(0, 1)] ∧
      LateHonoured submittedGraph s := by
  obtain ⟨s, hreach, htest⟩ := Reaches.exists_of_any (liveGraph Unit (Fin 2)) submittedGraph
    (lateSchedule 0 1) afterReturnCheck (fun s ↦ decide (s.edges = [(0, 1)]))
    (fun _ _ ↦ afterReturn_of_check) (by decide +kernel) (by decide +kernel)
  exact ⟨s, hreach, of_decide_eq_true htest, late_dependencies.1 submittedGraph s rfl hreach⟩

/-- The calls of the client and the steps of the executors. -/
def LateCall : LiveAction Unit (Fin 2) → Bool
  | .create _ _ _ | .addDependency _ _ _ | .advance _ | .take _ _ | .run _ => true
  | _ => false

/-- Two tasks are created, the second is made to wait for the first, and starts. -/
def ignoredSchedule (exec : Exec) : List (LiveAction Unit Exec) :=
  .create () 8 8 :: List.replicate 11 (.advance ()) ++
    .create () 8 8 :: List.replicate 11 (.advance ()) ++
    [.addDependency () ⟨0, 0, true⟩ ⟨1, 1, true⟩, .take exec 1, .run exec, .run exec]

theorem late_dependency_ignored : ¬ ∀ start s : LiveGraph Unit (Fin 2),
    (liveGraph Unit (Fin 2)).Reaches Disciplined (.new 4) start → start.submitted = true →
      (liveGraph Unit (Fin 2)).Reaches (fun _ action ↦ LateCall action) start s →
        LateHonoured start s := by
  intro hclaim
  obtain ⟨s, hreach, htest⟩ := Reaches.exists_of_any (liveGraph Unit (Fin 2)) submittedGraph
    (ignoredSchedule 0) (fun _ action ↦ LateCall action)
    (fun s ↦ decide (s.edges = [(0, 1)] ∧
      s.events = [.constructed 0, .constructed 1, .started 1]))
    (fun _ _ h ↦ h) (by decide +kernel) (by decide +kernel)
  obtain ⟨hedges, hevents⟩ := of_decide_eq_true htest
  have hhonoured := hclaim submittedGraph s reaches_submittedGraph rfl hreach (0, 1)
    (hedges ▸ List.mem_singleton_self _)
  rw [hevents] at hhonoured
  exact absurd (hhonoured [.constructed 0, .constructed 1] (List.prefix_refl _)) (by decide)

end GameEngine.Core
