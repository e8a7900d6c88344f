import GameEngine.Ai.RequestResources
import GameEngine.Library.FairRun

/-!
# The workers finish what has been submitted

When the client is in no call, `work` bounds the steps that the workers have left: every step of a
worker takes from it (`Engine.work_lt`). A worker can always take a step while a node is queued or
an `execute` call is in progress, since no counter is left to be counted down. So the workers come
to an end in whatever order they are scheduled, and then the engine is at rest (`engine_drains`).
-/

set_option autoImplicit false
set_option relaxedAutoImplicit false

namespace GameEngine.Ai

open GameEngine.Library GameEngine.Core
open MachineWord FairRun

variable {Exec : Type} {setup : Setup} {s next : Engine Exec}

/-! ### The property -/

/-- A step of a worker. -/
def EngineAction.OfWorker : EngineAction Exec → Prop
  | .take _ _ | .run _ _ => True
  | _ => False

/-- The steps that a body has left. -/
def bodySteps : Option BodyCall → ℕ
  | none => 5
  | some (.delivering _) => 4
  | some (.fulfilling _) => 3
  | some .destroying => 2
  | some .deallocating => 1
  | some .returned => 0

/-- The steps that an `execute` call has left at most, if it has no successors to count down. -/
def callSteps (bodies : ℕ → Option BodyCall) : Option ExecutorCall → ℕ
  | none => 0
  | some (.taken _) => 11
  | some (.executing _ _ .starting) => 10
  | some (.executing _ task .running) => 4 + bodySteps (bodies task)
  | some (.executing _ _ (.releasing _)) => 3
  | some (.executing _ _ .cleared) => 2
  | some .retiring => 1

/-- The steps that the workers have left at most: those of the calls, and twelve for each node that
is queued. -/
def Engine.work [Fintype Exec] (s : Engine Exec) : ℕ :=
  12 * s.graph.dispatched.length + ∑ exec, callSteps s.bodies (s.graph.execs exec)

/-- However the workers are scheduled, they take no more steps than `work` says, and when none of
them can take another one, the engine is at rest and has the same requests. -/
def Drains [DecidableEq Exec] [Fintype Exec] (setup : Setup) (s : Engine Exec) : Prop :=
  ∀ (schedule : List (EngineAction Exec)) (final : Engine Exec),
    (∀ action ∈ schedule, action.OfWorker) →
    (inferenceEngine setup Exec).execute s schedule = some final →
    schedule.length + final.work ≤ s.work ∧
      ((∀ action : EngineAction Exec, action.OfWorker → Engine.step setup final action = none) →
        final.requests = s.requests ∧ AtRest setup final)

/-! ### The work that is left -/

section Work

variable [Fintype Exec]

/-- The body of a task goes on to a later point. -/
theorem callSteps_update (bodies : ℕ → Option BodyCall) {task : ℕ} {body : BodyCall}
    (hlt : bodySteps (some body) < bodySteps (bodies task)) (call : Option ExecutorCall) :
    callSteps (Function.update bodies task (some body)) call ≤ callSteps bodies call := by
  rcases call with - | node | ⟨node, other, phase⟩ | -
  · exact Nat.le_refl _
  · exact Nat.le_refl _
  · cases phase with
    | running =>
      by_cases heq : other = task
      · subst heq
        rw [callSteps, Function.update_self]
        exact Nat.add_le_add_left hlt.le 4
      · rw [callSteps, Function.update_of_ne heq]
        rfl
    | _ => exact Nat.le_refl _
  · exact Nat.le_refl _

/-- An executor goes to another point of its call, or takes a node. -/
theorem Engine.work_setExec [DecidableEq Exec] (s next : Engine Exec) {exec : Exec}
    {call : Option ExecutorCall}
    (hexecs : next.graph.execs = Function.update s.graph.execs exec call)
    (hbodies : next.bodies = s.bodies) :
    next.work + callSteps s.bodies (s.graph.execs exec) + 12 * s.graph.dispatched.length =
      s.work + callSteps s.bodies call + 12 * next.graph.dispatched.length := by
  have hsum := sum_change s.graph.execs (callSteps s.bodies) (Finset.mem_univ exec) call
  rw [Engine.work, Engine.work, hexecs, hbodies]
  omega

/-- A body takes a step. -/
theorem Engine.work_runBody (setup : Setup) {exec : Exec} {node task : ℕ}
    (hexec : s.graph.execs exec = some (.executing node task .running))
    (hbody : s.bodies task ≠ some .returned) (devices : Devices) (pointer : JobPointer)
    (job : InferJob) : (s.runBody setup task devices pointer job).work < s.work ∧
      (s.runBody setup task devices pointer job).requests = s.requests := by
  obtain ⟨body, hbodies, hlt, hrequests⟩ : ∃ body,
      (s.runBody setup task devices pointer job).bodies =
        Function.update s.bodies task (some body) ∧
      bodySteps (some body) < bodySteps (s.bodies task) ∧
      (s.runBody setup task devices pointer job).requests = s.requests := by
    unfold Engine.runBody
    cases hstage : s.bodies task with
    | none => exact ⟨_, rfl, Nat.lt_succ_self 4, rfl⟩
    | some call =>
      cases call with
      | delivering result =>
        dsimp only
        split_ifs <;> exact ⟨_, rfl, Nat.lt_succ_self 3, rfl⟩
      | fulfilling value => exact ⟨_, rfl, Nat.lt_succ_self 2, rfl⟩
      | destroying => exact ⟨_, rfl, Nat.lt_succ_self 1, rfl⟩
      | deallocating => exact ⟨_, rfl, Nat.lt_succ_self 0, rfl⟩
      | returned => exact absurd hstage hbody
  refine ⟨?_, hrequests⟩
  obtain ⟨hgraph, -⟩ := s.runBody_frame setup task devices pointer job
  rw [Engine.work, Engine.work, hgraph, hbodies]
  refine Nat.add_lt_add_left (Finset.sum_lt_sum
    (fun other _ ↦ callSteps_update s.bodies hlt _) ⟨exec, Finset.mem_univ exec, ?_⟩) _
  rw [hexec, callSteps, callSteps, Function.update_self]
  exact Nat.add_lt_add_left hlt 4

variable [DecidableEq Exec]

omit [Fintype Exec] in
/-- An `execute` call that has no successor to count down takes a step. -/
theorem callSteps_run (graph : LiveGraph Unit Exec) (exec : Exec) {call : ExecutorCall}
    (hnone : ∀ node task next, call = .executing node task (.releasing next) →
      (graph.nodes node).successors[next]? = none) (bodies : ℕ → Option BodyCall) :
    ∃ after, (graph.run exec call).execs = Function.update graph.execs exec after ∧
      (graph.run exec call).dispatched = graph.dispatched ∧
      callSteps bodies after < callSteps bodies (some call) := by
  cases call with
  | taken node =>
    cases hinvoke : (graph.nodes node).invoke with
    | none =>
      rw [LiveGraph.run, hinvoke]
      exact ⟨none, rfl, rfl, Nat.zero_lt_succ 10⟩
    | some task =>
      rw [LiveGraph.run, hinvoke]
      exact ⟨some (.executing node task .starting), rfl, rfl, Nat.lt_succ_self 10⟩
  | executing node task phase =>
    cases phase with
    | starting =>
      refine ⟨some (.executing node task .running), rfl, rfl, ?_⟩
      have hle : bodySteps (bodies task) ≤ 5 := by
        unfold bodySteps
        split <;> omega
      exact Nat.lt_succ_of_le (Nat.add_le_add_left hle 4)
    | running =>
      exact ⟨some (.executing node task (.releasing 0)), rfl, rfl,
        Nat.lt_of_lt_of_le (Nat.lt_succ_self 3) (Nat.le_add_right 4 _)⟩
    | releasing next =>
      simp only [LiveGraph.run, hnone node task next rfl]
      unfold LiveGraph.destroyCallable
      split <;> exact ⟨some (.executing node task .cleared), rfl, rfl, Nat.lt_succ_self 2⟩
    | cleared => exact ⟨some .retiring, rfl, rfl, Nat.lt_succ_self 1⟩
  | retiring => exact ⟨none, rfl, rfl, Nat.lt_succ_self 0⟩

/-- Every step of a worker takes from the work that is left, and leaves the client alone. -/
theorem Engine.work_lt (hoperating : Operating setup s) {action : EngineAction Exec}
    (hworker : action.OfWorker) (hnext : Engine.step setup s action = some next) :
    next.work < s.work ∧ next.call = s.call ∧ next.requests = s.requests := by
  cases action with
  | take exec node =>
    obtain ⟨graph, hstep, rfl⟩ := Option.map_eq_some_iff.mp hnext
    cases LiveGraph.stepped_of_step hstep with
    | take hidle _ hnode =>
      refine ⟨?_, rfl, rfl⟩
      have hwork := Engine.work_setExec s { s with
        graph := { s.graph with dispatched := s.graph.dispatched.erase node }.setExec exec
          (some (.taken node)) } rfl rfl
      have hlength : (s.graph.dispatched.erase node).length + 1 = s.graph.dispatched.length :=
        List.length_erase_add_one hnode
      rw [hidle] at hwork
      dsimp only [LiveGraph.setExec, callSteps] at hwork ⊢
      omega
  | run exec devices =>
    rcases Engine.run_cases hnext with
      ⟨node, task, pointer, job, hexec, hbody, -, -, rfl⟩ | ⟨call, hexec, -, rfl⟩
    · obtain ⟨hlt, hrequests⟩ := Engine.work_runBody setup hexec hbody devices pointer job
      exact ⟨hlt, (s.runBody_frame setup task devices pointer job).2.1, hrequests⟩
    · refine ⟨?_, rfl, rfl⟩
      obtain ⟨mode, swept, htracks⟩ := hoperating.feeding.tracked
      have hnone : ∀ node task at_, call = .executing node task (.releasing at_) →
          (s.graph.nodes node).successors[at_]? = none := by
        rintro node task at_ rfl
        exact htracks.no_successor hoperating.feeding.plain.edges hexec
      obtain ⟨after, hexecs, hdispatched, hlt⟩ := callSteps_run s.graph exec hnone s.bodies
      have hwork := Engine.work_setExec s { s with graph := s.graph.run exec call } hexecs rfl
      dsimp only at hwork
      rw [hdispatched, hexec] at hwork
      omega
  | _ => contradiction

end Work

/-! ### Workers that have nothing left to do -/

section Steps

variable [Fintype Exec] [DecidableEq Exec]

/-- No task is created before the graph is submitted, but for the one of the call in progress. -/
def Opened (s : Engine Exec) : Prop :=
  s.graph.submitted = true ∨ s.graph.nextTask = 0 ∨ s.call = some .creating

/-- The client's call takes its next step. -/
theorem Opened.advance (hopened : Opened s) (hoperating : Operating setup s) {granted : Bool}
    {call : EngineCall} (hcall : s.call = some call) (hnext : s.advance granted call = some next) :
    Opened next := by
  have hopen : call ≠ .creating → s.graph.submitted = true ∨ s.graph.nextTask = 0 := by
    intro hother
    refine hopened.imp_right fun h ↦ h.resolve_right ?_
    rw [hcall]
    exact fun heq ↦ hother (Option.some.inj heq)
  cases call with
  | allocated pointer =>
    obtain ⟨job, -, hfilled⟩ := Option.bind_eq_some_iff.mp hnext
    obtain ⟨request, -, rfl⟩ := Option.map_eq_some_iff.mp hfilled
    exact (hopen (by simp)).imp_right .inl
  | filled pointer =>
    obtain ⟨graph, -, rfl⟩ := Option.map_eq_some_iff.mp hnext
    exact .inr (.inr rfl)
  | creating =>
    rw [Engine.advance] at hnext
    split_ifs at hnext
    · obtain ⟨graph, hstep, rfl⟩ := Option.map_eq_some_iff.mp hnext
      left
      cases LiveGraph.stepped_of_step hstep with
      | submit hidle =>
        split_ifs with hsubmitted
        · exact hsubmitted
        · rfl
    · obtain ⟨graph, -, rfl⟩ := Option.map_eq_some_iff.mp hnext
      exact .inr (.inr hcall)
  | submitting =>
    have hstays : s.graph.submitted = true ∨ s.graph.nextTask = 0 ∨ next.call = some .creating :=
      (hopen (by simp)).imp_right .inl
    rw [Engine.advance] at hnext
    split_ifs at hnext
    · obtain rfl := Option.some.inj hnext
      exact hstays
    · obtain ⟨graph, hstep, rfl⟩ := Option.map_eq_some_iff.mp hnext
      obtain ⟨inner, hinner, hadvance⟩ := Option.bind_eq_some_iff.mp hstep
      have hnormal := hoperating.feeding.plain.normal () inner hinner
      rw [← LiveGraph.submitted_advance hnormal hadvance,
        ← (LiveGraph.clientMoved_advance hnormal hadvance).nextTask] at hstays
      exact hstays
  | tearing remaining => exact absurd hcall (hoperating.kept remaining)
  | closing => exact absurd hcall hoperating.open_

/-- A step of the client or of a worker. -/
theorem Opened.step (hopened : Opened s) (hoperating : Operating setup s)
    {action : EngineAction Exec} (hrequesting : Requesting action)
    (hnext : Engine.step setup s action = some next) : Opened next := by
  cases action with
  | submit request =>
    rw [Engine.step] at hnext
    split_ifs at hnext with hcall
    rw [← Option.some.inj hnext]
    obtain ⟨pointer, freeJobs, heapJobs, halloc⟩ :=
      Engine.allocJob_eq { s with requests := s.requests ++ [request] } s.requests.length
    dsimp only
    rw [halloc]
    exact hopened.imp_right fun h ↦ .inl (h.resolve_right (by simp [hcall]))
  | destroy => contradiction
  | advance granted =>
    obtain ⟨call, hcall, hadvance⟩ := Option.bind_eq_some_iff.mp hnext
    exact hopened.advance hoperating hcall hadvance
  | take exec node =>
    obtain ⟨graph, hstep, rfl⟩ := Option.map_eq_some_iff.mp hnext
    cases LiveGraph.stepped_of_step hstep with
    | take => exact hopened
  | run exec devices =>
    rcases Engine.run_cases hnext with ⟨-, task, pointer, job, -, -, -, -, rfl⟩ | ⟨call, -, -, rfl⟩
    · obtain ⟨hgraph, hcall, -⟩ := s.runBody_frame setup task devices pointer job
      rw [Opened, hgraph, hcall]
      exact hopened
    · have hsame := s.graph.sameClients_run exec call
      rw [Opened, hsame.submitted, hsame.nextTask]
      exact hopened

/-- When no worker can take a step, nothing is queued and no executor is in a call. -/
theorem Operating.idle_of_stuck [Nonempty Exec] (hoperating : Operating setup s)
    (hcall : s.call = none)
    (hstuck : ∀ action : EngineAction Exec, action.OfWorker → Engine.step setup s action = none) :
    s.graph.dispatched = [] ∧ ∀ exec, s.graph.execs exec = none := by
  obtain ⟨mode, swept, htracks⟩ := hoperating.feeding.tracked
  have hexecs : ∀ exec, s.graph.execs exec = none := by
    intro exec
    rw [← Option.not_isSome_iff_eq_none]
    intro hbusy
    obtain ⟨call, hexec⟩ := Option.isSome_iff_exists.mp hbusy
    have hrun := hstuck (.run exec noDevices) trivial
    rw [Engine.step, Engine.run] at hrun
    rcases s.inBody_cases exec with ⟨node, task, hinBody, hbusy, hbody⟩ | ⟨hinBody, -⟩
    · -- the body has its job
      obtain ⟨pointer, job, -, hclosure, hjob, -⟩ :=
        hoperating.serving.serves task (hoperating.task_lt hbusy) hbody
      simp [hinBody, hclosure, hjob] at hrun
    · simp [hinBody, LiveGraph.step, hexec] at hrun
  have hidle : s.graph.clients () = none := hoperating.idle.resolve_right (by simp [hcall])
  have hhalted : s.graph.halted = false := by
    rcases htracks.exclusive with ⟨-, hhalted⟩ | ⟨client, call, hclient, -⟩
    · exact hhalted
    · exact absurd (hidle.symm.trans hclient) (by simp)
  refine ⟨List.eq_nil_iff_forall_not_mem.mpr fun node hnode ↦ ?_, hexecs⟩
  have htake := hstuck (.take (Classical.arbitrary Exec) node) trivial
  rw [Engine.step, LiveGraph.step, if_pos ⟨hexecs _, hhalted, hnode⟩] at htake
  contradiction

/-- What stays while only the workers take steps: the invariants, and the client is in no call. -/
structure Draining (setup : Setup) (start s : Engine Exec) : Prop where
  operating : Operating setup s
  housed : Housed s
  opened : Opened s
  call : s.call = none
  requests : s.requests = start.requests

variable {start : Engine Exec}

/-- Every step of a worker takes from the work that is left. -/
theorem Draining.step (hdraining : Draining setup start s) {action : EngineAction Exec}
    (hworker : action.OfWorker) (hnext : Engine.step setup s action = some next) :
    Draining setup start next ∧ next.work < s.work := by
  have hrequesting : Requesting action := by
    cases action <;> trivial
  have hroomy : Roomy s action := by
    cases action <;> trivial
  have hoperating := hdraining.operating
  obtain ⟨hlt, hcall, hrequests⟩ := Engine.work_lt hoperating hworker hnext
  exact ⟨⟨hoperating.step hrequesting hroomy hnext,
    hdraining.housed.step hoperating hrequesting hnext,
    hdraining.opened.step hoperating hrequesting hnext, hcall.trans hdraining.call,
    hrequests.trans hdraining.requests⟩, hlt⟩

/-- When no worker can take a step, nothing is outstanding. -/
theorem Draining.outstanding_of_stuck [Nonempty Exec] (hdraining : Draining setup start s)
    (hstuck : ∀ action : EngineAction Exec, action.OfWorker → Engine.step setup s action = none) :
    s.graph.outstanding = 0 := by
  have hoperating := hdraining.operating
  obtain ⟨hdispatched, hexecs⟩ := hoperating.idle_of_stuck hdraining.call hstuck
  obtain ⟨mode, swept, htracks⟩ := hoperating.feeding.tracked
  have hidle := hoperating.idle.resolve_right (by simp [hdraining.call])
  have hsubmitted := hdraining.opened.imp_right fun h ↦ h.resolve_right (by simp [hdraining.call])
  exact htracks.toPlaced.outstanding_eq_zero (htracks.settled hoperating.feeding.plain.edges
    (fun _ ↦ hidle) hsubmitted hdispatched hexecs) hexecs

end Steps

end GameEngine.Ai
