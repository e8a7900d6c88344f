import GameEngine.Core.GraphExecution

/-!
# Clients that create and submit at the same time

Several clients call `create_task` and `submit` on one graph, as concurrent calls of
`InferenceEngine::submit` do. `no_task_lost` shows that when all clients have returned, the graph is
submitted and no node is in a queue or with an executor, the bodies of all tasks that were handed
out have run.

It holds of the runs in which the calls stay out of each other's way (`Apart`). In other runs a task
is lost: the loop of `submit` takes the sentinel of a node whose `create_task` call has found the
graph not submitted but has not stored the sentinel yet, and no one lowers that counter again.
-/

set_option autoImplicit false
set_option relaxedAutoImplicit false

namespace GameEngine.Core

open GameEngine.Library
open MachineWord DependencyCount

variable {Client Exec : Type} [Fintype Exec] {mode : ℕ → Mode Client Exec} {swept : ℕ}
  {s next : LiveGraph Client Exec} {client : Client}

/-! ### The runs -/

/-- The calls that create and submit tasks, and the steps of the executors. -/
def Submitting : LiveAction Client Exec → Prop
  | .create _ _ _ | .submit _ | .advance _ | .take _ _ | .run _ => True
  | _ => False

instance : DecidablePred (Submitting : LiveAction Client Exec → Prop)
  | .create _ _ _ | .submit _ | .advance _ | .take _ _ | .run _ => isTrue trivial
  | .addDependency _ _ _ | .wait _ | .reset _ | .destroy _ => isFalse id

/-- A `create_task` call reads `task_count_` to enter its node only while no other one is between
that and storing its node in `tasks_`, and the loop of `submit` lowers the counter of no node whose
`create_task` call has found the graph not submitted and has not returned. -/
def Apart (s : LiveGraph Client Exec) : LiveAction Client Exec → Prop
  | .advance client =>
    match s.clients client with
    | some (.creating _ _ .counting) =>
      ∀ other call, s.clients other = some call → call.entering = none
    | some (.lowering _ node) =>
      ∀ other task stage, s.clients other = some (.creating task node stage) →
        stage.unsubmitted = false
    | _ => True
  | _ => True

/-- When all clients have returned and no node is in a queue or with an executor, the bodies of all
tasks that were handed out have run. -/
def NoTaskLost (s : LiveGraph Client Exec) : Prop :=
  (∀ client, s.clients client = none) → s.submitted = true → s.dispatched = [] →
    (∀ exec, s.execs exec = none) → ∀ handle ∈ s.handles, .finished handle.task ∈ s.events

/-- No dependency has been added, and the graph is neither reset nor destroyed. -/
structure Plain (s : LiveGraph Client Exec) : Prop where
  edges : s.edges = []
  normal : ∀ client call, s.clients client = some call → call.exclusive = false

theorem Plain.disciplined (hplain : Plain s) {action : LiveAction Client Exec}
    (hsubmitting : Submitting action) (hapart : Apart s action) : Disciplined s action := by
  cases action with
  | create client size alignment => exact hplain.normal
  | submit client => exact hplain.normal
  | advance client => exact hapart
  | take exec node => trivial
  | run exec => trivial
  | _ => contradiction

section Steps

variable [DecidableEq Client]

omit [Fintype Exec] in
theorem Plain.setClient (hplain : Plain s) {call : Option ClientCall}
    (hclients : next.clients = Function.update s.clients client call)
    (hedges : next.edges = s.edges) (hcall : call.any ClientCall.exclusive = false) :
    Plain next := by
  refine ⟨hedges.trans hplain.edges, fun other entry hentry ↦ ?_⟩
  rw [hclients] at hentry
  by_cases heq : other = client
  · subst heq
    rw [Function.update_self] at hentry
    rw [hentry] at hcall
    exact hcall
  · rw [Function.update_of_ne heq] at hentry
    exact hplain.normal other entry hentry

omit [Fintype Exec] in
theorem Plain.moved (hplain : Plain s) (hmoved : s.ClientMoved client next) : Plain next := by
  obtain ⟨after, hclients, hcall, -⟩ := hmoved.clients
  exact hplain.setClient hclients hmoved.edges hcall

variable [DecidableEq Exec]

theorem Plain.step (hplain : Plain s) {action : LiveAction Client Exec}
    (hsubmitting : Submitting action) (hnext : LiveGraph.step s action = some next) :
    Plain next := by
  cases LiveGraph.stepped_of_step hnext with
  | create =>
    unfold LiveGraph.create
    split_ifs
    · exact hplain
    · cases s.freeNodes.getLast? with
      | some node => exact hplain.setClient rfl rfl rfl
      | none => exact hplain.setClient rfl rfl rfl
  | submit => exact hplain.moved (LiveGraph.clientMoved_submit hnext)
  | @advance client call _ hcall hadvance =>
    exact hplain.moved (LiveGraph.clientMoved_advance (hplain.normal client call hcall) hadvance)
  | take => exact ⟨hplain.edges, hplain.normal⟩
  | @run exec call hcall =>
    have hsame := s.sameClients_run exec call
    exact ⟨hsame.edges.trans hplain.edges, hsame.clients ▸ hplain.normal⟩
  | _ => contradiction

end Steps

/-! ### No task is lost -/

/-- Nothing waits for a dependency in a graph without dependencies, so when `submit` is done and the
queues are empty, the nodes of the tasks are free again. -/
theorem Tracks.settled (htracks : Tracks mode swept s) (hedges : s.edges = [])
    (hclients : ∀ client, s.clients client = none)
    (hsubmitted : s.submitted = true ∨ s.nextTask = 0) (hdispatched : s.dispatched = [])
    (hexecs : ∀ exec, s.execs exec = none) (node : ℕ) :
    mode node = .pooled ∨ mode node = .free := by
  have hpending := htracks.charged.pending node
  cases hmode : mode node with
  | pooled => exact .inl rfl
  | free => exact .inr rfl
  | creating client task stage =>
    have hcall := (htracks.client client task stage node).mp hmode
    rw [hclients client] at hcall
    contradiction
  | waiting task =>
    exfalso
    have howed : listed (LiveGraph.poolBlocks s.maxTasks) (remainingAt mode s.nodes) node = 0 := by
      have hle := htracks.charged.edges_le node task hmode
      rw [hedges, List.countP_nil] at hle
      exact Nat.le_zero.mp hle
    have htask := htracks.named.mode_lt node task (by rw [hmode]; rfl)
    have hswept := htracks.sweeping.late (hsubmitted.resolve_right (by omega))
      (by simp [hclients]) node (by rw [hmode]; rfl)
    rw [hmode, howed] at hpending
    obtain ⟨sentinel, hsentinel, hpos, -⟩ := hpending
    rcases hsentinel with ⟨rfl, -⟩ | ⟨-, hunswept⟩
    · exact hpos.false
    · exact hunswept hswept
  | queued task =>
    have hmem := (htracks.queue.matches_list node).mp ⟨task, hmode⟩
    rw [hdispatched] at hmem
    contradiction
  | taken exec task =>
    have hexec := (htracks.exec.matches_taken exec node).mp ⟨task, hmode⟩
    rw [hexecs exec] at hexec
    contradiction
  | executing exec task phase =>
    have hexec := (htracks.exec.matches_executing exec task phase node).mp hmode
    rw [hexecs exec] at hexec
    contradiction

/-- Without dependencies no node has a successor to count down. -/
theorem Tracks.no_successor (htracks : Tracks mode swept s) (hedges : s.edges = []) {exec : Exec}
    {node task at_ : ℕ} (hexec : s.execs exec = some (.executing node task (.releasing at_))) :
    (s.nodes node).successors[at_]? = none := by
  rw [← Option.not_isSome_iff_eq_none]
  intro hsome
  obtain ⟨successor, hsuccessor⟩ := Option.isSome_iff_exists.mp hsome
  have hmode := (htracks.exec.matches_executing exec task _ node).mpr hexec
  have hne : mode node ≠ .pooled := by simp [hmode]
  have hlt := htracks.pool.lt_of_ne hne
  have howed := listed_successor hmode hsuccessor hlt
  obtain ⟨waiter, hwaiter⟩ := htracks.charged.waiting_successor hmode hsuccessor hlt
  have hle := htracks.charged.edges_le successor waiter hwaiter
  rw [hedges, List.countP_nil] at hle
  omega

/-- A task whose node is free has run. -/
theorem Tracks.noTaskLost (htracks : Tracks mode swept s) (hedges : s.edges = []) :
    NoTaskLost s := by
  intro hclients hsubmitted hdispatched hexecs handle hhandle
  refine (htracks.handled.unfinished handle hhandle).resolve_right fun hunfinished ↦ ?_
  rcases htracks.settled hedges hclients (.inl hsubmitted) hdispatched hexecs handle.node with
    hmode | hmode <;>
  · rw [hmode] at hunfinished
    contradiction

variable [DecidableEq Client] [DecidableEq Exec]

/-- When the calls stay out of each other's way, no task is lost. -/
theorem no_task_lost {maxTasks : ℕ} (hreach : (liveGraph Client Exec).Reaches
    (fun s action ↦ Submitting action ∧ Apart s action) (.new maxTasks) s) : NoTaskLost s := by
  have hinvariant : Tracked s ∧ Plain s := by
    refine hreach.invariant ⟨⟨_, _, tracks_new maxTasks⟩, rfl, nofun⟩ ?_
    rintro state action next ⟨⟨mode, swept, htracks⟩, hplain⟩ ⟨hsubmitting, hapart⟩ hnext
    have hplain' := hplain.step hsubmitting hnext
    refine ⟨?_, hplain'⟩
    rcases htracks.step (hplain.disciplined hsubmitting hapart) hnext with htracked | hclosed
    · exact htracked
    · obtain ⟨client, hclient, -⟩ := hclosed.alone
      exact absurd (hplain'.normal client _ hclient) (by simp [ClientCall.exclusive])
  obtain ⟨⟨mode, swept, htracks⟩, hplain⟩ := hinvariant
  exact htracks.noTaskLost hplain.edges

/-! ### Two clients -/

/-- The tests of `Apart` for two clients. -/
def apartCheck (s : LiveGraph (Fin 2) (Fin 1)) : LiveAction (Fin 2) (Fin 1) → Bool
  | .create _ _ _ | .submit _ | .take _ _ | .run _ => true
  | .advance client =>
    match s.clients client with
    | some (.creating _ _ .counting) =>
      decide (∀ other, (s.clients other).bind ClientCall.entering = none)
    | some (.lowering _ node) =>
      decide (∀ other, (s.clients other).all fun
        | .creating _ other stage => other ≠ node || !stage.unsubmitted
        | _ => true)
    | _ => true
  | _ => false

theorem apart_of_check {s : LiveGraph (Fin 2) (Fin 1)} {action : LiveAction (Fin 2) (Fin 1)}
    (hcheck : apartCheck s action = true) : Submitting action ∧ Apart s action := by
  cases action with
  | advance client =>
    refine ⟨trivial, ?_⟩
    rw [apartCheck] at hcheck
    rw [Apart]
    split at hcheck
    · intro other call hother
      have hnone := of_decide_eq_true hcheck other
      rwa [hother] at hnone
    · intro other task stage hother
      have hall := of_decide_eq_true hcheck other
      rw [hother] at hall
      simpa using hall
    · trivial
  | create client size alignment => exact ⟨trivial, trivial⟩
  | submit client => exact ⟨trivial, trivial⟩
  | take exec node => exact ⟨trivial, trivial⟩
  | run exec => exact ⟨trivial, trivial⟩
  | _ => contradiction

/-- The clients create one task each, one after the other, and submit; the first call of `submit`
dispatches both. -/
def bothSchedule (first second : Client) (exec : Exec) : List (LiveAction Client Exec) :=
  .create first 8 8 :: List.replicate 10 (.advance first) ++
    .create second 8 8 :: List.replicate 10 (.advance second) ++
    [.submit first, .submit second] ++ List.replicate 7 (.advance first) ++
    .take exec 0 :: List.replicate 6 (.run exec) ++ .take exec 1 :: List.replicate 6 (.run exec)

theorem no_task_lost_both : ∃ s : LiveGraph (Fin 2) (Fin 1),
    (liveGraph (Fin 2) (Fin 1)).Reaches (fun s action ↦ Submitting action ∧ Apart s action)
      (.new 8) s ∧ NoTaskLost s ∧ s.handles = [⟨0, 0, false⟩, ⟨1, 1, false⟩] ∧
      s.dispatched = [] := by
  obtain ⟨s, hreach, htest⟩ := TransitionSystem.Reaches.exists_of_any (liveGraph (Fin 2) (Fin 1))
    (.new 8) (bothSchedule 0 1 0) apartCheck
    (fun s ↦ decide (s.handles = [⟨0, 0, false⟩, ⟨1, 1, false⟩] ∧ s.dispatched = []))
    (fun _ _ ↦ apart_of_check) (by decide +kernel) (by decide +kernel)
  exact ⟨s, hreach, no_task_lost hreach, of_decide_eq_true htest⟩

/-- The first client enters its node into `tasks_` and finds the graph not submitted. Then the
second client creates and submits, and its loop lowers the counter of the first node from zero. Only
then the first client stores the sentinel and submits, to no effect. -/
def lostSchedule (first second : Client) (exec : Exec) : List (LiveAction Client Exec) :=
  .create first 8 8 :: List.replicate 7 (.advance first) ++
    .create second 8 8 :: List.replicate 10 (.advance second) ++
    .submit second :: List.replicate 7 (.advance second) ++
    .take exec 1 :: List.replicate 6 (.run exec) ++
    List.replicate 3 (.advance first) ++ [.submit first]

theorem task_lost : ¬ ∀ s : LiveGraph (Fin 2) (Fin 1), (liveGraph (Fin 2) (Fin 1)).Reaches
    (fun _ action ↦ Submitting action) (.new 8) s → NoTaskLost s := by
  intro hclaim
  obtain ⟨s, hreach, htest⟩ := TransitionSystem.Reaches.exists_of_any (liveGraph (Fin 2) (Fin 1))
    (.new 8) (lostSchedule 0 1 0) (fun _ action ↦ decide (Submitting action))
    (fun s ↦ decide ((∀ client, s.clients client = none) ∧ s.submitted = true ∧ s.dispatched = [] ∧
      (∀ exec, s.execs exec = none) ∧ (⟨0, 0, false⟩ : LiveHandle) ∈ s.handles ∧
      .finished 0 ∉ s.events))
    (fun _ _ h ↦ of_decide_eq_true h) (by decide +kernel) (by decide +kernel)
  obtain ⟨hclients, hsubmitted, hdispatched, hexecs, hhandle, hfinished⟩ := of_decide_eq_true htest
  exact hfinished (hclaim s hreach hclients hsubmitted hdispatched hexecs _ hhandle)

end GameEngine.Core
