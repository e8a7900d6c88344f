import GameEngine.Ai.InferenceEngine
import GameEngine.Core.TaskPresence

/-!
# The destruction of an engine

The destructor of an engine destroys the accelerator, the session and the two pools before the
graph, whose destructor is the first to wait for the workers. `not_misused` shows that no body uses
a member that has been destroyed if the destructor is entered when the bodies of all created tasks
are done with the members. `session_misused` is a request that was still queued then.
-/

set_option autoImplicit false
set_option relaxedAutoImplicit false

namespace GameEngine.Core

open GameEngine.Library

variable {Client Exec : Type} [DecidableEq Client] [Fintype Exec] {s next : LiveGraph Client Exec}

/-- A reset and the destructor construct nothing, and go on as such. -/
theorem LiveGraph.advance_exclusive {client : Client} {call : ClientCall}
    (hexclusive : call.exclusive = true) (hnext : s.advance client call = some next) :
    (∀ task, .constructed task ∈ next.events → .constructed task ∈ s.events) ∧
      ∀ after, next.clients client = some after → after.exclusive = true := by
  have hreset : ∀ task, .constructed task ∈ s.resetNodes.events → .constructed task ∈ s.events := by
    intro task htask
    obtain ⟨nodes, freeBlocks, tasks, new, hrest, hnew⟩ :=
      keepsRest_range { s with freeNodes := [] } s.taskCount
    rw [resetNodes, hrest] at htask
    rcases List.mem_append.mp htask with hbefore | hafter
    · exact hbefore
    · obtain ⟨other, hother⟩ := hnew _ hafter
      contradiction
  have hcall : ∀ {clients : CallTable Client ClientCall} {own after : ClientCall},
      own.exclusive = true → Function.update clients client (some own) client = some after →
      after.exclusive = true := by
    intro clients own after hown hafter
    rw [Function.update_self] at hafter
    exact Option.some.inj hafter ▸ hown
  cases call with
  | resetting =>
    obtain rfl := Option.some.inj hnext
    exact ⟨hreset, fun after ↦ hcall rfl⟩
  | reopening =>
    obtain rfl := Option.some.inj hnext
    refine ⟨fun _ h ↦ h, fun after hafter ↦ ?_⟩
    simp [setClient] at hafter
  | stopping =>
    rw [advance] at hnext
    split_ifs at hnext
    obtain rfl := Option.some.inj hnext
    exact ⟨fun _ h ↦ h, fun after ↦ hcall rfl⟩
  | joined =>
    obtain rfl := Option.some.inj hnext
    exact ⟨hreset, fun after ↦ hcall rfl⟩
  | closed => contradiction
  | _ => contradiction

end GameEngine.Core

namespace GameEngine.Ai

open GameEngine.Library GameEngine.Core
open MachineWord

variable {Exec : Type} {setup : Setup} {s next : Engine Exec}

/-- The body of a task has returned, or all that is left to it is to give back the memory of a job
on the heap. -/
def Engine.UsesDone (s : Engine Exec) (number : ℕ) : Prop :=
  s.bodies number = some .returned ∨
    s.bodies number = some .deallocating ∧ ∃ own, s.closures number = some (.heap own)

/-- The destructor is entered when the bodies of all created tasks are done with the members. -/
def Finished (s : Engine Exec) : EngineAction Exec → Prop
  | .destroy => ∀ number, .constructed number ∈ s.graph.events → s.UsesDone number
  | _ => True

/-- The call is the destructor. -/
def EngineCall.ending : EngineCall → Bool
  | .tearing _ | .closing => true
  | _ => false

/-- What holds of an engine whose destructor is entered in time. -/
structure Standing [Fintype Exec] (s : Engine Exec) : Prop where
  graph : Tracked s.graph ∨ Closed s.graph
  misused : s.misused = []
  intact : s.call.any EngineCall.ending = false → s.destroyed = []
  done : s.call.any EngineCall.ending = true →
    ∀ number, .constructed number ∈ s.graph.events → s.UsesDone number
  exclusive : s.call = some .closing → ∀ call, s.graph.clients () = some call →
    call.exclusive = true

section Steps

variable [Fintype Exec]

theorem standing_new : Standing (.new : Engine Exec) where
  graph := .inl ⟨_, _, tracks_new Engine.maxTasks⟩
  misused := rfl
  intact := fun _ ↦ rfl
  done := nofun
  exclusive := nofun

/-- A call other than the destructor goes on. -/
theorem Standing.call (hstanding : Standing s) (hending : s.call.any EngineCall.ending = false)
    (hgraph : Tracked next.graph ∨ Closed next.graph) (hmisused : next.misused = s.misused)
    (hdestroyed : next.destroyed = s.destroyed)
    (hnext : next.call.any EngineCall.ending = false) : Standing next where
  graph := hgraph
  misused := hmisused.trans hstanding.misused
  intact := fun _ ↦ hdestroyed.trans (hstanding.intact hending)
  done := fun h ↦ absurd (h.symm.trans hnext) (by simp)
  exclusive := fun h ↦ absurd hnext (by rw [h]; simp [EngineCall.ending])

/-- The task of a body has been created. -/
theorem Standing.constructed (hstanding : Standing s) {exec : Exec} {node task : ℕ}
    (hexec : s.graph.execs exec = some (.executing node task .running)) :
    .constructed task ∈ s.graph.events := by
  rcases hstanding.graph with ⟨mode, swept, htracks⟩ | hclosed
  · have hmode := (htracks.exec.matches_executing exec task .running node).mpr hexec
    have hcount := htracks.built.present node task (by rw [hmode]; rfl)
    exact List.count_pos_iff.mp (by omega)
  · rw [hclosed.idle exec] at hexec
    contradiction

/-- A body takes its next step. Once the destructor is entered, that step uses no member. -/
theorem Standing.runBody (hstanding : Standing s) {exec : Exec} {node task : ℕ}
    (hexec : s.graph.execs exec = some (.executing node task .running))
    (hbody : s.bodies task ≠ some .returned) {pointer : JobPointer} {job : InferJob}
    (hclosure : s.closures task = some pointer) (devices : Devices) :
    Standing (s.runBody setup task devices pointer job) := by
  obtain ⟨hgraph, hcall, hdestroyed, hmisused⟩ := s.runBody_frame setup task devices pointer job
  cases hending : s.call.any EngineCall.ending with
  | false =>
    refine hstanding.call hending (hgraph ▸ hstanding.graph) ?_ hdestroyed (hcall ▸ hending)
    rw [hmisused, hstanding.intact hending]
    simp
  | true =>
    have hdone := hstanding.done hending
    obtain ⟨hdeallocating, own, hheap⟩ :=
      (hdone task (hstanding.constructed hexec)).resolve_left hbody
    obtain rfl := Option.some.inj (hclosure.symm.trans hheap)
    have hbodies : (s.runBody setup task devices (.heap own) job).bodies =
        Function.update s.bodies task (some .returned) := by
      rw [Engine.runBody, hdeallocating]
      rfl
    have hclosures : (s.runBody setup task devices (.heap own) job).closures = s.closures := by
      rw [Engine.runBody, hdeallocating]
      rfl
    refine ⟨hgraph ▸ hstanding.graph, ?_, fun h ↦ ?_, fun _ number hnumber ↦ ?_, ?_⟩
    · rw [hmisused, hdeallocating, hstanding.misused]
      rfl
    · rw [hcall, hending] at h
      contradiction
    · rw [hgraph] at hnumber
      rw [Engine.UsesDone, hbodies, hclosures]
      by_cases heq : number = task
      · rw [heq, Function.update_self]
        exact .inl rfl
      · rw [Function.update_of_ne heq]
        exact hdone number hnumber
    · rw [hcall, hgraph]
      exact hstanding.exclusive

variable [DecidableEq Exec]

/-- The destructor or an executor takes a step in the graph that constructs nothing. -/
theorem Standing.step_graph (hstanding : Standing s) {graph : LiveGraph Unit Exec}
    {action : LiveAction Unit Exec} (hwithin : WithinCounters s.graph action)
    (hstep : LiveGraph.step s.graph action = some graph)
    (hconstructed : ∀ number, .constructed number ∈ graph.events →
      .constructed number ∈ s.graph.events)
    (hexclusive : s.call = some .closing → ∀ call, graph.clients () = some call →
      call.exclusive = true) : Standing { s with graph := graph } where
  graph := hwithin.keeps hstanding.graph hstep
  misused := hstanding.misused
  intact := hstanding.intact
  done := fun hending number h ↦ hstanding.done hending number (hconstructed number h)
  exclusive := hexclusive

/-- The call of the client takes its next step. -/
theorem Standing.advance (hstanding : Standing s) {granted : Bool} {call : EngineCall}
    (hcall : s.call = some call) (hnext : s.advance granted call = some next) : Standing next := by
  have hkeeps : ∀ {action graph}, WithinCounters s.graph action →
      LiveGraph.step s.graph action = some graph → Tracked graph ∨ Closed graph :=
    fun hwithin hstep ↦ hwithin.keeps hstanding.graph hstep
  have hending : ∀ own, s.call = some own → own.ending = false →
      s.call.any EngineCall.ending = false := by
    intro own hown hending
    rw [hown]
    exact hending
  cases call with
  | allocated pointer =>
    obtain ⟨job, -, hfilled⟩ := Option.bind_eq_some_iff.mp hnext
    obtain ⟨request, -, rfl⟩ := Option.map_eq_some_iff.mp hfilled
    exact hstanding.call (hending _ hcall rfl) hstanding.graph rfl rfl rfl
  | filled pointer =>
    obtain ⟨graph, hstep, rfl⟩ := Option.map_eq_some_iff.mp hnext
    exact hstanding.call (hending _ hcall rfl) (hkeeps (by trivial) hstep) rfl rfl rfl
  | creating =>
    rw [Engine.advance] at hnext
    split_ifs at hnext
    · obtain ⟨graph, hstep, rfl⟩ := Option.map_eq_some_iff.mp hnext
      exact hstanding.call (hending _ hcall rfl) (hkeeps (by trivial) hstep) rfl rfl rfl
    · obtain ⟨graph, hstep, rfl⟩ := Option.map_eq_some_iff.mp hnext
      exact hstanding.call (hending _ hcall rfl) (hkeeps (by trivial) hstep) rfl rfl
        (hending _ hcall rfl)
  | submitting =>
    rw [Engine.advance] at hnext
    split_ifs at hnext
    · rw [← Option.some.inj hnext]
      exact hstanding.call (hending _ hcall rfl) hstanding.graph rfl rfl rfl
    · obtain ⟨graph, hstep, rfl⟩ := Option.map_eq_some_iff.mp hnext
      exact hstanding.call (hending _ hcall rfl) (hkeeps (by trivial) hstep) rfl rfl
        (hending _ hcall rfl)
  | tearing remaining =>
    have hdone := hstanding.done (by rw [hcall]; rfl)
    cases remaining with
    | cons member rest =>
      rw [← Option.some.inj hnext]
      exact ⟨hstanding.graph, hstanding.misused, by simp [EngineCall.ending], fun _ ↦ hdone,
        by simp⟩
    | nil =>
      obtain ⟨graph, hstep, rfl⟩ := Option.map_eq_some_iff.mp hnext
      have hgraph := hkeeps (by trivial) hstep
      rw [LiveGraph.step] at hstep
      split_ifs at hstep
      obtain rfl := Option.some.inj hstep
      refine ⟨hgraph, hstanding.misused, by simp [EngineCall.ending], fun _ ↦ hdone,
        fun _ call h ↦ ?_⟩
      obtain rfl : ClientCall.stopping = call := Option.some.inj h
      rfl
  | closing =>
    obtain ⟨graph, hstep, rfl⟩ := Option.map_eq_some_iff.mp hnext
    obtain ⟨inner, hinner, hadvance⟩ := Option.bind_eq_some_iff.mp hstep
    obtain ⟨hconstructed, hexclusive⟩ :=
      LiveGraph.advance_exclusive (hstanding.exclusive hcall inner hinner) hadvance
    exact hstanding.step_graph (by trivial) hstep hconstructed fun _ ↦ hexclusive

/-- A step of the client or of an executor. -/
theorem Standing.step (hstanding : Standing s) {action : EngineAction Exec}
    (hfinished : Finished s action) (hnext : Engine.step setup s action = some next) :
    Standing next := by
  cases action with
  | submit request =>
    rw [Engine.step] at hnext
    split_ifs at hnext with hcall
    obtain ⟨pointer, freeJobs, heapJobs, halloc⟩ :=
      Engine.allocJob_eq { s with requests := s.requests ++ [request] } s.requests.length
    rw [← Option.some.inj hnext, halloc]
    exact hstanding.call (by rw [hcall]; rfl) hstanding.graph rfl rfl rfl
  | destroy =>
    rw [Engine.step] at hnext
    split_ifs at hnext with hcall
    rw [← Option.some.inj hnext]
    exact ⟨hstanding.graph, hstanding.misused, nofun, fun _ ↦ hfinished, nofun⟩
  | advance granted =>
    obtain ⟨call, hcall, hadvance⟩ := Option.bind_eq_some_iff.mp hnext
    exact hstanding.advance hcall hadvance
  | take exec node =>
    obtain ⟨graph, hstep, rfl⟩ := Option.map_eq_some_iff.mp hnext
    have htaken := hstep
    rw [LiveGraph.step] at htaken
    split_ifs at htaken
    obtain rfl := Option.some.inj htaken
    exact hstanding.step_graph (by trivial) hstep (fun _ h ↦ h) hstanding.exclusive
  | run exec devices =>
    rcases Engine.run_cases hnext with
      ⟨node, task, pointer, job, hexec, hbody, hclosure, -, rfl⟩ | ⟨call, hexec, -, rfl⟩
    · exact hstanding.runBody hexec hbody hclosure devices
    · have hstep : LiveGraph.step s.graph (.run exec) = some (s.graph.run exec call) :=
        Option.map_eq_some_iff.mpr ⟨call, hexec, rfl⟩
      obtain ⟨new, hevents, hnew⟩ := (s.graph.extends_run exec call).events
      refine hstanding.step_graph (by trivial) hstep (fun number h ↦ ?_)
        (by rw [(s.graph.sameClients_run exec call).clients]; exact hstanding.exclusive)
      rw [hevents] at h
      rcases List.mem_append.mp h with hbefore | hafter
      · exact hbefore
      · exact absurd rfl ((hnew _ hafter).1 number)

/-- No body uses a member after its destruction if the destructor is entered when all bodies are
done with the members. -/
theorem not_misused (hreach : (inferenceEngine setup Exec).Reaches Finished .new s) :
    s.misused = [] := by
  refine (hreach.invariant standing_new ?_ : Standing s).misused
  intro state action after hstanding hfinished hnext
  exact hstanding.step hfinished hnext

end Steps

/-! ### A queued request -/

/-- One request is submitted and served, and the engine is destroyed. -/
def servedSchedule (exec : Exec) : List (EngineAction Exec) :=
  .submit emptyRequest :: List.replicate 18 (.advance true) ++
    .take exec 0 :: List.replicate 11 (.run exec noDevices) ++
    .destroy :: List.replicate 7 (.advance true)

/-- Decides `Finished` for an engine that has created one task. -/
def finishedCheck (s : Engine (Fin 1)) : EngineAction (Fin 1) → Bool
  | .destroy => s.graph.events.all fun event ↦ match event with
      | .constructed number => s.bodies number = some .returned
      | _ => true
  | _ => true

theorem finished_of_check (s : Engine (Fin 1)) (action : EngineAction (Fin 1))
    (hcheck : finishedCheck s action = true) : Finished s action := by
  cases action with
  | destroy =>
    intro number hconstructed
    exact .inl (of_decide_eq_true (List.all_eq_true.mp hcheck _ hconstructed))
  | _ => trivial

theorem not_misused_served : ∃ s : Engine (Fin 1),
    (inferenceEngine fallbackSetup (Fin 1)).Reaches Finished .new s ∧ s.misused = [] ∧
      s.destroyed = [.npu, .session, .jobPool, .tensorPool] ∧
      s.graph.clients () = some .closed := by
  obtain ⟨s, hreach, htest⟩ := TransitionSystem.Reaches.exists_of_any
    (inferenceEngine fallbackSetup (Fin 1)) .new (servedSchedule 0) finishedCheck
    (fun s ↦ decide (s.destroyed = [.npu, .session, .jobPool, .tensorPool] ∧
      s.graph.clients () = some .closed)) finished_of_check (by decide +kernel) (by decide +kernel)
  exact ⟨s, hreach, not_misused hreach, of_decide_eq_true htest⟩

/-- The engine is destroyed while the task of its only request is queued, and a worker takes the
task before the graph is told to stop. -/
def queuedSchedule (exec : Exec) : List (EngineAction Exec) :=
  .submit emptyRequest :: List.replicate 18 (.advance true) ++
    .destroy :: List.replicate 4 (.advance true) ++
    .take exec 0 :: List.replicate 7 (.run exec noDevices)

/-- The body of a request that was queued when the destructor was entered uses the session and the
job pool after their destruction. -/
theorem session_misused : ¬ ∀ s : Engine (Fin 1),
    (inferenceEngine fallbackSetup (Fin 1)).Reaches TransitionSystem.unguarded .new s →
      s.misused = [] := by
  intro hclaim
  obtain ⟨s, hreach, htest⟩ := TransitionSystem.Reaches.exists_of_schedule
    (inferenceEngine fallbackSetup (Fin 1)) .new (queuedSchedule 0)
    (fun s ↦ decide (.session ∈ s.misused ∧ .jobPool ∈ s.misused)) (by decide +kernel)
  obtain ⟨hsession, -⟩ := of_decide_eq_true htest
  rw [hclaim s hreach] at hsession
  exact absurd hsession List.not_mem_nil

end GameEngine.Ai
