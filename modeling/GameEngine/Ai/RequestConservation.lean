import GameEngine.Ai.RequestService

/-!
# No request is dropped

One client submits requests to an engine, any number of them before the first is served. `conserved`
shows that in every state the requests whose promise is not fulfilled are those whose tasks are live
and have not come that far (`Conserved`), so when `outstanding()` is zero all of them have been
delivered and their jobs freed, each once.

It holds as long as every `submit` finds fewer than 1024 tasks live: `enqueue` does not look at the
handle that `create_task` returns, and the request whose task is refused is dropped. It also needs
memory for the tensors, and fewer executors than the 32-bit `outstanding_` can count.
-/

set_option autoImplicit false
set_option relaxedAutoImplicit false

namespace GameEngine.Ai

open GameEngine.Library GameEngine.Core
open MachineWord

variable {Exec : Type} {setup : Setup} {s next : Engine Exec}

/-! ### The property -/

namespace Engine

/-- The promise of a request is not fulfilled. -/
def Unfulfilled (s : Engine Exec) (number : ℕ) : Prop :=
  number < s.requests.length ∧ ∀ value, .fulfilled number value ∉ s.events

/-- A request is being enqueued and its task has no node yet. -/
def Entering (s : Engine Exec) (number : ℕ) : Prop :=
  s.call.any EngineCall.preparing = true ∧ number = s.graph.nextTask ∨
    (s.graph.clients ()).bind ClientCall.asking = some number

/-- The body of a task has fulfilled the promise. -/
def Delivered (s : Engine Exec) (number : ℕ) : Prop :=
  (s.bodies number).any BodyCall.delivered = true

end Engine

/-- The requests are conserved. -/
structure Conserved (setup : Setup) (s : Engine Exec) : Prop where
  balanced : ∀ number, s.Unfulfilled number ↔
    s.Entering number ∨ number ∈ s.graph.liveTasks ∧ ¬ s.Delivered number
  counted : s.call = none → (∀ number ∈ s.graph.liveTasks, ¬ s.Delivered number) →
    {number | s.Unfulfilled number}.ncard = s.graph.liveTasks.ncard
  traced : ∀ number request, s.requests[number]? = some request → ∃ result,
    IsResult setup request result ∧
      s.eventsOf number <+: delivery number request.callback result ++ [.freed number]
  settled : s.call = none → s.graph.outstanding = 0 → ∀ number request,
    s.requests[number]? = some request → ∃ result, IsResult setup request result ∧
      s.eventsOf number = delivery number request.callback result ++ [.freed number]
  alive : ∀ number ∈ s.graph.liveTasks, s.bodies number ≠ some .returned → ∃ pointer job,
    s.closures number = some pointer ∧ s.jobs pointer = some job ∧ job.request = number
  apart : ∀ first second job job' block, s.jobs first = some job → s.jobs second = some job' →
    job.place = .pooled block → job'.place = .pooled block → first = second

/-- The client only submits, and there is memory for the tensors. -/
def Requesting : EngineAction Exec → Prop
  | .destroy => False
  | .advance granted => granted = true
  | .submit _ | .take _ _ | .run _ _ => True

/-- A `create_task` call starts while fewer than 1024 tasks are live. -/
def Roomy (s : Engine Exec) : EngineAction Exec → Prop
  | .advance _ => ∀ pointer, s.call = some (.filled pointer) → s.graph.liveCount < Engine.maxTasks
  | _ => True

/-! ### The invariant -/

section Steps

variable [Fintype Exec]

/-- The invariant of an engine whose requests are accepted. -/
structure Operating (setup : Setup) (s : Engine Exec) : Prop where
  feeding : Feeding s.graph
  present : Present s.graph
  serving : Serving setup s
  maxTasks : s.graph.maxTasks = Engine.maxTasks
  room : ∀ task seen, s.graph.clients () = some (.pooling task seen) → seen < Engine.maxTasks
  idle : s.graph.clients () = none ∨ s.call = some .creating ∨ s.call = some .submitting
  kept : ∀ remaining, s.call ≠ some (.tearing remaining)
  open_ : s.call ≠ some .closing

theorem operating_new : Operating setup (.new : Engine Exec) where
  feeding := feeding_new (by decide)
  present := present_new _
  serving := serving_new
  maxTasks := rfl
  room := nofun
  idle := .inl rfl
  kept := nofun
  open_ := nofun

/-- A task that an executor has is created. -/
theorem Operating.task_lt (hoperating : Operating setup s) {exec : Exec} {node task : ℕ}
    {phase : ExecutePhase} (hexec : s.graph.execs exec = some (.executing node task phase)) :
    task < s.graph.nextTask := by
  obtain ⟨mode, swept, htracks⟩ := hoperating.feeding.tracked
  have hmode := (htracks.exec.matches_executing exec task phase node).mpr hexec
  exact htracks.named.mode_lt node task (by rw [hmode]; rfl)

variable [DecidableEq Exec]

/-- The graph takes a step that starts no `create_task` call. -/
theorem Operating.graph (hoperating : Operating setup s) {action : LiveAction Unit Exec}
    {graph : LiveGraph Unit Exec} (hsubmitting : Submitting action)
    (hstep : LiveGraph.step s.graph action = some graph) {allowed : TaskEvent → Prop}
    (hextends : LiveGraph.Extends allowed s.graph graph)
    (hallowed : ∀ number, allowed (.finished number) → s.bodies number = some .returned)
    {call : Option EngineCall} (hcall : call = s.call ∨
      s.call.any EngineCall.preparing = false ∧ call.any EngineCall.preparing = false)
    (hidle : graph.clients () = none ∨ call = some .creating ∨ call = some .submitting)
    (hkept : ∀ remaining, call ≠ some (.tearing remaining)) (hopen : call ≠ some .closing) :
    Operating setup { s with graph := graph, call := call } where
  feeding := hoperating.feeding.step hsubmitting hstep
  present := hoperating.present.step hoperating.feeding hsubmitting
    (by rw [hoperating.maxTasks]; exact hoperating.room) hstep
  serving := hoperating.serving.graph hextends hallowed hcall
  maxTasks := hextends.maxTasks.trans hoperating.maxTasks
  room := fun task seen h ↦ hoperating.room task seen (hextends.pooling () task seen h)
  idle := hidle
  kept := hkept
  open_ := hopen

/-- The client's call takes its next step. -/
theorem Operating.advance (hoperating : Operating setup s) {granted : Bool} {call : EngineCall}
    (hcall : s.call = some call) (hrequesting : Requesting (.advance granted : EngineAction Exec))
    (hroomy : Roomy s (.advance granted)) (hnext : s.advance granted call = some next) :
    Operating setup next := by
  obtain rfl : granted = true := hrequesting
  have hnever : ∀ number, TaskEvent.NotFinished (.finished number) →
      s.bodies number = some .returned := fun number h ↦ absurd rfl (h number)
  -- a step of the call that the graph is in
  have hgoOn : ∀ {graph}, LiveGraph.step s.graph (.advance ()) = some graph →
      LiveGraph.Extends TaskEvent.NotFinished s.graph graph := by
    intro graph hstep
    obtain ⟨inner, hinner, hadvance⟩ := Option.bind_eq_some_iff.mp hstep
    exact (LiveGraph.clientMoved_advance (hoperating.feeding.plain.normal () inner hinner)
      hadvance).extends
  cases call with
  | allocated pointer =>
    obtain ⟨job, hjob, hfilled⟩ := Option.bind_eq_some_iff.mp hnext
    obtain ⟨request, hrequest, rfl⟩ := Option.map_eq_some_iff.mp hfilled
    have hgraph : s.graph.clients () = none := hoperating.idle.resolve_right (by simp [hcall])
    exact ⟨hoperating.feeding, hoperating.present, hoperating.serving.fill hcall hjob hrequest,
      hoperating.maxTasks, hoperating.room, .inl hgraph, by simp, by simp⟩
  | filled pointer =>
    obtain ⟨graph, hstep, rfl⟩ := Option.map_eq_some_iff.mp hnext
    have hfeeding := hoperating.feeding.step (by trivial) hstep
    have hpresent := hoperating.present.step hoperating.feeding (by trivial)
      (by rw [hoperating.maxTasks]; exact hoperating.room) hstep
    rw [LiveGraph.step] at hstep
    split_ifs at hstep
    obtain rfl := Option.some.inj hstep
    have hsize : Engine.closureBytes ≤ kCallableBytes := by decide
    have halign : Engine.closureAlign ≤ 16 := by decide
    obtain ⟨hnextTask, hmaxTasks, hevents, hpooling⟩ := s.graph.create_frame () hsize halign
    refine ⟨hfeeding, hpresent, hoperating.serving.create hcall hnextTask hevents,
      hmaxTasks.trans hoperating.maxTasks, fun task seen h ↦ ?_, .inr (.inl rfl), by simp, by simp⟩
    rw [hpooling task seen h]
    exact hroomy pointer hcall
  | creating =>
    rw [Engine.advance] at hnext
    split_ifs at hnext
    · obtain ⟨graph, hstep, rfl⟩ := Option.map_eq_some_iff.mp hnext
      exact hoperating.graph (by trivial) hstep (LiveGraph.clientMoved_submit hstep).extends hnever
        (.inr ⟨by rw [hcall]; rfl, rfl⟩) (.inr (.inr rfl)) (by simp) (by simp)
    · obtain ⟨graph, hstep, rfl⟩ := Option.map_eq_some_iff.mp hnext
      exact hoperating.graph (by trivial) hstep (hgoOn hstep) hnever (.inl rfl) (.inr (.inl hcall))
        hoperating.kept hoperating.open_
  | submitting =>
    rw [Engine.advance] at hnext
    split_ifs at hnext with hgraph
    · rw [← Option.some.inj hnext]
      exact ⟨hoperating.feeding, hoperating.present, hoperating.serving.graph
        (.refl TaskEvent.NotFinished _) hnever (.inr ⟨by rw [hcall]; rfl, rfl⟩),
        hoperating.maxTasks, hoperating.room, .inl hgraph, by simp, (by simp)⟩
    · obtain ⟨graph, hstep, rfl⟩ := Option.map_eq_some_iff.mp hnext
      exact hoperating.graph (by trivial) hstep (hgoOn hstep) hnever (.inl rfl) (.inr (.inr hcall))
        hoperating.kept hoperating.open_
  | tearing remaining => exact absurd hcall (hoperating.kept remaining)
  | closing => exact absurd hcall hoperating.open_

/-- An `execute` call takes its next step. -/
theorem Operating.run (hoperating : Operating setup s) {exec : Exec} {devices : Devices}
    (hnext : s.run setup exec devices = some next) : Operating setup next := by
  rcases Engine.run_cases hnext with
    ⟨node, task, pointer, job, hexec, hbody, hclosure, hjob, rfl⟩ | ⟨call, hexec, hreturned, rfl⟩
  · obtain ⟨mode, swept, htracks⟩ := hoperating.feeding.tracked
    have hmode := (htracks.exec.matches_executing exec task .running node).mpr hexec
    have hstarted := htracks.ordered.begun node exec task .running hmode (by simp)
    have hserving := hoperating.serving.runBody (hoperating.task_lt hexec) hstarted hbody
      hclosure hjob devices
    obtain ⟨hgraph, hcall, -⟩ := s.runBody_frame setup task devices pointer job
    exact ⟨hgraph ▸ hoperating.feeding, hgraph ▸ hoperating.present, hserving,
      hgraph ▸ hoperating.maxTasks, hgraph ▸ hoperating.room, hgraph ▸ hcall ▸ hoperating.idle,
      hcall ▸ hoperating.kept, hcall ▸ hoperating.open_⟩
  · have hstep : LiveGraph.step s.graph (.run exec) = some (s.graph.run exec call) :=
      Option.map_eq_some_iff.mpr ⟨call, hexec, rfl⟩
    refine hoperating.graph (by trivial) hstep (s.graph.extends_run exec call) ?_ (.inl rfl)
      (by rw [(s.graph.sameClients_run exec call).clients]; exact hoperating.idle)
      hoperating.kept hoperating.open_
    rintro number ⟨-, hfinished⟩
    obtain ⟨node, rfl⟩ := hfinished number rfl
    exact hreturned node number rfl

/-- The invariant holds in every run in which requests are accepted. -/
theorem Operating.step (hoperating : Operating setup s) {action : EngineAction Exec}
    (hrequesting : Requesting action) (hroomy : Roomy s action)
    (hnext : Engine.step setup s action = some next) : Operating setup next := by
  cases action with
  | submit request =>
    rw [Engine.step] at hnext
    split_ifs at hnext with hcall
    rw [← Option.some.inj hnext]
    have hserving := hoperating.serving.submit hcall request
    obtain ⟨pointer, freeJobs, heapJobs, halloc, -⟩ := allocJob_spec
      (s := { s with requests := s.requests ++ [request] }) hoperating.serving.store
      s.requests.length
    rw [halloc] at hserving ⊢
    have hgraph : s.graph.clients () = none := hoperating.idle.resolve_right (by simp [hcall])
    exact ⟨hoperating.feeding, hoperating.present, hserving, hoperating.maxTasks, hoperating.room,
      .inl hgraph, by simp, by simp⟩
  | destroy => contradiction
  | advance granted =>
    obtain ⟨call, hcall, hadvance⟩ := Option.bind_eq_some_iff.mp hnext
    exact hoperating.advance hcall hrequesting hroomy hadvance
  | take exec node =>
    obtain ⟨graph, hstep, rfl⟩ := Option.map_eq_some_iff.mp hnext
    have htaken := hstep
    rw [LiveGraph.step] at htaken
    split_ifs at htaken
    have hextends : LiveGraph.Extends TaskEvent.NotFinished s.graph graph := by
      rw [← Option.some.inj htaken]
      exact ⟨rfl, rfl, fun _ _ _ h ↦ h, [], (List.append_nil _).symm, by simp⟩
    have hclients : graph.clients = s.graph.clients := by
      rw [← Option.some.inj htaken]
      rfl
    exact hoperating.graph (by trivial) hstep hextends
      (fun number h ↦ absurd rfl (h number)) (.inl rfl) (by rw [hclients]; exact hoperating.idle)
      hoperating.kept hoperating.open_
  | run exec devices => exact hoperating.run hnext

/-! ### Conservation -/

omit [DecidableEq Exec] [Fintype Exec] in
/-- A request without a fulfilled promise is one whose body has not come that far. -/
theorem Serving.unfulfilled_iff (hserving : Serving setup s) {number : ℕ}
    (hlt : number < s.requests.length) : s.Unfulfilled number ↔ ¬ s.Delivered number := by
  have hprogress := hserving.progress number _ (List.getElem?_eq_getElem hlt)
  rw [Engine.Delivered, ← hprogress.fulfilled_iff, not_exists, Engine.Unfulfilled,
    and_iff_right hlt]
  refine forall_congr' fun value ↦ not_congr ?_
  simp [Engine.eventsOf, InferEvent.request]

omit [DecidableEq Exec] in
/-- A request whose `create_task` call has no node yet has no body. -/
theorem Operating.not_delivered_of_entering (hoperating : Operating setup s) {number : ℕ}
    (hentering : s.Entering number) : number < s.requests.length ∧ ¬ s.Delivered number := by
  have hlength := hoperating.serving.length
  rcases hentering with ⟨hpreparing, rfl⟩ | hasking
  · rw [hpreparing, if_pos rfl] at hlength
    refine ⟨by omega, ?_⟩
    rw [Engine.Delivered, hoperating.serving.fresh _ (Nat.le_refl _)]
    exact Bool.false_ne_true
  · obtain ⟨mode, swept, htracks⟩ := hoperating.feeding.tracked
    obtain ⟨hlt, -, hevents⟩ := htracks.named.asking () number hasking
    refine ⟨by omega, ?_⟩
    have hnone : s.bodies number = none := by
      by_contra hbody
      exact hevents _ (hoperating.serving.begun number hbody) rfl
    rw [Engine.Delivered, hnone]
    exact Bool.false_ne_true

omit [DecidableEq Exec] in
/-- Between the calls of the client no request is without a task. -/
theorem Operating.not_entering (hoperating : Operating setup s) (hcall : s.call = none)
    (number : ℕ) : s.graph.clients () = none ∧ ¬ s.Entering number := by
  have hidle : s.graph.clients () = none := hoperating.idle.resolve_right (by simp [hcall])
  exact ⟨hidle, by simp [Engine.Entering, hcall, hidle]⟩

omit [DecidableEq Exec] in
/-- When nothing is outstanding, the bodies of all tasks have returned. -/
theorem Operating.returned (hoperating : Operating setup s)
    (hexecs : Engine.maxTasks + Fintype.card Exec < word32) (hcall : s.call = none)
    (houtstanding : s.graph.outstanding = 0) {number : ℕ} (hlt : number < s.requests.length) :
    s.bodies number = some .returned := by
  obtain ⟨mode, swept, htracks⟩ := hoperating.feeding.tracked
  have hidle := (hoperating.not_entering hcall number).1
  have hbound : LiveGraph.poolBlocks s.graph.maxTasks + Fintype.card Exec < word32 := by
    rw [hoperating.maxTasks]
    exact hexecs
  obtain ⟨hmodes, -⟩ := htracks.toPlaced.quiet (fun _ ↦ hidle) hbound houtstanding
  have hlength := hoperating.serving.length
  rw [hcall, Option.any_none, if_neg Bool.false_ne_true, Nat.add_zero] at hlength
  rcases hoperating.present number (hlength ▸ hlt) with
    ⟨client, hasking⟩ | ⟨node, hnode⟩ | hfinished
  · rw [hidle] at hasking
    contradiction
  · have htask := htracks.toPlaced.holds_iff.mp hnode
    rcases hmodes node with hmode | hmode <;> rw [hmode] at htask <;> contradiction
  · exact hoperating.serving.finished number hfinished

omit [DecidableEq Exec] in
theorem Operating.balanced (hoperating : Operating setup s) (number : ℕ) : s.Unfulfilled number ↔
    s.Entering number ∨ number ∈ s.graph.liveTasks ∧ ¬ s.Delivered number := by
  have hlength := hoperating.serving.length
  constructor
  · intro hunfulfilled
    have hdelivered := (hoperating.serving.unfulfilled_iff hunfulfilled.1).mp hunfulfilled
    by_cases hlt : number < s.graph.nextTask
    · rcases hoperating.present number hlt with ⟨client, hasking⟩ | hholds | hfinished
      · exact .inl (.inr hasking)
      · exact .inr ⟨hholds, hdelivered⟩
      · refine absurd ?_ hdelivered
        rw [Engine.Delivered, hoperating.serving.finished number hfinished]
        rfl
    · have hbound := hunfulfilled.1
      left
      left
      split_ifs at hlength with hpreparing
      · exact ⟨hpreparing, by omega⟩
      · omega
  · rintro (hentering | ⟨⟨node, hnode⟩, hdelivered⟩)
    · obtain ⟨hlt, hdelivered⟩ := hoperating.not_delivered_of_entering hentering
      exact (hoperating.serving.unfulfilled_iff hlt).mpr hdelivered
    · obtain ⟨mode, swept, htracks⟩ := hoperating.feeding.tracked
      have hlt := htracks.named.mode_lt node number (htracks.toPlaced.holds_iff.mp hnode)
      exact (hoperating.serving.unfulfilled_iff (by omega)).mpr hdelivered

omit [DecidableEq Exec] in
theorem Operating.conserves (hoperating : Operating setup s)
    (hexecs : Engine.maxTasks + Fintype.card Exec < word32) : Conserved setup s where
  balanced := hoperating.balanced
  counted := by
    intro hcall hlive
    have hsame : {number | s.Unfulfilled number} = s.graph.liveTasks := by
      ext number
      rw [Set.mem_ofPred_eq, hoperating.balanced number,
        or_iff_right (hoperating.not_entering hcall number).2]
      exact and_iff_left_of_imp (hlive number)
    rw [hsame]
  traced := fun number request hrequest ↦
    (hoperating.serving.progress number request hrequest).begins
  settled := by
    intro hcall houtstanding number request hrequest
    have hprogress := hoperating.serving.progress number request hrequest
    rw [hoperating.returned hexecs hcall houtstanding
      (List.getElem?_eq_some_iff.mp hrequest).1] at hprogress
    exact hprogress
  alive := by
    rintro number ⟨node, hnode⟩ hbody
    obtain ⟨mode, swept, htracks⟩ := hoperating.feeding.tracked
    have hlt := htracks.named.mode_lt node number (htracks.toPlaced.holds_iff.mp hnode)
    obtain ⟨pointer, job, request, hclosure, hjob, -, hserves⟩ :=
      hoperating.serving.serves number hlt hbody
    exact ⟨pointer, job, hclosure, hjob, hserves.number⟩
  apart := hoperating.serving.store.tensors_apart

/-- No request is dropped as long as every task is created while fewer than 1024 are live. -/
theorem conserved (hexecs : Engine.maxTasks + Fintype.card Exec < word32)
    (hreach : (inferenceEngine setup Exec).Reaches
      (fun s action ↦ Requesting action ∧ Roomy s action) .new s) : Conserved setup s := by
  refine (hreach.invariant operating_new ?_ : Operating setup s).conserves hexecs
  rintro state action next hoperating ⟨hrequesting, hroomy⟩ hnext
  exact hoperating.step hrequesting hroomy hnext

end Steps

/-! ### Two requests -/

/-- Decides `Requesting` and `Roomy` by looking for a block that the pool still has. -/
def requestCheck (s : Engine (Fin 1)) : EngineAction (Fin 1) → Bool
  | .destroy => false
  | .advance granted => granted && match s.call with
    | some (.filled _) => s.graph.maxTasks = Engine.maxTasks ∧
        s.graph.freeBlocks.any (· < Engine.maxTasks)
    | _ => true
  | _ => true

theorem of_requestCheck (s : Engine (Fin 1)) (action : EngineAction (Fin 1))
    (hcheck : requestCheck s action = true) : Requesting action ∧ Roomy s action := by
  cases action with
  | destroy => contradiction
  | advance granted =>
    obtain ⟨hgranted, hroom⟩ := Bool.and_eq_true_iff.mp hcheck
    refine ⟨hgranted, fun pointer hcall ↦ ?_⟩
    rw [hcall] at hroom
    obtain ⟨hmaxTasks, hblocks⟩ := of_decide_eq_true hroom
    obtain ⟨block, hblock, hlt⟩ := List.any_eq_true.mp hblocks
    have hpool : LiveGraph.poolBlocks s.graph.maxTasks = Engine.maxTasks := by
      rw [hmaxTasks]
      decide
    have hbound := s.graph.liveCount_lt hblock (hpool ▸ of_decide_eq_true hlt)
    exact hpool ▸ hbound
  | _ => exact ⟨trivial, trivial⟩

/-- A request that is answered through the promise and one that is answered through its callback are
submitted, and then served. -/
def requestSchedule (exec : Exec) : List (EngineAction Exec) :=
  .submit emptyRequest :: List.replicate 18 (.advance true) ++
    .submit { emptyRequest with callback := true } :: List.replicate 15 (.advance true) ++
    .take exec 0 :: List.replicate 11 (.run exec noDevices) ++
    .take exec 1 :: List.replicate 11 (.run exec noDevices)

theorem conserved_served : ∃ s : Engine (Fin 1), (inferenceEngine fallbackSetup (Fin 1)).Reaches
    (fun s action ↦ Requesting action ∧ Roomy s action) .new s ∧ Conserved fallbackSetup s ∧
      s.call = none ∧ s.graph.outstanding = 0 ∧ s.events = [.fulfilled 0 [0], .freed 0,
        .called 1 [0], .fulfilled 1 [], .freed 1] := by
  obtain ⟨s, hreach, htest⟩ := TransitionSystem.Reaches.exists_of_any
    (inferenceEngine fallbackSetup (Fin 1)) .new (requestSchedule 0) requestCheck
    (fun s ↦ decide (s.call = none ∧ s.graph.outstanding = 0 ∧ s.events = [.fulfilled 0 [0],
      .freed 0, .called 1 [0], .fulfilled 1 [], .freed 1]))
    of_requestCheck (by decide +kernel) (by decide +kernel)
  have hexecs : Engine.maxTasks + Fintype.card (Fin 1) < word32 := by
    rw [Fintype.card_fin]
    decide
  exact ⟨s, hreach, conserved hexecs hreach, of_decide_eq_true htest⟩

/-! ### Too many requests -/

section Queueing

variable [Fintype Exec] [DecidableEq Exec] {count : ℕ}

/-- A number of requests have been submitted and no body has begun. -/
structure Queueing (count : ℕ) (s : Engine Exec) : Prop where
  feeding : Feeding s.graph
  maxTasks : s.graph.maxTasks = Engine.maxTasks
  call : s.call = none
  clients : s.graph.clients () = none
  requests : s.requests.length = count
  events : s.events = []
  bodies : ∀ number, s.bodies number = none

/-- The call of the engine waits for the call of the graph. -/
theorem Engine.reaches_graph {graph : LiveGraph Unit Exec} {call : EngineCall}
    (hcall : call = .creating ∨ call = .submitting) (hs : s.call = some call)
    (hreach : (liveGraph Unit Exec).Reaches (fun _ action ↦ action = .advance ()) s.graph graph) :
    (inferenceEngine setup Exec).Reaches (fun _ action ↦ Requesting action) s
      { s with graph := graph } := by
  induction hreach with
  | refl => exact .refl
  | tail _ haction hnext ih =>
    subst haction
    have hrequesting : Requesting (.advance true : EngineAction Exec) := rfl
    refine ih.tail hrequesting ?_
    obtain ⟨inner, hinner, hadvance⟩ := Option.bind_eq_some_iff.mp hnext
    have hstep : LiveGraph.step _ (.advance ()) = some _ := hnext
    rcases hcall with rfl | rfl
    · simp [inferenceEngine, Engine.step, hs, Engine.advance, hinner, hstep]
    · simp [inferenceEngine, Engine.step, hs, Engine.advance, hinner, hstep]

/-- A call of the client takes its next step. -/
theorem reaches_advance {call : EngineCall} (hcall : s.call = some call)
    (hnext : s.advance true call = some next) :
    (inferenceEngine setup Exec).Reaches (fun _ action ↦ Requesting action) s next := by
  have hrequesting : Requesting (.advance true : EngineAction Exec) := rfl
  have hstep : (inferenceEngine setup Exec).step s (.advance true) = some next := by
    simp only [inferenceEngine, Engine.step, hcall, Option.bind_some, hnext]
  exact .single hrequesting hstep

/-- One more request is submitted. -/
theorem Queueing.submit (hqueueing : Queueing count s) (request : InferRequest) :
    ∃ next, (inferenceEngine setup Exec).Reaches (fun _ action ↦ Requesting action) s next ∧
      Queueing (count + 1) next := by
  obtain ⟨pointer, freeJobs, heapJobs, halloc⟩ :=
    Engine.allocJob_eq { s with requests := s.requests ++ [request] } s.requests.length
  let allocated : Engine Exec :=
    { s with
      requests := s.requests ++ [request]
      freeJobs := freeJobs
      heapJobs := heapJobs
      jobs := Function.update s.jobs pointer (some (.new s.requests.length))
      call := some (.allocated pointer) }
  have hallocated : (inferenceEngine setup Exec).Reaches (fun _ action ↦ Requesting action) s
      allocated := by
    have hrequesting : Requesting (.submit request : EngineAction Exec) := trivial
    refine .single hrequesting ?_
    simp only [inferenceEngine, Engine.step, if_pos hqueueing.call, halloc]
    rfl
  let filled : Engine Exec :=
    { allocated.fillJob pointer (.new s.requests.length) request true with
      call := some (.filled pointer) }
  have hfilled : (inferenceEngine setup Exec).Reaches (fun _ action ↦ Requesting action) allocated
      filled := by
    refine reaches_advance rfl ?_
    have hjob : allocated.jobs pointer = some (.new s.requests.length) := Function.update_self ..
    have hrequest : allocated.requests[s.requests.length]? = some request :=
      List.getElem?_concat_length
    simp only [Engine.advance, hjob, Option.bind_some, InferJob.new, hrequest, Option.map_some]
    rfl
  obtain ⟨created, hcreate⟩ : ∃ created, LiveGraph.step s.graph
      (.create () Engine.closureBytes Engine.closureAlign) = some created :=
    ⟨_, if_pos hqueueing.clients⟩
  let creating : Engine Exec :=
    { filled with
      graph := created
      closures := Function.update s.closures s.graph.nextTask (some pointer)
      call := some .creating }
  have hcreating : (inferenceEngine setup Exec).Reaches (fun _ action ↦ Requesting action) filled
      creating := reaches_advance rfl (congrArg (Option.map _) hcreate)
  obtain ⟨ended, hended, hfeeding, hmaxTasks, hnone⟩ :=
    (hqueueing.feeding.step (by trivial) hcreate).returns
  obtain ⟨submitted, hsubmit⟩ : ∃ submitted, LiveGraph.step ended (.submit ()) = some submitted :=
    ⟨_, if_pos hnone⟩
  let submitting : Engine Exec := { creating with graph := submitted, call := some .submitting }
  have hsubmitting : (inferenceEngine setup Exec).Reaches (fun _ action ↦ Requesting action)
      { creating with graph := ended } submitting :=
    reaches_advance rfl ((if_pos hnone).trans (congrArg (Option.map _) hsubmit))
  obtain ⟨swept, hswept, hfeeding', hmaxTasks', hnone'⟩ :=
    (hfeeding.step (by trivial) hsubmit).returns
  have hreturned : (inferenceEngine setup Exec).Reaches (fun _ action ↦ Requesting action)
      { submitting with graph := swept } { submitting with graph := swept, call := none } :=
    reaches_advance rfl (if_pos hnone')
  have hrun := (((((hallocated.trans hfilled).trans hcreating).trans
    (Engine.reaches_graph (.inl rfl) rfl hended)).trans hsubmitting).trans
    (Engine.reaches_graph (.inr rfl) rfl hswept)).trans hreturned
  refine ⟨_, hrun, hfeeding', ?_, rfl, hnone', ?_, hqueueing.events, hqueueing.bodies⟩
  · have hcreated : created.maxTasks = s.graph.maxTasks := by
      rw [LiveGraph.step, if_pos hqueueing.clients] at hcreate
      rw [← Option.some.inj hcreate]
      exact (s.graph.create_frame () (by decide) (by decide)).2.1
    rw [hmaxTasks', (LiveGraph.clientMoved_submit hsubmit).maxTasks, hmaxTasks, hcreated,
      hqueueing.maxTasks]
  · have hlength : (s.requests ++ [request]).length = count + 1 := by
      rw [List.length_append, hqueueing.requests]
      rfl
    exact hlength

/-- Any number of requests can be submitted before the first body begins. -/
theorem Queueing.queue (request : InferRequest) (count : ℕ) :
    ∃ s, (inferenceEngine setup Exec).Reaches (fun _ action ↦ Requesting action) .new s ∧
      Queueing count s := by
  induction count with
  | zero =>
    exact ⟨.new, .refl, feeding_new (by decide), rfl, rfl, rfl, rfl, rfl, fun _ ↦ rfl⟩
  | succ count ih =>
    obtain ⟨s, hreach, hqueueing⟩ := ih
    obtain ⟨next, hnext, hqueueing'⟩ := hqueueing.submit request
    exact ⟨next, hreach.trans hnext, hqueueing'⟩

end Queueing

/-- Of 1025 requests that are submitted before the first is served, one has no task. -/
theorem request_dropped : ¬ ∀ s : Engine (Fin 1), (inferenceEngine fallbackSetup (Fin 1)).Reaches
    (fun _ action ↦ Requesting action) .new s → Conserved fallbackSetup s := by
  intro hclaim
  obtain ⟨s, hreach, hqueueing⟩ : ∃ s, (inferenceEngine fallbackSetup (Fin 1)).Reaches
      (fun _ action ↦ Requesting action) .new s ∧ Queueing (Engine.maxTasks + 1) s :=
    Queueing.queue emptyRequest (Engine.maxTasks + 1)
  have hcounted := (hclaim s hreach).counted hqueueing.call
    (by simp [Engine.Delivered, hqueueing.bodies])
  have hunfulfilled : {number | s.Unfulfilled number} = Finset.range (Engine.maxTasks + 1) := by
    ext number
    simp [Engine.Unfulfilled, hqueueing.requests, hqueueing.events]
  obtain ⟨mode, swept, htracks⟩ := hqueueing.feeding.tracked
  have hle := Finset.card_filter_le (Finset.range (LiveGraph.poolBlocks s.graph.maxTasks))
    fun node ↦ node ∉ s.graph.freeBlocks ∧ node ∉ s.graph.freeNodes
  rw [← s.graph.liveCount_eq, htracks.toPlaced.liveCount_eq, ← hcounted, hunfulfilled,
    Set.ncard_coe_finset, Finset.card_range, Finset.card_range, hqueueing.maxTasks] at hle
  exact absurd hle (by decide)

end GameEngine.Ai
