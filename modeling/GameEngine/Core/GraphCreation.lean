import GameEngine.Core.GraphEvents

/-!
# Creating tasks in the task graph in use

Every disciplined step of a `create_task` call keeps `Tracks`, with the node of the call in its next
mode.
-/

set_option autoImplicit false
set_option relaxedAutoImplicit false

namespace GameEngine.Core

open GameEngine.Library
open MachineWord DependencyCount

variable {Client Exec : Type} [Fintype Exec] {mode : ℕ → Mode Client Exec} {swept : ℕ}
  {s : LiveGraph Client Exec} {client : Client} {exec : Exec} {task node : ℕ}

/-- A graph whose nodes have modes that say everything about it. -/
def Tracked (s : LiveGraph Client Exec) : Prop := ∃ mode swept, Tracks mode swept s

omit [Fintype Exec] in
theorem fits_update {nodes : ℕ → LiveNode} {next : Mode Client Exec} {value : LiveNode}
    (hfits : ∀ node, (mode node).Fits (nodes node)) (hnode : next.Fits value) :
    ∀ other, (Function.update mode node next other).Fits
      (Function.update nodes node value other) := by
  intro other
  by_cases heq : other = node
  · subst heq
    rw [Function.update_self, Function.update_self]
    exact hnode
  · rw [Function.update_of_ne heq, Function.update_of_ne heq]
    exact hfits other

omit [Fintype Exec] in
theorem fits_keep {nodes : ℕ → LiveNode} {next : Mode Client Exec}
    (hfits : ∀ node, (mode node).Fits (nodes node)) (hnode : next.Fits (nodes node)) :
    ∀ other, (Function.update mode node next other).Fits (nodes other) := by
  intro other
  have hupdate : (Function.update mode node next other).Fits
      (Function.update nodes node (nodes node) other) := fits_update hfits hnode other
  rwa [Function.update_eq_self] at hupdate

variable [DecidableEq Client]

/-- A `create_task` call takes the last node of the free list. -/
theorem Tracks.pop (htracks : Tracks mode swept s) (hidle : s.clients client = none)
    (hnormal : ∀ other call, s.clients other = some call → call.exclusive = false)
    (hlast : s.freeNodes.getLast? = some node) :
    Tracks (Function.update mode node (.creating client s.nextTask .arming)) swept
      ({ s with nextTask := s.nextTask + 1, freeNodes := s.freeNodes.dropLast }.setClient client
        (some (.creating s.nextTask node .arming))) := by
  have hmode : mode node = .free :=
    (htracks.free.matches_list node).mpr (List.mem_of_getLast? hlast)
  have hpending := htracks.charged.pending node
  have hfits := htracks.fits_of_eq hmode
  rw [hmode] at hpending
  refine ⟨⟨?_, ?_, ?_, ?_, ?_, ?_, ?_, ?_, ?_, ?_, ?_, ?_, ?_⟩, ?_, ?_⟩
  · exact htracks.pool.keep (by simp [hmode]) (by simp)
  · exact htracks.free.pop hlast (by simp)
  · exact htracks.client.enter (by simp [hidle]) (by simp [hmode])
  · exact htracks.queue.keep (by simp [hmode]) (by simp)
  · exact htracks.exec.keep (by simp [hmode]) (by simp [hmode]) (by simp) (by simp)
  · exact fits_keep htracks.fits ⟨hfits.invoke_eq, hfits.destroy_eq, hfits.callable_eq,
      by simp +contextual [CreateStage.constructed]⟩
  · exact (htracks.slotted.keep (by simp [hmode, Mode.slotted, CreateStage.slotted])).setClient
      (by simp [hidle]) (by simp [ClientCall.entering])
  · refine (htracks.named.fresh.assign (Nat.lt_succ_self _) (fun other hother ↦ ?_)
      (fun event hevent htask ↦ ?_) (fun other hother ↦ ?_) rfl).setClient
      (by simp [ClientCall.asking])
    · exact (htracks.named.mode_lt other _ hother).false
    · exact (htracks.named.events_lt event hevent _ htask).false
    · exact (htracks.named.asking other _ hother).1.false
  · exact htracks.built.move (by simp [hmode, Mode.callable, CreateStage.constructed])
  · exact htracks.ordered.move (by simp)
  · exact htracks.counted.keep (by simp [hmode, Mode.counted, CreateStage.counted])
  · refine htracks.handled.keep (fun other task stage hnext ↦ .inl ?_) (by simp [hmode])
      (by simp [hmode, Mode.unfinished]) (by simp)
    obtain ⟨rfl, rfl, rfl⟩ := Mode.creating.inj hnext
    exact fun event hevent htask ↦ (htracks.named.events_lt event hevent _ htask).false
  · exact htracks.exclusive.setClient hnormal client (by simp [ClientCall.exclusive])
  · exact htracks.charged.keep (by simp [hmode]) (by simp [hmode, Mode.remaining]) hpending
  · exact (htracks.sweeping.keep (by simp [Mode.dormant, CreateStage.live])
      (by simp [Mode.owesSentinel, CreateStage.unsubmitted])).setClient (by simp [hidle])
      (by simp [ClientCall.sweepIndex])

/-- A `create_task` call finds the free list empty. -/
theorem Tracks.ask (htracks : Tracks mode swept s) (hidle : s.clients client = none)
    (hnormal : ∀ other call, s.clients other = some call → call.exclusive = false) (seen : ℕ) :
    Tracks mode swept ({ s with nextTask := s.nextTask + 1 }.setClient client
      (some (.pooling s.nextTask seen))) :=
  { htracks with
    client := htracks.client.other (by simp [hidle]) (by simp)
    slotted := htracks.slotted.setClient (by simp [hidle]) (by simp [ClientCall.entering])
    sweeping := htracks.sweeping.setClient (by simp [hidle]) (by simp [ClientCall.sweepIndex])
    named := htracks.named.ask
    exclusive := htracks.exclusive.setClient hnormal client (by simp [ClientCall.exclusive]) }

/-- A `create_task` call starts. -/
theorem Tracks.create (htracks : Tracks mode swept s) (hidle : s.clients client = none)
    (hnormal : ∀ other call, s.clients other = some call → call.exclusive = false)
    (size alignment : ℕ) : Tracked (s.create client size alignment) := by
  unfold LiveGraph.create
  split_ifs with hfits
  · exact ⟨mode, swept, htracks⟩
  · cases hlast : s.freeNodes.getLast? with
    | some node => exact ⟨_, _, htracks.pop hidle hnormal hlast⟩
    | none => exact ⟨_, _, htracks.ask hidle hnormal s.liveCount⟩

/-- A client goes from one call to another, neither of which has a node. -/
theorem Placed.setClient (hplaced : Placed mode s) {after : Option ClientCall}
    (hcall : ∀ task node stage, s.clients client ≠ some (.creating task node stage))
    (hafter : ∀ task node stage, after ≠ some (.creating task node stage))
    (hasking : ∀ task, after.bind ClientCall.asking = some task →
      (s.clients client).bind ClientCall.asking = some task)
    (hexclusive : Exclusive mode (Function.update s.clients client after) s.execs s.halted) :
    Placed mode (s.setClient client after) :=
  { hplaced with
    client := hplaced.client.other hcall hafter
    slotted := hplaced.slotted.setClient
      (fun before hbefore ↦ by
        cases before with
        | creating task node stage => exact absurd hbefore (hcall task node stage)
        | _ => rfl)
      (fun next hnext ↦ by
        cases next with
        | creating task node stage => exact absurd hnext (hafter task node stage)
        | _ => rfl)
    named := hplaced.named.setClient hasking
    exclusive := hexclusive }

theorem ClientCall.shape_of_asking {call : ClientCall} (hasking : call.asking.isSome) :
    (∀ task node stage, call ≠ .creating task node stage) ∧ call.exclusive = false ∧
      call.sweepIndex = none := by
  cases call with
  | pooling task seen => exact ⟨by simp, rfl, rfl⟩
  | allocating task seen => exact ⟨by simp, rfl, rfl⟩
  | _ => contradiction

/-- A `create_task` call that has no node yet goes on without one. -/
theorem Tracks.recall (htracks : Tracks mode swept s) {call : ClientCall}
    {after : Option ClientCall}
    (hcall : s.clients client = some call) (hasking : call.asking.isSome)
    (hafter : ∀ next, after = some next → next.asking = call.asking) :
    Tracks mode swept (s.setClient client after) := by
  have hshape := ClientCall.shape_of_asking hasking
  have hshape' : ∀ next, after = some next → (∀ task node stage, next ≠ .creating task node stage) ∧
      next.exclusive = false ∧ next.sweepIndex = none := by
    intro next hnext
    rw [← hafter next hnext] at hasking
    exact ClientCall.shape_of_asking hasking
  refine ⟨htracks.setClient ?_ ?_ ?_ (htracks.exclusive.setClient
    (htracks.exclusive.none_of_call hcall hshape.2.1) client fun next hnext ↦
    (hshape' next hnext).2.1), htracks.charged, htracks.sweeping.setClient ?_ ?_⟩
  · intro task node stage hcreating
    exact hshape.1 task node stage (Option.some.inj (hcall.symm.trans hcreating))
  · intro task node stage hcreating
    exact (hshape' _ hcreating).1 task node stage rfl
  · intro task hnext
    obtain ⟨next, rfl, htask⟩ := Option.bind_eq_some_iff.mp hnext
    rw [hcall, Option.bind_some, ← hafter next rfl, htask]
  · rw [hcall]
    exact hshape.2.2
  · cases after with
    | none => rfl
    | some next => exact (hshape' next rfl).2.2

/-- A `create_task` call returns an empty handle. -/
theorem Tracks.refuse (htracks : Tracks mode swept s) {call : ClientCall}
    (hcall : s.clients client = some call) (hasking : call.asking.isSome) (seen : ℕ) :
    Tracks mode swept ((s.setClient client none).emit (.refused seen)) := by
  have hback : Tracks mode swept (s.setClient client none) :=
    htracks.recall hcall hasking (by simp)
  exact
    { hback with
      named := hback.named.emit (by simp [TaskEvent.task])
      built := hback.built.emit (by simp)
      ordered := hback.ordered.append (by simp) (by simp)
      handled := hback.handled.emit [.refused seen] }

/-- A `create_task` call allocates a block and constructs an empty node in it. -/
theorem Tracks.allocate (htracks : Tracks mode swept s) {seen : ℕ} {rest : List ℕ}
    (hcall : s.clients client = some (.allocating task seen))
    (hblocks : s.freeBlocks = node :: rest) :
    Tracks (Function.update mode node (.creating client task .counting)) swept
      ({ s.setNode node .blank with freeBlocks := rest }.setClient client
        (some (.creating task node .counting))) := by
  have hmode : mode node = .pooled :=
    (htracks.pool.matches_pool node).mpr (.inl (by rw [hblocks]; exact List.mem_cons_self))
  have hpool := htracks.pool
  rw [hblocks] at hpool
  obtain ⟨hlt, hnodes, hevents⟩ := htracks.named.asking client task (by rw [hcall]; rfl)
  refine ⟨⟨?_, ?_, ?_, ?_, ?_, ?_, ?_, ?_, ?_, ?_, ?_, ?_, ?_⟩, ?_, ?_⟩
  · exact hpool.allocate (by simp)
  · exact htracks.free.keep (by simp [hmode]) (by simp)
  · exact htracks.client.enter (by simp [hcall]) (by simp [hmode])
  · exact htracks.queue.keep (by simp [hmode]) (by simp)
  · exact htracks.exec.keep (by simp [hmode]) (by simp [hmode]) (by simp) (by simp)
  · exact fits_update htracks.fits ⟨rfl, rfl, rfl, fun _ _ _ _ _ ↦ rfl⟩
  · exact (htracks.slotted.keep (by simp [hmode, Mode.slotted, CreateStage.slotted])).setClient
      (by simp [hcall, ClientCall.entering]) (by simp [ClientCall.entering])
  · have hcleared : Named mode (Function.update s.clients client
        (some (.creating task node .counting))) s.nextTask s.events :=
      htracks.named.setClient (by simp [ClientCall.asking])
    refine hcleared.assign hlt hnodes hevents (fun other hother ↦ ?_) rfl
    by_cases heq : other = client
    · subst heq
      rw [Function.update_self] at hother
      contradiction
    · rw [Function.update_of_ne heq] at hother
      exact heq (htracks.named.asking_distinct other client task hother (by rw [hcall]; rfl))
  · exact htracks.built.move (by simp [hmode, Mode.callable, CreateStage.constructed])
  · exact htracks.ordered.move (by simp)
  · exact htracks.counted.keep (by simp [hmode, Mode.counted, CreateStage.counted])
  · refine htracks.handled.keep (fun other task' stage hnext ↦ .inl ?_) (by simp [hmode])
      (by simp [hmode, Mode.unfinished]) (by simp)
    obtain ⟨rfl, rfl, rfl⟩ := Mode.creating.inj hnext
    exact hevents
  · exact htracks.exclusive.setClient (htracks.exclusive.none_of_call hcall rfl) client
      (by simp [ClientCall.exclusive])
  · exact htracks.charged.move .blank (by simp [hmode]) (by simp [hmode, Mode.remaining]) (.inl rfl)
  · exact (htracks.sweeping.keep (by simp [Mode.dormant, CreateStage.live])
      (by simp [Mode.owesSentinel, CreateStage.unsubmitted])).setClient
      (by simp [hcall, ClientCall.sweepIndex]) (by simp [ClientCall.sweepIndex])

section Entering

variable {tasks : ℕ → Option ℕ} {taskCount : ℕ} {clients : CallTable Client ClientCall}

omit [Fintype Exec] [DecidableEq Client] in
/-- While a client is entering a node, no other is. -/
theorem Slotted.alone (hslotted : Slotted mode tasks taskCount clients) {call : ClientCall}
    (hcall : clients client = some call) (hentering : call.entering.isSome) (other : Client)
    (entry : ClientCall) (hother : other ≠ client) (hentry : clients other = some entry) :
    entry.entering = none := by
  by_contra hne
  exact hother (hslotted.exclusive other client entry call hentry hcall
    (Option.isSome_iff_ne_none.mpr hne) hentering)

/-- If no other client is entering a node, only that client is after its next step. -/
theorem entering_update (client : Client) (after : ClientCall)
    (halone : ∀ other entry, other ≠ client → clients other = some entry → entry.entering = none)
    (other : Client) (entry : ClientCall)
    (hentry : Function.update clients client (some after) other = some entry)
    (hentering : entry.entering.isSome) : other = client ∧ entry = after := by
  by_cases heq : other = client
  · subst heq
    rw [Function.update_self] at hentry
    exact ⟨rfl, (Option.some.inj hentry).symm⟩
  · rw [Function.update_of_ne heq] at hentry
    rw [halone other entry heq hentry] at hentering
    contradiction

omit [Fintype Exec] in
/-- A client reads `task_count_` to enter its node. Assumes: no client is entering a node. -/
theorem Slotted.count (hslotted : Slotted mode tasks taskCount clients)
    (halone : ∀ other call, clients other = some call → call.entering = none)
    (hnode : (mode node).slotted = false) :
    Slotted (Function.update mode node (.creating client task (.bumping taskCount))) tasks taskCount
      (Function.update clients client (some (.creating task node (.bumping taskCount)))) := by
  have hkept : Slotted (Function.update mode node (.creating client task (.bumping taskCount)))
      tasks taskCount clients := hslotted.keep hnode.symm
  have hentry := entering_update client (.creating task node (.bumping taskCount))
    fun other entry _ ↦ halone other entry
  refine ⟨hkept.slotted_iff, hkept.lt, fun index hindex ↦ ?_, hkept.injective,
    fun other task' node' index hother ↦ ?_, fun other task' node' index hother ↦ ?_,
    fun first second call call' hfirst hsecond hcall hcall' ↦ ?_⟩
  · refine (hkept.full index hindex).imp_right ?_
    rintro ⟨other, task', node', hother⟩
    have hcontra := halone other _ hother
    contradiction
  · obtain ⟨rfl, heq⟩ := hentry other _ hother rfl
    obtain ⟨-, -, hstage⟩ := ClientCall.creating.inj heq
    exact CreateStage.bumping.inj hstage
  · obtain ⟨rfl, heq⟩ := hentry other _ hother rfl
    obtain ⟨-, -, hstage⟩ := ClientCall.creating.inj heq
    contradiction
  · rw [(hentry first call hfirst hcall).1, (hentry second call' hsecond hcall').1]

omit [Fintype Exec] in
/-- A client writes `task_count_`. -/
theorem Slotted.bump (hslotted : Slotted mode tasks taskCount clients) {index : ℕ}
    (hcall : clients client = some (.creating task node (.bumping index)))
    (hnode : (mode node).slotted = false) :
    Slotted (Function.update mode node (.creating client task (.slotting index))) tasks (index + 1)
      (Function.update clients client (some (.creating task node (.slotting index)))) := by
  have hkept : Slotted (Function.update mode node (.creating client task (.slotting index)))
      tasks taskCount clients := hslotted.keep hnode.symm
  have hentry := entering_update client (.creating task node (.slotting index))
    (hslotted.alone hcall rfl)
  obtain rfl := hslotted.bumping client task node index hcall
  have hnone : tasks index = none := by
    by_contra hne
    obtain ⟨other, hother⟩ := Option.ne_none_iff_exists'.mp hne
    exact (hslotted.lt index other hother).false
  refine ⟨hkept.slotted_iff,
    fun other node' hother ↦ Nat.lt_succ_of_lt (hkept.lt other node' hother),
    fun other hother ↦ ?_, hkept.injective, fun other task' node' index' hother ↦ ?_,
    fun other task' node' index' hother ↦ ?_,
    fun first second call call' hfirst hsecond hcall hcall' ↦ ?_⟩
  · rcases Nat.lt_succ_iff_lt_or_eq.mp hother with hlt | rfl
    · refine (hkept.full other hlt).imp_right ?_
      rintro ⟨thread, task', node', hthread⟩
      by_cases heq : thread = client
      · subst heq
        rw [hcall] at hthread
        simp at hthread
      · have hcontra := hslotted.alone hcall rfl thread _ heq hthread
        contradiction
    · exact .inr ⟨client, task, node, Function.update_self ..⟩
  · obtain ⟨rfl, heq⟩ := hentry other _ hother rfl
    obtain ⟨-, -, hstage⟩ := ClientCall.creating.inj heq
    contradiction
  · obtain ⟨rfl, heq⟩ := hentry other _ hother rfl
    obtain ⟨-, -, hstage⟩ := ClientCall.creating.inj heq
    obtain rfl := CreateStage.slotting.inj hstage
    exact ⟨rfl, hnone⟩
  · rw [(hentry first call hfirst hcall).1, (hentry second call' hsecond hcall').1]

omit [Fintype Exec] in
/-- A client stores its node in `tasks_`. -/
theorem Slotted.store (hslotted : Slotted mode tasks taskCount clients) {index : ℕ}
    (hcall : clients client = some (.creating task node (.slotting index)))
    (hnode : (mode node).slotted = false) :
    Slotted (Function.update mode node (.creating client task .arming))
      (Function.update tasks index (some node)) taskCount
      (Function.update clients client (some (.creating task node .arming))) := by
  obtain ⟨hlast, hnone⟩ := hslotted.slotting client task node index hcall
  have halone := hslotted.alone hcall rfl
  have hnever : ∀ other entry, Function.update clients client
      (some (.creating task node .arming)) other = some entry → entry.entering = none := by
    intro other entry hentry
    by_cases heq : other = client
    · subst heq
      rw [Function.update_self] at hentry
      rw [← Option.some.inj hentry]
      rfl
    · rw [Function.update_of_ne heq] at hentry
      exact halone other entry heq hentry
  have hnew : ∀ other, tasks other ≠ some node := fun other hother ↦ by
    rw [(hslotted.slotted_iff node).mpr ⟨other, hother⟩] at hnode
    contradiction
  have htasks : ∀ other node', Function.update tasks index (some node) other = some node' ↔
      other = index ∧ node' = node ∨ tasks other = some node' := by
    intro other node'
    by_cases heq : other = index
    · subst heq
      rw [Function.update_self, hnone]
      simp [eq_comm]
    · rw [Function.update_of_ne heq]
      simp [heq]
  refine ⟨fun other ↦ ?_, fun other node' hother ↦ ?_, fun other hother ↦ .inl ?_,
    fun first second node' hfirst hsecond ↦ ?_, fun other task' node' index' hother ↦ ?_,
    fun other task' node' index' hother ↦ ?_, fun first second call call' hfirst _ hcall _ ↦ ?_⟩
  · by_cases heq : other = node
    · subst heq
      rw [Function.update_self]
      exact ⟨fun _ ↦ ⟨index, Function.update_self ..⟩, fun _ ↦ rfl⟩
    · rw [Function.update_of_ne heq, hslotted.slotted_iff]
      simp [htasks, heq]
  · rcases (htasks other node').mp hother with ⟨rfl, -⟩ | hbefore
    · omega
    · exact hslotted.lt other node' hbefore
  · by_cases heq : other = index
    · exact ⟨node, (htasks other node).mpr (.inl ⟨heq, rfl⟩)⟩
    · rcases hslotted.full other hother with ⟨node', hbefore⟩ | ⟨thread, task', node', hthread⟩
      · exact ⟨node', (htasks other node').mpr (.inr hbefore)⟩
      · have hsame := (hslotted.slotting thread task' node' other hthread).1
        omega
  · rcases (htasks first node').mp hfirst with ⟨rfl, rfl⟩ | hold <;>
      rcases (htasks second node').mp hsecond with ⟨rfl, heq⟩ | hold'
    · rfl
    · exact absurd hold' (hnew second)
    · exact absurd (heq ▸ hold) (hnew first)
    · exact hslotted.injective first second node' hold hold'
  · have hcontra := hnever other _ hother
    contradiction
  · have hcontra := hnever other _ hother
    contradiction
  · rw [hnever first call hfirst] at hcall
    contradiction

end Entering

section Stages

variable {stage stage' : CreateStage}

/-- A `create_task` call goes on to its next stage. What the stage says of `tasks_`, of the counter
and of the sweep is assumed. -/
theorem Tracks.goOn (htracks : Tracks mode swept s)
    (hcall : s.clients client = some (.creating task node stage)) (value : LiveNode)
    {tasks : ℕ → Option ℕ} {taskCount outstanding : ℕ}
    (hfits : (Mode.creating client task stage' : Mode Client Exec).Fits value)
    (hslotted : Slotted (Function.update mode node (.creating client task stage')) tasks taskCount
      (Function.update s.clients client (some (.creating task node stage'))))
    (htasks : ∀ index node, s.tasks index = some node → tasks index = some node)
    (hcharged : Charged (Function.update mode node (.creating client task stage'))
      (LiveGraph.poolBlocks s.maxTasks) swept tasks (Function.update s.nodes node value) s.edges)
    (hdormant : s.submitted = false → stage'.live = false)
    (howes : s.submitted = true → stage'.unsubmitted = true → stage.unsubmitted = true)
    (hconstructed : stage'.constructed = stage.constructed)
    (hcounted : OutstandingCounts (Function.update mode node (.creating client task stage'))
      (LiveGraph.poolBlocks s.maxTasks) s.execs outstanding) :
    Tracks (Function.update mode node (.creating client task stage')) swept
      ({ s.setNode node value with
        tasks := tasks, taskCount := taskCount, outstanding := outstanding }.setClient client
        (some (.creating task node stage'))) := by
  have hmode : mode node = .creating client task stage :=
    (htracks.client client task stage node).mpr hcall
  refine ⟨⟨?_, ?_, ?_, ?_, ?_, ?_, ?_, ?_, ?_, ?_, ?_, ?_, ?_⟩, ?_, ?_⟩
  · exact htracks.pool.keep (by simp [hmode]) (by simp)
  · exact htracks.free.keep (by simp [hmode]) (by simp)
  · exact htracks.client.advance hcall
  · exact htracks.queue.keep (by simp [hmode]) (by simp)
  · exact htracks.exec.keep (by simp [hmode]) (by simp [hmode]) (by simp) (by simp)
  · exact fits_update htracks.fits hfits
  · exact hslotted
  · exact (htracks.named.keep (by simp [hmode, Mode.task])
      (by simp [hmode, Mode.unmade, hconstructed])).setClient (by simp [ClientCall.asking])
  · exact htracks.built.move (by simp [hmode, Mode.callable, hconstructed])
  · exact htracks.ordered.move (by simp)
  · exact hcounted
  · refine htracks.handled.keep (fun other task' stage'' hnext ↦ .inr ⟨stage, ?_⟩) (by simp [hmode])
      (by simp [hmode, Mode.unfinished]) (by simp)
    obtain ⟨rfl, rfl, rfl⟩ := Mode.creating.inj hnext
    exact hmode
  · exact htracks.exclusive.setClient (htracks.exclusive.none_of_call hcall rfl) client
      (by simp [ClientCall.exclusive])
  · exact hcharged
  · refine (htracks.sweeping.congr (fun hsubmitted other ↦ ?_) (fun hsubmitted other hother ↦ ?_)
      htasks fun _ _ _ ↦ Iff.rfl).setClient (by rw [hcall]; rfl) rfl
    · by_cases heq : other = node
      · subst heq
        rw [Function.update_self]
        simp [Mode.dormant, hdormant hsubmitted]
      · rw [Function.update_of_ne heq]
        exact htracks.sweeping.dormant hsubmitted other
    · by_cases heq : other = node
      · subst heq
        rw [Function.update_self] at hother
        rw [hmode]
        exact howes hsubmitted hother
      · rwa [Function.update_of_ne heq] at hother

/-- A `create_task` call goes on to a stage that is about its node only. -/
theorem Tracks.goOnNode (htracks : Tracks mode swept s)
    (hcall : s.clients client = some (.creating task node stage)) (value : LiveNode)
    (hfits : (Mode.creating client task stage' : Mode Client Exec).Fits value)
    (hslotted : stage'.slotted = stage.slotted)
    (hentering : (ClientCall.creating task node stage).entering = none)
    (hentering' : (ClientCall.creating task node stage').entering = none)
    (hpending : (Mode.creating client task stage' : Mode Client Exec).PendingFits
      (SweptNode s.tasks swept node) 0 value.pending)
    (hdormant : s.submitted = false → stage'.live = false)
    (howes : s.submitted = true → stage'.unsubmitted = true → stage.unsubmitted = true)
    (hconstructed : stage'.constructed = stage.constructed)
    (hcounted : stage'.counted = stage.counted) :
    Tracks (Function.update mode node (.creating client task stage')) swept
      ((s.setNode node value).setClient client (some (.creating task node stage'))) := by
  have hmode : mode node = .creating client task stage :=
    (htracks.client client task stage node).mpr hcall
  refine htracks.goOn hcall value hfits ?_ (fun _ _ h ↦ h) ?_ hdormant howes hconstructed ?_
  · exact (htracks.slotted.keep (by simp [hmode, Mode.slotted, hslotted])).setClient
      (by simp [hcall, hentering]) (by simp [hentering'])
  · exact htracks.charged.move value (by simp [hmode]) (by simp [hmode, Mode.remaining]) hpending
  · exact htracks.counted.keep (by simp [hmode, Mode.counted, hcounted])

omit [Fintype Exec] [DecidableEq Client] in
theorem LiveGraph.setNode_self (s : LiveGraph Client Exec) (node : ℕ) :
    s.setNode node (s.nodes node) = s := by
  rw [setNode, Function.update_eq_self]

/-- A `create_task` call constructs the callable. -/
theorem Tracks.construct (htracks : Tracks mode swept s) {live : Bool}
    (hcall : s.clients client = some (.creating task node (.constructing live))) :
    Tracks (Function.update mode node (.creating client task (.adding live))) swept
      (((s.setNode node { s.nodes node with successors := [], callable := some task }).emit
        (.constructed task)).setClient client (some (.creating task node (.adding live)))) := by
  have hmode : mode node = .creating client task (.constructing live) :=
    (htracks.client client task _ node).mpr hcall
  have hpending := htracks.charged.pending node
  have hfits := htracks.fits_of_eq hmode
  rw [hmode] at hpending
  refine ⟨⟨?_, ?_, ?_, ?_, ?_, ?_, ?_, ?_, ?_, ?_, ?_, ?_, ?_⟩, ?_, ?_⟩
  · exact htracks.pool.keep (by simp [hmode]) (by simp)
  · exact htracks.free.keep (by simp [hmode]) (by simp)
  · exact htracks.client.advance hcall
  · exact htracks.queue.keep (by simp [hmode]) (by simp)
  · exact htracks.exec.keep (by simp [hmode]) (by simp [hmode]) (by simp) (by simp)
  · exact fits_update htracks.fits ⟨hfits.invoke_eq, hfits.destroy_eq, rfl, fun _ _ _ _ _ ↦ rfl⟩
  · exact (htracks.slotted.keep (by simp [hmode, Mode.slotted, CreateStage.slotted])).setClient
      (by simp [hcall, ClientCall.entering]) (by simp [ClientCall.entering])
  · exact (htracks.named.move (by simp [hmode, Mode.task])
      (by simp [hmode, TaskEvent.task, Mode.task])
      (by simp [Mode.unmade, CreateStage.constructed])).setClient (by simp [ClientCall.asking])
  · exact htracks.built.construct (by simp [hmode, Mode.callable, CreateStage.constructed])
      (by simp [Mode.callable, CreateStage.constructed])
      (htracks.named.unmade node task (by simp [hmode, Mode.unmade, CreateStage.constructed]))
  · exact (htracks.ordered.append (by simp) (by simp)).move (by simp)
  · exact htracks.counted.keep (by simp [hmode, Mode.counted, CreateStage.counted])
  · refine (htracks.handled.keep (fun other task' stage'' hnext ↦ .inr ⟨.constructing live, ?_⟩)
      (by simp [hmode]) (by simp [hmode, Mode.unfinished]) (by simp)).emit [.constructed task]
    obtain ⟨rfl, rfl, rfl⟩ := Mode.creating.inj hnext
    exact hmode
  · exact htracks.exclusive.setClient (htracks.exclusive.none_of_call hcall rfl) client
      (by simp [ClientCall.exclusive])
  · refine htracks.charged.move _ (by simp [hmode]) (by simp [hmode, Mode.remaining]) ?_
    cases live <;> exact hpending
  · refine (htracks.sweeping.keep (fun hsubmitted ↦ ?_) fun _ howes ↦ ?_).setClient
      (by simp [hcall, ClientCall.sweepIndex]) (by simp [ClientCall.sweepIndex])
    · have hdormant := htracks.sweeping.dormant hsubmitted node
      rw [hmode] at hdormant
      cases live
      · rfl
      · contradiction
    · rw [hmode]
      cases live
      · rfl
      · contradiction

/-- A `create_task` call returns the handle of its task. The task waits if it was created before
`submit`, and is in a queue otherwise. -/
theorem Tracks.returnHandle (htracks : Tracks mode swept s)
    (hcall : s.clients client = some (.creating task node stage))
    (hstage : stage.constructed = true) {next : Mode Client Exec} {live : Bool} {outstanding : ℕ}
    {dispatched : List ℕ} (hnext : next = .waiting task ∧ live = false ∨ next = .queued task)
    (hqueue : QueuePlaced (Function.update mode node next) dispatched)
    (hpending : next.PendingFits (SweptNode s.tasks swept node) 0 (s.nodes node).pending)
    (hdormant : s.submitted = false → next = .waiting task)
    (howes : s.submitted = true → next = .waiting task → stage.unsubmitted = true)
    (hcounted : OutstandingCounts (Function.update mode node next) (LiveGraph.poolBlocks s.maxTasks)
      s.execs outstanding) :
    Tracks (Function.update mode node next) swept
      ({ s with outstanding := outstanding, dispatched := dispatched }.returnHandle client task node
        live) := by
  have hmode : mode node = .creating client task stage :=
    (htracks.client client task stage node).mpr hcall
  have hfits := htracks.fits node
  rw [hmode] at hfits
  have harmed : stage.armed = true := by
    cases stage <;> simp_all [CreateStage.constructed, CreateStage.armed]
  have hentered : stage.slotted = true := by
    cases stage <;> simp_all [CreateStage.constructed, CreateStage.slotted]
  have hshape : next ≠ .pooled ∧ next ≠ .free ∧ (∀ c t st, next ≠ .creating c t st) ∧
      (∀ e t, next ≠ .taken e t) ∧ (∀ e t ph, next ≠ .executing e t ph) ∧ next.slotted = true ∧
      next.invoke = some task ∧ next.destroy = true ∧ next.callable = some task ∧
      next.task = some task ∧ next.unfinished = some task ∧
      next.remaining (s.nodes node).successors = [] := by
    have hsuccessors := hfits.fresh client task stage rfl hstage
    rcases hnext with ⟨rfl, -⟩ | rfl <;>
      simp [Mode.slotted, Mode.invoke, Mode.destroy, Mode.callable, Mode.task, Mode.unfinished,
        Mode.remaining, hsuccessors]
  obtain ⟨hpooled, hfree, hcreating, htaken, hexecuting, hslotted, hinvoke, hdestroy, hcallable,
    htask, hunfinished, hremaining⟩ := hshape
  have hfits' : next.Fits (s.nodes node) := by
    refine ⟨?_, ?_, ?_, fun c t st h ↦ absurd h (hcreating c t st)⟩
    · rw [hfits.invoke_eq, hinvoke, Mode.invoke, if_pos harmed]
    · rw [hfits.destroy_eq, hdestroy]
      exact harmed
    · rw [hfits.callable_eq, hcallable, Mode.callable, if_pos hstage]
  refine ⟨⟨?_, ?_, ?_, ?_, ?_, ?_, ?_, ?_, ?_, ?_, ?_, ?_, ?_⟩, ?_, ?_⟩
  · exact htracks.pool.keep (by simp [hmode]) hpooled
  · exact htracks.free.keep (by simp [hmode]) hfree
  · exact htracks.client.leave hcall hcreating (by simp)
  · exact hqueue
  · exact htracks.exec.keep (by simp [hmode]) (by simp [hmode]) htaken hexecuting
  · exact fits_keep htracks.fits hfits'
  · refine (htracks.slotted.keep ?_).setClient (fun before hbefore ↦ ?_) (by simp)
    · rw [hmode, hslotted]
      exact hentered.symm
    · obtain rfl := Option.some.inj (hcall.symm.trans hbefore)
      cases stage <;> simp_all [CreateStage.constructed, ClientCall.entering]
  · refine (htracks.named.keep (by rw [htask, hmode]; rfl) fun other hother ↦ ?_).setClient
      (by simp)
    rcases hnext with ⟨rfl, -⟩ | rfl <;> contradiction
  · exact htracks.built.move (by rw [hcallable, hmode, Mode.callable, if_pos hstage])
  · exact htracks.ordered.move fun e t ph h ↦ absurd h (hexecuting e t ph)
  · exact hcounted
  · have hkeep : Handled (Function.update mode node next) s.submitted s.handles s.events := by
      refine htracks.handled.keep (fun c t st h ↦ absurd h (hcreating c t st)) (by simp [hmode])
        (by simp [hmode, Mode.unfinished]) fun other hother ↦ .inr ⟨client, stage, ?_⟩
      rw [hother] at htask
      rw [hmode, Option.some.inj htask]
    refine hkeep.returned ?_ (fun other c st hother ↦ ?_) (fun hsubmitted ↦ ?_) ?_ fun hlive ↦ ?_
    · have hpresent := htracks.built.present node task
        (by rw [hmode, Mode.callable, if_pos hstage])
      have hpositive : 0 < s.events.count (.constructed task) := by omega
      exact List.count_pos_iff.mp hpositive
    · by_cases heq : other = node
      · subst heq
        rw [Function.update_self] at hother
        exact hcreating c task st hother
      · rw [Function.update_of_ne heq] at hother
        exact heq (htracks.named.distinct other node task (by rw [hother]; rfl)
          (by rw [hmode]; rfl))
    · rw [Function.update_self]
      exact hdormant hsubmitted
    · rw [Function.update_self]
      exact hunfinished
    · rw [Function.update_self]
      rcases hnext with ⟨-, rfl⟩ | rfl
      · contradiction
      · simp
  · exact htracks.exclusive.setClient (htracks.exclusive.none_of_call hcall rfl) client (by simp)
  · exact htracks.charged.keep (by simp [hmode]) (by rw [hremaining, hmode]; rfl) hpending
  · refine (htracks.sweeping.keep (fun hsubmitted ↦ ?_) fun hsubmitted hnextOwes ↦ ?_).setClient
      (by simp [hcall, ClientCall.sweepIndex]) (by simp)
    · rw [hdormant hsubmitted]
      rfl
    · rw [hmode]
      rcases hnext with ⟨rfl, -⟩ | rfl
      · exact howes hsubmitted rfl
      · contradiction

/-- A `create_task` call reads `task_count_`. Assumes: no other call is between reading it and
storing its node. -/
theorem Tracks.count (htracks : Tracks mode swept s)
    (hcall : s.clients client = some (.creating task node .counting))
    (halone : ∀ other call, s.clients other = some call → call.entering = none) :
    Tracked (s.advanceCreate client task node .counting) := by
  have hmode : mode node = .creating client task .counting :=
    (htracks.client client task _ node).mpr hcall
  have hpending := htracks.charged.pending_of_ne hmode (by simp)
  have hfits := htracks.fits_of_eq hmode
  have hfits' : (Mode.creating client task (.bumping s.taskCount) : Mode Client Exec).Fits
      (s.nodes node) :=
    ⟨hfits.invoke_eq, hfits.destroy_eq, hfits.callable_eq, by simp [CreateStage.constructed]⟩
  have hnext := htracks.goOn hcall (s.nodes node) hfits'
    (htracks.slotted.count halone (by rw [hmode]; rfl)) (fun _ _ h ↦ h)
    (htracks.charged.move (s.nodes node) (by simp [hmode]) (by rw [hmode]; rfl) hpending)
    (fun _ ↦ rfl) (fun _ h ↦ h) rfl (htracks.counted.keep (by rw [hmode]; rfl))
  rw [s.setNode_self] at hnext
  exact ⟨_, _, hnext⟩

/-- A `create_task` call writes `task_count_`. -/
theorem Tracks.bump (htracks : Tracks mode swept s) {index : ℕ}
    (hcall : s.clients client = some (.creating task node (.bumping index))) :
    Tracked (s.advanceCreate client task node (.bumping index)) := by
  have hmode : mode node = .creating client task (.bumping index) :=
    (htracks.client client task _ node).mpr hcall
  have hpending := htracks.charged.pending_of_ne hmode (by simp)
  have hfits := htracks.fits_of_eq hmode
  have hfits' : (Mode.creating client task (.slotting index) : Mode Client Exec).Fits
      (s.nodes node) :=
    ⟨hfits.invoke_eq, hfits.destroy_eq, hfits.callable_eq, by simp [CreateStage.constructed]⟩
  have hnext := htracks.goOn hcall (s.nodes node) hfits'
    (htracks.slotted.bump hcall (by rw [hmode]; rfl)) (fun _ _ h ↦ h)
    (htracks.charged.move (s.nodes node) (by simp [hmode]) (by rw [hmode]; rfl) hpending)
    (fun _ ↦ rfl) (fun _ h ↦ h) rfl (htracks.counted.keep (by rw [hmode]; rfl))
  rw [s.setNode_self] at hnext
  exact ⟨_, _, hnext⟩

/-- A `create_task` call stores its node in `tasks_`. The sweep of `submit` may have passed the
entry when it was still null. -/
theorem Tracks.store (htracks : Tracks mode swept s) {index : ℕ}
    (hcall : s.clients client = some (.creating task node (.slotting index))) :
    Tracked (s.advanceCreate client task node (.slotting index)) := by
  have hmode : mode node = .creating client task (.slotting index) :=
    (htracks.client client task _ node).mpr hcall
  have hunslotted : (mode node).slotted = false := by
    rw [hmode]
    rfl
  have hnone := (htracks.slotted.slotting client task node index hcall).2
  have hnew : ∀ other, s.tasks other ≠ some node := fun other hother ↦ by
    rw [(htracks.slotted.slotted_iff node).mpr ⟨other, hother⟩] at hunslotted
    contradiction
  have hpending := htracks.charged.pending node
  have hfits := htracks.fits_of_eq hmode
  rw [hmode] at hpending
  have hzero : (s.nodes node).pending = 0 := by
    rcases hpending with hzero | ⟨⟨other, -, hother⟩, -⟩
    · exact hzero
    · exact absurd hother (hnew other)
  have hfits' : (Mode.creating client task .arming : Mode Client Exec).Fits (s.nodes node) :=
    ⟨hfits.invoke_eq, hfits.destroy_eq, hfits.callable_eq, by simp [CreateStage.constructed]⟩
  have hmoved : Charged (Function.update mode node (.creating client task .arming))
      (LiveGraph.poolBlocks s.maxTasks) swept s.tasks
      (Function.update s.nodes node (s.nodes node)) s.edges :=
    htracks.charged.move (s.nodes node) (by simp [hmode]) (by rw [hmode]; rfl) (Or.inl hzero)
  have hnext := htracks.goOn hcall (s.nodes node) hfits'
    (htracks.slotted.store hcall hunslotted)
    (fun other node' hother ↦ by
      have hne : other ≠ index := fun heq ↦ by
        rw [heq, hnone] at hother
        contradiction
      rw [Function.update_of_ne hne]
      exact hother)
    (hmoved.store hnone (Function.update_self ..) (by rw [Function.update_self]; exact hzero))
    (fun _ ↦ rfl) (fun _ h ↦ h) rfl (htracks.counted.keep (by rw [hmode]; rfl))
  rw [s.setNode_self] at hnext
  exact ⟨_, _, hnext⟩

/-- A `create_task` call takes its next step. -/
theorem Tracks.advanceCreate (htracks : Tracks mode swept s)
    (hcall : s.clients client = some (.creating task node stage))
    (halone : stage = .counting → ∀ other call, s.clients other = some call →
      call.entering = none) :
    Tracked (s.advanceCreate client task node stage) := by
  have hmode : mode node = .creating client task stage :=
    (htracks.client client task stage node).mpr hcall
  have hlt := htracks.pool.lt_of_ne (by simp [hmode] : mode node ≠ .pooled)
  have hpending := htracks.charged.pending_of_ne hmode (by simp)
  have hfits := htracks.fits_of_eq hmode
  have hdormant := fun hsubmitted ↦ htracks.sweeping.dormant hsubmitted node
  rw [hmode] at hdormant
  cases stage with
  | counting => exact htracks.count hcall (halone rfl)
  | bumping index => exact htracks.bump hcall
  | slotting index => exact htracks.store hcall
  | arming =>
    exact ⟨_, _, htracks.goOnNode hcall _ ⟨rfl, rfl, hfits.callable_eq, by
      simp [CreateStage.constructed]⟩ rfl rfl rfl hpending (fun _ ↦ rfl) (fun _ h ↦ h) rfl rfl⟩
  | sampling =>
    have hcharging :
        (Mode.creating client task (.charging s.submitted) : Mode Client Exec).PendingFits
          (SweptNode s.tasks swept node) 0 (s.nodes node).pending := by
      cases hsubmitted : s.submitted with
      | true => exact hpending
      | false =>
        have hunswept : ¬ SweptNode s.tasks swept node := by
          rw [htracks.sweeping.zero hsubmitted]
          exact fun ⟨index, hindex, _⟩ ↦ Nat.not_lt_zero index hindex
        exact ⟨hunswept, hpending.resolve_right fun h ↦ hunswept h.1⟩
    have hfits' : (Mode.creating client task (.charging s.submitted) : Mode Client Exec).Fits
        (s.nodes node) :=
      ⟨hfits.invoke_eq, hfits.destroy_eq, hfits.callable_eq, by simp [CreateStage.constructed]⟩
    have hnext := htracks.goOnNode hcall (s.nodes node) hfits' rfl rfl rfl hcharging
      (fun hsubmitted ↦ by rw [hsubmitted]; rfl)
      (fun hsubmitted howes ↦ by rw [hsubmitted] at howes; contradiction) rfl rfl
    rw [s.setNode_self] at hnext
    exact ⟨_, _, hnext⟩
  | charging live =>
    refine ⟨_, _, htracks.goOnNode hcall _ ⟨hfits.invoke_eq, hfits.destroy_eq, hfits.callable_eq, by
      simp [CreateStage.constructed]⟩ rfl rfl rfl ?_ (fun hsubmitted ↦ ?_) (fun _ howes ↦ ?_)
      rfl rfl⟩
    · cases live
      · exact ⟨hpending.1, rfl⟩
      · exact .inl rfl
    · cases live
      · rfl
      · exact absurd (hdormant hsubmitted) Bool.false_ne_true
    · cases live
      · rfl
      · contradiction
  | constructing live => exact ⟨_, _, htracks.construct hcall⟩
  | adding live =>
    cases live with
    | false =>
      refine ⟨_, _, htracks.returnHandle hcall rfl (.inl ⟨rfl, rfl⟩)
        (htracks.queue.keep (by simp [hmode]) (by simp)) ?_ (fun _ ↦ rfl) (fun _ _ ↦ rfl)
        (htracks.counted.add hlt (by rw [hmode]; rfl) rfl)⟩
      exact ⟨1, .inr ⟨rfl, hpending.1⟩, by decide, by decide, hpending.2⟩
    | true =>
      have hfits' : (Mode.creating client task .dispatching : Mode Client Exec).Fits
          (s.nodes node) :=
        ⟨hfits.invoke_eq, hfits.destroy_eq, hfits.callable_eq,
          fun _ _ _ _ _ ↦ hfits.fresh client task _ rfl rfl⟩
      have hnext := htracks.goOn hcall (s.nodes node) hfits'
        ((htracks.slotted.keep (by rw [hmode]; rfl)).setClient
          (by simp [hcall, ClientCall.entering]) (by simp [ClientCall.entering])) (fun _ _ h ↦ h)
        (htracks.charged.move (s.nodes node) (by simp [hmode]) (by rw [hmode]; rfl) hpending)
        (fun hsubmitted ↦ absurd (hdormant hsubmitted) Bool.false_ne_true) (fun _ h ↦ h) rfl
        (htracks.counted.add hlt (by rw [hmode]; rfl) rfl)
      rw [s.setNode_self] at hnext
      exact ⟨_, _, hnext⟩
  | dispatching =>
    exact ⟨_, _, htracks.returnHandle hcall rfl (.inr rfl) (htracks.queue.push (by simp [hmode]))
      hpending (fun hsubmitted ↦ absurd (hdormant hsubmitted) Bool.false_ne_true)
      (fun _ hnext ↦ by contradiction) (htracks.counted.keep (by rw [hmode]; rfl))⟩

end Stages

end GameEngine.Core
