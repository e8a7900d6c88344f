import GameEngine.Core.GraphCreation

/-!
# Dependencies and `submit` in the task graph in use

A dependency that is added before `submit` keeps `Tracks`, and so does every step of the loop of
`submit`: the loop takes the sentinel of the waiting nodes, and where it meets another node it wraps
a counter that nothing looks at any more.
-/

set_option autoImplicit false
set_option relaxedAutoImplicit false

namespace GameEngine.Core

open GameEngine.Library
open MachineWord DependencyCount

variable {Client Exec : Type} [Fintype Exec] {mode : ℕ → Mode Client Exec} {swept : ℕ}
  {s : LiveGraph Client Exec} {client : Client} {exec : Exec} {task node index : ℕ}

/-! ### Dependencies -/

/-- A dependency is added before `submit`. -/
theorem Tracks.addDependency {prerequisite dependent : LiveHandle} (htracks : Tracks mode swept s)
    (hsubmitted : s.submitted = false) (hpred : prerequisite ∈ s.handles)
    (hdep : dependent ∈ s.handles)
    (hbound : s.edges.countP (fun edge ↦ edge.2 = dependent.task) + 1 < word32) :
    Tracks mode swept (s.addDependency prerequisite dependent) := by
  have hpredMode := htracks.handled.waiting hsubmitted prerequisite hpred
  have hdepMode := htracks.handled.waiting hsubmitted dependent hdep
  unfold LiveGraph.addDependency
  dsimp only
  split_ifs with hrefused
  · exact htracks
  · have hne : prerequisite.node ≠ dependent.node := fun heq ↦ hrefused (.inl heq)
    have hlt := htracks.pool.lt_of_ne (by rw [hpredMode]; simp : mode prerequisite.node ≠ .pooled)
    have hcharged := htracks.charged.link hne hpredMode hdepMode hlt hbound
    have hpredFits := htracks.fits prerequisite.node
    have hdepFits := htracks.fits dependent.node
    have hfits : ∀ other, (mode other).Fits (Function.update
        (Function.update s.nodes prerequisite.node { s.nodes prerequisite.node with
          successors := (s.nodes prerequisite.node).successors ++ [dependent.node] })
        dependent.node { s.nodes dependent.node with
          pending := addMod word32 (s.nodes dependent.node).pending 1 } other) := by
      intro other
      by_cases hotherDep : other = dependent.node
      · subst hotherDep
        rw [Function.update_self]
        exact ⟨hdepFits.invoke_eq, hdepFits.destroy_eq, hdepFits.callable_eq, by simp [hdepMode]⟩
      · rw [Function.update_of_ne hotherDep]
        by_cases hotherPred : other = prerequisite.node
        · subst hotherPred
          rw [Function.update_self]
          exact ⟨hpredFits.invoke_eq, hpredFits.destroy_eq, hpredFits.callable_eq, by
            simp [hpredMode]⟩
        · rw [Function.update_of_ne hotherPred]
          exact htracks.fits other
    simp only [LiveGraph.setNode, Function.update_of_ne hne.symm]
    exact ⟨{ htracks.toPlaced with fits := hfits }, hcharged, htracks.sweeping⟩

/-! ### Lowering a counter -/

omit [Fintype Exec] in
theorem Mode.lower_of_ne_one {pending : ℕ} (hpending : pending ≠ 1) (mode : Mode Client Exec) :
    mode.lower pending = mode := by
  cases mode with
  | waiting task => exact if_neg hpending
  | _ => rfl

omit [Fintype Exec] in
theorem Mode.Fits.setPending {mode : Mode Client Exec} {value : LiveNode} (hfits : mode.Fits value)
    (pending : ℕ) : mode.Fits { value with pending := pending } :=
  ⟨hfits.invoke_eq, hfits.destroy_eq, hfits.callable_eq, hfits.fresh⟩

omit [Fintype Exec] in
theorem Mode.owes_of_lower {pending : ℕ} {mode : Mode Client Exec}
    (howes : (mode.lower pending).owesSentinel = true) : mode.owesSentinel = true := by
  cases mode with
  | waiting task => rfl
  | _ => exact howes

omit [Fintype Exec] in
theorem LiveGraph.countDown_eq (s : LiveGraph Client Exec) (node : ℕ) :
    s.countDown node = { s with
      nodes := Function.update s.nodes node
        { s.nodes node with pending := subMod word32 (s.nodes node).pending 1 }
      dispatched :=
        if (s.nodes node).pending = 1 then s.dispatched ++ [node] else s.dispatched } := by
  by_cases hpending : (s.nodes node).pending = 1
  · rw [countDown, if_pos hpending, if_pos hpending]
    rfl
  · rw [countDown, if_neg hpending, if_neg hpending]
    rfl

/-- A counter is lowered, and its node is dispatched if it waited for nothing else. -/
theorem Placed.countDown (hplaced : Placed mode s) (hsubmitted : s.submitted = true)
    (hnode : (s.nodes node).pending = 1 → ∃ task, mode node = .waiting task) :
    Placed (Function.update mode node ((mode node).lower (s.nodes node).pending))
      (s.countDown node) := by
  have hlowered := (hplaced.fits node).setPending (subMod word32 (s.nodes node).pending 1)
  by_cases hpending : (s.nodes node).pending = 1
  · obtain ⟨task, hmode⟩ := hnode hpending
    have hlower : (mode node).lower (s.nodes node).pending = .queued task := by
      rw [hmode, Mode.lower, if_pos hpending]
    have hqueued : (Mode.queued task : Mode Client Exec).Fits
        { s.nodes node with pending := subMod word32 (s.nodes node).pending 1 } := by
      rw [hmode] at hlowered
      exact ⟨hlowered.invoke_eq, hlowered.destroy_eq, hlowered.callable_eq, by simp⟩
    have hused : mode node ≠ .pooled ∧ mode node ≠ .free := by simp [hmode]
    rw [hlower, LiveGraph.countDown, if_pos hpending]
    exact
      { pool := hplaced.pool.keep (by simp [hmode]) (by simp)
        free := hplaced.free.keep (by simp [hmode]) (by simp)
        client := hplaced.client.keep (by simp [hmode]) (by simp)
        queue := hplaced.queue.push (by simp [hmode])
        exec := hplaced.exec.keep (by simp [hmode]) (by simp [hmode]) (by simp) (by simp)
        fits := fits_update hplaced.fits hqueued
        slotted := hplaced.slotted.keep (by rw [hmode]; rfl)
        named := hplaced.named.keep (by rw [hmode]; rfl) (by simp [Mode.unmade])
        built := hplaced.built.move (by rw [hmode]; rfl)
        ordered := hplaced.ordered.move (by simp)
        counted := hplaced.counted.keep (by rw [hmode]; rfl)
        handled := hplaced.handled.keep (by simp) (by simp [hsubmitted])
          (by simp [hmode, Mode.unfinished]) (by simp)
        exclusive := hplaced.exclusive.move hused.1 hused.2 }
  · rw [Mode.lower_of_ne_one hpending, Function.update_eq_self, LiveGraph.countDown,
      if_neg hpending]
    have hfits : ∀ other, (Function.update mode node (mode node) other).Fits
        (Function.update s.nodes node { s.nodes node with
          pending := subMod word32 (s.nodes node).pending 1 } other) :=
      fits_update hplaced.fits hlowered
    rw [Function.update_eq_self] at hfits
    exact { hplaced with fits := hfits }

/-! ### The loop of `submit` -/

section Sweep

variable [DecidableEq Client]

omit [Fintype Exec] in
/-- `submit` sets the flag and starts its loop. -/
theorem Sweeping.begin {tasks : ℕ → Option ℕ} {clients : CallTable Client ClientCall}
    (hsweeping : Sweeping mode swept tasks false clients) :
    Sweeping mode 0 tasks true (Function.update clients client (some (.sweeping 0))) := by
  have hothers : ∀ other call, clients other = some call → call.sweepIndex = none := by
    intro other call hcall
    cases hindex : call.sweepIndex with
    | none => rfl
    | some index => exact absurd (hsweeping.sweeper other call index hcall hindex).1 (by simp)
  have hentry : ∀ other call,
      Function.update clients client (some (.sweeping 0)) other = some call →
      call.sweepIndex.isSome → other = client ∧ call = .sweeping 0 := by
    intro other call hcall hsome
    by_cases heq : other = client
    · subst heq
      rw [Function.update_self] at hcall
      exact ⟨rfl, (Option.some.inj hcall).symm⟩
    · rw [Function.update_of_ne heq] at hcall
      rw [hothers other call hcall] at hsome
      contradiction
  refine ⟨by simp, by simp, fun other call index hcall hindex ↦ ?_, fun other index node hcall ↦ ?_,
    fun first second call call' hfirst hsecond hcall hcall' ↦ ?_, fun _ hnone ↦ ?_⟩
  · obtain ⟨-, rfl⟩ := hentry other call hcall (by rw [hindex]; rfl)
    exact ⟨rfl, Option.some.inj hindex⟩
  · exact absurd (hentry other _ hcall rfl).2 (by simp)
  · rw [(hentry first call hfirst hcall).1, (hentry second call' hsecond hcall').1]
  · exact absurd (hnone client _ (Function.update_self ..)) (by simp [ClientCall.sweepIndex])

omit [Fintype Exec] in
/-- The loop of `submit` ends: it has passed every node that was there when the flag was set. -/
theorem Sweeping.finish {tasks : ℕ → Option ℕ} {taskCount : ℕ} {submitted : Bool}
    {clients : CallTable Client ClientCall}
    (hsweeping : Sweeping mode swept tasks submitted clients)
    (hslotted : Slotted mode tasks taskCount clients)
    (hcall : clients client = some (.sweeping index)) (hindex : taskCount ≤ index) :
    Sweeping mode swept tasks submitted (Function.update clients client none) := by
  obtain ⟨hsubmitted, rfl⟩ := hsweeping.sweeper client _ index hcall rfl
  have hbefore : ∀ other call, Function.update clients client none other = some call →
      clients other = some call := by
    intro other call hother
    by_cases heq : other = client
    · subst heq
      rw [Function.update_self] at hother
      contradiction
    · rwa [Function.update_of_ne heq] at hother
  refine ⟨hsweeping.zero, hsweeping.dormant,
    fun other call index hother ↦ hsweeping.sweeper other call index (hbefore other call hother),
    fun other index node hother ↦ hsweeping.lowering other index node (hbefore other _ hother),
    fun first second call call' hfirst hsecond ↦ hsweeping.unique first second call call'
      (hbefore first call hfirst) (hbefore second call' hsecond), fun _ _ node hnode ↦ ?_⟩
  have hentered : (mode node).slotted = true := by
    cases hmode : mode node with
    | creating other task stage =>
      rw [hmode] at hnode
      cases stage with
      | counting => contradiction
      | bumping _ => contradiction
      | slotting _ => contradiction
      | _ => rfl
    | pooled =>
      rw [hmode] at hnode
      contradiction
    | _ => rfl
  obtain ⟨entry, hentry⟩ := (hslotted.slotted_iff node).mp hentered
  exact ⟨entry, (hslotted.lt entry node hentry).trans_le hindex, hentry⟩

/-- A client goes on with its loop in `submit`, or leaves it. -/
theorem Placed.sweepOn (hplaced : Placed mode s) {call : ClientCall} {after : Option ClientCall}
    (hcall : s.clients client = some call) (hindex : call.sweepIndex.isSome)
    (hafter : ∀ next, after = some next → next.sweepIndex.isSome) :
    Placed mode (s.setClient client after) := by
  have hshape : ∀ next : ClientCall, next.sweepIndex.isSome →
      (∀ task node stage, next ≠ .creating task node stage) ∧ next.exclusive = false ∧
        next.asking = none := by
    intro next hnext
    cases next with
    | sweeping index => exact ⟨by simp, rfl, rfl⟩
    | reading index => exact ⟨by simp, rfl, rfl⟩
    | lowering index node => exact ⟨by simp, rfl, rfl⟩
    | _ => contradiction
  obtain ⟨hcreating, hexclusive, -⟩ := hshape call hindex
  refine hplaced.setClient (fun task node stage hother ↦ ?_) (fun task node stage hother ↦ ?_)
    (fun task htask ↦ ?_) (hplaced.exclusive.setClient
      (hplaced.exclusive.none_of_call hcall hexclusive) client
      fun next hnext ↦ (hshape next (hafter next hnext)).2.1)
  · exact hcreating task node stage (Option.some.inj (hcall.symm.trans hother))
  · exact (hshape _ (hafter _ hother)).1 task node stage rfl
  · obtain ⟨next, hnext, hasking⟩ := Option.bind_eq_some_iff.mp htask
    rw [(hshape next (hafter next hnext)).2.2] at hasking
    contradiction

/-- `submit` starts its loop, or returns at once because the flag is set. -/
theorem Tracks.submit (htracks : Tracks mode swept s) (hidle : s.clients client = none)
    (hnormal : ∀ other call, s.clients other = some call → call.exclusive = false) :
    Tracked (if s.submitted then s
      else { s.setClient client (some (.sweeping 0)) with submitted := true }) := by
  cases hsubmitted : s.submitted with
  | true => exact ⟨mode, swept, htracks⟩
  | false =>
    have hplaced : Placed mode (s.setClient client (some (.sweeping 0))) :=
      htracks.setClient (by simp [hidle]) (by simp) (by simp [ClientCall.asking])
        (htracks.exclusive.setClient hnormal client (by simp [ClientCall.exclusive]))
    have hsweeping := htracks.sweeping
    have hcharged := htracks.charged
    rw [hsubmitted] at hsweeping
    rw [hsweeping.zero rfl] at hcharged
    exact ⟨mode, 0, { hplaced with
      handled := { hplaced.handled with waiting := by simp }
      charged := hcharged
      sweeping := hsweeping.begin }⟩

/-- The loop of `submit` compares its index with `task_count_`. -/
theorem Tracks.sweep (htracks : Tracks mode swept s)
    (hcall : s.clients client = some (.sweeping index)) :
    Tracks mode swept
      (s.setClient client (if index < s.taskCount then some (.reading index) else none)) := by
  obtain ⟨-, rfl⟩ := htracks.sweeping.sweeper client _ index hcall rfl
  split_ifs with hindex
  · exact ⟨htracks.sweepOn hcall rfl (by simp [ClientCall.sweepIndex]), htracks.charged,
      htracks.sweeping.next hcall rfl rfl (by simp)⟩
  · exact ⟨htracks.sweepOn hcall rfl (by simp), htracks.charged,
      htracks.sweeping.finish htracks.slotted hcall (Nat.le_of_not_lt hindex)⟩

/-- The loop of `submit` reads an entry of `tasks_`. -/
theorem Tracks.read (htracks : Tracks mode swept s)
    (hcall : s.clients client = some (.reading index)) :
    Tracked (s.setClient client (some (match s.tasks index with
      | none => .sweeping (index + 1)
      | some node => .lowering index node))) := by
  obtain ⟨-, rfl⟩ := htracks.sweeping.sweeper client _ index hcall rfl
  cases hentry : s.tasks swept with
  | none =>
    refine ⟨mode, swept + 1, htracks.sweepOn hcall rfl (by simp [ClientCall.sweepIndex]),
      htracks.charged.congr_swept fun node ↦ ?_, htracks.sweeping.next hcall rfl rfl (by simp)⟩
    constructor
    · rintro ⟨entry, hlt, hnode⟩
      refine ⟨entry, lt_of_le_of_ne (Nat.le_of_lt_succ hlt) ?_, hnode⟩
      rintro rfl
      exact absurd (hentry.symm.trans hnode) (by simp)
    · rintro ⟨entry, hlt, hnode⟩
      exact ⟨entry, Nat.lt_succ_of_lt hlt, hnode⟩
  | some node =>
    exact ⟨mode, swept, htracks.sweepOn hcall rfl (by simp [ClientCall.sweepIndex]),
      htracks.charged, htracks.sweeping.next hcall rfl rfl (by
        rintro _ _ ⟨rfl, rfl⟩
        exact hentry)⟩

/-- The loop of `submit` lowers the counter of a node. Assumes: no `create_task` call that has found
the graph not submitted is at that node. -/
theorem Tracks.lower (htracks : Tracks mode swept s)
    (hcall : s.clients client = some (.lowering index node))
    (hnode : ∀ other task stage, s.clients other = some (.creating task node stage) →
      stage.unsubmitted = false) :
    Tracks (Function.update mode node ((mode node).lower (s.nodes node).pending)) (swept + 1)
      ((s.countDown node).setClient client (some (.sweeping (index + 1)))) := by
  obtain ⟨hsubmitted, rfl⟩ := htracks.sweeping.sweeper client _ index hcall rfl
  have hentry := htracks.sweeping.lowering client _ node hcall
  have hslotted : (mode node).slotted = true := (htracks.slotted.slotted_iff node).mpr ⟨_, hentry⟩
  have hpooled : mode node ≠ .pooled := fun hmode ↦ by
    rw [hmode] at hslotted
    contradiction
  have howes : (mode node).owesSentinel = true → ∃ task, mode node = .waiting task := by
    intro howes
    cases hmode : mode node with
    | creating other task stage =>
      rw [hmode] at howes
      rw [Mode.owesSentinel, hnode other task stage
        ((htracks.client other task stage node).mp hmode)] at howes
      contradiction
    | waiting task => exact ⟨task, rfl⟩
    | _ =>
      rw [hmode] at howes
      contradiction
  have hpending := htracks.charged.pending node
  have hlowered : Placed (Function.update mode node ((mode node).lower (s.nodes node).pending))
      (s.countDown node) := by
    refine htracks.toPlaced.countDown hsubmitted fun hone ↦ howes ?_
    by_contra hnot
    rw [Bool.not_eq_true] at hnot
    rw [Mode.pendingFits_iff hnot hpooled, hone] at hpending
    rcases hpending with hzero | ⟨-, hwrapped⟩
    · exact absurd hzero (by decide)
    · exact absurd hwrapped (by decide)
  have hcharged := htracks.charged.sweep hentry htracks.slotted.injective howes hpooled
  have hsweeping := (htracks.sweeping.next hcall rfl rfl (by simp) :
    Sweeping mode (swept + 1) s.tasks s.submitted
      (Function.update s.clients client (some (.sweeping (swept + 1)))))
  rw [s.countDown_eq] at hlowered ⊢
  refine ⟨hlowered.sweepOn hcall rfl (by simp [ClientCall.sweepIndex]), hcharged,
    hsweeping.keep (by simp [hsubmitted]) fun _ howes ↦ Mode.owes_of_lower howes⟩

end Sweep

end GameEngine.Core
