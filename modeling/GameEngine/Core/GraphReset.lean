import GameEngine.Core.GraphSubmission

/-!
# `reset` and the destructor of the task graph in use

`reset_nodes` gives every node back to the pool and destroys the callable that is still in it; the
code tells by the `destroy` pointer whether there is one. `Emptying` is the invariant of its loop.
`reset` and the destructor call it while no other call is in progress, `reset` when no task is
outstanding, so that all nodes in use are on the free list, and the destructor when the workers are
joined, with tasks still waiting or in a queue. After the destructor nothing happens (`Closed`).
-/

set_option autoImplicit false
set_option relaxedAutoImplicit false

namespace GameEngine.Core

open GameEngine.Library
open MachineWord DependencyCount

variable {Client Exec : Type} {mode : ℕ → Mode Client Exec} {swept : ℕ}
  {s : LiveGraph Client Exec} {client : Client} {exec : Exec} {task node index : ℕ}

/-! ### The loop of `reset_nodes` -/

/-- A node that neither a client nor an executor has. -/
def Mode.resting : Mode Client Exec → Bool
  | .pooled | .free | .waiting _ | .queued _ => true
  | _ => false

/-- The loop of `reset_nodes` has emptied the entries of `tasks_` below an index. -/
structure Emptying (mode : ℕ → Mode Client Exec) (index : ℕ)
    (s : LiveGraph Client Exec) : Prop where
  pool : PoolPlaced mode (LiveGraph.poolBlocks s.maxTasks) s.freeBlocks
  fits : ∀ node, (mode node).Fits (s.nodes node)
  resting : ∀ node, (mode node).resting = true
  used_iff : ∀ node, mode node ≠ .pooled ↔ ∃ entry, s.tasks entry = some node
  entries : ∀ entry node, s.tasks entry = some node → index ≤ entry ∧ entry < s.taskCount
  injective : ∀ first second node, s.tasks first = some node → s.tasks second = some node →
    first = second
  named : Named mode s.clients s.nextTask s.events
  built : Built mode s.events
  ordered : Ordered mode s.events

/-- `destroy` is called on the callable that a node has, if it has one. -/
theorem Emptying.destroyCallable (hemptying : Emptying mode index s) (node : ℕ) :
    ∃ new, s.destroyCallable node = { s with events := s.events ++ new } ∧
      Named (Function.update mode node .pooled) s.clients s.nextTask (s.events ++ new) ∧
      Built (Function.update mode node .pooled) (s.events ++ new) ∧
      Ordered (Function.update mode node .pooled) (s.events ++ new) := by
  have hfits := hemptying.fits node
  have hresting := hemptying.resting node
  cases hcallable : (mode node).callable with
  | none =>
    have hdestroy : (mode node).destroy = false := by
      cases hmode : mode node <;> rw [hmode] at hcallable hresting <;>
        first | rfl | contradiction
    refine ⟨[], ?_, ?_, ?_, ?_⟩
    · rw [LiveGraph.destroyCallable, hfits.destroy_eq, hdestroy, List.append_nil]
    · rw [List.append_nil]
      exact hemptying.named.drop rfl
    · rw [List.append_nil]
      exact hemptying.built.move hcallable.symm
    · rw [List.append_nil]
      exact hemptying.ordered.move (by simp)
  | some task =>
    have hshape : (mode node).destroy = true ∧ (mode node).task = some task ∧
        (mode node).unmade = none := by
      cases hmode : mode node <;> rw [hmode] at hcallable hresting <;>
        first | contradiction | exact ⟨rfl, hcallable, rfl⟩
    obtain ⟨hdestroy, htask, hmade⟩ := hshape
    refine ⟨[.destroyed task], ?_, ?_, ?_, ?_⟩
    · rw [LiveGraph.destroyCallable, hfits.destroy_eq, hfits.callable_eq, hdestroy, hcallable]
      rfl
    · refine (hemptying.named.emit fun event hevent other hother ↦ ⟨node, ?_, hmade⟩).drop rfl
      rw [List.mem_singleton.mp hevent] at hother
      rw [← hother, htask]
      rfl
    · refine hemptying.built.destroy hcallable rfl fun other hother hsame ↦ hother ?_
      exact hemptying.named.distinct other node task (Mode.task_of_callable hsame) htask
    · exact (hemptying.ordered.append (by simp) (by simp)).move (by simp)

/-- One turn of the loop. -/
theorem Emptying.step (hemptying : Emptying mode index s) :
    ∃ mode', Emptying mode' (index + 1) (s.resetSlot index) := by
  unfold LiveGraph.resetSlot
  cases hentry : s.tasks index with
  | none =>
    refine ⟨mode, { hemptying with entries := fun entry node hnode ↦ ?_ }⟩
    obtain ⟨hle, hlt⟩ := hemptying.entries entry node hnode
    refine ⟨lt_of_le_of_ne hle ?_, hlt⟩
    rintro rfl
    exact absurd (hentry.symm.trans hnode) (by simp)
  | some node =>
    obtain ⟨new, hevents, hnamed, hbuilt, hordered⟩ := hemptying.destroyCallable node
    have hused : mode node ≠ .pooled := (hemptying.used_iff node).mpr ⟨index, hentry⟩
    have htasks : ∀ entry other, Function.update s.tasks index none entry = some other ↔
        entry ≠ index ∧ s.tasks entry = some other := by
      intro entry other
      by_cases heq : entry = index
      · subst heq
        simp
      · simp [heq]
    dsimp only
    rw [hevents]
    refine ⟨Function.update mode node .pooled,
      { pool := hemptying.pool.release hused
        fits := fits_update hemptying.fits ⟨rfl, rfl, rfl, by simp⟩
        resting := fun other ↦ ?_
        used_iff := fun other ↦ ?_
        entries := fun entry other hother ↦ ?_
        injective := fun first second other hfirst hsecond ↦ hemptying.injective first second other
          ((htasks first other).mp hfirst).2 ((htasks second other).mp hsecond).2
        named := hnamed
        built := hbuilt
        ordered := hordered }⟩
    · by_cases heq : other = node
      · subst heq
        rw [Function.update_self]
        rfl
      · rw [Function.update_of_ne heq]
        exact hemptying.resting other
    · by_cases heq : other = node
      · subst heq
        rw [Function.update_self]
        refine ⟨fun h ↦ absurd rfl h, fun ⟨entry, hother⟩ ↦ ?_⟩
        obtain ⟨hne, hbefore⟩ := (htasks entry other).mp hother
        exact absurd (hemptying.injective entry index other hbefore hentry) hne
      · rw [Function.update_of_ne heq, hemptying.used_iff]
        refine exists_congr fun entry ↦ ?_
        rw [htasks]
        refine ⟨fun hother ↦ ⟨?_, hother⟩, fun h ↦ h.2⟩
        rintro rfl
        exact heq (Option.some.inj (hother.symm.trans hentry))
    · obtain ⟨hne, hbefore⟩ := (htasks entry other).mp hother
      obtain ⟨hle, hlt⟩ := hemptying.entries entry other hbefore
      exact ⟨lt_of_le_of_ne hle (Ne.symm hne), hlt⟩

/-- A state that differs in its nodes, its pool and the entries of `tasks_` only, and in which
callables have been destroyed. -/
def LiveGraph.KeepsRest (s s' : LiveGraph Client Exec) : Prop :=
  ∃ nodes freeBlocks tasks new, s' = { s with
      nodes := nodes
      freeBlocks := freeBlocks
      tasks := tasks
      events := s.events ++ new } ∧ ∀ event ∈ new, ∃ task, event = .destroyed task

theorem LiveGraph.KeepsRest.refl (s : LiveGraph Client Exec) : s.KeepsRest s :=
  ⟨s.nodes, s.freeBlocks, s.tasks, [], by rw [List.append_nil], by simp⟩

theorem LiveGraph.KeepsRest.trans {s' s'' : LiveGraph Client Exec} (hfirst : s.KeepsRest s')
    (hsecond : s'.KeepsRest s'') : s.KeepsRest s'' := by
  obtain ⟨_, _, _, new, rfl, hnew⟩ := hfirst
  obtain ⟨nodes, freeBlocks, tasks, new', rfl, hnew'⟩ := hsecond
  refine ⟨nodes, freeBlocks, tasks, new ++ new', by rw [List.append_assoc], fun event hevent ↦ ?_⟩
  rcases List.mem_append.mp hevent with hfirst | hsecond
  · exact hnew event hfirst
  · exact hnew' event hsecond

theorem LiveGraph.keepsRest_resetSlot (s : LiveGraph Client Exec) (index : ℕ) :
    s.KeepsRest (s.resetSlot index) := by
  unfold resetSlot
  cases s.tasks index with
  | none => exact .refl s
  | some node =>
    have hevents : ∃ new, s.destroyCallable node = { s with events := s.events ++ new } ∧
        ∀ event ∈ new, ∃ task, event = .destroyed task := by
      unfold destroyCallable
      split
      · exact ⟨[.destroyed _], rfl, by simp⟩
      · exact ⟨[], by rw [List.append_nil], by simp⟩
    obtain ⟨new, hnew, hdestroyed⟩ := hevents
    dsimp only
    rw [hnew]
    exact ⟨_, _, _, new, rfl, hdestroyed⟩

/-- The loop changes the entries of `tasks_` and what belongs to their nodes only. -/
theorem LiveGraph.keepsRest_range (s : LiveGraph Client Exec) (length : ℕ) :
    s.KeepsRest ((List.range length).foldl resetSlot s) := by
  induction length with
  | zero => exact .refl s
  | succ length ih =>
    rw [List.range_succ, List.foldl_append]
    exact ih.trans (keepsRest_resetSlot _ _)

/-- The loop empties the entries up to a length. -/
theorem Emptying.run (hemptying : Emptying mode 0 s) (length : ℕ) :
    ∃ mode', Emptying mode' length ((List.range length).foldl LiveGraph.resetSlot s) := by
  induction length with
  | zero => exact ⟨mode, hemptying⟩
  | succ length ih =>
    obtain ⟨mode', hbefore⟩ := ih
    rw [List.range_succ, List.foldl_append]
    exact hbefore.step

/-- `reset_nodes` leaves all nodes in the pool. -/
theorem Emptying.resetNodes (hemptying : Emptying mode 0 { s with freeNodes := [] }) :
    ∃ nodes freeBlocks new, s.resetNodes = { s with
        nodes := nodes
        freeBlocks := freeBlocks
        tasks := fun _ ↦ none
        taskCount := 0
        freeNodes := []
        events := s.events ++ new } ∧
      PoolPlaced (fun _ ↦ (.pooled : Mode Client Exec)) (LiveGraph.poolBlocks s.maxTasks)
        freeBlocks ∧
      (∀ node, (Mode.pooled : Mode Client Exec).Fits (nodes node)) ∧
      Named (fun _ ↦ (.pooled : Mode Client Exec)) s.clients s.nextTask (s.events ++ new) ∧
      Built (fun _ ↦ (.pooled : Mode Client Exec)) (s.events ++ new) ∧
      Ordered (fun _ ↦ (.pooled : Mode Client Exec)) (s.events ++ new) := by
  obtain ⟨mode', hempty⟩ := hemptying.run s.taskCount
  obtain ⟨nodes, freeBlocks, tasks, new, hrest, -⟩ :=
    LiveGraph.keepsRest_range { s with freeNodes := [] } s.taskCount
  rw [hrest] at hempty
  have htasks : tasks = fun _ ↦ none := by
    funext entry
    by_contra hne
    obtain ⟨node, hnode⟩ := Option.ne_none_iff_exists'.mp hne
    obtain ⟨hle, hlt⟩ := hempty.entries entry node hnode
    exact Nat.not_lt_of_le hle hlt
  have hpooled : mode' = fun _ ↦ .pooled := by
    funext node
    by_contra hne
    obtain ⟨entry, hentry⟩ := (hempty.used_iff node).mp hne
    subst htasks
    contradiction
  subst htasks hpooled
  refine ⟨nodes, freeBlocks, new, ?_, hempty.pool, hempty.fits, hempty.named, hempty.built,
    hempty.ordered⟩
  rw [LiveGraph.resetNodes, hrest]

/-! ### Empty graphs -/

section Empty

variable [Fintype Exec]

/-- A graph whose nodes are all in the pool. -/
theorem Tracks.of_empty
    (hpool : PoolPlaced (fun _ ↦ (.pooled : Mode Client Exec)) (LiveGraph.poolBlocks s.maxTasks)
      s.freeBlocks)
    (hfree : s.freeNodes = []) (hdispatched : s.dispatched = [])
    (hclients : ∀ client call, s.clients client = some call → call.exclusive = true)
    (hexecs : ∀ exec, s.execs exec = none)
    (hfits : ∀ node, (Mode.pooled : Mode Client Exec).Fits (s.nodes node))
    (htasks : ∀ index, s.tasks index = none) (htaskCount : s.taskCount = 0)
    (hsubmitted : s.submitted = false → swept = 0)
    (hnamed : Named (fun _ ↦ (.pooled : Mode Client Exec)) s.clients s.nextTask s.events)
    (hbuilt : Built (fun _ ↦ (.pooled : Mode Client Exec)) s.events)
    (hordered : Ordered (fun _ ↦ (.pooled : Mode Client Exec)) s.events)
    (houtstanding : s.outstanding = 0)
    (hhandled : Handled (fun _ ↦ (.pooled : Mode Client Exec)) s.submitted s.handles s.events)
    (hexclusive : Exclusive (fun _ ↦ (.pooled : Mode Client Exec)) s.clients s.execs s.halted) :
    Tracks (fun _ ↦ .pooled) swept s := by
  have hshape : ∀ client call, s.clients client = some call →
      (∀ task node stage, call ≠ .creating task node stage) ∧ call.sweepIndex = none := by
    intro client call hcall
    have hexcl := hclients client call hcall
    cases call <;> first | contradiction | exact ⟨by simp, rfl⟩
  have hnever : ∀ client task node stage, s.clients client ≠ some (.creating task node stage) :=
    fun client task node stage hcall ↦ (hshape client _ hcall).1 task node stage rfl
  have hsweep : ∀ client call, s.clients client = some call → ¬ call.sweepIndex.isSome := by
    intro client call hcall
    rw [(hshape client call hcall).2]
    exact Bool.false_ne_true
  refine ⟨⟨hpool, ⟨fun node ↦ by simp [hfree], by simp [hfree]⟩, fun client task stage node ↦ ?_,
    ⟨fun node ↦ by simp [hdispatched], by simp [hdispatched]⟩,
    ⟨fun exec node ↦ by simp [hexecs], fun exec task phase node ↦ by simp [hexecs]⟩, hfits, ?_,
    hnamed, hbuilt, hordered, ?_, hhandled, hexclusive⟩, .pooled fun _ ↦ rfl, ?_⟩
  · exact ⟨fun h ↦ by contradiction, fun h ↦ absurd h (hnever client task node stage)⟩
  · refine ⟨fun node ↦ by simp [htasks, Mode.slotted], by simp [htasks], by simp [htaskCount],
      by simp [htasks], fun client task node index hcall ↦ absurd hcall (hnever _ _ _ _),
      fun client task node index hcall ↦ absurd hcall (hnever _ _ _ _), ?_⟩
    intro first second call call' hfirst _ hentering
    cases call with
    | creating task node stage => exact absurd hfirst (hnever _ _ _ _)
    | _ => contradiction
  · simp [OutstandingCounts, Mode.counted, hexecs, houtstanding]
  · refine ⟨hsubmitted, fun _ _ ↦ rfl, fun client call index hcall hindex ↦ ?_,
      fun client index node hcall ↦ absurd rfl (hsweep client _ hcall),
      fun first second call call' hfirst _ hcall ↦ absurd hcall (hsweep first call hfirst),
      fun _ _ node hnode ↦ by contradiction⟩
    exact absurd (by rw [hindex]; rfl) (hsweep client call hcall)

/-- A new graph. -/
theorem tracks_new (maxTasks : ℕ) :
    Tracks (fun _ ↦ .pooled) 0 (LiveGraph.new maxTasks : LiveGraph Client Exec) := by
  refine .of_empty ⟨fun node ↦ ?_, List.nodup_range, fun node hnode ↦ List.mem_range.mp hnode⟩ rfl
    rfl (by simp [LiveGraph.new, CallTable.idle]) (fun _ ↦ rfl) (fun _ ↦ ⟨rfl, rfl, rfl, by simp⟩)
    (fun _ ↦ rfl) rfl (fun _ ↦ rfl) ?_ ?_ ?_ rfl ?_ (.inl ⟨?_, rfl⟩)
  · simp [LiveGraph.new, Nat.lt_or_ge]
  · constructor <;> simp [LiveGraph.new, CallTable.idle, Mode.task, Mode.unmade]
  · constructor <;> simp [LiveGraph.new, Mode.callable]
  · constructor <;> simp [LiveGraph.new]
  · constructor <;> simp [LiveGraph.new]
  · simp [LiveGraph.new, CallTable.idle]

end Empty

/-! ### Exclusive calls -/

/-- While an exclusive call is in progress, no other call is. -/
theorem Exclusive.of_call {clients : CallTable Client ClientCall}
    {execs : CallTable Exec ExecutorCall} {halted : Bool} {call : ClientCall}
    (hexclusive : Exclusive mode clients execs halted) (hcall : clients client = some call)
    (hexcl : call.exclusive = true) :
    (∀ other, other ≠ client → clients other = none) ∧ call.Exclusively mode execs halted := by
  rcases hexclusive with ⟨hnone, -⟩ | ⟨other, entry, hentry, hothers, hexclusively⟩
  · rw [hnone client call hcall] at hexcl
    contradiction
  · obtain rfl : client = other := by
      by_contra hne
      rw [hothers client hne] at hcall
      contradiction
    obtain rfl := Option.some.inj (hcall.symm.trans hentry)
    exact ⟨hothers, hexclusively⟩

section Steps

variable [Fintype Exec] [DecidableEq Client]

omit [DecidableEq Client] in
theorem Placed.emptying (hplaced : Placed mode s) (hresting : ∀ node, (mode node).resting = true) :
    Emptying mode 0 { s with freeNodes := [] } where
  pool := hplaced.pool
  fits := hplaced.fits
  resting := hresting
  used_iff := by
    intro node
    rw [← hplaced.slotted.slotted_iff node]
    have hrest := hresting node
    cases hmode : mode node <;> rw [hmode] at hrest <;> first
      | contradiction
      | simp [Mode.slotted]
  entries := fun entry node hentry ↦ ⟨Nat.zero_le entry, hplaced.slotted.lt entry node hentry⟩
  injective := hplaced.slotted.injective
  named := hplaced.named
  built := hplaced.built
  ordered := hplaced.ordered

/-- A client that is alone starts an exclusive call, or goes on with one. -/
theorem Tracks.exclude (htracks : Tracks mode swept s) {call : ClientCall} {halted : Bool}
    (hidle : ∀ entry, s.clients client = some entry → entry.exclusive = true)
    (hothers : ∀ other, other ≠ client → s.clients other = none)
    (hexclusively : call.Exclusively mode s.execs halted) :
    Tracks mode swept { s.setClient client (some call) with halted := halted } := by
  have hexcl := ClientCall.exclusive_of_exclusively hexclusively
  have hshape : ∀ entry : ClientCall, entry.exclusive = true →
      (∀ task node stage, entry ≠ .creating task node stage) ∧ entry.sweepIndex = none ∧
        entry.asking = none ∧ entry.entering = none := by
    intro entry hentry
    cases entry <;> first | contradiction | exact ⟨by simp, rfl, rfl, rfl⟩
  obtain ⟨hcreating, hsweep, hasking, hentering⟩ := hshape call hexcl
  exact
    { htracks with
      client := htracks.client.other
        (fun task node stage hcall ↦ (hshape _ (hidle _ hcall)).1 _ _ _ rfl)
        fun task node stage hcall ↦ hcreating _ _ _ (Option.some.inj hcall)
      slotted := htracks.slotted.setClient
        (fun entry hcall ↦ (hshape entry (hidle entry hcall)).2.2.2)
        fun entry hcall ↦ Option.some.inj hcall ▸ hentering
      named := htracks.named.setClient (by simp [hasking])
      exclusive := .inr ⟨client, call, Function.update_self ..,
        fun other hother ↦ (Function.update_of_ne hother ..).trans (hothers other hother),
        hexclusively⟩
      sweeping := htracks.sweeping.setClient
        (by
          cases hcall : s.clients client with
          | none => rfl
          | some entry => exact (hshape entry (hidle entry hcall)).2.1)
        hsweep }

omit [DecidableEq Client] in
/-- When no call is in progress and nothing is outstanding, all nodes in use are free. Assumes:
there are too few nodes and executors for `outstanding_` to wrap. -/
theorem Placed.quiet (hplaced : Placed mode s) (hidle : ∀ client, s.clients client = none)
    (hbound : LiveGraph.poolBlocks s.maxTasks + Fintype.card Exec < word32)
    (houtstanding : s.outstanding = 0) :
    (∀ node, mode node = .pooled ∨ mode node = .free) ∧ ∀ exec, s.execs exec = none := by
  have hcounted := hplaced.counted
  have hnodes := Finset.card_filter_le (Finset.range (LiveGraph.poolBlocks s.maxTasks))
    fun node ↦ (mode node).counted = true
  have hexecs := Finset.card_filter_le (Finset.univ : Finset Exec) fun exec ↦
    s.execs exec = some .retiring
  rw [Finset.card_range] at hnodes
  rw [Finset.card_univ] at hexecs
  rw [OutstandingCounts, houtstanding, Nat.mod_eq_of_lt (by omega)] at hcounted
  have hnone : ((Finset.range (LiveGraph.poolBlocks s.maxTasks)).filter fun node ↦
      (mode node).counted = true).card = 0 := by omega
  have hnone' : ((Finset.univ : Finset Exec).filter fun exec ↦
      s.execs exec = some .retiring).card = 0 := by omega
  rw [Finset.card_eq_zero, Finset.filter_eq_empty_iff] at hnone hnone'
  have hmodes : ∀ node, mode node = .pooled ∨ mode node = .free := by
    intro node
    by_cases hpooled : mode node = .pooled
    · exact .inl hpooled
    · have hcount := hnone (Finset.mem_range.mpr (hplaced.pool.lt_of_ne hpooled))
      cases hmode : mode node with
      | pooled => exact absurd hmode hpooled
      | free => exact .inr rfl
      | creating client task stage =>
        have hcall := (hplaced.client client task stage node).mp hmode
        rw [hidle client] at hcall
        contradiction
      | _ =>
        rw [hmode] at hcount
        exact absurd rfl hcount
  refine ⟨hmodes, fun exec ↦ ?_⟩
  cases hexec : s.execs exec with
  | none => rfl
  | some call =>
    cases call with
    | taken node =>
      obtain ⟨task, htask⟩ := (hplaced.exec.matches_taken exec node).mpr hexec
      rcases hmodes node with hmode | hmode <;> rw [hmode] at htask <;> contradiction
    | executing node task phase =>
      have htask := (hplaced.exec.matches_executing exec task phase node).mpr hexec
      rcases hmodes node with hmode | hmode <;> rw [hmode] at htask <;> contradiction
    | retiring => exact absurd hexec (hnone' (Finset.mem_univ exec))

omit [DecidableEq Client] in
/-- When all nodes are free and no executor is in a call, nothing is outstanding. -/
theorem Placed.outstanding_eq_zero (hplaced : Placed mode s)
    (hmodes : ∀ node, mode node = .pooled ∨ mode node = .free)
    (hexecs : ∀ exec, s.execs exec = none) : s.outstanding = 0 := by
  have hnodes : ((Finset.range (LiveGraph.poolBlocks s.maxTasks)).filter fun node ↦
      (mode node).counted = true) = ∅ := by
    refine Finset.filter_eq_empty_iff.mpr fun node _ ↦ ?_
    rcases hmodes node with hmode | hmode <;> simp [hmode, Mode.counted]
  have hretiring : (Finset.univ.filter fun exec ↦ s.execs exec = some .retiring) = ∅ := by
    refine Finset.filter_eq_empty_iff.mpr fun exec _ ↦ ?_
    simp [hexecs exec]
  rw [hplaced.counted, hnodes, hretiring]
  rfl

/-- `reset` is done with waiting. -/
theorem Tracks.reset (htracks : Tracks mode swept s) (hidle : ∀ client, s.clients client = none)
    (hbound : LiveGraph.poolBlocks s.maxTasks + Fintype.card Exec < word32)
    (houtstanding : s.outstanding = 0) :
    Tracks mode swept (s.setClient client (some .resetting)) := by
  obtain ⟨hmodes, hexecs⟩ := htracks.quiet hidle hbound houtstanding
  refine htracks.exclude (by simp [hidle]) (fun other _ ↦ hidle other)
    ⟨hmodes, hexecs, htracks.exclusive.normal (by simp [hidle])⟩

/-- `reset` empties the graph. -/
theorem Tracks.empty (htracks : Tracks mode swept s)
    (hcall : s.clients client = some .resetting) :
    Tracks (fun _ ↦ .pooled) swept (s.resetNodes.setClient client (some .reopening)) := by
  obtain ⟨hothers, hmodes, hexecs, hhalted⟩ := htracks.exclusive.of_call hcall rfl
  have hresting : ∀ node, (mode node).resting = true := by
    intro node
    rcases hmodes node with hmode | hmode <;> rw [hmode] <;> rfl
  obtain ⟨nodes, freeBlocks, new, hreset, hpool, hfits, hnamed, hbuilt, hordered⟩ :=
    (htracks.emptying hresting).resetNodes
  have hclients : ∀ other entry,
      Function.update s.clients client (some .reopening) other = some entry →
        entry = .reopening := by
    intro other entry hentry
    by_cases heq : other = client
    · subst heq
      rw [Function.update_self] at hentry
      exact (Option.some.inj hentry).symm
    · rw [Function.update_of_ne heq, hothers other heq] at hentry
      contradiction
  have hunfinished : ∀ node, (mode node).unfinished = none ∧ ∀ task, mode node ≠ .waiting task := by
    intro node
    rcases hmodes node with hmode | hmode <;> rw [hmode] <;> exact ⟨rfl, by simp⟩
  have hdispatched : s.dispatched = [] := by
    refine List.eq_nil_iff_forall_not_mem.mpr fun node hnode ↦ ?_
    obtain ⟨task, htask⟩ := (htracks.queue.matches_list node).mpr hnode
    rcases hmodes node with hmode | hmode <;> rw [hmode] at htask <;> contradiction
  have houtstanding : s.outstanding = 0 := by
    have hcounted := htracks.counted
    have huncounted : ∀ node, ¬ (mode node).counted = true := by
      intro node
      rcases hmodes node with hmode | hmode <;> rw [hmode] <;> exact Bool.false_ne_true
    rw [OutstandingCounts] at hcounted
    simpa [huncounted, hexecs] using hcounted
  rw [hreset]
  refine .of_empty hpool rfl hdispatched
    (fun other entry hentry ↦ by rw [hclients other entry hentry]; rfl)
    hexecs hfits (fun _ ↦ rfl) rfl htracks.sweeping.zero
    (hnamed.setClient (by simp [ClientCall.asking])) hbuilt hordered houtstanding ?_
    (.inr ⟨client, .reopening, Function.update_self .., fun other hother ↦ ?_, fun _ ↦ rfl, hexecs,
      hhalted⟩)
  · have hhandled := htracks.handled.emit new
    refine ⟨hhandled.constructed, by simp, fun hsubmitted handle hmem ↦ ?_,
      fun handle hmem ↦ .inl ?_, by simp⟩
    · exact absurd (hhandled.waiting hsubmitted handle hmem) ((hunfinished handle.node).2 _)
    · rcases hhandled.unfinished handle hmem with hfinished | hbefore
      · exact hfinished
      · rw [(hunfinished handle.node).1] at hbefore
        contradiction
  · exact (Function.update_of_ne hother ..).trans (hothers other hother)

/-- `reset` clears the flag. -/
theorem Tracks.reopen (htracks : Tracks mode swept s)
    (hcall : s.clients client = some .reopening) :
    Tracks (fun _ ↦ .pooled) 0
      { s.setClient client none with submitted := false, handles := [] } := by
  obtain ⟨hothers, hmodes, hexecs, hhalted⟩ := htracks.exclusive.of_call hcall rfl
  obtain rfl : mode = fun _ ↦ .pooled := funext hmodes
  have hclients : ∀ other, Function.update s.clients client none other = none := by
    intro other
    by_cases heq : other = client
    · subst heq
      exact Function.update_self ..
    · exact (Function.update_of_ne heq ..).trans (hothers other heq)
  have htasks : ∀ index, s.tasks index = none := by
    intro index
    by_contra hne
    obtain ⟨node, hnode⟩ := Option.ne_none_iff_exists'.mp hne
    exact absurd ((htracks.slotted.slotted_iff node).mpr ⟨index, hnode⟩) Bool.false_ne_true
  refine .of_empty htracks.pool ?_ ?_ (by simp [LiveGraph.setClient, hclients]) hexecs htracks.fits
    htasks ?_ (fun _ ↦ rfl) (htracks.named.setClient (by simp)) htracks.built htracks.ordered ?_
    ?_ (.inl ⟨by simp [LiveGraph.setClient, hclients], hhalted⟩)
  · exact List.eq_nil_iff_forall_not_mem.mpr fun node hnode ↦
      absurd ((htracks.free.matches_list node).mpr hnode) (by simp)
  · exact List.eq_nil_iff_forall_not_mem.mpr fun node hnode ↦
      absurd ((htracks.queue.matches_list node).mpr hnode) (by simp)
  · by_contra hne
    rcases htracks.slotted.full 0 (Nat.pos_of_ne_zero hne) with
      ⟨node, hnode⟩ | ⟨other, task, node, hother⟩
    · rw [htasks 0] at hnode
      contradiction
    · by_cases heq : other = client
      · subst heq
        exact absurd (hcall.symm.trans hother) (by simp)
      · rw [hothers other heq] at hother
        contradiction
  · have hcounted := htracks.counted
    rw [OutstandingCounts] at hcounted
    simpa [Mode.counted, hexecs, LiveGraph.setClient] using hcounted
  · exact ⟨by simp, by simp, by simp, by simp, by simp⟩

/-- The destructor starts. -/
theorem Tracks.destroy (htracks : Tracks mode swept s) (hidle : ∀ client, s.clients client = none) :
    Tracks mode swept (s.setClient client (some .stopping)) := by
  have hhalted : s.halted = false := htracks.exclusive.normal (by simp [hidle])
  exact htracks.exclude (by simp [hidle]) (fun other _ ↦ hidle other) hhalted

/-- The destructor has joined the workers. -/
theorem Tracks.join (htracks : Tracks mode swept s) (hcall : s.clients client = some .stopping)
    (hexecs : ∀ exec, s.execs exec = none) :
    Tracks mode swept { s.setClient client (some .joined) with halted := true } := by
  obtain ⟨hothers, -⟩ := htracks.exclusive.of_call hcall rfl
  refine htracks.exclude (fun entry hentry ↦ ?_) hothers ⟨hexecs, rfl⟩
  rw [← Option.some.inj (hcall.symm.trans hentry)]
  rfl

/-- The destructor is done: nothing is in use any more. -/
structure Closed (s : LiveGraph Client Exec) : Prop where
  alone : ∃ client, s.clients client = some .closed ∧
    ∀ other, other ≠ client → s.clients other = none
  idle : ∀ exec, s.execs exec = none
  halted : s.halted = true
  pool : PoolPlaced (fun _ ↦ (.pooled : Mode Client Exec)) (LiveGraph.poolBlocks s.maxTasks)
    s.freeBlocks
  fits : ∀ node, (Mode.pooled : Mode Client Exec).Fits (s.nodes node)
  free : s.freeNodes = []
  tasks : ∀ index, s.tasks index = none
  taskCount : s.taskCount = 0
  built : Built (fun _ ↦ (.pooled : Mode Client Exec)) s.events
  ordered : Ordered (fun _ ↦ (.pooled : Mode Client Exec)) s.events

/-- The destructor empties the graph. -/
theorem Tracks.close (htracks : Tracks mode swept s) (hcall : s.clients client = some .joined) :
    Closed (s.resetNodes.setClient client (some .closed)) := by
  obtain ⟨hothers, hexecs, hhalted⟩ := htracks.exclusive.of_call hcall rfl
  have hresting : ∀ node, (mode node).resting = true := by
    intro node
    cases hmode : mode node with
    | creating other task stage =>
      have hother := (htracks.client other task stage node).mp hmode
      by_cases heq : other = client
      · subst heq
        exact absurd (hcall.symm.trans hother) (by simp)
      · rw [hothers other heq] at hother
        contradiction
    | taken exec task =>
      have hexec := (htracks.exec.matches_taken exec node).mp ⟨task, hmode⟩
      rw [hexecs exec] at hexec
      contradiction
    | executing exec task phase =>
      have hexec := (htracks.exec.matches_executing exec task phase node).mp hmode
      rw [hexecs exec] at hexec
      contradiction
    | _ => rfl
  obtain ⟨nodes, freeBlocks, new, hreset, hpool, hfits, -, hbuilt, hordered⟩ :=
    (htracks.emptying hresting).resetNodes
  rw [hreset]
  exact
    { alone := ⟨client, Function.update_self ..,
        fun other hother ↦ (Function.update_of_ne hother ..).trans (hothers other hother)⟩
      idle := hexecs
      halted := hhalted
      pool := hpool
      fits := hfits
      free := rfl
      tasks := fun _ ↦ rfl
      taskCount := rfl
      built := hbuilt
      ordered := hordered }

/-- After the destructor no disciplined step is possible. -/
theorem Closed.no_step [DecidableEq Exec] (hclosed : Closed s) {action : LiveAction Client Exec}
    (hdisciplined : Disciplined s action) : LiveGraph.step s action = none := by
  obtain ⟨client, hclient, hothers⟩ := hclosed.alone
  cases action with
  | create other size alignment =>
    exact absurd (hdisciplined client _ hclient) (by simp [ClientCall.exclusive])
  | submit other => exact absurd (hdisciplined client _ hclient) (by simp [ClientCall.exclusive])
  | wait other => exact absurd (hdisciplined client _ hclient) (by simp [ClientCall.exclusive])
  | addDependency other prerequisite dependent =>
    exact absurd (hdisciplined.1 client _ hclient) (by simp [ClientCall.exclusive])
  | reset other => exact absurd (hclient.symm.trans (hdisciplined.1 client)) (by simp)
  | destroy other => exact absurd (hclient.symm.trans (hdisciplined client)) (by simp)
  | advance other =>
    by_cases heq : other = client
    · subst heq
      simp [LiveGraph.step, hclient, LiveGraph.advance]
    · simp [LiveGraph.step, hothers other heq]
  | take exec node => simp [LiveGraph.step, hclosed.halted]
  | run exec => simp [LiveGraph.step, hclosed.idle exec]

end Steps

end GameEngine.Core
