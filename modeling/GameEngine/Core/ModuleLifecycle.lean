import GameEngine.Core.ModuleShutdown

/-!
# The hooks of one module over a run of the registry

A module's hooks are called in rounds: `pre_init` fails; or `startup` fails and the module is shut
down; or `post_init` is called and the module is shut down, at once when it fails and else later.
`lifecycle_rounds` says that in every run of the registry the calls of every module are complete
rounds, with one round open while the module is ready, and that they are complete rounds once the
registry is gone. It assumes that whenever `startup_all` is called every ready module can still be
ordered. `lifecycle_fails` is a run in which the dependency of a ready module has been unregistered:
`startup_all` overwrites the phase of the running module, and its `shutdown` is never called.
-/

set_option autoImplicit false
set_option relaxedAutoImplicit false

namespace GameEngine.Core

open GameEngine.Library

/-! ### Rounds -/

/-- The hooks called on one module, with their results. -/
def callsOf (target : IModule) (trace : List Event) : List (Hook × Bool) :=
  trace.filterMap fun
    | .called other hook succeeded => if other = target then some (hook, succeeded) else none
    | _ => none

/-- A complete round. -/
inductive Round : List (Hook × Bool) → Prop
  | preInit : Round [(.preInit, false)]
  | startup (stopped : Bool) :
      Round [(.preInit, true), (.startup, false), (.shutdown, stopped)]
  | postInit (succeeded stopped : Bool) :
      Round [(.preInit, true), (.startup, true), (.postInit, succeeded), (.shutdown, stopped)]

/-- A repetition of complete rounds. -/
inductive Rounds : List (Hook × Bool) → Prop
  | nil : Rounds []
  | concat {calls round : List (Hook × Bool)} : Rounds calls → Round round →
      Rounds (calls ++ round)

/-- The round of a module that is ready. -/
def openRound : List (Hook × Bool) := [(.preInit, true), (.startup, true), (.postInit, true)]

/-- Rounds end with a shutdown or with a `pre_init` that failed. -/
theorem Rounds.last {calls : List (Hook × Bool)} (hrounds : Rounds calls) :
    ∀ call ∈ calls.getLast?, call.1 = .shutdown ∨ call = (.preInit, false) := by
  cases hrounds with
  | nil => simp
  | concat _ hround => cases hround <;> simp

theorem callsOf_append (target : IModule) (first second : List Event) :
    callsOf target (first ++ second) = callsOf target first ++ callsOf target second :=
  List.filterMap_append

theorem callsOf_hookEvents_self (target : IModule) (calls : List (Hook × Bool)) :
    callsOf target (hookEvents target calls) = calls := by
  induction calls with
  | nil => rfl
  | cons call rest ih =>
    simp only [callsOf, hookEvents, List.map_cons, List.filterMap_cons, if_true] at ih ⊢
    rw [ih]

theorem callsOf_hookEvents_ne {target other : IModule} (hne : other ≠ target)
    (calls : List (Hook × Bool)) : callsOf other (hookEvents target calls) = [] := by
  induction calls with
  | nil => rfl
  | cons call rest ih =>
    simp only [callsOf, hookEvents, List.map_cons, List.filterMap_cons, if_neg hne.symm] at ih ⊢
    exact ih

/-- Events that are no calls of hooks. -/
theorem callsOf_eq_nil {events : List Event}
    (hevents : ∀ event ∈ events, ∀ target hook succeeded, event ≠ .called target hook succeeded)
    (target : IModule) : callsOf target events = [] := by
  refine List.filterMap_eq_nil_iff.mpr fun event hevent ↦ ?_
  cases event with
  | called other hook succeeded => exact absurd rfl (hevents _ hevent other hook succeeded)
  | _ => rfl

/-! ### The invariant -/

/-- The phases between two calls to the registry. -/
def ModulePhase.IsSettled (phase : ModulePhase) : Prop :=
  phase = .registered ∨ phase = .ready ∨ phase = .failed ∨ phase = .shutdown

/-- The calls of every module are complete rounds, with one more round open while the module is
ready. -/
structure Lifecycle (registry : ModuleRegistry) : Prop where
  wellNamed : WellNamed registry.records
  settled : ∀ rec ∈ registry.records, rec.phase.IsSettled
  opened : ∀ target, ReadyModule registry target →
    ∃ rounds, Rounds rounds ∧ callsOf target registry.trace = rounds ++ openRound
  closed : ∀ target, ¬ ReadyModule registry target → Rounds (callsOf target registry.trace)

theorem lifecycle_new : Lifecycle .new where
  wellNamed := wellNamed_nil
  settled := by simp [ModuleRegistry.new]
  opened := by simp [ReadyModule, ModuleRegistry.new]
  closed := fun _ _ ↦ .nil

/-- The same modules are ready and no hook has been called. -/
theorem Lifecycle.congr {registry next : ModuleRegistry} (hlife : Lifecycle registry)
    (hnamed : WellNamed next.records) (hsettled : ∀ rec ∈ next.records, rec.phase.IsSettled)
    (hready : ∀ target, ReadyModule next target ↔ ReadyModule registry target)
    (hcalls : ∀ target, callsOf target next.trace = callsOf target registry.trace) :
    Lifecycle next := by
  refine ⟨hnamed, hsettled, fun target h ↦ ?_, fun target h ↦ ?_⟩
  · rw [hcalls]
    exact hlife.opened target ((hready target).mp h)
  · rw [hcalls]
    exact hlife.closed target fun hbefore ↦ h ((hready target).mpr hbefore)

/-- The ready modules after one record has changed its phase. -/
theorem readyModule_set {registry next : ModuleRegistry} (hnamed : WellNamed registry.records)
    {i : ℕ} {rec changed : Record} (hrec : registry.records[i]? = some rec)
    (htarget : changed.target = rec.target) (hnext : next.records = registry.records.set i changed)
    (target : IModule) : ReadyModule next target ↔
      if target = rec.target then changed.phase = .ready else ReadyModule registry target := by
  have hlt : i < registry.records.length := (List.getElem?_eq_some_iff.mp hrec).1
  have hget : ∀ j, next.records[j]? = if j = i then some changed else registry.records[j]? := by
    intro j
    rw [hnext]
    by_cases hj : j = i
    · subst hj
      simp [hlt]
    · simp [hj, Ne.symm hj]
  split_ifs with heq
  · subst heq
    constructor
    · rintro ⟨other, hother, hsame, hready⟩
      obtain ⟨j, hj⟩ := List.mem_iff_getElem?.mp hother
      rw [hget] at hj
      split_ifs at hj with hji
      · exact Option.some.inj hj ▸ hready
      · exact absurd (hnamed.index_eq hj hrec (congrArg IModule.name hsame)) hji
    · intro hready
      exact ⟨changed, List.mem_iff_getElem?.mpr ⟨i, by rw [hget, if_pos rfl]⟩, htarget, hready⟩
  · constructor
    · rintro ⟨other, hother, hsame, hready⟩
      obtain ⟨j, hj⟩ := List.mem_iff_getElem?.mp hother
      rw [hget] at hj
      split_ifs at hj with hji
      · obtain rfl := Option.some.inj hj
        exact absurd (hsame.symm.trans htarget) heq
      · exact ⟨other, List.mem_of_getElem? hj, hsame, hready⟩
    · rintro ⟨other, hother, hsame, hready⟩
      obtain ⟨j, hj⟩ := List.mem_iff_getElem?.mp hother
      have hji : j ≠ i := by
        rintro rfl
        rw [hrec, Option.some.injEq] at hj
        exact heq (hsame.symm.trans (congrArg Record.target hj.symm))
      exact ⟨other, List.mem_iff_getElem?.mpr ⟨j, by rw [hget, if_neg hji]; exact hj⟩, hsame,
        hready⟩

/-- The record of a module says whether the module is ready. -/
theorem WellNamed.readyModule_iff {registry : ModuleRegistry} (hnamed : WellNamed registry.records)
    {i : ℕ} {rec : Record} (hrec : registry.records[i]? = some rec) :
    ReadyModule registry rec.target ↔ rec.phase = .ready := by
  have hself : registry.records = registry.records.set i rec := by
    obtain ⟨hlt, hget⟩ := List.getElem?_eq_some_iff.mp hrec
    rw [← hget, List.set_getElem_self]
  have h := readyModule_set hnamed hrec rfl hself rec.target
  rwa [if_pos rfl] at h

/-- One record changes its phase, and hooks of its module are called. Assumes: these calls turn
complete rounds into complete rounds, or into rounds with an open one when the module is now
ready. -/
theorem Lifecycle.change {registry next : ModuleRegistry} (hlife : Lifecycle registry) {i : ℕ}
    {rec changed : Record} {calls : List (Hook × Bool)} (hrec : registry.records[i]? = some rec)
    (htarget : changed.target = rec.target) (hsettled : changed.phase.IsSettled)
    (hrecords : next.records = registry.records.set i changed)
    (htrace : next.trace = registry.trace ++ hookEvents rec.target calls)
    (hopened : changed.phase = .ready → ∃ rounds, Rounds rounds ∧
      callsOf rec.target registry.trace ++ calls = rounds ++ openRound)
    (hclosed : changed.phase ≠ .ready → Rounds (callsOf rec.target registry.trace ++ calls)) :
    Lifecycle next := by
  have hready := readyModule_set hlife.wellNamed hrec htarget hrecords
  have hself : callsOf rec.target next.trace = callsOf rec.target registry.trace ++ calls := by
    rw [htrace, callsOf_append, callsOf_hookEvents_self]
  have hothers : ∀ target, target ≠ rec.target →
      callsOf target next.trace = callsOf target registry.trace := by
    intro target hne
    rw [htrace, callsOf_append, callsOf_hookEvents_ne hne, List.append_nil]
  refine ⟨?_, fun other hother ↦ ?_, fun target h ↦ ?_, fun target h ↦ ?_⟩
  · rw [hrecords]
    exact hlife.wellNamed.congr (map_target_set hrec htarget)
  · rw [hrecords] at hother
    rcases List.mem_or_eq_of_mem_set hother with hold | hnew
    · exact hlife.settled other hold
    · exact hnew ▸ hsettled
  · rw [hready] at h
    by_cases heq : target = rec.target
    · subst heq
      rw [if_pos rfl] at h
      rw [hself]
      exact hopened h
    · rw [if_neg heq] at h
      rw [hothers target heq]
      exact hlife.opened target h
  · rw [hready] at h
    by_cases heq : target = rec.target
    · subst heq
      rw [if_pos rfl] at h
      rw [hself]
      exact hclosed h
    · rw [if_neg heq] at h
      rw [hothers target heq]
      exact hlife.closed target h

/-! ### What each operation keeps -/

/-- An attempt to start a module ends with a complete round, or with an open one and the module
ready. -/
theorem Attempt.rounds {calls rounds : List (Hook × Bool)} {phase : ModulePhase} {error : String}
    (hattempt : Attempt calls phase error) (hrounds : Rounds rounds) :
    (phase = .ready ∧ rounds ++ calls = rounds ++ openRound) ∨
      (phase = .failed ∧ Rounds (rounds ++ calls)) := by
  cases hattempt with
  | preInit => exact .inr ⟨rfl, hrounds.concat .preInit⟩
  | startup stopped => exact .inr ⟨rfl, hrounds.concat (.startup stopped)⟩
  | postInit stopped => exact .inr ⟨rfl, hrounds.concat (.postInit false stopped)⟩
  | ready => exact .inl ⟨rfl, rfl⟩

/-- One module in the loop of `startup_all`. -/
theorem Lifecycle.startupModule {registry : ModuleRegistry} (hlife : Lifecycle registry)
    (hooks : Hooks) (idx : ℕ) : Lifecycle (registry.startupModule hooks idx).1 := by
  cases hrec : registry.records[idx]? with
  | none =>
    simp only [ModuleRegistry.startupModule, hrec]
    exact hlife
  | some rec =>
    have hrounds : rec.phase ≠ .ready → Rounds (callsOf rec.target registry.trace) := fun hnot ↦
      hlife.closed rec.target fun hready ↦ hnot ((hlife.wellNamed.readyModule_iff hrec).mp hready)
    rcases startupModule_cases hooks hrec with ⟨-, hresult⟩ | ⟨-, hresult⟩ |
      ⟨-, hnot, -, hresult⟩ | ⟨-, hnot, -, calls, phase, error, hattempt, -, hresult⟩
    · rw [hresult]
      exact hlife
    · rw [hresult]
      exact hlife
    · rw [hresult]
      refine hlife.change hrec (show (rec.fail "dependency not ready").target = rec.target from rfl)
        (.inr (.inr (.inl rfl))) rfl (show _ = registry.trace ++ hookEvents rec.target [] by
          simp [ModuleRegistry.setRecord, hookEvents]) (fun hready ↦ ?_) fun _ ↦ ?_
      · contradiction
      · rw [List.append_nil]
        exact hrounds hnot
    · rw [hresult]
      have hend := hattempt.rounds (hrounds hnot)
      refine hlife.change hrec
        (show ({ rec with phase := phase, error := error } : Record).target = rec.target from rfl)
        ?_ rfl rfl (fun hready ↦ ?_) fun hnotReady ↦ ?_
      · exact hend.elim (fun h ↦ .inr (.inl h.1)) fun h ↦ .inr (.inr (.inl h.1))
      · rcases hend with ⟨-, heq⟩ | ⟨hfailed, -⟩
        · exact ⟨_, hrounds hnot, heq⟩
        · exact absurd (hready.symm.trans hfailed) (by simp)
      · exact hend.elim (fun h ↦ absurd h.1 hnotReady) And.right

/-- A module that is ready has started, and between two calls to the registry it is the only
phase in which a module has. -/
theorem Record.isStarted_iff {rec : Record} (hsettled : rec.phase.IsSettled) :
    rec.isStarted = true ↔ rec.phase = .ready := by
  rcases hsettled with h | h | h | h <;> simp [Record.isStarted, h]

/-- A stopped record is not started. -/
theorem Record.stopped_phase {rec : Record} (hsettled : rec.phase.IsSettled) :
    rec.stopped.phase ≠ .ready ∧ rec.stopped.phase.IsSettled := by
  rcases hsettled with h | h | h | h <;>
    simp [Record.stopped, Record.isStarted, h, ModulePhase.IsSettled]

/-- One module is shut down if it has been started. -/
theorem Lifecycle.stop {registry next : ModuleRegistry} (hlife : Lifecycle registry) {i : ℕ}
    {rec : Record} {calls : List (Hook × Bool)} (hrec : registry.records[i]? = some rec)
    (hrecords : next.records = registry.records.set i rec.stopped)
    (htrace : next.trace = registry.trace ++ hookEvents rec.target calls)
    (hcalls : rec.isStarted = true ∧ (∃ stopped, calls = [(.shutdown, stopped)]) ∨
      rec.isStarted = false ∧ calls = []) : Lifecycle next := by
  have hsettled := hlife.settled rec (List.mem_of_getElem? hrec)
  have hready := hlife.wellNamed.readyModule_iff hrec
  have htarget : rec.stopped.target = rec.target := by
    unfold Record.stopped
    split_ifs <;> rfl
  obtain ⟨hphase, hsettled'⟩ := Record.stopped_phase hsettled
  refine hlife.change hrec htarget hsettled' hrecords htrace (fun h ↦ absurd h hphase) fun _ ↦ ?_
  rcases hcalls with ⟨hstarted, stopped, rfl⟩ | ⟨hnot, rfl⟩
  · obtain ⟨rounds, hrounds, heq⟩ :=
      hlife.opened rec.target (hready.mpr ((Record.isStarted_iff hsettled).mp hstarted))
    rw [heq, List.append_assoc]
    exact hrounds.concat (.postInit true stopped)
  · rw [List.append_nil]
    refine hlife.closed rec.target fun h ↦ ?_
    rw [(Record.isStarted_iff hsettled).mpr (hready.mp h)] at hnot
    contradiction

/-- One record in the loop of `shutdown_all`. -/
theorem Lifecycle.shutdownRecord {registry : ModuleRegistry} (hlife : Lifecycle registry)
    (hooks : Hooks) (i : ℕ) : Lifecycle (registry.shutdownRecord hooks i) := by
  cases hrec : registry.records[i]? with
  | none =>
    simp only [ModuleRegistry.shutdownRecord, hrec]
    exact hlife
  | some rec =>
    obtain ⟨hrecords, calls, htrace, hcalls⟩ := shutdownRecord_spec hooks hrec
    exact hlife.stop hrec hrecords htrace hcalls

/-- `shutdown_all`. -/
theorem Lifecycle.shutdownAll {registry : ModuleRegistry} (hlife : Lifecycle registry)
    (hooks : Hooks) : Lifecycle (registry.shutdownAll hooks) := by
  unfold ModuleRegistry.shutdownAll
  generalize (List.range registry.records.length).reverse = indices
  induction indices generalizing registry with
  | nil => exact hlife
  | cons i rest ih => exact ih (hlife.shutdownRecord hooks i)

/-- Every ready module can still be ordered: its dependencies, direct or not, are registered, have
not failed and run into no cycle. -/
def ReadyOrderable (registry : ModuleRegistry) : Prop :=
  ∀ i rec, registry.records[i]? = some rec → rec.phase = .ready → Orderable registry.records i

/-- The condition on a call to the registry: `startup_all` is called only while every ready module
can still be ordered. -/
def startsOrderable (registry : ModuleRegistry) : RegistryCall → Prop
  | .startupAll => ReadyOrderable registry
  | _ => True

/-- The order that `compute_order` finds decides which records can be ordered. -/
instance (registry : ModuleRegistry) : Decidable (ReadyOrderable registry) :=
  decidable_of_iff (∀ i < registry.records.length, ∀ rec ∈ registry.records[i]?,
      rec.phase = .ready → i ∈ (computeOrder registry.records).2.1) <| by
    simp only [(computeOrder_spec registry.records).mem_iff, Option.mem_def]
    exact ⟨fun h i rec hrec ↦ h i (List.getElem?_eq_some_iff.mp hrec).1 rec hrec,
      fun h i _ rec hrec ↦ h i rec hrec⟩

instance (registry : ModuleRegistry) (call : RegistryCall) :
    Decidable (startsOrderable registry call) :=
  match call with
  | .startupAll => inferInstanceAs (Decidable (ReadyOrderable registry))
  | .registerModule _ _ _ | .shutdownAll | .unregister _ => .isTrue trivial

/-- `compute_order` leaves the ready modules as they are. Assumes: every ready module can be
ordered. -/
theorem Lifecycle.computeOrder {registry : ModuleRegistry} (hlife : Lifecycle registry)
    (horderable : ReadyOrderable registry) :
    Lifecycle { registry with records := (computeOrder registry.records).1 } := by
  have hspec := computeOrder_spec registry.records
  have hkept : ∀ i rec, registry.records[i]? = some rec → rec.phase = .ready →
      orderedRecord registry.records (Core.computeOrder registry.records).2.1 i rec = rec := by
    intro i rec hrec hready
    have hordered := horderable i rec hrec hready
    obtain ⟨other, hother, -, hmissing⟩ := hordered.isAllowed
    rw [hrec, Option.some.injEq] at hother
    subst hother
    simp [orderedRecord, cycleFailed, hmissing, (hspec.mem_iff i).mpr hordered]
  have hfailed : ∀ i rec, rec.phase ≠ .ready → (orderedRecord registry.records
      (Core.computeOrder registry.records).2.1 i rec).phase ≠ .ready := by
    intro i rec hnot
    simp only [orderedRecord, cycleFailed]
    split_ifs <;> simp [Record.fail, hnot]
  have htarget : ∀ i rec, (orderedRecord registry.records
      (Core.computeOrder registry.records).2.1 i rec).target = rec.target := by
    intro i rec
    simp only [orderedRecord, cycleFailed]
    split_ifs <;> rfl
  refine hlife.congr (hlife.wellNamed.congr (map_target_computeOrder registry.records)) ?_ ?_
    fun _ ↦ rfl
  · intro rec hrec
    obtain ⟨i, hi⟩ := List.mem_iff_getElem?.mp hrec
    rw [hspec.records_eq, Option.map_eq_some_iff] at hi
    obtain ⟨old, hold, rfl⟩ := hi
    have hsettled := hlife.settled old (List.mem_of_getElem? hold)
    simp only [orderedRecord, cycleFailed]
    split_ifs
    · exact .inr (.inr (.inl rfl))
    · exact .inr (.inr (.inl rfl))
    · exact hsettled
  · intro target
    constructor
    · rintro ⟨rec, hrec, rfl, hready⟩
      obtain ⟨i, hi⟩ := List.mem_iff_getElem?.mp hrec
      rw [hspec.records_eq, Option.map_eq_some_iff] at hi
      obtain ⟨old, hold, rfl⟩ := hi
      refine ⟨old, List.mem_of_getElem? hold, (htarget i old).symm, ?_⟩
      by_contra hnot
      exact hfailed i old hnot hready
    · rintro ⟨rec, hrec, rfl, hready⟩
      obtain ⟨i, hi⟩ := List.mem_iff_getElem?.mp hrec
      refine ⟨rec, List.mem_iff_getElem?.mpr ⟨i, ?_⟩, rfl, hready⟩
      rw [hspec.records_eq, hi, Option.map_some, hkept i rec hi hready]

/-- `startup_all`. Assumes: every ready module can be ordered. -/
theorem Lifecycle.startupAll {registry : ModuleRegistry} (hlife : Lifecycle registry)
    (hooks : Hooks) (horderable : ReadyOrderable registry) :
    Lifecycle (registry.startupAll hooks).1 := by
  have hloop : ∀ (order : List ℕ) (state : ModuleRegistry × Bool), Lifecycle state.1 →
      Lifecycle (ModuleRegistry.startupLoop hooks order state).1 := by
    intro order
    induction order with
    | nil => exact fun _ h ↦ h
    | cons idx rest ih => exact fun state h ↦ ih _ (h.startupModule hooks idx)
  exact hloop _ _ (hlife.computeOrder horderable)

/-- `register_module`. -/
theorem Lifecycle.registerModule {registry : ModuleRegistry} (hlife : Lifecycle registry)
    (target : Option IModule) (dependencies : List (Option String)) (owned : Bool) :
    Lifecycle (registry.registerModule target dependencies owned).1 := by
  unfold ModuleRegistry.registerModule
  rcases insertRecord_cases registry target dependencies owned none false with
    ⟨events, hevents, hrefused⟩ | ⟨rec, name, hname, hphase, hnew, hadded⟩
  · rw [hrefused]
    refine hlife.congr hlife.wellNamed hlife.settled (fun _ ↦ Iff.rfl) fun other ↦ ?_
    rw [ModuleRegistry.emit, callsOf_append, callsOf_eq_nil hevents, List.append_nil]
  · rw [hadded]
    refine hlife.congr (hlife.wellNamed.concat hname hnew) (fun other hother ↦ ?_)
      (fun other ↦ ?_) fun _ ↦ rfl
    · rcases List.mem_append.mp hother with hold | hlast
      · exact hlife.settled other hold
      · rw [List.mem_singleton.mp hlast]
        exact .inl hphase
    · constructor
      · rintro ⟨rec', hrec', hsame, hready⟩
        rcases List.mem_append.mp hrec' with hold | hlast
        · exact ⟨rec', hold, hsame, hready⟩
        · rw [List.mem_singleton.mp hlast, hphase] at hready
          contradiction
      · rintro ⟨rec', hrec', hsame, hready⟩
        exact ⟨rec', List.mem_append_left _ hrec', hsame, hready⟩

/-- The record of a module that is not ready is erased. -/
theorem Lifecycle.eraseIdx {registry : ModuleRegistry} (hlife : Lifecycle registry) {i : ℕ}
    {rec : Record} (hrec : registry.records[i]? = some rec) (hnot : rec.phase ≠ .ready)
    {events : List Event}
    (hevents : ∀ event ∈ events, ∀ target hook succeeded,
      event ≠ .called target hook succeeded) :
    Lifecycle { records := registry.records.eraseIdx i, trace := registry.trace ++ events } := by
  refine hlife.congr (hlife.wellNamed.eraseIdx i)
    (fun other hother ↦ hlife.settled other (List.mem_of_mem_eraseIdx hother)) (fun target ↦ ?_)
    fun target ↦ by rw [callsOf_append, callsOf_eq_nil hevents, List.append_nil]
  constructor
  · rintro ⟨other, hother, hsame, hready⟩
    exact ⟨other, List.mem_of_mem_eraseIdx hother, hsame, hready⟩
  · rintro ⟨other, hother, hsame, hready⟩
    obtain ⟨j, hj⟩ := List.mem_iff_getElem?.mp hother
    have hji : j ≠ i := by
      rintro rfl
      rw [hrec, Option.some.injEq] at hj
      exact hnot (hj ▸ hready)
    exact ⟨other, List.mem_eraseIdx_iff_getElem?.mpr ⟨j, hji, hj⟩, hsame, hready⟩

/-- `unregister`. -/
theorem Lifecycle.unregister {registry : ModuleRegistry} (hlife : Lifecycle registry)
    (hooks : Hooks) (name : String) : Lifecycle (registry.unregister hooks name).1 := by
  rcases unregister_cases hooks registry name with
    hsame | ⟨i, rec, calls, events, hrec, hevents, herased, hcalls⟩
  · rw [hsame]
    exact hlife
  · have hsettled := hlife.settled rec (List.mem_of_getElem? hrec)
    have hpreInit : rec.phase ≠ .preInit := by
      rcases hsettled with h | h | h | h <;> simp [h]
    have hstopped : Lifecycle
        { records := registry.records.set i rec.stopped
          trace := registry.trace ++ hookEvents rec.target calls } :=
      hlife.stop hrec rfl rfl (by simpa [hpreInit] using hcalls)
    have hget : (registry.records.set i rec.stopped)[i]? = some rec.stopped := by
      have hlt : i < registry.records.length := (List.getElem?_eq_some_iff.mp hrec).1
      simp [hlt]
    have h := hstopped.eraseIdx hget (Record.stopped_phase hsettled).1 hevents
    rw [herased]
    simpa [List.eraseIdx_set_eq] using h

/-! ### Runs -/

/-- Every call to the registry that meets the condition keeps the invariant. -/
theorem Lifecycle.step {hooks : Hooks} {registry next : ModuleRegistry} {call : RegistryCall}
    (hlife : Lifecycle registry) (hguard : startsOrderable registry call)
    (hstep : registry.step hooks call = some next) : Lifecycle next := by
  cases call with
  | registerModule target dependencies owned =>
    obtain rfl := Option.some.inj hstep
    exact hlife.registerModule target dependencies owned
  | startupAll =>
    obtain rfl := Option.some.inj hstep
    exact hlife.startupAll hooks hguard
  | shutdownAll =>
    obtain rfl := Option.some.inj hstep
    exact hlife.shutdownAll hooks
  | unregister name =>
    obtain rfl := Option.some.inj hstep
    exact hlife.unregister hooks name

/-- After `shutdown_all` no module is ready. -/
theorem Lifecycle.not_ready_shutdownAll {registry : ModuleRegistry} (hlife : Lifecycle registry)
    (hooks : Hooks) (target : IModule) : ¬ ReadyModule (registry.shutdownAll hooks) target := by
  rintro ⟨rec, hrec, -, hready⟩
  rw [(shutdownAll_spec hooks registry).1] at hrec
  obtain ⟨old, hold, rfl⟩ := List.mem_map.mp hrec
  exact (Record.stopped_phase (hlife.settled old hold)).1 hready

/-- The destructor completes all rounds. -/
theorem Lifecycle.destroy {registry : ModuleRegistry} (hlife : Lifecycle registry)
    (hooks : Hooks) (target : IModule) :
    Rounds (callsOf target (registry.destroy hooks).trace) := by
  have hevents : ∀ event ∈ (registry.shutdownAll hooks).records.flatMap (fun rec ↦
      ModuleRegistry.destroyEvents rec.target rec.owned rec.destroyFn ++
        ModuleRegistry.closeEvents rec.dylib), ∀ target hook succeeded,
          event ≠ .called target hook succeeded := by
    rintro event hevent other hook succeeded rfl
    obtain ⟨rec, -, hmem⟩ := List.mem_flatMap.mp hevent
    cases howned : rec.owned <;>
      simp [ModuleRegistry.destroyEvents, ModuleRegistry.closeEvents, howned] at hmem
  have hrounds := (hlife.shutdownAll hooks).closed target (hlife.not_ready_shutdownAll hooks target)
  have htrace : (registry.destroy hooks).trace = (registry.shutdownAll hooks).trace ++
      (registry.shutdownAll hooks).records.flatMap fun rec ↦
        ModuleRegistry.destroyEvents rec.target rec.owned rec.destroyFn ++
          ModuleRegistry.closeEvents rec.dylib := rfl
  rw [htrace, callsOf_append, callsOf_eq_nil hevents, List.append_nil]
  exact hrounds

/-- `core` is unregistered while `render`, which depends on it, is ready. The next `startup_all`
finds the dependency missing and overwrites the phase of `render`, and neither `shutdown_all` nor
the destructor calls its `shutdown`. -/
theorem lifecycle_fails : ∃ registry : ModuleRegistry,
    (moduleRegistry fun _ _ _ ↦ true).Reaches TransitionSystem.unguarded .new registry ∧
    callsOf ⟨1, some "render"⟩ (registry.destroy fun _ _ _ ↦ true).trace = openRound ∧
    ¬ Rounds (callsOf ⟨1, some "render"⟩ (registry.destroy fun _ _ _ ↦ true).trace) := by
  obtain ⟨registry, hreach, htest⟩ := TransitionSystem.Reaches.exists_of_schedule
    (moduleRegistry fun _ _ _ ↦ true) .new
    [.registerModule (some ⟨0, some "core"⟩) [] false,
      .registerModule (some ⟨1, some "render"⟩) [some "core"] false, .startupAll,
      .unregister "core", .startupAll, .shutdownAll]
    (fun registry ↦ callsOf ⟨1, some "render"⟩ (registry.destroy fun _ _ _ ↦ true).trace =
      openRound) (by decide)
  have hcalls := of_decide_eq_true htest
  refine ⟨registry, hreach, hcalls, fun hrounds ↦ ?_⟩
  rw [hcalls] at hrounds
  exact absurd (hrounds.last (.postInit, true) (by decide)) (by decide)

/-- In every run of the registry, with hooks that return anything at each call, the calls of every
module are complete rounds, followed by an open one exactly while the module is ready, and they are
complete rounds once the registry has been destroyed. Assumes: whenever `startup_all` is called in
the run, every ready module can be ordered. -/
theorem lifecycle_rounds {hooks : Hooks} {registry : ModuleRegistry}
    (hreach : (moduleRegistry hooks).Reaches startsOrderable .new registry) (target : IModule) :
    Rounds (callsOf target (registry.destroy hooks).trace) ∧
      (¬ ReadyModule registry target → Rounds (callsOf target registry.trace)) ∧
      (ReadyModule registry target → ∃ rounds, Rounds rounds ∧
        callsOf target registry.trace = rounds ++ openRound) := by
  have hlife : Lifecycle registry :=
    hreach.invariant lifecycle_new fun _ _ _ hlife hguard hstep ↦ hlife.step hguard hstep
  exact ⟨hlife.destroy hooks target, hlife.closed target, hlife.opened target⟩

/-- The theorem at a run in which modules fail, are started again while others are ready, are shut
down and started anew, and are unregistered. -/
theorem lifecycle_rounds_restart :
    let hooks : Hooks := fun trace target hook ↦
      target.id ≠ 2 ∨ hook ≠ .startup ∨ trace.length % 2 = 0
    ∃ registry : ModuleRegistry, registry.records.map (fun rec ↦ rec.phase) = [.ready, .failed] ∧
      ∀ target, Rounds (callsOf target (registry.destroy hooks).trace) ∧
        (¬ ReadyModule registry target → Rounds (callsOf target registry.trace)) ∧
        (ReadyModule registry target → ∃ rounds, Rounds rounds ∧
          callsOf target registry.trace = rounds ++ openRound) := by
  intro hooks
  obtain ⟨registry, hreach, htest⟩ := TransitionSystem.Reaches.exists_of_any
    (moduleRegistry hooks) .new
    [.registerModule (some ⟨0, some "core"⟩) [] false,
      .registerModule (some ⟨1, some "render"⟩) [some "core"] false, .startupAll,
      .registerModule (some ⟨2, some "audio"⟩) [some "core"] true, .startupAll, .shutdownAll,
      .startupAll, .unregister "render"]
    (fun registry call ↦ decide (startsOrderable registry call))
    (fun registry ↦ registry.records.map (fun rec ↦ rec.phase) = [.ready, .failed])
    (fun _ _ h ↦ of_decide_eq_true h) (by decide) (by decide)
  exact ⟨registry, of_decide_eq_true htest, lifecycle_rounds hreach⟩

end GameEngine.Core
