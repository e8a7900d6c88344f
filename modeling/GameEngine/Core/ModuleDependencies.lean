import GameEngine.Core.ModuleLifecycle

/-!
# The dependencies of ready modules

Readiness is checked when a module starts. `readyModules_grounded` says that between two calls to
the registry every ready module has all its dependencies registered and ready, in every run in which
no module is unregistered that a ready module depends on, and that such an `unregister` is the only
call that breaks this. `ready_without_dependency` is a run in which it is broken.

The invariant is that the ready modules are grounded in each other: a ready module rests on ready
modules, which rest on ready modules, and so on without a cycle. Without the last part
`compute_order` might fail a ready module and leave those that depend on it ready.
-/

set_option autoImplicit false
set_option relaxedAutoImplicit false

namespace GameEngine.Core

open GameEngine.Library

/-! ### Shared libraries -/

/-- What `load_shared` finds at a path: the handle of the library, the result of its create function
if it has one, and whether it has a destroy function. -/
structure Plugin where
  handle : Option ℕ
  create : Option (Option IModule)
  destroy : Bool

/-- Registers the module of a shared library, which has no dependencies and is owned. -/
def ModuleRegistry.loadShared (registry : ModuleRegistry) (plugin : Plugin) :
    ModuleRegistry × Bool :=
  match plugin.handle with
  | none => (registry, false)
  | some handle =>
    match plugin.create with
    | some (some target) =>
      registry.insertRecord (some target) [] true (some handle) plugin.destroy
    | _ => (registry.emit (closeEvents (some handle)), false)

/-- A call to the registry, `load_shared` included. -/
inductive ModuleCall
  | registry (call : RegistryCall)
  | loadShared (plugin : Plugin)

/-- One call. -/
def ModuleRegistry.stepModule (hooks : Hooks) (registry : ModuleRegistry) :
    ModuleCall → Option ModuleRegistry
  | .registry call => registry.step hooks call
  | .loadShared plugin => some (registry.loadShared plugin).1

/-- The registry with shared libraries as a transition system. -/
def pluginRegistry (hooks : Hooks) : TransitionSystem ModuleRegistry ModuleCall where
  step := ModuleRegistry.stepModule hooks

/-- Loading a library adds no record or one of a new name, and calls no hook. -/
theorem loadShared_cases (registry : ModuleRegistry) (plugin : Plugin) :
    (registry.loadShared plugin).1.records = registry.records ∨
      ∃ rec name, rec.target.name = some name ∧ rec.phase = .registered ∧
        findRecord registry.records name = none ∧
        (registry.loadShared plugin).1.records = registry.records ++ [rec] := by
  unfold ModuleRegistry.loadShared
  split
  · exact .inl rfl
  · split
    · rcases insertRecord_cases registry _ [] true _ plugin.destroy with
        ⟨_, -, hrefused⟩ | ⟨rec, name, hname, hphase, hnew, hadded⟩
      · exact .inl (by rw [hrefused]; rfl)
      · exact .inr ⟨rec, name, hname, hphase, hnew, by rw [hadded]⟩
    · exact .inl rfl

/-! ### Grounded names -/

/-- The name of a ready module. -/
def IsReady (records : List Record) (name : String) : Prop :=
  ∃ rec ∈ records, rec.target.name = some name ∧ rec.phase = .ready

/-- The module of the second name declares the first name as a dependency. -/
def Declares (records : List Record) (dep name : String) : Prop :=
  ∃ rec ∈ records, rec.target.name = some name ∧ dep ∈ rec.deps

/-- The names of the ready modules that rest on ready modules only, without a cycle. -/
def ReadyGrounded (records : List Record) : String → Prop :=
  Grounded (IsReady records) (Declares records)

/-- Every ready module has all the modules it depends on registered and ready, as `deps_ready`
checks it. -/
def DepsReady (registry : ModuleRegistry) : Prop :=
  ∀ rec ∈ registry.records, rec.phase = .ready → depsReady registry.records rec = true

/-- The invariant. -/
structure ReadyOnReady (records : List Record) : Prop where
  wellNamed : WellNamed records
  grounded : ∀ rec ∈ records, rec.phase = .ready → ∀ dep ∈ rec.deps, ReadyGrounded records dep

variable {records records' : List Record}

/-- Two records of one name are one record. -/
theorem WellNamed.rec_eq (hnamed : WellNamed records) {first second : Record}
    (hfirst : first ∈ records) (hsecond : second ∈ records)
    (hname : first.target.name = second.target.name) : first = second := by
  obtain ⟨i, hi⟩ := List.mem_iff_getElem?.mp hfirst
  obtain ⟨j, hj⟩ := List.mem_iff_getElem?.mp hsecond
  have hij := hnamed.index_eq hi hj hname
  rw [hij, hj, Option.some.injEq] at hi
  exact hi.symm

/-- A name is grounded when its module is ready and the names it declares are grounded. -/
theorem ReadyGrounded.of_ready (hnamed : WellNamed records) {rec : Record} {name : String}
    (hrec : rec ∈ records) (hname : rec.target.name = some name) (hready : rec.phase = .ready)
    (hdeps : ∀ dep ∈ rec.deps, ReadyGrounded records dep) : ReadyGrounded records name := by
  refine .intro ⟨rec, hrec, hname, hready⟩ ?_
  rintro dep ⟨other, hother, hname', hdep⟩
  rw [hnamed.rec_eq hother hrec (hname'.trans hname.symm)] at hdep
  exact hdeps dep hdep

/-- The ready modules with names in a set rest on each other after a change that keeps their
records. Assumes: the set contains what these modules declare. -/
theorem ReadyGrounded.transfer (hnamed' : WellNamed records') (kept : String → Prop)
    (hkept : ∀ rec ∈ records, rec.phase = .ready → ∀ name, rec.target.name = some name →
      kept name → rec ∈ records' ∧ ∀ dep ∈ rec.deps, kept dep)
    {name : String} (hgrounded : ReadyGrounded records name) (hname : kept name) :
    ReadyGrounded records' name := by
  induction hgrounded with
  | @intro name hready _ ih =>
    obtain ⟨rec, hrec, hrecName, hphase⟩ := hready
    obtain ⟨hmem, hdeps⟩ := hkept rec hrec hphase name hrecName hname
    exact .of_ready hnamed' hmem hrecName hphase fun dep hdep ↦
      ih dep ⟨rec, hrec, hrecName, hdep⟩ (hdeps dep hdep)

/-- The invariant gives what is expected. -/
theorem ReadyOnReady.depsReady {registry : ModuleRegistry}
    (hready : ReadyOnReady registry.records) : DepsReady registry := by
  intro rec hrec hphase
  refine List.all_eq_true.mpr fun dep hdep ↦ ?_
  obtain ⟨depRec, hdepRec, hname, hdepPhase⟩ := (hready.grounded rec hrec hphase dep hdep).isAllowed
  obtain ⟨j, hj⟩ := List.mem_iff_getElem?.mp hdepRec
  rw [hready.wellNamed.findRecord_eq_some_iff.mpr ⟨depRec, hj, hname⟩]
  simp [hj, hdepPhase]

/-- A grounded name is the name of a record that can be ordered. -/
theorem WellNamed.orderable_of_grounded (hnamed : WellNamed records) {name : String}
    (hgrounded : ReadyGrounded records name) :
    ∃ i, findRecord records name = some i ∧ Orderable records i := by
  induction hgrounded with
  | @intro name hready _ ih =>
    obtain ⟨rec, hmem, hname, hphase⟩ := hready
    obtain ⟨i, hrec⟩ := List.mem_iff_getElem?.mp hmem
    refine ⟨i, hnamed.findRecord_eq_some_iff.mpr ⟨rec, hrec, hname⟩, .intro ?_ ?_⟩
    · refine ⟨rec, hrec, by rw [hphase]; decide, List.any_eq_false.mpr fun dep hdep ↦ ?_⟩
      obtain ⟨j, hfind, -⟩ := ih dep ⟨rec, hmem, hname, hdep⟩
      simp [hfind]
    · rintro j ⟨other, hother, dep, hdep, hfind⟩
      rw [hrec, Option.some.injEq] at hother
      obtain ⟨k, hfind', horderable⟩ := ih dep ⟨rec, hmem, hname, hother ▸ hdep⟩
      rw [hfind, Option.some.injEq] at hfind'
      exact hfind' ▸ horderable

/-! ### What each operation keeps -/

namespace ReadyOnReady

/-- A change that keeps the records of the ready modules and makes no other module ready. -/
theorem keep (hready : ReadyOnReady records) (hnamed' : WellNamed records')
    (hkept : ∀ rec ∈ records, rec.phase = .ready → rec ∈ records')
    (hold : ∀ rec ∈ records', rec.phase = .ready → rec ∈ records) : ReadyOnReady records' where
  wellNamed := hnamed'
  grounded := fun rec hrec hphase dep hdep ↦
    .transfer hnamed' (fun _ ↦ True)
      (fun other hother hphase' _ _ _ ↦ ⟨hkept other hother hphase', fun _ _ ↦ trivial⟩)
      (hready.grounded rec (hold rec hrec hphase) hphase dep hdep) trivial

/-- A registration adds a module that is not ready. -/
theorem concat (hready : ReadyOnReady records) {rec : Record} {name : String}
    (hname : rec.target.name = some name) (hphase : rec.phase = .registered)
    (hnew : findRecord records name = none) : ReadyOnReady (records ++ [rec]) := by
  refine hready.keep (hready.wellNamed.concat hname hnew)
    (fun other hother _ ↦ List.mem_append_left _ hother) fun other hother hother' ↦ ?_
  rcases List.mem_append.mp hother with hold | hlast
  · exact hold
  · rw [List.mem_singleton.mp hlast, hphase] at hother'
    contradiction

/-- The record of a module that is not ready is replaced. Assumes: if the module is ready now, its
dependencies were. -/
theorem set (hready : ReadyOnReady records) {i : ℕ} {rec next : Record}
    (hrec : records[i]? = some rec) (htarget : next.target = rec.target)
    (hnot : rec.phase ≠ .ready)
    (hnext : next.phase = .ready → ∀ dep ∈ next.deps, IsReady records dep) :
    ReadyOnReady (records.set i next) := by
  have hnamed' : WellNamed (records.set i next) :=
    hready.wellNamed.congr (map_target_set hrec htarget)
  have hkept : ∀ other ∈ records, other.phase = .ready → other ∈ records.set i next := by
    intro other hother hphase
    obtain ⟨j, hj⟩ := List.mem_iff_getElem?.mp hother
    have hji : i ≠ j := by
      rintro rfl
      rw [hrec, Option.some.injEq] at hj
      exact hnot (hj ▸ hphase)
    exact List.mem_iff_getElem?.mpr ⟨j, by rw [List.getElem?_set_ne hji]; exact hj⟩
  have htransfer : ∀ dep, ReadyGrounded records dep → ReadyGrounded (records.set i next) dep :=
    fun dep hdep ↦ .transfer hnamed' (fun _ ↦ True)
      (fun other hother hphase _ _ _ ↦ ⟨hkept other hother hphase, fun _ _ ↦ trivial⟩) hdep trivial
  refine ⟨hnamed', fun other hother hphase dep hdep ↦ ?_⟩
  rcases List.mem_or_eq_of_mem_set hother with hold | rfl
  · exact htransfer dep (hready.grounded other hold hphase dep hdep)
  · obtain ⟨depRec, hdepRec, hname, hdepPhase⟩ := hnext hphase dep hdep
    exact htransfer dep (.of_ready hready.wellNamed hdepRec hname hdepPhase
      (hready.grounded depRec hdepRec hdepPhase))

/-- One module in the loop of `startup_all`. -/
theorem startupModule {registry : ModuleRegistry} (hready : ReadyOnReady registry.records)
    (hooks : Hooks) (idx : ℕ) : ReadyOnReady (registry.startupModule hooks idx).1.records := by
  cases hrec : registry.records[idx]? with
  | none =>
    simp only [ModuleRegistry.startupModule, hrec]
    exact hready
  | some rec =>
    rcases startupModule_cases hooks hrec with ⟨-, hresult⟩ | ⟨-, hresult⟩ |
      ⟨-, hnot, -, hresult⟩ | ⟨-, hnot, hdeps, calls, phase, error, -, -, hresult⟩
    · rw [hresult]
      exact hready
    · rw [hresult]
      exact hready
    · rw [hresult]
      exact hready.set hrec rfl hnot fun hphase ↦ absurd hphase (by simp [Record.fail])
    · rw [hresult]
      refine hready.set hrec rfl hnot fun _ dep hdep ↦ ?_
      obtain ⟨depRec, hdepRec, hname, hphase⟩ := exists_of_depsReady hdeps hdep
      exact ⟨depRec, hdepRec, hname, hphase⟩

/-- `compute_order` leaves the record of a ready module as it is. -/
theorem orderedRecord_eq (hready : ReadyOnReady records) {i : ℕ} {rec : Record}
    (hrec : records[i]? = some rec) (hphase : rec.phase = .ready) :
    orderedRecord records (Core.computeOrder records).2.1 i rec = rec := by
  have hmem := List.mem_of_getElem? hrec
  obtain ⟨name, hname⟩ := hready.wellNamed.named rec hmem
  obtain ⟨j, hfind, horderable⟩ := hready.wellNamed.orderable_of_grounded
    (.of_ready hready.wellNamed hmem hname hphase (hready.grounded rec hmem hphase))
  rw [hready.wellNamed.findRecord_eq_some_iff.mpr ⟨rec, hrec, hname⟩, Option.some.injEq] at hfind
  subst hfind
  obtain ⟨other, hother, -, hmissing⟩ := horderable.isAllowed
  rw [hrec, Option.some.injEq] at hother
  subst hother
  simp [orderedRecord, cycleFailed, hmissing,
    ((computeOrder_spec records).mem_iff i).mpr horderable]

/-- `compute_order` fails no ready module. -/
theorem computeOrder (hready : ReadyOnReady records) :
    ReadyOnReady (Core.computeOrder records).1 := by
  have hspec := computeOrder_spec records
  refine hready.keep (hready.wellNamed.congr (map_target_computeOrder records))
    (fun rec hrec hphase ↦ ?_) fun rec hrec hphase ↦ ?_
  · obtain ⟨i, hi⟩ := List.mem_iff_getElem?.mp hrec
    refine List.mem_iff_getElem?.mpr ⟨i, ?_⟩
    rw [hspec.records_eq, hi, Option.map_some, hready.orderedRecord_eq hi hphase]
  · obtain ⟨i, hi⟩ := List.mem_iff_getElem?.mp hrec
    rw [hspec.records_eq, Option.map_eq_some_iff] at hi
    obtain ⟨old, hold, rfl⟩ := hi
    simp only [orderedRecord, cycleFailed] at hphase ⊢
    split_ifs at hphase ⊢ with hmissing hcycle
    · simp [Record.fail] at hphase
    · simp [Record.fail] at hphase
    · exact List.mem_of_getElem? hold

/-- `startup_all`. -/
theorem startupAll {registry : ModuleRegistry} (hready : ReadyOnReady registry.records)
    (hooks : Hooks) : ReadyOnReady (registry.startupAll hooks).1.records := by
  have hloop : ∀ (order : List ℕ) (state : ModuleRegistry × Bool), ReadyOnReady state.1.records →
      ReadyOnReady (ModuleRegistry.startupLoop hooks order state).1.records := by
    intro order
    induction order with
    | nil => exact fun _ h ↦ h
    | cons idx rest ih => exact fun state h ↦ ih _ (h.startupModule hooks idx)
  exact hloop _ _ hready.computeOrder

/-- `shutdown_all` leaves no module ready. -/
theorem shutdownAll {registry : ModuleRegistry} (hready : ReadyOnReady registry.records)
    (hooks : Hooks) : ReadyOnReady (registry.shutdownAll hooks).records := by
  refine ⟨hready.wellNamed.congr (map_target_shutdownAll hooks registry),
    fun rec hrec hphase ↦ absurd hphase ?_⟩
  rw [(shutdownAll_spec hooks registry).1] at hrec
  obtain ⟨old, -, rfl⟩ := List.mem_map.mp hrec
  unfold Record.stopped Record.isStarted
  split_ifs with hstarted
  · decide
  · intro hphase
    simp [hphase] at hstarted

end ReadyOnReady

/-- `unregister` erases the record of the name, if there is one. -/
theorem unregister_records (hooks : Hooks) (registry : ModuleRegistry) (name : String) :
    (registry.unregister hooks name).1.records =
      match findRecord registry.records name with
      | none => registry.records
      | some i => registry.records.eraseIdx i := by
  cases hfind : findRecord registry.records name with
  | none => simp [ModuleRegistry.unregister, hfind]
  | some i =>
    obtain ⟨rec, hrec, -⟩ := findRecord_name hfind
    simp only [ModuleRegistry.unregister, hfind, hrec]
    split_ifs
    · simp [ModuleRegistry.call, ModuleRegistry.setRecord, ModuleRegistry.emit,
        List.eraseIdx_set_eq]
    · rfl

/-- The other records stay, and no record of the name is left. -/
theorem WellNamed.mem_eraseIdx_iff (hnamed : WellNamed records) {name : String} {i : ℕ}
    (hfind : findRecord records name = some i) (rec : Record) :
    rec ∈ records.eraseIdx i ↔ rec ∈ records ∧ rec.target.name ≠ some name := by
  obtain ⟨own, hown, hname⟩ := findRecord_name hfind
  rw [List.mem_eraseIdx_iff_getElem?]
  constructor
  · rintro ⟨j, hji, hj⟩
    exact ⟨List.mem_of_getElem? hj, fun hsame ↦
      hji (hnamed.index_eq hj hown (hsame.trans hname.symm))⟩
  · rintro ⟨hrec, hother⟩
    obtain ⟨j, hj⟩ := List.mem_iff_getElem?.mp hrec
    refine ⟨j, ?_, hj⟩
    rintro rfl
    rw [hown, Option.some.injEq] at hj
    exact hother (hj ▸ hname)

/-- No ready module declares the name as a dependency. -/
def noneRestsOn (registry : ModuleRegistry) (name : String) : Bool :=
  registry.records.all fun rec ↦ rec.phase ≠ .ready ∨ name ∉ rec.deps

/-- The condition on a call to the registry: a module is unregistered only while no ready module
depends on it. -/
def unregistersUnused (registry : ModuleRegistry) : ModuleCall → Bool
  | .registry (.unregister name) => noneRestsOn registry name
  | _ => true

theorem noneRestsOn_iff {registry : ModuleRegistry} {name : String} :
    noneRestsOn registry name = true ↔
      ∀ rec ∈ registry.records, rec.phase = .ready → name ∉ rec.deps := by
  simp only [noneRestsOn, List.all_eq_true, decide_eq_true_eq]
  exact forall₂_congr fun rec _ ↦ Decidable.imp_iff_not_or.symm

/-- `unregister`. Assumes: no ready module depends on the module. -/
theorem ReadyOnReady.unregister {registry : ModuleRegistry}
    (hready : ReadyOnReady registry.records) (hooks : Hooks) {name : String}
    (hunused : noneRestsOn registry name = true) :
    ReadyOnReady (registry.unregister hooks name).1.records := by
  rw [unregister_records]
  cases hfind : findRecord registry.records name with
  | none => exact hready
  | some i =>
    have hmem := hready.wellNamed.mem_eraseIdx_iff hfind
    have hfree := noneRestsOn_iff.mp hunused
    refine ⟨hready.wellNamed.eraseIdx i, fun rec hrec hphase dep hdep ↦ ?_⟩
    obtain ⟨hold, -⟩ := (hmem rec).mp hrec
    refine .transfer (hready.wellNamed.eraseIdx i) (fun other ↦ other ≠ name) ?_
      (hready.grounded rec hold hphase dep hdep) fun heq ↦ hfree rec hold hphase (heq ▸ hdep)
    intro other hother hphase' otherName hotherName hne
    refine ⟨(hmem other).mpr ⟨hother, fun hsame ↦ hne ?_⟩, fun dep' hdep' heq ↦ ?_⟩
    · exact Option.some.inj (hotherName.symm.trans hsame)
    · exact hfree other hother hphase' (heq ▸ hdep')

/-- After a module that a ready module depends on has been unregistered, that ready module has a
dependency that is not registered. -/
theorem ReadyOnReady.not_depsReady_unregister {registry : ModuleRegistry}
    (hready : ReadyOnReady registry.records) (hooks : Hooks) {name : String}
    (hused : noneRestsOn registry name = false) :
    ¬ DepsReady (registry.unregister hooks name).1 := by
  have hrests : ∃ rec ∈ registry.records, rec.phase = .ready ∧ name ∈ rec.deps := by
    by_contra hnone
    have hall : noneRestsOn registry name = true :=
      noneRestsOn_iff.mpr fun rec hrec hphase hdep ↦ hnone ⟨rec, hrec, hphase, hdep⟩
    simp [hall] at hused
  obtain ⟨rec, hrec, hphase, hdep⟩ := hrests
  have hgrounded := hready.grounded rec hrec hphase name hdep
  obtain ⟨i, hfind, -⟩ := hready.wellNamed.orderable_of_grounded hgrounded
  have hmem := hready.wellNamed.mem_eraseIdx_iff hfind
  -- A grounded module does not depend on itself, so its record is still there.
  have hother : rec.target.name ≠ some name := by
    intro hname
    have hself : Declares registry.records name name := ⟨rec, hrec, hname, hdep⟩
    have hno : ∀ other, ReadyGrounded registry.records other → other ≠ name := by
      intro other hother
      induction hother with
      | intro _ _ ih =>
        rintro rfl
        exact ih _ hself rfl
    exact hno name hgrounded rfl
  intro hdeps
  have hrecords := unregister_records hooks registry name
  rw [hfind] at hrecords
  dsimp only at hrecords
  have hready' := hdeps rec (by rw [hrecords]; exact (hmem rec).mpr ⟨hrec, hother⟩) hphase
  obtain ⟨depRec, hdepRec, hname, -⟩ := exists_of_depsReady hready' hdep
  rw [hrecords] at hdepRec
  exact ((hmem depRec).mp hdepRec).2 hname

/-! ### Runs -/

/-- Every call that meets the condition keeps the invariant. -/
theorem ReadyOnReady.step {hooks : Hooks} {registry next : ModuleRegistry} {call : ModuleCall}
    (hready : ReadyOnReady registry.records) (hguard : unregistersUnused registry call = true)
    (hstep : registry.stepModule hooks call = some next) : ReadyOnReady next.records := by
  cases call with
  | loadShared plugin =>
    obtain rfl := Option.some.inj hstep
    rcases loadShared_cases registry plugin with hsame | ⟨rec, name, hname, hphase, hnew, hadded⟩
    · rw [hsame]
      exact hready
    · rw [hadded]
      exact hready.concat hname hphase hnew
  | registry call =>
    cases call with
    | registerModule target dependencies owned =>
      obtain rfl := Option.some.inj hstep
      rcases insertRecord_cases registry target dependencies owned none false with
        ⟨events, -, hrefused⟩ | ⟨rec, name, hname, hphase, hnew, hadded⟩
      · rw [ModuleRegistry.registerModule, hrefused]
        exact hready
      · rw [ModuleRegistry.registerModule, hadded]
        exact hready.concat hname hphase hnew
    | startupAll =>
      obtain rfl := Option.some.inj hstep
      exact hready.startupAll hooks
    | shutdownAll =>
      obtain rfl := Option.some.inj hstep
      exact hready.shutdownAll hooks
    | unregister name =>
      obtain rfl := Option.some.inj hstep
      exact hready.unregister hooks hguard

/-- `core` is unregistered while `render`, which depends on it, is ready. -/
theorem ready_without_dependency : ∃ registry : ModuleRegistry,
    (pluginRegistry fun _ _ _ ↦ true).Reaches TransitionSystem.unguarded .new registry ∧
    registry.records.map (fun rec ↦ (rec.target.name, rec.deps, rec.phase)) =
      [(some "render", ["core"], .ready)] ∧ ¬ DepsReady registry := by
  obtain ⟨registry, hreach, htest⟩ := TransitionSystem.Reaches.exists_of_schedule
    (pluginRegistry fun _ _ _ ↦ true) .new
    [.registry (.registerModule (some ⟨0, some "core"⟩) [] false),
      .registry (.registerModule (some ⟨1, some "render"⟩) [some "core"] false),
      .registry .startupAll, .registry (.unregister "core")]
    (fun registry ↦ registry.records.map (fun rec ↦ (rec.target.name, rec.deps, rec.phase)) =
        [(some "render", ["core"], .ready)] ∧
      registry.records.any fun rec ↦ rec.phase = .ready ∧ depsReady registry.records rec = false)
    (by decide)
  obtain ⟨hrecords, hany⟩ := of_decide_eq_true htest
  obtain ⟨rec, hrec, hbroken⟩ := List.any_eq_true.mp hany
  obtain ⟨hphase, hnot⟩ := of_decide_eq_true hbroken
  refine ⟨registry, hreach, hrecords, fun hdeps ↦ ?_⟩
  rw [hdeps rec hrec hphase] at hnot
  contradiction

/-- In every state between the calls of a run, with hooks that return anything at each call, every
ready module has all its declared dependencies registered and ready, if no module is unregistered
while a ready module depends on it; and in such a state a call keeps this exactly when it is not
such an `unregister`. -/
theorem readyModules_grounded {hooks : Hooks} {registry : ModuleRegistry}
    (hreach : (pluginRegistry hooks).Reaches
      (fun registry call ↦ unregistersUnused registry call = true) .new registry) :
    DepsReady registry ∧ ∀ call next, (pluginRegistry hooks).step registry call = some next →
      (DepsReady next ↔ unregistersUnused registry call = true) := by
  have hready : ReadyOnReady registry.records := by
    refine hreach.invariant ⟨wellNamed_nil, fun rec hrec ↦ absurd hrec List.not_mem_nil⟩ ?_
    exact fun _ _ _ hready hguard hstep ↦ hready.step hguard hstep
  refine ⟨hready.depsReady, fun call next hstep ↦ ⟨fun hdeps ↦ ?_, fun hguard ↦ ?_⟩⟩
  · by_contra hbroken
    match call with
    | .registry (.unregister name) =>
      obtain rfl := Option.some.inj hstep
      exact hready.not_depsReady_unregister hooks (Bool.eq_false_iff.mpr hbroken) hdeps
    | .registry (.registerModule _ _ _) => exact hbroken rfl
    | .registry .startupAll => exact hbroken rfl
    | .registry .shutdownAll => exact hbroken rfl
    | .loadShared _ => exact hbroken rfl
  · exact (hready.step hguard hstep).depsReady

/-- The theorem at a run in which a plugin is loaded, a module fails, modules are started again, and
one that no ready module depends on is unregistered and registered anew. -/
theorem readyModules_grounded_reload : ∃ registry : ModuleRegistry,
    registry.records.map (fun rec ↦ (rec.target.name, rec.phase)) =
      [(some "core", .ready), (some "test_plugin", .ready), (some "render", .ready),
        (some "audio", .failed)] ∧
    DepsReady registry := by
  obtain ⟨registry, hreach, htest⟩ := TransitionSystem.Reaches.exists_of_any
    (pluginRegistry fun _ target hook ↦ target.id ≠ 4 ∨ hook ≠ .startup) .new
    [.registry (.registerModule (some ⟨0, some "core"⟩) [] false),
      .registry (.registerModule (some ⟨1, some "render"⟩) [some "core"] false),
      .registry .startupAll,
      .loadShared ⟨some 7, some (some ⟨2, some "test_plugin"⟩), true⟩,
      .loadShared ⟨some 8, none, true⟩,
      .registry .startupAll, .registry (.unregister "render"),
      .registry (.registerModule (some ⟨3, some "render"⟩) [some "core", some "test_plugin"] true),
      .registry (.registerModule (some ⟨4, some "audio"⟩) [some "core"] false),
      .registry .shutdownAll, .registry .startupAll]
    unregistersUnused
    (fun registry ↦ registry.records.map (fun rec ↦ (rec.target.name, rec.phase)) =
      [(some "core", .ready), (some "test_plugin", .ready), (some "render", .ready),
        (some "audio", .failed)])
    (fun _ _ h ↦ h) (by decide) (by decide)
  exact ⟨registry, of_decide_eq_true htest, (readyModules_grounded hreach).1⟩

end GameEngine.Core
