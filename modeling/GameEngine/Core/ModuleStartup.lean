import GameEngine.Core.ModuleOrder

/-!
# Starting the modules

`startupModule_cases` says what the loop of `startup_all` does with one module: nothing when the
module has failed or is ready, a failure without a hook when a dependency is not ready, and
otherwise one of four sequences of hooks.

`startupAll_isolates` is about a registry of freshly registered modules whose hooks return fixed
results: after one `startup_all` the ready modules are those of the least set that contains a module
whose hooks succeed as soon as it contains all the module's dependencies, and every other module has
failed. The order of the registrations plays no part, and no hook of a module is called before the
`post_init` of all its dependencies has returned true.
-/

set_option autoImplicit false
set_option relaxedAutoImplicit false

namespace GameEngine.Core

open GameEngine.Library

/-! ### The records of a reachable registry -/

/-- The records have names, and no two have the same. -/
structure WellNamed (records : List Record) : Prop where
  named : ∀ rec ∈ records, ∃ name, rec.target.name = some name
  nodup : (records.map fun rec ↦ rec.target.name).Nodup

theorem wellNamed_nil : WellNamed [] := ⟨by simp, by simp⟩

/-- With the same modules at the same indices, the names are as before. -/
theorem WellNamed.congr {records records' : List Record} (hnamed : WellNamed records)
    (htargets : records'.map Record.target = records.map Record.target) : WellNamed records' := by
  have hmap : ∀ list : List Record, list.map (fun rec ↦ rec.target.name) =
      (list.map Record.target).map IModule.name := by simp
  refine ⟨fun rec hrec ↦ ?_, ?_⟩
  · have hmem : rec.target ∈ records.map Record.target :=
      htargets ▸ List.mem_map_of_mem hrec
    obtain ⟨other, hother, heq⟩ := List.mem_map.mp hmem
    exact heq ▸ hnamed.named other hother
  · rw [hmap, htargets, ← hmap]
    exact hnamed.nodup

/-- Two records of one name are at one index. -/
theorem WellNamed.index_eq {records : List Record} (hnamed : WellNamed records) {i j : ℕ}
    {first second : Record} (hfirst : records[i]? = some first)
    (hsecond : records[j]? = some second) (hname : first.target.name = second.target.name) :
    i = j := by
  obtain ⟨hi, hfirst⟩ := List.getElem?_eq_some_iff.mp hfirst
  obtain ⟨hj, hsecond⟩ := List.getElem?_eq_some_iff.mp hsecond
  have hi' : i < (records.map fun rec ↦ rec.target.name).length := by rwa [List.length_map]
  have hj' : j < (records.map fun rec ↦ rec.target.name).length := by rwa [List.length_map]
  refine (@List.Nodup.getElem_inj_iff _ _ hnamed.nodup i hi' j hj').mp ?_
  rw [List.getElem_map, List.getElem_map, hfirst, hsecond]
  exact hname

/-- The record that is found has the name. -/
theorem findRecord_name {records : List Record} {name : String} {i : ℕ}
    (hfind : findRecord records name = some i) :
    ∃ rec, records[i]? = some rec ∧ rec.target.name = some name := by
  obtain ⟨hlt, hname, -⟩ := List.findIdx?_eq_some_iff_getElem.mp hfind
  exact ⟨records[i], List.getElem?_eq_getElem hlt, by simpa using hname⟩

/-- Finding a name gives the index of its record. -/
theorem WellNamed.findRecord_eq_some_iff {records : List Record} (hnamed : WellNamed records)
    {name : String} {i : ℕ} : findRecord records name = some i ↔
      ∃ rec, records[i]? = some rec ∧ rec.target.name = some name := by
  refine ⟨findRecord_name, fun ⟨rec, hrec, hname⟩ ↦ ?_⟩
  cases hfind : findRecord records name with
  | none =>
    have hnot := List.findIdx?_eq_none_iff.mp hfind rec (List.mem_of_getElem? hrec)
    simp [hname] at hnot
  | some j =>
    obtain ⟨other, hother, hname'⟩ := findRecord_name hfind
    exact congrArg some (hnamed.index_eq hother hrec (hname'.trans hname.symm))

/-- A name of no record is not found. -/
theorem findRecord_eq_none_iff {records : List Record} {name : String} :
    findRecord records name = none ↔ ∀ rec ∈ records, rec.target.name ≠ some name := by
  simp [findRecord, List.findIdx?_eq_none_iff]

/-- A call that registers a module. -/
def RegistryCall.IsRegistration : RegistryCall → Prop
  | .registerModule _ _ _ => True
  | _ => False

instance (call : RegistryCall) : Decidable call.IsRegistration :=
  match call with
  | .registerModule _ _ _ => .isTrue trivial
  | .startupAll | .shutdownAll | .unregister _ => .isFalse id

/-- A registration is refused without a call of a hook, or adds a record of a new name. -/
theorem insertRecord_cases (registry : ModuleRegistry) (target : Option IModule)
    (dependencies : List (Option String)) (owned : Bool) (dylib : Option ℕ) (destroyFn : Bool) :
    (∃ events, (∀ event ∈ events, ∀ target hook succeeded,
        event ≠ .called target hook succeeded) ∧
      (registry.insertRecord target dependencies owned dylib destroyFn).1 =
        registry.emit events) ∨
    (∃ rec name, rec.target.name = some name ∧ rec.phase = .registered ∧
      findRecord registry.records name = none ∧
      (registry.insertRecord target dependencies owned dylib destroyFn).1 =
        { registry with records := registry.records ++ [rec] }) := by
  have hevents : ∀ target : IModule,
      ∀ event ∈ ModuleRegistry.destroyEvents target owned destroyFn ++
        ModuleRegistry.closeEvents dylib, ∀ target hook succeeded,
          event ≠ .called target hook succeeded := by
    rintro target event hevent other hook succeeded rfl
    cases owned <;> simp [ModuleRegistry.destroyEvents, ModuleRegistry.closeEvents] at hevent
  cases target with
  | none =>
    refine .inl ⟨_, ?_, rfl⟩
    rintro event hevent other hook succeeded rfl
    simp [ModuleRegistry.closeEvents] at hevent
  | some target =>
    unfold ModuleRegistry.insertRecord
    dsimp only
    split_ifs with hrefused
    · exact .inl ⟨_, hevents target, rfl⟩
    · obtain ⟨hempty, hfound⟩ := not_or.mp hrefused
      refine .inr ⟨_, target.name.getD "", ?_, rfl, by simpa using hfound, rfl⟩
      cases hname : target.name with
      | none => simp [hname] at hempty
      | some name => rfl

/-- A record of a new name may be added. -/
theorem WellNamed.concat {records : List Record} (hnamed : WellNamed records) {rec : Record}
    {name : String} (hname : rec.target.name = some name)
    (hnew : findRecord records name = none) : WellNamed (records ++ [rec]) := by
  refine ⟨fun other hother ↦ ?_, ?_⟩
  · rcases List.mem_append.mp hother with hold | hlast
    · exact hnamed.named other hold
    · exact ⟨name, List.mem_singleton.mp hlast ▸ hname⟩
  · rw [List.map_append]
    refine List.nodup_append'.mpr ⟨hnamed.nodup, List.nodup_singleton _,
      List.disjoint_singleton.mpr fun hmem ↦ ?_⟩
    obtain ⟨other, hother, heq⟩ := List.mem_map.mp hmem
    exact findRecord_eq_none_iff.mp hnew other hother (heq.trans hname)

/-- The dependencies of a module that may be started have records that are ready. -/
theorem exists_of_depsReady {records : List Record} {rec : Record} {dep : String}
    (hready : depsReady records rec = true) (hdep : dep ∈ rec.deps) :
    ∃ depRec ∈ records, depRec.target.name = some dep ∧ depRec.phase = .ready := by
  have hself := List.all_eq_true.mp hready dep hdep
  cases hfind : findRecord records dep with
  | none => simp [hfind] at hself
  | some j =>
    obtain ⟨depRec, hdepRec, hname⟩ := findRecord_name hfind
    refine ⟨depRec, List.mem_of_getElem? hdepRec, hname, ?_⟩
    simpa [hfind, hdepRec] using hself

/-! ### One module -/

/-- The hooks that are called on a module that is started, with their results, and the phase and
error it ends with. -/
inductive Attempt : List (Hook × Bool) → ModulePhase → String → Prop
  | preInit : Attempt [(.preInit, false)] .failed "pre_init failed"
  | startup (stopped : Bool) :
      Attempt [(.preInit, true), (.startup, false), (.shutdown, stopped)] .failed "startup failed"
  | postInit (stopped : Bool) :
      Attempt [(.preInit, true), (.startup, true), (.postInit, false), (.shutdown, stopped)]
        .failed "post_init failed"
  | ready : Attempt [(.preInit, true), (.startup, true), (.postInit, true)] .ready ""

/-- The events of the calls of some hooks of a module. -/
def hookEvents (target : IModule) (calls : List (Hook × Bool)) : List Event :=
  calls.map fun call ↦ .called target call.1 call.2

/-- The registry after a module has been started. -/
def ModuleRegistry.attempted (registry : ModuleRegistry) (idx : ℕ) (rec : Record)
    (calls : List (Hook × Bool)) (phase : ModulePhase) (error : String) : ModuleRegistry where
  records := registry.records.set idx { rec with phase := phase, error := error }
  trace := registry.trace ++ hookEvents rec.target calls

/-- What the loop of `startup_all` does with one module. -/
theorem startupModule_cases (hooks : Hooks) {registry : ModuleRegistry} {idx : ℕ} {rec : Record}
    (hrec : registry.records[idx]? = some rec) :
    (rec.phase = .failed ∧ registry.startupModule hooks idx = (registry, false)) ∨
    (rec.phase = .ready ∧ registry.startupModule hooks idx = (registry, true)) ∨
    (rec.phase ≠ .failed ∧ rec.phase ≠ .ready ∧ depsReady registry.records rec = false ∧
      registry.startupModule hooks idx =
        (registry.setRecord idx (rec.fail "dependency not ready"), false)) ∨
    (rec.phase ≠ .failed ∧ rec.phase ≠ .ready ∧ depsReady registry.records rec = true ∧
      ∃ calls phase error, Attempt calls phase error ∧
        (∀ call ∈ calls, ∃ history, call.2 = hooks history rec.target call.1) ∧
        registry.startupModule hooks idx =
          (registry.attempted idx rec calls phase error, decide (phase = .ready))) := by
  unfold ModuleRegistry.startupModule
  rw [hrec]
  dsimp only
  by_cases hfailed : rec.phase = .failed
  · exact .inl ⟨hfailed, if_pos hfailed⟩
  rw [if_neg hfailed]
  by_cases hready : rec.phase = .ready
  · exact .inr (.inl ⟨hready, if_pos hready⟩)
  rw [if_neg hready]
  by_cases hdeps : depsReady registry.records rec = false
  · exact .inr (.inr (.inl ⟨hfailed, hready, hdeps, if_pos hdeps⟩))
  rw [if_neg hdeps]
  refine .inr (.inr (.inr ⟨hfailed, hready, by simpa using hdeps, ?_⟩))
  cases hpre : hooks registry.trace rec.target .preInit with
  | false =>
    refine ⟨_, _, _, .preInit, ?_, ?_⟩
    · exact List.forall_mem_singleton.mpr ⟨_, hpre.symm⟩
    · simp [ModuleRegistry.call, ModuleRegistry.setRecord, ModuleRegistry.emit, hpre,
        ModuleRegistry.attempted, hookEvents, Record.fail]
  | true =>
    cases hstartup : hooks (registry.trace ++ [.called rec.target .preInit true]) rec.target
      .startup with
    | false =>
      refine ⟨_, _, _, .startup (hooks (registry.trace ++ [.called rec.target .preInit true,
        .called rec.target .startup false]) rec.target .shutdown), ?_, ?_⟩
      · exact List.forall_mem_cons.mpr ⟨⟨_, hpre.symm⟩, List.forall_mem_cons.mpr
          ⟨⟨_, hstartup.symm⟩, List.forall_mem_singleton.mpr ⟨_, rfl⟩⟩⟩
      · simp [ModuleRegistry.call, ModuleRegistry.setRecord, ModuleRegistry.emit, hpre, hstartup,
          ModuleRegistry.attempted, hookEvents, Record.fail]
    | true =>
      cases hpost : hooks (registry.trace ++ [.called rec.target .preInit true,
        .called rec.target .startup true]) rec.target .postInit with
      | false =>
        refine ⟨_, _, _, .postInit (hooks (registry.trace ++ [.called rec.target .preInit true,
          .called rec.target .startup true, .called rec.target .postInit false]) rec.target
            .shutdown), ?_, ?_⟩
        · exact List.forall_mem_cons.mpr ⟨⟨_, hpre.symm⟩, List.forall_mem_cons.mpr
            ⟨⟨_, hstartup.symm⟩, List.forall_mem_cons.mpr ⟨⟨_, hpost.symm⟩,
              List.forall_mem_singleton.mpr ⟨_, rfl⟩⟩⟩⟩
        · simp [ModuleRegistry.call, ModuleRegistry.setRecord, ModuleRegistry.emit, hpre,
            hstartup, hpost, ModuleRegistry.attempted, hookEvents, Record.fail]
      | true =>
        refine ⟨_, _, _, .ready, ?_, ?_⟩
        · exact List.forall_mem_cons.mpr ⟨⟨_, hpre.symm⟩, List.forall_mem_cons.mpr
            ⟨⟨_, hstartup.symm⟩, List.forall_mem_singleton.mpr ⟨_, hpost.symm⟩⟩⟩
        · simp [ModuleRegistry.call, ModuleRegistry.setRecord, ModuleRegistry.emit, hpre,
            hstartup, hpost, ModuleRegistry.attempted, hookEvents]

/-! ### Hooks with fixed results -/

/-- Hooks that return the same at every call. -/
def fixedHooks (results : IModule → Hook → Bool) : Hooks := fun _ target hook ↦ results target hook

/-- The three hooks of a startup succeed. -/
def hooksSucceed (results : IModule → Hook → Bool) (target : IModule) : Bool :=
  results target .preInit && results target .startup && results target .postInit

/-- The names of the modules that can become ready: the least set that contains the name of a
module whose hooks succeed as soon as it contains all the names the module depends on. -/
inductive ReadySet (results : IModule → Hook → Bool) (records : List Record) : String → Prop
  | intro {rec : Record} {name : String} : rec ∈ records → rec.target.name = some name →
      hooksSucceed results rec.target = true →
      (∀ dep ∈ rec.deps, ReadySet results records dep) → ReadySet results records name

variable {results : IModule → Hook → Bool} {records : List Record}

/-- Only the set of records matters. -/
theorem ReadySet.mono {records' : List Record}
    (hrecords : ∀ rec ∈ records, rec ∈ records') {name : String}
    (hready : ReadySet results records name) : ReadySet results records' name := by
  induction hready with
  | intro hmem hname hhooks _ ih => exact .intro (hrecords _ hmem) hname hhooks ih

/-- The name of a record is in the set when the record's hooks succeed and its dependencies are. -/
theorem WellNamed.readySet_iff (hnamed : WellNamed records) {i : ℕ} {rec : Record} {name : String}
    (hrec : records[i]? = some rec) (hname : rec.target.name = some name) :
    ReadySet results records name ↔
      hooksSucceed results rec.target = true ∧ ∀ dep ∈ rec.deps, ReadySet results records dep := by
  constructor
  · rintro (⟨hmem, hname', hhooks, hdeps⟩ : ReadySet results records name)
    rename_i other
    obtain ⟨j, hother⟩ := List.mem_iff_getElem?.mp hmem
    have hij := hnamed.index_eq hrec hother (hname.trans hname'.symm)
    rw [← hij, hrec, Option.some.injEq] at hother
    exact hother ▸ ⟨hhooks, hdeps⟩
  · exact fun ⟨hhooks, hdeps⟩ ↦ .intro (List.mem_of_getElem? hrec) hname hhooks hdeps

/-- A name in the set is the name of a record that can be ordered. Assumes: no record has failed. -/
theorem WellNamed.orderable_of_readySet (hnamed : WellNamed records)
    (hphase : ∀ rec ∈ records, rec.phase ≠ .failed) {name : String}
    (hready : ReadySet results records name) :
    ∃ i, findRecord records name = some i ∧ Orderable records i := by
  induction hready with
  | @intro rec name hmem hname _ _ ih =>
    obtain ⟨i, hrec⟩ := List.mem_iff_getElem?.mp hmem
    refine ⟨i, hnamed.findRecord_eq_some_iff.mpr ⟨rec, hrec, hname⟩, .intro ?_ ?_⟩
    · refine ⟨rec, hrec, hphase rec hmem, List.any_eq_false.mpr fun dep hdep ↦ ?_⟩
      obtain ⟨j, hfind, -⟩ := ih dep hdep
      simp [hfind]
    · rintro j ⟨other, hother, dep, hdep, hfind⟩
      rw [hrec, Option.some.injEq] at hother
      obtain ⟨k, hfind', horderable⟩ := ih dep (hother ▸ hdep)
      rw [hfind, Option.some.injEq] at hfind'
      exact hfind' ▸ horderable

/-- With fixed results, an attempt ends with the module ready exactly when its hooks succeed. -/
theorem Attempt.ready_iff {calls : List (Hook × Bool)} {phase : ModulePhase} {error : String}
    (hattempt : Attempt calls phase error) {target : IModule}
    (hresults : ∀ call ∈ calls, call.2 = results target call.1) :
    phase = .ready ↔ hooksSucceed results target = true := by
  cases hattempt with
  | preInit =>
    have hpre : false = results target .preInit := hresults (.preInit, false) (by simp)
    simp [hooksSucceed, ← hpre]
  | startup stopped =>
    have hstartup : false = results target .startup := hresults (.startup, false) (by simp)
    simp [hooksSucceed, ← hstartup]
  | postInit stopped =>
    have hpost : false = results target .postInit := hresults (.postInit, false) (by simp)
    simp [hooksSucceed, ← hpost]
  | ready =>
    have hpre : true = results target .preInit := hresults (.preInit, true) (by simp)
    have hstartup : true = results target .startup := hresults (.startup, true) (by simp)
    have hpost : true = results target .postInit := hresults (.postInit, true) (by simp)
    simp [hooksSucceed, ← hpre, ← hstartup, ← hpost]

/-- An attempt ends with the module ready or failed, and a module is ready only after its
`post_init` has returned true. -/
theorem Attempt.phase_cases {calls : List (Hook × Bool)} {phase : ModulePhase} {error : String}
    (hattempt : Attempt calls phase error) :
    phase = .ready ∧ (.postInit, true) ∈ calls ∨ phase = .failed := by
  cases hattempt with
  | ready => exact .inl ⟨rfl, by simp⟩
  | _ => exact .inr rfl

/-- Starting a registered module whose hooks have fixed results. -/
theorem startupModule_registered {registry : ModuleRegistry} {idx : ℕ} {rec : Record}
    (hrec : registry.records[idx]? = some rec) (hphase : rec.phase = .registered) :
    ∃ calls phase error, registry.startupModule (fixedHooks results) idx =
        (registry.attempted idx rec calls phase error, decide (phase = .ready)) ∧
      (phase = .ready ↔
        depsReady registry.records rec = true ∧ hooksSucceed results rec.target = true) ∧
      (phase = .ready ∧ (.postInit, true) ∈ calls ∨ phase = .failed) ∧
      (calls ≠ [] → depsReady registry.records rec = true) := by
  rcases startupModule_cases (fixedHooks results) hrec with ⟨hfailed, -⟩ | ⟨hready, -⟩ |
    ⟨-, -, hdeps, hresult⟩ | ⟨-, -, hdeps, calls, phase, error, hattempt, hhooks, hresult⟩
  · rw [hphase] at hfailed
    contradiction
  · rw [hphase] at hready
    contradiction
  · refine ⟨[], .failed, "dependency not ready", ?_, by simp [hdeps], .inr rfl, by simp⟩
    rw [hresult]
    simp [ModuleRegistry.attempted, ModuleRegistry.setRecord, Record.fail, hookEvents]
  · refine ⟨calls, phase, error, hresult, ?_, hattempt.phase_cases, fun _ ↦ hdeps⟩
    have hresults : ∀ call ∈ calls, call.2 = results rec.target call.1 := by
      intro call hcall
      obtain ⟨_, hcall⟩ := hhooks call hcall
      exact hcall
    simp [hattempt.ready_iff hresults, hdeps]

/-! ### The loop over the order -/

/-- Every hook is called on a module only after the `post_init` of all its dependencies has
returned true. -/
def DepsFirst (records : List Record) (events : List Event) : Prop :=
  ∀ before target hook succeeded after,
    events = before ++ .called target hook succeeded :: after →
    ∀ rec ∈ records, rec.target = target → ∀ dep ∈ rec.deps,
      ∃ depRec ∈ records, depRec.target.name = some dep ∧
        .called depRec.target .postInit true ∈ before

theorem depsFirst_nil (records : List Record) : DepsFirst records [] := by
  intro before target hook succeeded after hevents
  simp at hevents

/-- The hooks of one more module. Assumes: they are called only if the dependencies of that module
have been started. -/
theorem DepsFirst.append {events : List Event} (hfirst : DepsFirst records events)
    {target : IModule} {calls : List (Hook × Bool)}
    (hdeps : calls ≠ [] → ∀ rec ∈ records, rec.target = target → ∀ dep ∈ rec.deps,
      ∃ depRec ∈ records, depRec.target.name = some dep ∧
        .called depRec.target .postInit true ∈ events) :
    DepsFirst records (events ++ hookEvents target calls) := by
  intro before other hook succeeded after hevents rec hrec hother dep hdep
  have hstarted : Event.called other hook succeeded ∈ hookEvents target calls →
      ∃ depRec ∈ records, depRec.target.name = some dep ∧
        .called depRec.target .postInit true ∈ events := by
    intro hmem
    obtain ⟨call, hcall, heq⟩ := List.mem_map.mp hmem
    obtain ⟨htarget, -, -⟩ := Event.called.inj heq
    exact hdeps (List.ne_nil_of_mem hcall) rec hrec (hother.trans htarget.symm) dep hdep
  rcases List.append_eq_append_iff.mp hevents with ⟨middle, hbefore, hcalls⟩ | ⟨middle, hold, hnew⟩
  · obtain ⟨depRec, hdepRec, hname, hpost⟩ := hstarted (by rw [hcalls]; simp)
    exact ⟨depRec, hdepRec, hname, hbefore ▸ List.mem_append_left _ hpost⟩
  · cases middle with
    | nil =>
      rw [List.append_nil] at hold
      rw [List.nil_append] at hnew
      exact hold ▸ hstarted (by rw [← hnew]; simp)
    | cons event middle =>
      rw [List.cons_append, List.cons.injEq] at hnew
      exact hfirst before other hook succeeded middle (by rw [hold, hnew.1]) rec hrec hother dep
        hdep

/-- The registry in the middle of the loop, after the modules at the indices `done`: these are
ready or failed as they should be, and the others are as `compute_order` has left them. -/
structure InLoop (results : IModule → Hook → Bool) (records first : List Record)
    (history : List Event) (done : List ℕ) (state : ModuleRegistry × Bool) : Prop where
  targets_eq : state.1.records.map Record.target = records.map Record.target
  pending : ∀ i, i ∉ done → state.1.records[i]? = first[i]?
  started : ∀ i ∈ done, ∃ rec phase error, records[i]? = some rec ∧
    state.1.records[i]? = some { rec with phase := phase, error := error } ∧
    (phase = .ready ∨ phase = .failed) ∧
    ∀ name, rec.target.name = some name → (phase = .ready ↔ ReadySet results records name)
  events : ∃ events, state.1.trace = history ++ events ∧ DepsFirst records events ∧
    ∀ rec ∈ state.1.records, rec.phase = .ready → .called rec.target .postInit true ∈ events
  ok_iff : state.2 = true ↔
    ∀ i ∈ done, ∀ rec, state.1.records[i]? = some rec → rec.phase = .ready

/-- In the middle of the loop, a module whose dependencies have all been started finds them ready
exactly when their names are in the set. -/
theorem InLoop.depsReady_iff {first : List Record} {history : List Event} {done : List ℕ}
    {state : ModuleRegistry × Bool} (hloop : InLoop results records first history done state)
    {idx : ℕ} {rec : Record} (hrec : records[idx]? = some rec)
    (hmissing : hasMissing records rec = false)
    (hdone : ∀ j, DependsOn records idx j → j ∈ done) :
    depsReady state.1.records rec = true ↔ ∀ dep ∈ rec.deps, ReadySet results records dep := by
  unfold depsReady
  rw [List.all_eq_true]
  refine forall₂_congr fun dep hdep ↦ ?_
  rw [findRecord_congr hloop.targets_eq]
  cases hfind : findRecord records dep with
  | none =>
    have hfound := List.any_eq_false.mp hmissing dep hdep
    simp [hfind] at hfound
  | some j =>
    obtain ⟨depRec, phase, error, hdepRec, hnow, -, hready⟩ :=
      hloop.started j (hdone j ⟨rec, hrec, dep, hdep, hfind⟩)
    obtain ⟨other, hother, hname⟩ := findRecord_name hfind
    rw [hdepRec, Option.some.injEq] at hother
    rw [← hready dep (hother ▸ hname)]
    simp [hnow]

/-- One module of the order. -/
theorem InLoop.step (hnamed : WellNamed records) {first : List Record} {history : List Event}
    {done : List ℕ} {state : ModuleRegistry × Bool}
    (hloop : InLoop results records first history done state) {idx : ℕ} {rec : Record}
    (hrec : records[idx]? = some rec) (hphase : rec.phase = .registered)
    (hfirst : first[idx]? = some rec) (hnew : idx ∉ done)
    (hmissing : hasMissing records rec = false)
    (hdone : ∀ j, DependsOn records idx j → j ∈ done) :
    InLoop results records first history (done ++ [idx])
      ((state.1.startupModule (fixedHooks results) idx).1,
        state.2 && (state.1.startupModule (fixedHooks results) idx).2) := by
  have hnow : state.1.records[idx]? = some rec := (hloop.pending idx hnew).trans hfirst
  have hlt : idx < state.1.records.length := (List.getElem?_eq_some_iff.mp hnow).1
  obtain ⟨calls, phase, error, hresult, hready, hcases, hcalled⟩ :=
    @startupModule_registered results _ _ _ hnow hphase
  have hset : ∀ i, ((state.1.attempted idx rec calls phase error).records)[i]? =
      if i = idx then some { rec with phase := phase, error := error }
      else state.1.records[i]? := by
    intro i
    by_cases hi : i = idx
    · subst hi
      simp [ModuleRegistry.attempted, hlt]
    · simp [ModuleRegistry.attempted, hi, Ne.symm hi]
  rw [hresult]
  refine ⟨?_, fun i hi ↦ ?_, fun i hi ↦ ?_, ?_, ?_⟩
  · rw [← hloop.targets_eq]
    refine List.ext_getElem? fun i ↦ ?_
    rw [List.getElem?_map, List.getElem?_map, hset]
    split_ifs with hi
    · rw [hi, hnow]
      rfl
    · rfl
  · rw [hset, if_neg fun heq ↦ hi (by simp [heq])]
    exact hloop.pending i fun hmem ↦ hi (List.mem_append_left _ hmem)
  · by_cases hidx : i = idx
    · subst hidx
      refine ⟨rec, phase, error, hrec, by rw [hset, if_pos rfl], hcases.imp And.left id,
        fun name hname ↦ ?_⟩
      rw [hready, hnamed.readySet_iff hrec hname, hloop.depsReady_iff hrec hmissing hdone]
      exact and_comm
    · have hmem : i ∈ done := by simpa [hidx] using hi
      rw [hset, if_neg hidx]
      exact hloop.started i hmem
  · obtain ⟨events, htrace, hdepsFirst, hposts⟩ := hloop.events
    refine ⟨events ++ hookEvents rec.target calls, ?_, hdepsFirst.append ?_, ?_⟩
    · simp [ModuleRegistry.attempted, htrace]
    · intro hne other hother htarget dep hdep
      obtain ⟨k, hk⟩ := List.mem_iff_getElem?.mp hother
      have hidx := hnamed.index_eq hk hrec (by rw [htarget])
      rw [hidx, hrec, Option.some.injEq] at hk
      obtain ⟨depNow, hdepNow, hname, hdepReady⟩ := exists_of_depsReady (hcalled hne) (hk ▸ hdep)
      have htargets : depNow.target ∈ records.map Record.target :=
        hloop.targets_eq ▸ List.mem_map_of_mem hdepNow
      obtain ⟨depRec, hdepRec, heq⟩ := List.mem_map.mp htargets
      exact ⟨depRec, hdepRec, heq ▸ hname, heq ▸ hposts depNow hdepNow hdepReady⟩
    · intro other hother hphase'
      obtain ⟨i, hi⟩ := List.mem_iff_getElem?.mp hother
      rw [hset] at hi
      split_ifs at hi with hidx
      · obtain rfl := Option.some.inj hi
        have hpost : (Hook.postInit, true) ∈ calls := by
          rcases hcases with ⟨-, hpost⟩ | hfailed
          · exact hpost
          · rw [hfailed] at hphase'
            contradiction
        exact List.mem_append_right _ (List.mem_map_of_mem hpost)
      · exact List.mem_append_left _ (hposts other (List.mem_of_getElem? hi) hphase')
  · rw [Bool.and_eq_true, hloop.ok_iff, decide_eq_true_iff]
    constructor
    · rintro ⟨hbefore, hself⟩ i hi other hother
      rw [hset] at hother
      split_ifs at hother with hidx
      · exact Option.some.inj hother ▸ hself
      · exact hbefore i (by simpa [hidx] using hi) other hother
    · intro hall
      refine ⟨fun i hi other hother ↦ ?_, ?_⟩
      · have hidx : i ≠ idx := fun heq ↦ hnew (heq ▸ hi)
        exact hall i (List.mem_append_left _ hi) other (by rw [hset, if_neg hidx]; exact hother)
      · exact hall idx (by simp) _ (by rw [hset, if_pos rfl])

/-- The whole order. -/
theorem InLoop.startupLoop (hnamed : WellNamed records) {first : List Record}
    {history : List Event} : ∀ (rest : List ℕ) {done : List ℕ} {state : ModuleRegistry × Bool},
    InLoop results records first history done state → (done ++ rest).Nodup →
    IsTopological (fun j i ↦ DependsOn records i j) (done ++ rest) →
    (∀ i ∈ rest, ∃ rec, records[i]? = some rec ∧ rec.phase = .registered ∧
      first[i]? = some rec ∧ hasMissing records rec = false) →
    InLoop results records first history (done ++ rest)
      (ModuleRegistry.startupLoop (fixedHooks results) rest state) := by
  intro rest
  induction rest with
  | nil =>
    intro done state hloop _ _ _
    simpa [ModuleRegistry.startupLoop] using hloop
  | cons idx rest ih =>
    intro done state hloop hnodup htopological hrest
    obtain ⟨rec, hrec, hphase, hfirst, hmissing⟩ := hrest idx List.mem_cons_self
    have hnew : idx ∉ done := fun hmem ↦
      (List.nodup_append.mp hnodup).2.2 idx hmem idx List.mem_cons_self rfl
    have hnext := hloop.step hnamed hrec hphase hfirst hnew hmissing
      fun j hj ↦ htopological done idx rest rfl j hj
    have hsplit : done ++ [idx] ++ rest = done ++ idx :: rest := by simp
    rw [← hsplit] at hnodup htopological ⊢
    exact ih hnext hnodup htopological fun i hi ↦ hrest i (List.mem_cons_of_mem _ hi)

/-! ### The whole of `startup_all` -/

/-- The records that registrations leave: they have distinct names and are all just registered. -/
structure Fresh (records : List Record) : Prop where
  wellNamed : WellNamed records
  registered : ∀ rec ∈ records, rec.phase = .registered

/-- What a `startup_all` does to the records, what it calls, and what it returns. -/
structure Isolated (results : IModule → Hook → Bool) (registry : ModuleRegistry)
    (after : ModuleRegistry × Bool) : Prop where
  targets_eq : after.1.records.map Record.target = registry.records.map Record.target
  phase_eq : ∀ rec ∈ after.1.records, ∀ name, rec.target.name = some name →
    (ReadySet results registry.records name → rec.phase = .ready) ∧
      (¬ ReadySet results registry.records name → rec.phase = .failed)
  depsFirst : ∃ events, after.1.trace = registry.trace ++ events ∧
    DepsFirst registry.records events
  ok_iff : after.2 = true ↔ ∀ rec ∈ after.1.records, rec.phase = .ready

/-- `startup_all` on freshly registered modules. -/
theorem Fresh.startupAll {registry : ModuleRegistry} (hfresh : Fresh registry.records)
    (results : IModule → Hook → Bool) :
    Isolated results registry (registry.startupAll (fixedHooks results)) := by
  have hspec := computeOrder_spec registry.records
  have hnamed := hfresh.wellNamed
  have hphases : ∀ rec ∈ registry.records, rec.phase ≠ .failed := fun rec hrec ↦ by
    simp [hfresh.registered rec hrec]
  have htargets : (computeOrder registry.records).1.map Record.target =
      registry.records.map Record.target := by
    refine map_target_eq hspec.records_eq fun i rec ↦ ?_
    simp only [orderedRecord, cycleFailed]
    split_ifs <;> rfl
  have hstart : InLoop results registry.records (computeOrder registry.records).1 registry.trace
      [] ({ registry with records := (computeOrder registry.records).1 }, true) := by
    refine ⟨htargets, fun _ _ ↦ rfl, by simp, ⟨[], by simp, depsFirst_nil _, ?_⟩, by simp⟩
    intro rec hrec hready
    obtain ⟨i, hi⟩ := List.mem_iff_getElem?.mp hrec
    rw [hspec.records_eq, Option.map_eq_some_iff] at hi
    obtain ⟨old, hold, rfl⟩ := hi
    have hregistered := hfresh.registered old (List.mem_of_getElem? hold)
    simp only [orderedRecord, cycleFailed] at hready
    split_ifs at hready <;> simp [Record.fail, hregistered] at hready
  have hloop := InLoop.startupLoop hnamed (computeOrder registry.records).2.1 hstart
    (by simpa using hspec.nodup) (by simpa using hspec.topological) fun i hi ↦ by
      obtain ⟨rec, hrec, hphase, hmissing⟩ := ((hspec.mem_iff i).mp hi).isAllowed
      refine ⟨rec, hrec, hfresh.registered rec (List.mem_of_getElem? hrec), ?_, hmissing⟩
      rw [hspec.records_eq, hrec]
      simp [orderedRecord, cycleFailed, hmissing, hi]
  rw [List.nil_append] at hloop
  have hphase : ∀ rec ∈ (registry.startupAll (fixedHooks results)).1.records, ∀ name,
      rec.target.name = some name →
      (ReadySet results registry.records name → rec.phase = .ready) ∧
        (¬ ReadySet results registry.records name → rec.phase = .failed) := by
    intro rec hrec name hname
    obtain ⟨i, hi⟩ := List.mem_iff_getElem?.mp hrec
    by_cases horder : i ∈ (computeOrder registry.records).2.1
    · obtain ⟨old, phase, error, hold, hnow, hcases, hready⟩ := hloop.started i horder
      obtain rfl := Option.some.inj (hnow.symm.trans hi)
      have hiff := hready name hname
      exact ⟨hiff.mpr, fun hnot ↦ hcases.resolve_left fun h ↦ hnot (hiff.mp h)⟩
    · have hfirst := (hloop.pending i horder).symm.trans hi
      rw [hspec.records_eq, Option.map_eq_some_iff] at hfirst
      obtain ⟨old, hold, rfl⟩ := hfirst
      have hregistered := hfresh.registered old (List.mem_of_getElem? hold)
      have htarget : (orderedRecord registry.records (computeOrder registry.records).2.1 i
          old).target = old.target := by
        simp only [orderedRecord, cycleFailed]
        split_ifs <;> rfl
      rw [htarget] at hname
      refine ⟨fun hready ↦ ?_, fun _ ↦ ?_⟩
      · obtain ⟨j, hfind, horderable⟩ := hnamed.orderable_of_readySet hphases hready
        rw [hnamed.findRecord_eq_some_iff.mpr ⟨old, hold, hname⟩, Option.some.injEq] at hfind
        exact absurd ((hspec.mem_iff i).mpr (hfind ▸ horderable)) horder
      · simp only [orderedRecord, cycleFailed]
        split_ifs with hmissing hcycle
        · rfl
        · rfl
        · exact absurd ⟨by simp [hregistered], horder⟩ hcycle
  refine ⟨hloop.targets_eq, hphase, ?_, ?_⟩
  · obtain ⟨events, htrace, hdepsFirst, -⟩ := hloop.events
    exact ⟨events, htrace, hdepsFirst⟩
  · simp only [ModuleRegistry.startupAll, Bool.and_eq_true, List.all_eq_true, decide_eq_true_eq,
      and_iff_right_iff_imp]
    intro hall
    refine hloop.ok_iff.mpr fun i _ rec hrec ↦ hall rec (List.mem_of_getElem? hrec)

/-- Registrations leave fresh records. -/
theorem reachable_fresh {hooks : Hooks} {registry : ModuleRegistry}
    (hreach : (moduleRegistry hooks).Reaches (fun _ call ↦ call.IsRegistration) .new registry) :
    Fresh registry.records := by
  refine hreach.invariant (show Fresh [] from ⟨wellNamed_nil, by simp⟩) ?_
  intro registry call next hfresh hcall hstep
  cases call with
  | registerModule target dependencies owned =>
    simp only [moduleRegistry, ModuleRegistry.step, Option.some.injEq] at hstep
    subst hstep
    rcases insertRecord_cases registry target dependencies owned none false with
      ⟨events, -, hrefused⟩ | ⟨rec, name, hname, hphase, hnew, hadded⟩
    · rw [ModuleRegistry.registerModule, hrefused]
      exact hfresh
    · rw [ModuleRegistry.registerModule, hadded]
      refine ⟨hfresh.wellNamed.concat hname hnew, fun other hother ↦ ?_⟩
      rcases List.mem_append.mp hother with hold | hlast
      · exact hfresh.registered other hold
      · rw [List.mem_singleton.mp hlast, hphase]
  | _ => exact absurd hcall (by simp [RegistryCall.IsRegistration])

/-- The modules that are ready. -/
def ReadyModule (registry : ModuleRegistry) (target : IModule) : Prop :=
  ∃ rec ∈ registry.records, rec.target = target ∧ rec.phase = .ready

/-- The ready modules are those with a name in the set. -/
theorem Isolated.readyModule_iff {registry : ModuleRegistry} {after : ModuleRegistry × Bool}
    (hisolated : Isolated results registry after) (hnamed : WellNamed registry.records)
    (target : IModule) : ReadyModule after.1 target ↔
      ∃ rec ∈ registry.records, rec.target = target ∧
        ∃ name, target.name = some name ∧ ReadySet results registry.records name := by
  constructor
  · rintro ⟨rec, hrec, rfl, hready⟩
    have hmem : rec.target ∈ registry.records.map Record.target :=
      hisolated.targets_eq ▸ List.mem_map_of_mem hrec
    obtain ⟨old, hold, heq⟩ := List.mem_map.mp hmem
    obtain ⟨name, hname⟩ := hnamed.named old hold
    refine ⟨old, hold, heq, name, heq ▸ hname, ?_⟩
    by_contra hnot
    rw [(hisolated.phase_eq rec hrec name (heq ▸ hname)).2 hnot] at hready
    contradiction
  · rintro ⟨old, hold, rfl, name, hname, hready⟩
    have hmem : old.target ∈ after.1.records.map Record.target :=
      hisolated.targets_eq ▸ List.mem_map_of_mem hold
    obtain ⟨rec, hrec, heq⟩ := List.mem_map.mp hmem
    exact ⟨rec, hrec, heq, (hisolated.phase_eq rec hrec name (heq ▸ hname)).1 hready⟩

/-- After one `startup_all` on freshly registered modules whose hooks return fixed results, a module
is ready if and only if its name is in the least set that contains the name of a module whose hooks
succeed as soon as it contains all the names the module depends on, and every other module has
failed; no hook is called on a module before the `post_init` of all its dependencies has returned
true; and the result says whether all modules are ready. Registering the same modules in another
order makes the same modules ready. -/
theorem startupAll_isolates (results : IModule → Hook → Bool) {registry : ModuleRegistry}
    (hreach : (moduleRegistry (fixedHooks results)).Reaches (fun _ call ↦ call.IsRegistration) .new
      registry) :
    Isolated results registry (registry.startupAll (fixedHooks results)) ∧
      ∀ other, (moduleRegistry (fixedHooks results)).Reaches (fun _ call ↦ call.IsRegistration)
          .new other → other.records.Perm registry.records →
        ∀ target, ReadyModule (other.startupAll (fixedHooks results)).1 target ↔
          ReadyModule (registry.startupAll (fixedHooks results)).1 target := by
  have hfresh := reachable_fresh hreach
  refine ⟨hfresh.startupAll results, fun other hother hperm target ↦ ?_⟩
  have hfresh' := reachable_fresh hother
  rw [(hfresh'.startupAll results).readyModule_iff hfresh'.wellNamed,
    (hfresh.startupAll results).readyModule_iff hfresh.wellNamed]
  have hset : ∀ name, ReadySet results other.records name ↔
      ReadySet results registry.records name := fun name ↦
    ⟨.mono fun _ hrec ↦ hperm.mem_iff.mp hrec, .mono fun _ hrec ↦ hperm.mem_iff.mpr hrec⟩
  simp only [hperm.mem_iff, hset]

/-- The theorem at a registry with a dependency registered after the module that has it, a failing
hook, a missing dependency, a cycle and a module that depends on itself. -/
theorem startupAll_isolates_mixed :
    let results : IModule → Hook → Bool := fun target hook ↦ target.id ≠ 2 ∨ hook ≠ .startup
    ∃ registry, (registry.startupAll (fixedHooks results)).1.records.map Record.phase =
        [.ready, .ready, .failed, .failed, .failed, .failed, .failed, .failed] ∧
      Isolated results registry (registry.startupAll (fixedHooks results)) := by
  intro results
  obtain ⟨registry, hreach, htest⟩ := TransitionSystem.Reaches.exists_of_any
    (moduleRegistry (fixedHooks results)) .new
    [.registerModule (some ⟨0, some "render"⟩) [some "core", some "core"] false,
      .registerModule (some ⟨1, some "core"⟩) [none, some ""] true,
      .registerModule (some ⟨2, some "audio"⟩) [some "core"] false,
      .registerModule (some ⟨3, some "mixer"⟩) [some "audio"] false,
      .registerModule (some ⟨4, some "net"⟩) [some "socket"] false,
      .registerModule (some ⟨5, some "left"⟩) [some "right"] false,
      .registerModule (some ⟨6, some "right"⟩) [some "left"] false,
      .registerModule (some ⟨7, some "loop"⟩) [some "loop"] false,
      .registerModule (some ⟨8, some "loop"⟩) [] true]
    (fun _ call ↦ decide call.IsRegistration)
    (fun registry ↦ (registry.startupAll (fixedHooks results)).1.records.map Record.phase =
      [.ready, .ready, .failed, .failed, .failed, .failed, .failed, .failed])
    (fun _ _ h ↦ of_decide_eq_true h) (by decide) (by decide)
  exact ⟨registry, of_decide_eq_true htest, (startupAll_isolates results hreach).1⟩

end GameEngine.Core
