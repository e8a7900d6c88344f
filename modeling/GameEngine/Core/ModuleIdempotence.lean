import GameEngine.Core.ModuleDependencies

/-!
# Starting the modules twice

A `startup_all` leaves every module ready or failed. `startupAll_idempotent` says that a second
`startup_all` directly after it calls no hook, changes no record, and returns what the first one
returned, in every state that calls without `unregister` lead to.

The second call computes the order anew. It leaves the records alone because the ready modules rest
on each other, so that it can order all of them, and because a module with a missing dependency has
been failed for that already.
-/

set_option autoImplicit false
set_option relaxedAutoImplicit false

namespace GameEngine.Core

open GameEngine.Library

/-! ### Resolved records -/

/-- A module that has been started, with or without success. -/
def Record.IsResolved (rec : Record) : Prop := rec.phase = .ready ∨ rec.phase = .failed

/-- What a record is registered with: the record without its phase and its error. -/
def Record.declared (rec : Record) : Record := { rec with phase := .registered, error := "" }

/-- The errors that the loop of `startup_all` leaves. -/
def startErrors : List String :=
  ["", "dependency not ready", "pre_init failed", "startup failed", "post_init failed"]

theorem Attempt.error_mem {calls : List (Hook × Bool)} {phase : ModulePhase} {error : String}
    (hattempt : Attempt calls phase error) : error ∈ startErrors := by
  cases hattempt <;> simp [startErrors]

/-- What one module in the loop of `startup_all` does to the record of that module: it is resolved,
without a change if it was resolved before. -/
theorem startupModule_resolves (hooks : Hooks) {registry : ModuleRegistry} {idx : ℕ} {rec : Record}
    (hrec : registry.records[idx]? = some rec) :
    ∃ next : Record, (registry.startupModule hooks idx).1.records = registry.records.set idx next ∧
      next.declared = rec.declared ∧ next.IsResolved ∧
      (rec.IsResolved → next = rec ∧
        registry.startupModule hooks idx = (registry, decide (rec.phase = .ready))) ∧
      (¬ rec.IsResolved → next.error ∈ startErrors) ∧
      ((registry.startupModule hooks idx).2 = true ↔ next.phase = .ready) := by
  have hsame : registry.records = registry.records.set idx rec := by
    obtain ⟨hlt, hget⟩ := List.getElem?_eq_some_iff.mp hrec
    rw [← hget, List.set_getElem_self]
  rcases startupModule_cases hooks hrec with ⟨hfailed, hresult⟩ | ⟨hready, hresult⟩ |
    ⟨hfailed, hready, -, hresult⟩ | ⟨hfailed, hready, -, calls, phase, error, hattempt, -, hresult⟩
  · refine ⟨rec, ?_, rfl, .inr hfailed, fun _ ↦ ⟨rfl, ?_⟩, fun hnot ↦ ?_, ?_⟩
    · rw [hresult]
      exact hsame
    · simp [hresult, hfailed]
    · exact absurd (.inr hfailed) hnot
    · simp [hresult, hfailed]
  · refine ⟨rec, ?_, rfl, .inl hready, fun _ ↦ ⟨rfl, ?_⟩, fun hnot ↦ ?_, ?_⟩
    · rw [hresult]
      exact hsame
    · simp [hresult, hready]
    · exact absurd (.inl hready) hnot
    · simp [hresult, hready]
  · refine ⟨rec.fail "dependency not ready", ?_, rfl, .inr rfl, fun hresolved ↦ ?_,
      fun _ ↦ ?_, ?_⟩
    · rw [hresult]
      rfl
    · exact absurd hresolved (not_or.mpr ⟨hready, hfailed⟩)
    · simp [Record.fail, startErrors]
    · simp [hresult, Record.fail]
  · refine ⟨{ rec with phase := phase, error := error }, ?_, rfl,
      hattempt.phase_cases.imp And.left id, fun hresolved ↦ ?_, fun _ ↦ hattempt.error_mem, ?_⟩
    · rw [hresult]
      rfl
    · exact absurd hresolved (not_or.mpr ⟨hready, hfailed⟩)
    · simp [hresult]

variable {records records' : List Record}

/-- Two vectors of records with the same declarations have the same indices. -/
theorem exists_of_declared (hdeclared : records'.map Record.declared =
    records.map Record.declared) {i : ℕ} {rec' : Record} (hrec' : records'[i]? = some rec') :
    ∃ rec, records[i]? = some rec ∧ rec'.declared = rec.declared := by
  have hi := congrArg (fun list ↦ list[i]?) hdeclared
  simp only [List.getElem?_map, hrec', Option.map_some] at hi
  obtain ⟨rec, hrec, heq⟩ := Option.map_eq_some_iff.mp hi.symm
  exact ⟨rec, hrec, heq.symm⟩

/-- What the loop of `startup_all` does to the records, over the indices `order`. -/
structure ResolvesAll (order : List ℕ) (start stop : ModuleRegistry × Bool) : Prop where
  declared_eq : stop.1.records.map Record.declared = start.1.records.map Record.declared
  kept : ∀ (i : ℕ) (rec : Record), start.1.records[i]? = some rec → rec.IsResolved →
    stop.1.records[i]? = some rec
  resolved : ∀ i ∈ order, ∀ rec : Record, stop.1.records[i]? = some rec → rec.IsResolved
  errors : ∀ i ∈ order, ∀ rec rec' : Record, start.1.records[i]? = some rec → ¬ rec.IsResolved →
    stop.1.records[i]? = some rec' → rec'.error ∈ startErrors
  unordered : ∀ i : ℕ, i ∉ order → stop.1.records[i]? = start.1.records[i]?
  ok : (∀ i ∈ order, i < start.1.records.length) → stop.2 = false →
    start.2 = false ∨ ∃ rec ∈ stop.1.records, rec.phase = .failed

namespace ResolvesAll

variable {order : List ℕ} {start middle stop : ModuleRegistry × Bool}

theorem refl (state : ModuleRegistry × Bool) : ResolvesAll [] state state where
  declared_eq := rfl
  kept := fun _ _ hrec _ ↦ hrec
  resolved := by simp
  errors := by simp
  unordered := fun _ _ ↦ rfl
  ok := fun _ ↦ .inl

theorem length_eq (hall : ResolvesAll order start stop) :
    stop.1.records.length = start.1.records.length := by
  simpa using congrArg List.length hall.declared_eq

/-- One module. -/
theorem startupModule (hooks : Hooks) (state : ModuleRegistry × Bool) (idx : ℕ) :
    ResolvesAll [idx] state
      ((state.1.startupModule hooks idx).1, state.2 && (state.1.startupModule hooks idx).2) := by
  cases hrec : state.1.records[idx]? with
  | none =>
    have hresult : state.1.startupModule hooks idx = (state.1, false) := by
      simp [ModuleRegistry.startupModule, hrec]
    rw [hresult]
    refine ⟨rfl, fun _ _ h _ ↦ h, fun i hi rec hi' ↦ ?_, fun i hi rec _ hi' ↦ ?_, fun _ _ ↦ rfl,
      fun hlt _ ↦ ?_⟩
    · rw [List.mem_singleton.mp hi, hrec] at hi'
      contradiction
    · rw [List.mem_singleton.mp hi, hrec] at hi'
      contradiction
    · have hnone := List.getElem?_eq_none_iff.mp hrec
      have := hlt idx (List.mem_singleton_self idx)
      omega
  | some rec =>
    obtain ⟨next, hrecords, hdeclared, hresolved, hsame, herror, hok⟩ :=
      startupModule_resolves hooks hrec
    have hlt : idx < state.1.records.length := (List.getElem?_eq_some_iff.mp hrec).1
    have hnext : (state.1.records.set idx next)[idx]? = some next := List.getElem?_set_self hlt
    refine ⟨?_, fun i other hother hothers ↦ ?_, fun i hi other hother ↦ ?_,
      fun i hi old other hold hnot hother ↦ ?_, fun i hi ↦ ?_, fun _ hfalse ↦ ?_⟩
    · dsimp only
      rw [hrecords]
      refine List.ext_getElem? fun i ↦ ?_
      rw [List.getElem?_map, List.getElem?_map, List.getElem?_set]
      split_ifs with hi
      · rw [← hi, hrec]
        exact congrArg some hdeclared
      · rfl
    · dsimp only
      rw [hrecords, List.getElem?_set]
      split_ifs with hi
      · rw [← hi, hrec, Option.some.injEq] at hother
        subst hother
        rw [(hsame hothers).1]
      · exact hother
    · dsimp only at hother
      rw [hrecords, List.mem_singleton.mp hi, hnext] at hother
      exact Option.some.inj hother ▸ hresolved
    · dsimp only at hother
      rw [hrecords, List.mem_singleton.mp hi, hnext] at hother
      rw [List.mem_singleton.mp hi, hrec] at hold
      obtain rfl := Option.some.inj hold
      exact Option.some.inj hother ▸ herror hnot
    · dsimp only
      rw [hrecords, List.getElem?_set_ne fun heq ↦ hi (by simp [heq])]
    · rcases Bool.and_eq_false_iff.mp hfalse with hbefore | hnow
      · exact .inl hbefore
      · refine .inr ⟨next, ?_, hresolved.resolve_left fun hready ↦ ?_⟩
        · dsimp only
          rw [hrecords]
          exact List.mem_set hlt next
        · rw [hok.mpr hready] at hnow
          contradiction

/-- Two parts of the loop. -/
theorem trans {rest : List ℕ} (hfirst : ResolvesAll order start middle)
    (hsecond : ResolvesAll rest middle stop) : ResolvesAll (order ++ rest) start stop where
  declared_eq := hsecond.declared_eq.trans hfirst.declared_eq
  kept := fun i rec hrec hresolved ↦ hsecond.kept i rec (hfirst.kept i rec hrec hresolved) hresolved
  resolved := by
    intro i hi rec hrec
    by_cases hrest : i ∈ rest
    · exact hsecond.resolved i hrest rec hrec
    · rw [hsecond.unordered i hrest] at hrec
      exact hfirst.resolved i ((List.mem_append.mp hi).resolve_right hrest) rec hrec
  errors := by
    intro i hi rec rec' hrec hnot hrec'
    by_cases horder : i ∈ order
    · obtain ⟨other, hother, -⟩ := exists_of_declared hsecond.declared_eq hrec'
      have hkept := hsecond.kept i other hother (hfirst.resolved i horder other hother)
      obtain rfl := Option.some.inj (hkept.symm.trans hrec')
      exact hfirst.errors i horder rec other hrec hnot hother
    · rw [← hfirst.unordered i horder] at hrec
      exact hsecond.errors i ((List.mem_append.mp hi).resolve_left horder) rec rec' hrec hnot hrec'
  unordered := by
    intro i hi
    obtain ⟨horder, hrest⟩ := not_or.mp (mt List.mem_append.mpr hi)
    exact (hsecond.unordered i hrest).trans (hfirst.unordered i horder)
  ok := by
    intro hlt hstop
    have hltFirst : ∀ i ∈ order, i < start.1.records.length :=
      fun i hi ↦ hlt i (List.mem_append_left _ hi)
    have hltSecond : ∀ i ∈ rest, i < middle.1.records.length := by
      intro i hi
      rw [hfirst.length_eq]
      exact hlt i (List.mem_append_right _ hi)
    rcases hsecond.ok hltSecond hstop with hmiddle | hfailed
    · rcases hfirst.ok hltFirst hmiddle with hstart | ⟨rec, hrec, hfailed⟩
      · exact .inl hstart
      · obtain ⟨i, hi⟩ := List.mem_iff_getElem?.mp hrec
        exact .inr ⟨rec, List.mem_of_getElem? (hsecond.kept i rec hi (.inr hfailed)), hfailed⟩
    · exact .inr hfailed

/-- The loop of `startup_all`. -/
theorem startupLoop (hooks : Hooks) (order : List ℕ) (state : ModuleRegistry × Bool) :
    ResolvesAll order state (ModuleRegistry.startupLoop hooks order state) := by
  induction order generalizing state with
  | nil => exact refl state
  | cons idx rest ih => exact (startupModule hooks state idx).trans (ih _)

end ResolvesAll

/-! ### A resolved registry -/

/-- Every module is ready or failed, and a missing dependency is the error of the module that
declares it. -/
structure Resolved (records : List Record) : Prop where
  resolved : ∀ rec ∈ records, rec.IsResolved
  missing : ∀ rec ∈ records, hasMissing records rec = true →
    rec = rec.fail "missing dependency"

theorem map_target_of_declared (hdeclared : records'.map Record.declared =
    records.map Record.declared) : records'.map Record.target = records.map Record.target := by
  simpa [Function.comp_def, Record.declared] using congrArg (List.map Record.target) hdeclared

/-- Whether a dependency is missing depends on the declarations only. -/
theorem hasMissing_congr (hdeclared : records'.map Record.declared = records.map Record.declared)
    {rec rec' : Record} (hrec : rec'.declared = rec.declared) :
    hasMissing records' rec' = hasMissing records rec := by
  have hdeps : rec'.deps = rec.deps := by
    change rec'.declared.deps = rec.declared.deps
    rw [hrec]
  unfold hasMissing
  rw [hdeps]
  congr 1
  funext dep
  rw [findRecord_congr (map_target_of_declared hdeclared)]

theorem orderedRecord_declared (order : List ℕ) (i : ℕ) (rec : Record) :
    (orderedRecord records order i rec).declared = rec.declared := by
  simp only [orderedRecord, cycleFailed]
  split_ifs <;> rfl

/-- `compute_order` keeps all declarations. -/
theorem map_declared_computeOrder (records : List Record) :
    (computeOrder records).1.map Record.declared = records.map Record.declared := by
  refine List.ext_getElem? fun i ↦ ?_
  rw [List.getElem?_map, List.getElem?_map, (computeOrder_spec records).records_eq]
  cases records[i]? with
  | none => rfl
  | some rec => exact congrArg some (orderedRecord_declared _ i rec)

/-- `startup_all` resolves the registry. -/
theorem resolved_startupAll (hooks : Hooks) (registry : ModuleRegistry) :
    Resolved (registry.startupAll hooks).1.records := by
  have hspec := computeOrder_spec registry.records
  have hloop := ResolvesAll.startupLoop hooks (computeOrder registry.records).2.1
    ({ registry with records := (computeOrder registry.records).1 }, true)
  have hdeclared := hloop.declared_eq.trans (map_declared_computeOrder registry.records)
  refine ⟨fun rec hrec ↦ ?_, fun rec hrec hmissing ↦ ?_⟩
  · obtain ⟨i, hi⟩ := List.mem_iff_getElem?.mp hrec
    by_cases horder : i ∈ (computeOrder registry.records).2.1
    · exact hloop.resolved i horder rec hi
    · have hcomputed := (hloop.unordered i horder).symm.trans hi
      rw [hspec.records_eq, Option.map_eq_some_iff] at hcomputed
      obtain ⟨old, -, rfl⟩ := hcomputed
      refine .inr ?_
      by_cases hfailed : old.phase = .failed
      · simp only [orderedRecord, cycleFailed]
        split_ifs <;> first | rfl | exact hfailed
      · simp only [orderedRecord, cycleFailed, horder, ne_eq, hfailed, not_false_eq_true,
          and_self, if_true]
        split_ifs <;> rfl
  · obtain ⟨i, hi⟩ := List.mem_iff_getElem?.mp hrec
    obtain ⟨old, hold, hsame⟩ := exists_of_declared hdeclared hi
    have hmissingOld : hasMissing registry.records old = true :=
      (hasMissing_congr hdeclared hsame).symm.trans hmissing
    have hfailed : (computeOrder registry.records).1[i]? =
        some (old.fail "missing dependency") := by
      rw [hspec.records_eq, hold, Option.map_some, orderedRecord, if_pos hmissingOld]
    have hkept := (hloop.kept i _ hfailed (.inr rfl)).symm.trans hi
    rw [← Option.some.inj hkept]
    rfl

/-- In a resolved registry whose ready modules rest on each other, `compute_order` changes nothing
and orders ready modules only. -/
theorem Resolved.computeOrder (hresolved : Resolved records) (hready : ReadyOnReady records) :
    (computeOrder records).1 = records ∧ ∀ i ∈ (Core.computeOrder records).2.1,
      ∃ rec, records[i]? = some rec ∧ rec.phase = .ready := by
  have hspec := computeOrder_spec records
  refine ⟨List.ext_getElem? fun i ↦ ?_, fun i hi ↦ ?_⟩
  · rw [hspec.records_eq]
    cases hrec : records[i]? with
    | none => rfl
    | some rec =>
      have hmem := List.mem_of_getElem? hrec
      rw [Option.map_some]
      congr 1
      rcases hresolved.resolved rec hmem with hphase | hphase
      · exact hready.orderedRecord_eq hrec hphase
      · unfold orderedRecord cycleFailed
        split_ifs with hmissing hcycle
        · exact (hresolved.missing rec hmem hmissing).symm
        · exact absurd hphase hcycle.1
        · rfl
  · obtain ⟨rec, hrec, hnot, -⟩ := ((hspec.mem_iff i).mp hi).isAllowed
    exact ⟨rec, hrec, (hresolved.resolved rec (List.mem_of_getElem? hrec)).resolve_right hnot⟩

/-- The loop of `startup_all` passes over ready modules. -/
theorem startupLoop_ready (hooks : Hooks) (registry : ModuleRegistry) (order : List ℕ)
    (horder : ∀ i ∈ order, ∃ rec, registry.records[i]? = some rec ∧ rec.phase = .ready) :
    ModuleRegistry.startupLoop hooks order (registry, true) = (registry, true) := by
  induction order with
  | nil => rfl
  | cons idx rest ih =>
    obtain ⟨rec, hrec, hphase⟩ := horder idx List.mem_cons_self
    obtain ⟨_, -, -, -, hsame, -, -⟩ := startupModule_resolves hooks hrec
    have hresult := (hsame (.inl hphase)).2
    refine Eq.trans ?_ (ih fun i hi ↦ horder i (List.mem_cons_of_mem _ hi))
    simp [ModuleRegistry.startupLoop, hresult, hphase]

/-- A resolved registry whose ready modules rest on each other is left as it is. -/
theorem Resolved.startupAll_eq {registry : ModuleRegistry} (hresolved : Resolved registry.records)
    (hready : ReadyOnReady registry.records) (hooks : Hooks) :
    registry.startupAll hooks =
      (registry, registry.records.all fun rec ↦ rec.phase = .ready) := by
  obtain ⟨hrecords, horder⟩ := hresolved.computeOrder hready
  unfold ModuleRegistry.startupAll
  dsimp only
  rw [hrecords, startupLoop_ready hooks registry _ horder]
  rfl

/-- `startup_all` returns true exactly when it leaves all modules ready. -/
theorem startupAll_value (hooks : Hooks) (registry : ModuleRegistry) :
    (registry.startupAll hooks).2 =
      (registry.startupAll hooks).1.records.all fun rec ↦ rec.phase = .ready := by
  have hspec := computeOrder_spec registry.records
  have hloop := ResolvesAll.startupLoop hooks (computeOrder registry.records).2.1
    ({ registry with records := (computeOrder registry.records).1 }, true)
  have hlt : ∀ i ∈ (computeOrder registry.records).2.1,
      i < (computeOrder registry.records).1.length := by
    intro i hi
    obtain ⟨rec, hrec, -⟩ := ((hspec.mem_iff i).mp hi).isAllowed
    have hlength := congrArg List.length (map_declared_computeOrder registry.records)
    rw [List.length_map, List.length_map] at hlength
    rw [hlength]
    exact (List.getElem?_eq_some_iff.mp hrec).1
  unfold ModuleRegistry.startupAll
  dsimp only
  generalize hstate : ModuleRegistry.startupLoop hooks (computeOrder registry.records).2.1
    ({ registry with records := (computeOrder registry.records).1 }, true) = state at hloop ⊢
  cases hok : state.2 with
  | true => rfl
  | false =>
    rcases hloop.ok hlt hok with hstart | ⟨rec, hrec, hfailed⟩
    · contradiction
    · refine (Bool.false_and _).trans (Eq.symm (List.all_eq_false.mpr ⟨rec, hrec, ?_⟩))
      simp [hfailed]

/-! ### Runs -/

/-- The calls that unregister no module. -/
def RegistryCall.keepsModules : RegistryCall → Bool
  | .unregister _ => false
  | _ => true

/-- After any calls that unregister no module, with hooks that return anything at each call, a
second `startup_all` directly after a first one returns the same value and leaves the registry as it
is: the records with their phases and errors, and the history of the calls of hooks. -/
theorem startupAll_idempotent {hooks : Hooks} {registry : ModuleRegistry}
    (hreach : (moduleRegistry hooks).Reaches (fun _ call ↦ call.keepsModules = true) .new
      registry) :
    (registry.startupAll hooks).1.startupAll hooks = registry.startupAll hooks := by
  have hready : ReadyOnReady registry.records := by
    refine hreach.invariant ⟨wellNamed_nil, fun rec hrec ↦ absurd hrec List.not_mem_nil⟩ ?_
    intro state call next hstate hguard hstep
    have hkeeps : unregistersUnused state (.registry call) = true := by
      cases call with
      | unregister name => contradiction
      | _ => rfl
    have hmodule : state.stepModule hooks (.registry call) = some next := hstep
    exact hstate.step hkeeps hmodule
  have hagain := (resolved_startupAll hooks registry).startupAll_eq (hready.startupAll hooks) hooks
  rw [hagain, ← startupAll_value]

/-- The theorem at a run with modules that fail, that wait for each other, and that are registered
after a restart: the last `startup_all` has something to start. -/
theorem startupAll_idempotent_restart : ∃ registry : ModuleRegistry,
    registry.records.map (fun rec ↦ (rec.target.name, rec.phase, rec.error)) =
      [(some "core", .shutdown, ""), (some "audio", .failed, "startup failed"),
        (some "ghost", .failed, "missing dependency"), (some "left", .failed, "dependency cycle"),
        (some "right", .failed, "dependency cycle"), (some "late", .registered, "")] ∧
    (registry.startupAll fun _ target hook ↦ target.id ≠ 1 ∨ hook ≠ .startup).1.startupAll
        (fun _ target hook ↦ target.id ≠ 1 ∨ hook ≠ .startup) =
      registry.startupAll fun _ target hook ↦ target.id ≠ 1 ∨ hook ≠ .startup := by
  obtain ⟨registry, hreach, htest⟩ := TransitionSystem.Reaches.exists_of_any
    (moduleRegistry fun _ target hook ↦ target.id ≠ 1 ∨ hook ≠ .startup) .new
    [.registerModule (some ⟨0, some "core"⟩) [] false,
      .registerModule (some ⟨1, some "audio"⟩) [some "core"] true,
      .registerModule (some ⟨2, some "ghost"⟩) [some "none"] false,
      .registerModule (some ⟨3, some "left"⟩) [some "right"] false,
      .registerModule (some ⟨4, some "right"⟩) [some "left"] false,
      .startupAll, .shutdownAll, .registerModule (some ⟨5, some "late"⟩) [some "core"] true]
    (fun _ call ↦ call.keepsModules)
    (fun registry ↦ registry.records.map (fun rec ↦ (rec.target.name, rec.phase, rec.error)) =
      [(some "core", .shutdown, ""), (some "audio", .failed, "startup failed"),
        (some "ghost", .failed, "missing dependency"), (some "left", .failed, "dependency cycle"),
        (some "right", .failed, "dependency cycle"), (some "late", .registered, "")])
    (fun _ _ h ↦ h) (by decide) (by decide)
  exact ⟨registry, of_decide_eq_true htest, startupAll_idempotent hreach⟩

end GameEngine.Core
