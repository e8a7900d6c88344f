import GameEngine.Core.ModuleStartup

/-!
# The order of the shutdowns

`shutdownAll_spec` says what `shutdown_all` does: it shuts the started modules down, the last record
first. The records are in the order of the registrations, while the modules have been started in the
order of the dependencies. `shutdownAll_ordered_iff` says for every reachable registry that every
module is shut down before the modules it depends on if and only if the started modules have been
registered after the started modules they depend on. `shutdownAll_not_ordered` is a registry in
which a dependency is shut down first.
-/

set_option autoImplicit false
set_option relaxedAutoImplicit false

namespace GameEngine.Core

open GameEngine.Library

/-! ### The modules stay where they are -/

/-- Replacing a record by one of the same module. -/
theorem map_target_set {records : List Record} {i : ℕ} {rec next : Record}
    (hrec : records[i]? = some rec) (htarget : next.target = rec.target) :
    (records.set i next).map Record.target = records.map Record.target := by
  obtain ⟨hlt, hget⟩ := List.getElem?_eq_some_iff.mp hrec
  have hlt' : i < (records.map Record.target).length := by rwa [List.length_map]
  have hsame : (records.map Record.target)[i] = next.target := by
    rw [List.getElem_map, hget, htarget]
  rw [List.map_set, ← hsame, List.set_getElem_self]

theorem map_target_computeOrder (records : List Record) :
    (computeOrder records).1.map Record.target = records.map Record.target := by
  refine map_target_eq (computeOrder_spec records).records_eq fun i rec ↦ ?_
  simp only [orderedRecord, cycleFailed]
  split_ifs <;> rfl

theorem map_target_startupModule (hooks : Hooks) (registry : ModuleRegistry) (idx : ℕ) :
    (registry.startupModule hooks idx).1.records.map Record.target =
      registry.records.map Record.target := by
  cases hrec : registry.records[idx]? with
  | none => simp [ModuleRegistry.startupModule, hrec]
  | some rec =>
    rcases startupModule_cases hooks hrec with ⟨-, hresult⟩ | ⟨-, hresult⟩ | ⟨-, -, -, hresult⟩ |
      ⟨-, -, -, calls, phase, error, -, -, hresult⟩
    · rw [hresult]
    · rw [hresult]
    · rw [hresult]
      exact map_target_set hrec rfl
    · rw [hresult]
      exact map_target_set hrec rfl

theorem map_target_startupAll (hooks : Hooks) (registry : ModuleRegistry) :
    (registry.startupAll hooks).1.records.map Record.target =
      registry.records.map Record.target := by
  have hloop : ∀ (order : List ℕ) (state : ModuleRegistry × Bool),
      (ModuleRegistry.startupLoop hooks order state).1.records.map Record.target =
        state.1.records.map Record.target := by
    intro order
    induction order with
    | nil => exact fun _ ↦ rfl
    | cons idx rest ih =>
      exact fun state ↦ (ih _).trans (map_target_startupModule hooks state.1 idx)
  exact (hloop _ _).trans (map_target_computeOrder registry.records)

/-- Fewer records have distinct names as well. -/
theorem WellNamed.eraseIdx {records : List Record} (hnamed : WellNamed records) (i : ℕ) :
    WellNamed (records.eraseIdx i) :=
  ⟨fun rec hrec ↦ hnamed.named rec (List.mem_of_mem_eraseIdx hrec),
    hnamed.nodup.sublist ((List.eraseIdx_sublist records i).map _)⟩

/-! ### What `shutdown_all` does -/

/-- The module has been started and not been shut down: the phases in which `shutdown_all` calls
`shutdown`. -/
def Record.isStarted (rec : Record) : Bool :=
  rec.phase = .ready ∨ rec.phase = .postInit ∨ rec.phase = .init

/-- A record after `shutdown_all`. -/
def Record.stopped (rec : Record) : Record :=
  if rec.isStarted ∨ rec.phase = .preInit then { rec with phase := .shutdown } else rec

/-- The module that an event shuts down. -/
def shutdownTarget : Event → Option IModule
  | .called target .shutdown _ => some target
  | _ => none

/-- One record in the loop of `shutdown_all`. -/
theorem shutdownRecord_spec (hooks : Hooks) {registry : ModuleRegistry} {i : ℕ} {rec : Record}
    (hrec : registry.records[i]? = some rec) :
    (registry.shutdownRecord hooks i).records = registry.records.set i rec.stopped ∧
      ∃ calls, (registry.shutdownRecord hooks i).trace =
          registry.trace ++ hookEvents rec.target calls ∧
        (rec.isStarted = true ∧ (∃ stopped, calls = [(.shutdown, stopped)]) ∨
          rec.isStarted = false ∧ calls = []) := by
  obtain ⟨hlt, hget⟩ := List.getElem?_eq_some_iff.mp hrec
  unfold ModuleRegistry.shutdownRecord
  rw [hrec]
  dsimp only
  by_cases hstarted : rec.phase = .ready ∨ rec.phase = .postInit ∨ rec.phase = .init
  · have his : rec.isStarted = true := by simpa [Record.isStarted] using hstarted
    rw [if_pos hstarted]
    exact ⟨by simp [ModuleRegistry.call, ModuleRegistry.setRecord, ModuleRegistry.emit,
      Record.stopped, his], [(.shutdown, hooks registry.trace rec.target .shutdown)], rfl,
      .inl ⟨his, _, rfl⟩⟩
  · have hnot : rec.isStarted = false := by simpa [Record.isStarted] using hstarted
    rw [if_neg hstarted]
    by_cases hpreInit : rec.phase = .preInit
    · rw [if_pos hpreInit]
      exact ⟨by simp [ModuleRegistry.setRecord, Record.stopped, hpreInit], [],
        by simp [ModuleRegistry.setRecord, hookEvents], .inr ⟨hnot, rfl⟩⟩
    · rw [if_neg hpreInit]
      refine ⟨?_, [], by simp [hookEvents], .inr ⟨hnot, rfl⟩⟩
      rw [Record.stopped, if_neg (by simp [hnot, hpreInit]), ← hget, List.set_getElem_self]

/-- The records below an index. -/
theorem foldl_shutdownRecord (hooks : Hooks) : ∀ (count : ℕ) (registry : ModuleRegistry),
    count ≤ registry.records.length →
    ((List.range count).reverse.foldl (ModuleRegistry.shutdownRecord hooks) registry).records =
        (registry.records.take count).map Record.stopped ++ registry.records.drop count ∧
      ∃ events, ((List.range count).reverse.foldl
          (ModuleRegistry.shutdownRecord hooks) registry).trace = registry.trace ++ events ∧
        events.map shutdownTarget = (((registry.records.take count).filter
          Record.isStarted).map fun rec ↦ some rec.target).reverse := by
  intro count
  induction count with
  | zero => exact fun registry _ ↦ ⟨rfl, [], by simp, rfl⟩
  | succ count ih =>
    intro registry hle
    have hrec : registry.records[count]? = some registry.records[count] :=
      List.getElem?_eq_getElem hle
    obtain ⟨hrecords, calls, htrace, hcalls⟩ := shutdownRecord_spec hooks hrec
    have htargets : (hookEvents registry.records[count].target calls).map shutdownTarget =
        if registry.records[count].isStarted then [some registry.records[count].target]
        else [] := by
      rcases hcalls with ⟨hstarted, stopped, rfl⟩ | ⟨hnot, rfl⟩
      · simp [hstarted, hookEvents, shutdownTarget]
      · simp [hnot, hookEvents]
    have hlength : count ≤ (registry.shutdownRecord hooks count).records.length := by
      rw [hrecords, List.length_set]
      omega
    obtain ⟨hrest, events, htrace', htargets'⟩ := ih _ hlength
    have htake : (registry.records.set count registry.records[count].stopped).take count =
        registry.records.take count := List.take_set_of_le (Nat.le_refl count)
    have hdrop : (registry.records.set count registry.records[count].stopped).drop count =
        registry.records[count].stopped :: registry.records.drop (count + 1) := by
      rw [List.drop_eq_getElem_cons (by rw [List.length_set]; exact hle), List.getElem_set_self,
        List.drop_set_of_lt (Nat.lt_succ_self count)]
    rw [List.range_succ, List.reverse_append, List.reverse_singleton, List.singleton_append,
      List.foldl_cons]
    refine ⟨?_, hookEvents registry.records[count].target calls ++ events, ?_, ?_⟩
    · rw [hrest, hrecords, htake, hdrop, List.take_add_one, hrec, Option.toList_some,
        List.map_append, List.append_assoc]
      rfl
    · rw [htrace', htrace, List.append_assoc]
    · rw [List.map_append, htargets, htargets', hrecords, htake, List.take_add_one, hrec,
        Option.toList_some, List.filter_append, List.map_append, List.reverse_append]
      cases hstarted : registry.records[count].isStarted <;> simp [hstarted]

/-- `shutdown_all` shuts the started modules down, the last record first, and changes nothing
else. -/
theorem shutdownAll_spec (hooks : Hooks) (registry : ModuleRegistry) :
    (registry.shutdownAll hooks).records = registry.records.map Record.stopped ∧
      ∃ events, (registry.shutdownAll hooks).trace = registry.trace ++ events ∧
        events.map shutdownTarget = ((registry.records.filter
          Record.isStarted).map fun rec ↦ some rec.target).reverse := by
  have h := foldl_shutdownRecord hooks registry.records.length registry le_rfl
  simpa [ModuleRegistry.shutdownAll] using h

theorem map_target_shutdownAll (hooks : Hooks) (registry : ModuleRegistry) :
    (registry.shutdownAll hooks).records.map Record.target =
      registry.records.map Record.target := by
  rw [(shutdownAll_spec hooks registry).1, List.map_map]
  refine List.map_congr_left fun rec _ ↦ ?_
  simp only [Function.comp_apply, Record.stopped]
  split_ifs <;> rfl

/-- What `unregister` does: nothing when the name is not found, else it shuts the module down if it
has been started, and erases the record. -/
theorem unregister_cases (hooks : Hooks) (registry : ModuleRegistry) (name : String) :
    (registry.unregister hooks name).1 = registry ∨
      ∃ i rec calls events, registry.records[i]? = some rec ∧
        (∀ event ∈ events, ∀ target hook succeeded, event ≠ .called target hook succeeded) ∧
        (registry.unregister hooks name).1 =
          { records := registry.records.eraseIdx i
            trace := registry.trace ++ hookEvents rec.target calls ++ events } ∧
        ((rec.isStarted ∨ rec.phase = .preInit) ∧ (∃ stopped, calls = [(.shutdown, stopped)]) ∨
          rec.isStarted = false ∧ calls = []) := by
  cases hfind : findRecord registry.records name with
  | none => exact .inl (by simp [ModuleRegistry.unregister, hfind])
  | some i =>
    cases hrec : registry.records[i]? with
    | none => exact .inl (by simp [ModuleRegistry.unregister, hfind, hrec])
    | some rec =>
      have hevents : ∀ event ∈ ModuleRegistry.destroyEvents rec.target rec.owned rec.destroyFn ++
          ModuleRegistry.closeEvents rec.dylib, ∀ target hook succeeded,
            event ≠ .called target hook succeeded := by
        rintro event hevent other hook succeeded rfl
        cases howned : rec.owned <;>
          simp [ModuleRegistry.destroyEvents, ModuleRegistry.closeEvents, howned] at hevent
      by_cases hphase : rec.phase = .ready ∨ rec.phase = .init ∨ rec.phase = .postInit ∨
          rec.phase = .preInit
      · refine .inr ⟨i, rec, [(.shutdown, hooks registry.trace rec.target .shutdown)], _, hrec,
          hevents, ?_, .inl ⟨?_, _, rfl⟩⟩
        · simp [ModuleRegistry.unregister, hfind, hrec, hphase, ModuleRegistry.call,
            ModuleRegistry.setRecord, ModuleRegistry.emit, hookEvents, List.eraseIdx_set_eq]
        · simp only [Record.isStarted, decide_eq_true_eq]
          tauto
      · refine .inr ⟨i, rec, [], _, hrec, hevents, ?_, .inr ⟨?_, rfl⟩⟩
        · simp [ModuleRegistry.unregister, hfind, hrec, hphase, ModuleRegistry.emit, hookEvents]
        · simp only [Record.isStarted, decide_eq_false_iff_not]
          tauto

/-- The records of every reachable registry have distinct names. -/
theorem reachable_wellNamed {hooks : Hooks} {guard : ModuleRegistry → RegistryCall → Prop}
    {registry : ModuleRegistry} (hreach : (moduleRegistry hooks).Reaches guard .new registry) :
    WellNamed registry.records := by
  refine hreach.invariant wellNamed_nil ?_
  intro registry call next hnamed _ hstep
  cases call with
  | registerModule target dependencies owned =>
    obtain rfl := Option.some.inj hstep
    rcases insertRecord_cases registry target dependencies owned none false with
      ⟨events, -, hrefused⟩ | ⟨rec, name, hname, -, hnew, hadded⟩
    · rw [ModuleRegistry.registerModule, hrefused]
      exact hnamed
    · rw [ModuleRegistry.registerModule, hadded]
      exact hnamed.concat hname hnew
  | startupAll =>
    obtain rfl := Option.some.inj hstep
    exact hnamed.congr (map_target_startupAll hooks registry)
  | shutdownAll =>
    obtain rfl := Option.some.inj hstep
    exact hnamed.congr (map_target_shutdownAll hooks registry)
  | unregister name =>
    obtain rfl := Option.some.inj hstep
    rcases unregister_cases hooks registry name with hsame | ⟨i, rec, _, _, -, -, herased, -⟩
    · rw [hsame]
      exact hnamed
    · rw [herased]
      exact hnamed.eraseIdx i

/-! ### Dependencies and shutdowns -/

/-- The modules on which `shutdown_all` calls `shutdown`, in the order of the calls. -/
def shutdownCalls (hooks : Hooks) (registry : ModuleRegistry) : List IModule :=
  ((registry.shutdownAll hooks).trace.drop registry.trace.length).filterMap shutdownTarget

/-- `shutdown_all` calls `shutdown` on every started module before it calls it on another started
module that the first one depends on, directly or through others. -/
def ShutdownOrdered (hooks : Hooks) (registry : ModuleRegistry) : Prop :=
  ∀ i j first second, registry.records[i]? = some first → registry.records[j]? = some second →
    first.isStarted → second.isStarted → i ≠ j →
    Relation.TransGen (DependsOn registry.records) i j →
    [first.target, second.target].Sublist (shutdownCalls hooks registry)

/-- Every started module has been registered after the other started modules that it depends on,
directly or through others. -/
def RegisteredInOrder (registry : ModuleRegistry) : Prop :=
  ∀ i j first second, registry.records[i]? = some first → registry.records[j]? = some second →
    first.isStarted → second.isStarted → i ≠ j →
    Relation.TransGen (DependsOn registry.records) i j → j < i

/-- The calls are made on the started modules, the last record first. -/
theorem shutdownCalls_eq (hooks : Hooks) (registry : ModuleRegistry) :
    shutdownCalls hooks registry =
      ((registry.records.filter Record.isStarted).map Record.target).reverse := by
  obtain ⟨-, events, htrace, htargets⟩ := shutdownAll_spec hooks registry
  rw [shutdownCalls, htrace, List.drop_left]
  have hmap : events.filterMap shutdownTarget = (events.map shutdownTarget).filterMap id := by
    rw [List.filterMap_map]
    rfl
  rw [hmap, htargets, List.filterMap_reverse, List.filterMap_map]
  congr 1
  rw [← List.filterMap_eq_map]
  rfl

/-- Two elements of a list, in the order of their indices. -/
theorem pair_sublist {α : Type} {list : List α} {i j : ℕ} {first second : α} (hij : i < j)
    (hfirst : list[i]? = some first) (hsecond : list[j]? = some second) :
    [first, second].Sublist list := by
  obtain ⟨hi, hfirst⟩ := List.getElem?_eq_some_iff.mp hfirst
  have hsplit : list.drop i = first :: list.drop (i + 1) := by
    rw [List.drop_eq_getElem_cons hi, hfirst]
  have hmem : second ∈ list.drop (i + 1) := by
    refine List.mem_iff_getElem?.mpr ⟨j - (i + 1), ?_⟩
    rw [List.getElem?_drop, ← hsecond]
    congr 1
    omega
  refine .trans ?_ (List.drop_sublist i list)
  rw [hsplit]
  exact (List.singleton_sublist.mpr hmem).cons_cons first

/-- In a list without repetition two elements are in one order only. -/
theorem not_pair_sublist_swap {α : Type} {list : List α} {first second : α} (hnodup : list.Nodup)
    (hpair : [first, second].Sublist list) : ¬ [second, first].Sublist list := by
  intro hswap
  induction list with
  | nil => simp at hpair
  | cons head tail ih =>
    obtain ⟨hhead, htail⟩ := List.nodup_cons.mp hnodup
    rcases List.sublist_cons_iff.mp hpair with hskip | ⟨_, heq, hrest⟩
    · rcases List.sublist_cons_iff.mp hswap with hskip' | ⟨_, heq', hrest'⟩
      · exact ih htail hskip hskip'
      · obtain ⟨rfl, rfl⟩ := List.cons.inj heq'
        exact hhead (hskip.subset (by simp))
    · obtain ⟨rfl, rfl⟩ := List.cons.inj heq
      rcases List.sublist_cons_iff.mp hswap with hskip' | ⟨_, heq', hrest'⟩
      · exact hhead (hskip'.subset (by simp))
      · obtain ⟨rfl, rfl⟩ := List.cons.inj heq'
        exact hhead (hrest.subset (by simp))

/-- A module is shut down before another one exactly when it has been registered after it. -/
theorem WellNamed.shutdown_before_iff {registry : ModuleRegistry}
    (hnamed : WellNamed registry.records) (hooks : Hooks) {i j : ℕ} {first second : Record}
    (hfirst : registry.records[i]? = some first) (hsecond : registry.records[j]? = some second)
    (hfirstStarted : first.isStarted) (hsecondStarted : second.isStarted) (hne : i ≠ j) :
    [first.target, second.target].Sublist (shutdownCalls hooks registry) ↔ j < i := by
  have hnodup : ((registry.records.filter Record.isStarted).map Record.target).Nodup := by
    have hnames : ((registry.records.map Record.target).map IModule.name).Nodup := by
      rw [List.map_map]
      exact hnamed.nodup
    exact hnames.of_map.sublist (List.filter_sublist.map _)
  have hcalls : ∀ {i j : ℕ} {first second : Record}, registry.records[i]? = some first →
      registry.records[j]? = some second → first.isStarted → second.isStarted → i < j →
      [first.target, second.target].Sublist
        ((registry.records.filter Record.isStarted).map Record.target) := by
    intro i j first second hfirst hsecond hfirstStarted hsecondStarted hij
    have h := ((pair_sublist hij hfirst hsecond).filter Record.isStarted).map Record.target
    simpa [hfirstStarted, hsecondStarted] using h
  rw [shutdownCalls_eq, ← List.reverse_sublist, List.reverse_reverse]
  constructor
  · intro hpair
    by_contra hnot
    exact not_pair_sublist_swap hnodup hpair
      (hcalls hfirst hsecond hfirstStarted hsecondStarted (by omega))
  · exact hcalls hsecond hfirst hsecondStarted hfirstStarted

/-- `core` is registered after `render`, which depends on it: both start, `core` first, and
`shutdown_all` shuts `core` down first as well. -/
theorem shutdownAll_not_ordered : ∃ registry : ModuleRegistry,
    (moduleRegistry fun _ _ _ ↦ true).Reaches (fun _ call ↦ ∀ name, call ≠ .unregister name) .new
      registry ∧
    shutdownCalls (fun _ _ _ ↦ true) registry = [⟨1, some "core"⟩, ⟨0, some "render"⟩] ∧
    ¬ ShutdownOrdered (fun _ _ _ ↦ true) registry := by
  have hguard : ∀ (_ : ModuleRegistry) (call : RegistryCall),
      (match call with | .unregister _ => false | _ => true) = true →
        ∀ name, call ≠ .unregister name := by
    rintro _ call hcall name rfl
    contradiction
  obtain ⟨registry, hreach, htest⟩ := TransitionSystem.Reaches.exists_of_any
    (moduleRegistry fun _ _ _ ↦ true) .new
    [.registerModule (some ⟨0, some "render"⟩) [some "core"] false,
      .registerModule (some ⟨1, some "core"⟩) [] false, .startupAll] _
    (fun registry ↦
      shutdownCalls (fun _ _ _ ↦ true) registry = [⟨1, some "core"⟩, ⟨0, some "render"⟩] ∧
      findRecord registry.records "core" = some 1 ∧
      (registry.records[0]?.any fun rec ↦
        rec.target = ⟨0, some "render"⟩ ∧ rec.isStarted ∧ "core" ∈ rec.deps) ∧
      (registry.records[1]?.any fun rec ↦ rec.target = ⟨1, some "core"⟩ ∧ rec.isStarted))
    hguard (by decide) (by decide)
  obtain ⟨hcalls, hfind, hrender, hcore⟩ := of_decide_eq_true htest
  obtain ⟨render, hrender, hrender'⟩ := (Option.any_eq_true _ _).mp hrender
  obtain ⟨core, hcore, hcore'⟩ := (Option.any_eq_true _ _).mp hcore
  obtain ⟨htarget, hstarted, hdep⟩ := of_decide_eq_true hrender'
  obtain ⟨htarget', hstarted'⟩ := of_decide_eq_true hcore'
  refine ⟨registry, hreach, hcalls, fun hordered ↦ ?_⟩
  have hpair := hordered 0 1 render core hrender hcore hstarted hstarted' (by decide)
    (.single ⟨render, hrender, "core", hdep, hfind⟩)
  rw [hcalls, htarget, htarget'] at hpair
  exact absurd hpair (by decide)

/-- In every reachable registry, `shutdown_all` shuts every started module down before the started
modules that it depends on if and only if the started modules have been registered after the started
modules that they depend on. -/
theorem shutdownAll_ordered_iff {hooks : Hooks} {registry : ModuleRegistry}
    (hreach : (moduleRegistry hooks).Reaches TransitionSystem.unguarded .new registry) :
    ShutdownOrdered hooks registry ↔ RegisteredInOrder registry := by
  have hnamed := reachable_wellNamed hreach
  refine forall₄_congr fun i j first second ↦ ?_
  refine forall₄_congr fun hfirst hsecond hfirstStarted hsecondStarted ↦ ?_
  refine forall₂_congr fun hne _ ↦ ?_
  exact hnamed.shutdown_before_iff hooks hfirst hsecond hfirstStarted hsecondStarted hne

/-- The theorem at a registry whose modules have been registered after their dependencies. -/
theorem shutdownAll_ordered_iff_chain : ∃ registry : ModuleRegistry,
    shutdownCalls (fun _ _ _ ↦ true) registry =
      [⟨2, some "audio"⟩, ⟨1, some "render"⟩, ⟨0, some "core"⟩] ∧
    (ShutdownOrdered (fun _ _ _ ↦ true) registry ↔ RegisteredInOrder registry) := by
  obtain ⟨registry, hreach, htest⟩ := TransitionSystem.Reaches.exists_of_schedule
    (moduleRegistry fun _ _ _ ↦ true) .new
    [.registerModule (some ⟨0, some "core"⟩) [] false,
      .registerModule (some ⟨1, some "render"⟩) [some "core"] false,
      .registerModule (some ⟨2, some "audio"⟩) [some "core", some "render"] true, .startupAll]
    (fun registry ↦ shutdownCalls (fun _ _ _ ↦ true) registry =
      [⟨2, some "audio"⟩, ⟨1, some "render"⟩, ⟨0, some "core"⟩]) (by decide)
  exact ⟨registry, of_decide_eq_true htest, shutdownAll_ordered_iff hreach⟩

end GameEngine.Core
