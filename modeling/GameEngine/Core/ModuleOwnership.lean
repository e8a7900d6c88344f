import GameEngine.Core.ModuleIdempotence

/-!
# Who destroys modules and closes libraries

A call hands a module, a library or both to the registry. The registry keeps them in a record, or
refuses them and gives them up at once; what it keeps it gives up when the module is unregistered or
the registry is destroyed. `ownership_accounted` says that in every run every owned module that was
handed over is destroyed exactly once and every opened library closed exactly once, that modules
that are not owned are never destroyed, and that after the module of a plugin has been destroyed and
its library closed no hook of that module is called.

The identity of a module tells objects apart; a module that two calls hand over is one object that
they share.
-/

set_option autoImplicit false
set_option relaxedAutoImplicit false

namespace GameEngine.Core

open GameEngine.Library

/-! ### Holdings -/

/-- What a call hands over, and what a record holds. -/
structure Holding where
  target : Option IModule
  owned : Bool
  dylib : Option ℕ
  destroyFn : Bool
deriving DecidableEq

/-- The events that give a holding up. -/
def Holding.ends (holding : Holding) : List Event :=
  (holding.target.elim [] fun target ↦
    ModuleRegistry.destroyEvents target holding.owned holding.destroyFn) ++
  ModuleRegistry.closeEvents holding.dylib

/-- The module of a holding, if it is owned, and whether the plugin's function destroys it. -/
def Holding.owed (holding : Holding) : List (IModule × Bool) :=
  if holding.owned then holding.target.toList.map fun target ↦ (target, holding.destroyFn) else []

/-- What a record holds. -/
def Record.holding (rec : Record) : Holding where
  target := some rec.target
  owned := rec.owned
  dylib := rec.dylib
  destroyFn := rec.destroyFn

/-- What a call hands over: a module, owned or not, or what the library at a path gives. -/
def ModuleCall.offer : ModuleCall → Option Holding
  | .registry (.registerModule target _ owned) => some ⟨target, owned, none, false⟩
  | .loadShared ⟨some handle, create, destroy⟩ => some ⟨create.join, true, some handle, destroy⟩
  | _ => none

/-- The module that an event is about. -/
def Event.target : Event → Option IModule
  | .called target _ _ => some target
  | .destroyed target _ => some target
  | .closed _ => none

/-- The module that an event destroys, and whether the plugin's function does it. -/
def Event.destroyedModule : Event → Option (IModule × Bool)
  | .destroyed target viaPlugin => some (target, viaPlugin)
  | _ => none

/-- The library that an event closes. -/
def Event.closedLibrary : Event → Option ℕ
  | .closed dylib => some dylib
  | _ => none

/-- What the registry holds. -/
def ModuleRegistry.holdings (registry : ModuleRegistry) : List Holding :=
  registry.records.map Record.holding

theorem Holding.destroyed_ends (holding : Holding) :
    holding.ends.filterMap Event.destroyedModule = holding.owed := by
  obtain ⟨target, owned, dylib, destroyFn⟩ := holding
  cases target <;> cases owned <;> cases dylib <;> rfl

theorem Holding.closed_ends (holding : Holding) :
    holding.ends.filterMap Event.closedLibrary = holding.dylib.toList := by
  obtain ⟨target, owned, dylib, destroyFn⟩ := holding
  cases target <;> cases owned <;> cases dylib <;> rfl

/-- Giving a holding up concerns no other module. -/
theorem Holding.target_of_mem_ends {holding : Holding} {event : Event} {target : IModule}
    (hevent : event ∈ holding.ends) (htarget : event.target = some target) :
    holding.target = some target := by
  obtain ⟨held, owned, dylib, destroyFn⟩ := holding
  cases held with
  | none =>
    cases dylib <;>
      simp [Holding.ends, ModuleRegistry.closeEvents] at hevent
    simp [hevent, Event.target] at htarget
  | some held =>
    cases owned <;> cases dylib <;>
      simp [Holding.ends, ModuleRegistry.closeEvents, ModuleRegistry.destroyEvents] at hevent
    · simp [hevent, Event.target] at htarget
    · simpa [hevent, Event.target] using htarget
    · rcases hevent with rfl | rfl
      · simpa [Event.target] using htarget
      · simp [Event.target] at htarget

/-! ### Hooks -/

/-- Events that are calls of hooks of registered modules. -/
def OnlyCalls (holdings : List Holding) (events : List Event) : Prop :=
  ∀ event ∈ events, ∃ target hook succeeded, event = .called target hook succeeded ∧
    ∃ holding ∈ holdings, holding.target = some target

theorem onlyCalls_hookEvents {holdings : List Holding} {holding : Holding} {target : IModule}
    (hmem : holding ∈ holdings) (htarget : holding.target = some target)
    (calls : List (Hook × Bool)) : OnlyCalls holdings (hookEvents target calls) := by
  intro event hevent
  obtain ⟨call, -, rfl⟩ := List.mem_map.mp hevent
  exact ⟨target, call.1, call.2, rfl, holding, hmem, htarget⟩

theorem OnlyCalls.append {holdings : List Holding} {first second : List Event}
    (hfirst : OnlyCalls holdings first) (hsecond : OnlyCalls holdings second) :
    OnlyCalls holdings (first ++ second) := by
  intro event hevent
  rcases List.mem_append.mp hevent with h | h
  · exact hfirst event h
  · exact hsecond event h

theorem OnlyCalls.destroyed_eq {holdings : List Holding} {events : List Event}
    (hcalls : OnlyCalls holdings events) : events.filterMap Event.destroyedModule = [] := by
  refine List.filterMap_eq_nil_iff.mpr fun event hevent ↦ ?_
  obtain ⟨target, hook, succeeded, rfl, -⟩ := hcalls event hevent
  rfl

theorem OnlyCalls.closed_eq {holdings : List Holding} {events : List Event}
    (hcalls : OnlyCalls holdings events) : events.filterMap Event.closedLibrary = [] := by
  refine List.filterMap_eq_nil_iff.mpr fun event hevent ↦ ?_
  obtain ⟨target, hook, succeeded, rfl, -⟩ := hcalls event hevent
  rfl

/-- An operation that calls hooks of registered modules and keeps all holdings. -/
structure Quiet (registry next : ModuleRegistry) : Prop where
  holdings_eq : next.holdings = registry.holdings
  calls : ∃ events, next.trace = registry.trace ++ events ∧ OnlyCalls registry.holdings events

namespace Quiet

variable {registry middle next : ModuleRegistry}

theorem refl (registry : ModuleRegistry) : Quiet registry registry :=
  ⟨rfl, [], by simp, by simp [OnlyCalls]⟩

theorem trans (hfirst : Quiet registry middle) (hsecond : Quiet middle next) :
    Quiet registry next := by
  obtain ⟨hholdings, events, htrace, hcalls⟩ := hfirst
  obtain ⟨hholdings', events', htrace', hcalls'⟩ := hsecond
  rw [hholdings] at hcalls'
  exact ⟨hholdings'.trans hholdings, events ++ events', by simp [htrace, htrace'],
    hcalls.append hcalls'⟩

/-- The hooks of one module, whose record keeps what it holds. -/
theorem set {i : ℕ} {rec changed : Record} {calls : List (Hook × Bool)}
    (hrec : registry.records[i]? = some rec)
    (hrecords : next.records = registry.records.set i changed)
    (hholding : changed.holding = rec.holding)
    (htrace : next.trace = registry.trace ++ hookEvents rec.target calls) :
    Quiet registry next := by
  refine ⟨?_, _, htrace, ?_⟩
  · obtain ⟨hlt, hget⟩ := List.getElem?_eq_some_iff.mp hrec
    have hsame : registry.holdings.set i rec.holding = registry.holdings := by
      rw [← hget, ModuleRegistry.holdings, ← List.map_set, List.set_getElem_self]
    rw [ModuleRegistry.holdings, hrecords, List.map_set, hholding]
    exact hsame
  · exact onlyCalls_hookEvents (List.mem_map_of_mem (List.mem_of_getElem? hrec)) rfl calls

theorem startupModule (hooks : Hooks) (registry : ModuleRegistry) (idx : ℕ) :
    Quiet registry (registry.startupModule hooks idx).1 := by
  cases hrec : registry.records[idx]? with
  | none =>
    simp only [ModuleRegistry.startupModule, hrec]
    exact refl registry
  | some rec =>
    rcases startupModule_cases hooks hrec with ⟨-, hresult⟩ | ⟨-, hresult⟩ | ⟨-, -, -, hresult⟩ |
      ⟨-, -, -, calls, phase, error, -, -, hresult⟩
    · rw [hresult]
      exact refl registry
    · rw [hresult]
      exact refl registry
    · rw [hresult]
      have htrace : (registry.setRecord idx (rec.fail "dependency not ready")).trace =
          registry.trace ++ hookEvents rec.target [] := by
        simp [ModuleRegistry.setRecord, hookEvents]
      exact set hrec rfl rfl htrace
    · rw [hresult]
      exact set hrec rfl rfl rfl

theorem startupAll (hooks : Hooks) (registry : ModuleRegistry) :
    Quiet registry (registry.startupAll hooks).1 := by
  have hloop : ∀ (order : List ℕ) (state : ModuleRegistry × Bool),
      Quiet state.1 (ModuleRegistry.startupLoop hooks order state).1 := by
    intro order
    induction order with
    | nil => exact fun state ↦ refl state.1
    | cons idx rest ih =>
      intro state
      exact (startupModule hooks state.1 idx).trans (ih ((state.1.startupModule hooks idx).1,
        state.2 && (state.1.startupModule hooks idx).2))
  refine trans ⟨?_, [], by simp, by simp [OnlyCalls]⟩ (hloop _ _)
  have hholding : ∀ list : List Record, list.map Record.holding =
      (list.map Record.declared).map Record.holding := by
    intro list
    rw [List.map_map]
    rfl
  unfold ModuleRegistry.holdings
  rw [hholding, map_declared_computeOrder, ← hholding]

theorem shutdownAll (hooks : Hooks) (registry : ModuleRegistry) :
    Quiet registry (registry.shutdownAll hooks) := by
  have hloop : ∀ (indices : List ℕ) (state : ModuleRegistry),
      Quiet state (indices.foldl (ModuleRegistry.shutdownRecord hooks) state) := by
    intro indices
    induction indices with
    | nil => exact fun state ↦ refl state
    | cons i rest ih =>
      intro state
      refine trans ?_ (ih _)
      cases hrec : state.records[i]? with
      | none =>
        simp only [ModuleRegistry.shutdownRecord, hrec]
        exact refl state
      | some rec =>
        obtain ⟨hrecords, calls, htrace, -⟩ := shutdownRecord_spec hooks hrec
        refine set hrec hrecords ?_ htrace
        unfold Record.stopped
        split_ifs <;> rfl
  exact hloop _ registry

end Quiet

/-! ### Calls -/

/-- What a call to the registry does with what it is handed and with what the registry holds. -/
inductive HoldingStep (registry next : ModuleRegistry) (offer : Option Holding) : Prop
  | quiet : offer = none → Quiet registry next → HoldingStep registry next offer
  | taken (holding : Holding) : offer = some holding →
      next.holdings = registry.holdings ++ [holding] → next.trace = registry.trace →
      HoldingStep registry next offer
  | refused (holding : Holding) : offer = some holding → next.holdings = registry.holdings →
      next.trace = registry.trace ++ holding.ends → HoldingStep registry next offer
  | removed (first second : List Holding) (holding : Holding) (events : List Event) :
      offer = none → registry.holdings = first ++ holding :: second →
      next.holdings = first ++ second → OnlyCalls [holding] events →
      next.trace = registry.trace ++ (events ++ holding.ends) → HoldingStep registry next offer

/-- A registration takes what it is handed or gives it up at once. -/
theorem holdingStep_insertRecord (registry : ModuleRegistry) (target : Option IModule)
    (dependencies : List (Option String)) (owned : Bool) (dylib : Option ℕ) (destroyFn : Bool) :
    HoldingStep registry (registry.insertRecord target dependencies owned dylib destroyFn).1
      (some ⟨target, owned, dylib, destroyFn⟩) := by
  cases target with
  | none =>
    refine .refused _ rfl rfl ?_
    simp [ModuleRegistry.insertRecord, ModuleRegistry.emit, Holding.ends]
  | some target =>
    unfold ModuleRegistry.insertRecord
    dsimp only
    split_ifs
    · exact .refused _ rfl rfl rfl
    · refine .taken _ rfl ?_ rfl
      simp [ModuleRegistry.holdings, Record.holding]

/-- `unregister` gives up what one record holds, or does nothing. -/
theorem holdingStep_unregister (hooks : Hooks) (registry : ModuleRegistry) (name : String) :
    HoldingStep registry (registry.unregister hooks name).1 none := by
  cases hfind : findRecord registry.records name with
  | none =>
    simp only [ModuleRegistry.unregister, hfind]
    exact .quiet rfl (.refl registry)
  | some i =>
    obtain ⟨rec, hrec, -⟩ := findRecord_name hfind
    obtain ⟨hlt, hget⟩ := List.getElem?_eq_some_iff.mp hrec
    have hsplit : registry.holdings = (registry.records.take i).map Record.holding ++
        rec.holding :: (registry.records.drop (i + 1)).map Record.holding := by
      rw [← List.map_cons, ← List.map_append, ← hget, List.getElem_cons_drop, List.take_append_drop]
      rfl
    have herase : registry.records.eraseIdx i =
        registry.records.take i ++ registry.records.drop (i + 1) :=
      List.eraseIdx_eq_take_drop_succ ..
    simp only [ModuleRegistry.unregister, hfind, hrec]
    split_ifs with hstarted
    · refine .removed _ _ rec.holding
        [.called rec.target .shutdown (hooks registry.trace rec.target .shutdown)] rfl hsplit
        ?_ ?_ ?_
      · simp [ModuleRegistry.holdings, ModuleRegistry.emit, ModuleRegistry.call,
          ModuleRegistry.setRecord, List.eraseIdx_set_eq, herase]
      · intro event hevent
        rw [List.mem_singleton] at hevent
        exact ⟨rec.target, _, _, hevent, rec.holding, List.mem_singleton_self _, rfl⟩
      · simp [ModuleRegistry.emit, ModuleRegistry.call, ModuleRegistry.setRecord, Holding.ends,
          Record.holding]
    · refine .removed _ _ rec.holding [] rfl hsplit ?_ (by simp [OnlyCalls]) rfl
      simp [ModuleRegistry.holdings, ModuleRegistry.emit, herase]

/-- Every call. -/
theorem holdingStep {hooks : Hooks} {registry next : ModuleRegistry} {call : ModuleCall}
    (hstep : registry.stepModule hooks call = some next) :
    HoldingStep registry next call.offer := by
  cases call with
  | registry call =>
    cases call with
    | registerModule target dependencies owned =>
      obtain rfl := Option.some.inj hstep
      exact holdingStep_insertRecord registry target dependencies owned none false
    | startupAll =>
      obtain rfl := Option.some.inj hstep
      exact .quiet rfl (.startupAll hooks registry)
    | shutdownAll =>
      obtain rfl := Option.some.inj hstep
      exact .quiet rfl (.shutdownAll hooks registry)
    | unregister name =>
      obtain rfl := Option.some.inj hstep
      exact holdingStep_unregister hooks registry name
  | loadShared plugin =>
    obtain rfl := Option.some.inj hstep
    obtain ⟨handle, create, destroy⟩ := plugin
    cases handle with
    | none => exact .quiet rfl (.refl registry)
    | some handle =>
      rcases create with - | (- | target)
      · exact .refused _ rfl rfl rfl
      · exact .refused _ rfl rfl rfl
      · exact holdingStep_insertRecord registry (some target) [] true (some handle) destroy

/-- The destructor gives up everything, after the last hooks. -/
theorem destroy_trace (hooks : Hooks) (registry : ModuleRegistry) :
    ∃ events, (registry.destroy hooks).trace =
        registry.trace ++ events ++ registry.holdings.flatMap Holding.ends ∧
      OnlyCalls registry.holdings events := by
  obtain ⟨hholdings, events, htrace, hcalls⟩ := Quiet.shutdownAll hooks registry
  refine ⟨events, ?_, hcalls⟩
  rw [← htrace, ← hholdings]
  simp only [ModuleRegistry.destroy, ModuleRegistry.emit, ModuleRegistry.holdings,
    List.flatMap_map]
  rfl

/-! ### The ledger -/

/-- Every holding that calls have handed over has been given up or is in a record. -/
structure Ledger (offers : List Holding) (registry : ModuleRegistry) : Prop where
  destroyed : (registry.trace.filterMap Event.destroyedModule ++
    registry.holdings.flatMap Holding.owed).Perm (offers.flatMap Holding.owed)
  closed : (registry.trace.filterMap Event.closedLibrary ++
    registry.holdings.flatMap fun holding ↦ holding.dylib.toList).Perm
      (offers.flatMap fun holding ↦ holding.dylib.toList)

/-- The part of a ledger that counts one kind of things. -/
theorem perm_of_holdingStep {registry next : ModuleRegistry} {offer : Option Holding}
    {offers : List Holding} {Thing : Type} (hstep : HoldingStep registry next offer)
    (given : Event → Option Thing) (due : Holding → List Thing)
    (hends : ∀ holding : Holding, holding.ends.filterMap given = due holding)
    (hcalls : ∀ holdings events, OnlyCalls holdings events → events.filterMap given = [])
    (hperm : (registry.trace.filterMap given ++ registry.holdings.flatMap due).Perm
      (offers.flatMap due)) :
    (next.trace.filterMap given ++ next.holdings.flatMap due).Perm
      ((offers ++ offer.toList).flatMap due) := by
  rw [List.flatMap_append]
  cases hstep with
  | quiet hoffer hquiet =>
    obtain ⟨hholdings, events, htrace, honly⟩ := hquiet
    simpa [hoffer, hholdings, htrace, hcalls _ _ honly] using hperm
  | taken holding hoffer hholdings htrace =>
    have h := hperm.append_right (due holding)
    simpa [hoffer, hholdings, htrace] using h
  | refused holding hoffer hholdings htrace =>
    have h := hperm.append_right (due holding)
    simp only [hoffer, hholdings, htrace, List.filterMap_append, hends, Option.toList_some,
      List.flatMap_singleton]
    refine List.Perm.trans ?_ h
    rw [List.append_assoc, List.append_assoc]
    exact List.perm_append_comm.append_left _
  | removed first second holding events hoffer hsplit hholdings honly htrace =>
    simp only [hoffer, hholdings, htrace, hsplit, List.filterMap_append, hends,
      hcalls _ _ honly, List.flatMap_append, List.flatMap_cons, Option.toList_none,
      List.flatMap_nil, List.append_nil, List.nil_append] at hperm ⊢
    refine List.Perm.trans ?_ hperm
    rw [List.append_assoc]
    refine List.Perm.append_left _ ?_
    rw [← List.append_assoc, ← List.append_assoc]
    exact List.perm_append_comm.append_right _

theorem Ledger.step {registry next : ModuleRegistry} {offer : Option Holding}
    {offers : List Holding} (hledger : Ledger offers registry)
    (hstep : HoldingStep registry next offer) : Ledger (offers ++ offer.toList) next where
  destroyed := perm_of_holdingStep hstep _ _ Holding.destroyed_ends
    (fun _ _ honly ↦ honly.destroyed_eq) hledger.destroyed
  closed := perm_of_holdingStep hstep _ _ Holding.closed_ends
    (fun _ _ honly ↦ honly.closed_eq) hledger.closed

/-! ### The module of a plugin -/

/-- The holdings of a module. -/
def holdingsOf (target : IModule) (holdings : List Holding) : List Holding :=
  holdings.filter fun holding ↦ holding.target = some target

/-- What `load_shared` hands over. -/
def pluginHolding (target : IModule) (handle : ℕ) (destroyFn : Bool) : Holding :=
  ⟨some target, true, some handle, destroyFn⟩

/-- The module of a plugin has been destroyed and its library closed, and nothing has happened to
the module since. -/
def Unloaded (target : IModule) (handle : ℕ) (destroyFn : Bool) (trace : List Event) : Prop :=
  ∃ earlier later, trace =
      earlier ++ .destroyed target destroyFn :: .closed handle :: later ∧
    ∀ event ∈ later, event.target ≠ some target

/-- The module of a plugin is in one record or has been unloaded. -/
def Loaded (target : IModule) (handle : ℕ) (destroyFn : Bool) (registry : ModuleRegistry) : Prop :=
  holdingsOf target registry.holdings = [pluginHolding target handle destroyFn] ∨
    holdingsOf target registry.holdings = [] ∧ Unloaded target handle destroyFn registry.trace

variable {target : IModule} {handle : ℕ} {destroyFn : Bool}

theorem ends_pluginHolding (target : IModule) (handle : ℕ) (destroyFn : Bool) :
    (pluginHolding target handle destroyFn).ends =
      [.destroyed target destroyFn, .closed handle] := rfl

theorem holdingsOf_eq_nil {holdings : List Holding} :
    holdingsOf target holdings = [] ↔ ∀ holding ∈ holdings, holding.target ≠ some target := by
  simp [holdingsOf]

theorem holdingsOf_singleton {holding : Holding} (hother : holding.target ≠ some target) :
    holdingsOf target [holding] = [] := by
  simp [holdingsOf, hother]

theorem holdingsOf_append (target : IModule) (first second : List Holding) :
    holdingsOf target (first ++ second) = holdingsOf target first ++ holdingsOf target second :=
  List.filter_append ..

/-- Later events that do not concern the module. -/
theorem Unloaded.append {trace events : List Event}
    (hunloaded : Unloaded target handle destroyFn trace)
    (hevents : ∀ event ∈ events, event.target ≠ some target) :
    Unloaded target handle destroyFn (trace ++ events) := by
  obtain ⟨earlier, later, rfl, hlater⟩ := hunloaded
  refine ⟨earlier, later ++ events, by simp, fun event hevent ↦ ?_⟩
  rcases List.mem_append.mp hevent with h | h
  · exact hlater event h
  · exact hevents event h

/-- Giving up a holding of another module does not concern the module. -/
theorem ends_other {holding : Holding} (hother : holding.target ≠ some target) :
    ∀ event ∈ holding.ends, event.target ≠ some target :=
  fun _ hevent htarget ↦ hother (Holding.target_of_mem_ends hevent htarget)

/-- Hooks of other modules do not concern the module. -/
theorem OnlyCalls.other {holdings : List Holding} {events : List Event}
    (hcalls : OnlyCalls holdings events) (hothers : holdingsOf target holdings = []) :
    ∀ event ∈ events, event.target ≠ some target := by
  intro event hevent htarget
  obtain ⟨called, hook, succeeded, rfl, holding, hmem, hholding⟩ := hcalls event hevent
  exact holdingsOf_eq_nil.mp hothers holding hmem (hholding.trans htarget)

/-- A call that does not hand the module over. -/
theorem Loaded.step {registry next : ModuleRegistry} {offer : Option Holding}
    (hloaded : Loaded target handle destroyFn registry)
    (hstep : HoldingStep registry next offer)
    (hoffer : ∀ holding ∈ offer, holding.target ≠ some target) :
    Loaded target handle destroyFn next := by
  cases hstep with
  | quiet _ hquiet =>
    obtain ⟨hholdings, events, htrace, honly⟩ := hquiet
    unfold Loaded
    rw [hholdings, htrace]
    refine hloaded.imp_right fun ⟨hnone, hunloaded⟩ ↦ ⟨hnone, ?_⟩
    exact hunloaded.append (honly.other hnone)
  | taken holding hsome hholdings htrace =>
    unfold Loaded
    rw [hholdings, htrace, holdingsOf_append, holdingsOf_singleton (hoffer holding hsome),
      List.append_nil]
    exact hloaded
  | refused holding hsome hholdings htrace =>
    unfold Loaded
    rw [hholdings, htrace]
    refine hloaded.imp_right fun ⟨hnone, hunloaded⟩ ↦ ⟨hnone, ?_⟩
    exact hunloaded.append (ends_other (hoffer holding hsome))
  | removed first second holding events _ hsplit hholdings honly htrace =>
    have hall : holdingsOf target registry.holdings = holdingsOf target first ++
        (holdingsOf target [holding] ++ holdingsOf target second) := by
      rw [hsplit, ← List.singleton_append, holdingsOf_append, holdingsOf_append]
    unfold Loaded at hloaded ⊢
    rw [hall] at hloaded
    rw [hholdings, htrace, holdingsOf_append]
    by_cases htarget : holding.target = some target
    · -- The only record of the module is the one that is removed.
      have hself : holdingsOf target [holding] = [holding] := by simp [holdingsOf, htarget]
      rw [hself] at hloaded
      rcases hloaded with hheld | ⟨hnone, -⟩
      · have hlength := congrArg List.length hheld
        simp only [List.length_append, List.length_singleton] at hlength
        have hfirst : holdingsOf target first = [] := List.length_eq_zero_iff.mp (by omega)
        have hsecond : holdingsOf target second = [] := List.length_eq_zero_iff.mp (by omega)
        rw [hfirst, hsecond, List.nil_append, List.append_nil, List.singleton_inj] at hheld
        subst hheld
        refine .inr ⟨by rw [hfirst, hsecond]; rfl, registry.trace ++ events, [], ?_, by simp⟩
        rw [ends_pluginHolding, List.append_assoc]
      · simp at hnone
    · rw [holdingsOf_singleton htarget, List.nil_append] at hloaded
      refine hloaded.imp_right fun ⟨hnone, hunloaded⟩ ↦ ⟨hnone, hunloaded.append ?_⟩
      intro event hevent
      rcases List.mem_append.mp hevent with h | h
      · exact honly.other (holdingsOf_singleton htarget) event h
      · exact ends_other htarget event h

/-- `load_shared` for a module that no record holds. -/
theorem loaded_of_holdingStep {registry next : ModuleRegistry}
    (hnone : holdingsOf target registry.holdings = [])
    (hstep : HoldingStep registry next (some (pluginHolding target handle destroyFn))) :
    Loaded target handle destroyFn next := by
  cases hstep with
  | quiet hoffer => exact absurd hoffer (by simp)
  | taken holding hoffer hholdings =>
    obtain rfl := Option.some.inj hoffer
    refine .inl ?_
    rw [hholdings, holdingsOf_append, hnone]
    simp [holdingsOf, pluginHolding]
  | refused holding hoffer hholdings htrace =>
    obtain rfl := Option.some.inj hoffer
    refine .inr ⟨by rw [hholdings, hnone], registry.trace, [], ?_, by simp⟩
    rw [htrace, ends_pluginHolding]
  | removed _ _ _ _ hoffer => exact absurd hoffer (by simp)

/-- Giving everything up unloads the module. -/
theorem unloaded_of_holdingsOf {trace : List Event} {holdings : List Holding}
    (hheld : holdingsOf target holdings = [pluginHolding target handle destroyFn]) :
    Unloaded target handle destroyFn (trace ++ holdings.flatMap Holding.ends) := by
  have hmem : pluginHolding target handle destroyFn ∈ holdings := by
    have hmem' : pluginHolding target handle destroyFn ∈ holdingsOf target holdings := by
      rw [hheld]
      exact List.mem_singleton_self _
    exact List.mem_of_mem_filter hmem'
  obtain ⟨first, second, rfl⟩ := List.append_of_mem hmem
  rw [← List.singleton_append, holdingsOf_append, holdingsOf_append] at hheld
  have hlength := congrArg List.length hheld
  have hself : (holdingsOf target [pluginHolding target handle destroyFn]).length = 1 := by
    simp [holdingsOf, pluginHolding]
  simp only [List.length_append, List.length_singleton, hself] at hlength
  have hsecond : holdingsOf target second = [] := List.length_eq_zero_iff.mp (by omega)
  refine ⟨trace ++ first.flatMap Holding.ends, second.flatMap Holding.ends, ?_, ?_⟩
  · simp [ends_pluginHolding]
  · intro event hevent
    obtain ⟨holding, hholding, hend⟩ := List.mem_flatMap.mp hevent
    exact ends_other (holdingsOf_eq_nil.mp hsecond holding hholding) event hend

/-- The destructor unloads the module. -/
theorem Loaded.destroy {registry : ModuleRegistry}
    (hloaded : Loaded target handle destroyFn registry) (hooks : Hooks) :
    Unloaded target handle destroyFn (registry.destroy hooks).trace := by
  obtain ⟨events, htrace, honly⟩ := destroy_trace hooks registry
  rw [htrace]
  rcases hloaded with hheld | ⟨hnone, hunloaded⟩
  · exact unloaded_of_holdingsOf hheld
  · refine (hunloaded.append (honly.other hnone)).append fun event hevent ↦ ?_
    obtain ⟨holding, hholding, hend⟩ := List.mem_flatMap.mp hevent
    exact ends_other (holdingsOf_eq_nil.mp hnone holding hholding) event hend

/-! ### Runs -/

/-- What a run does with what the calls hand over. -/
structure OwnershipAccounted (calls : List ModuleCall) (trace : List Event) : Prop where
  /-- Every owned module that was handed over is destroyed once, by the plugin's function if there
  is one. -/
  destroyed : (trace.filterMap Event.destroyedModule).Perm
    ((calls.filterMap ModuleCall.offer).flatMap Holding.owed)
  /-- Every library is closed as often as it was opened. -/
  closed : (trace.filterMap Event.closedLibrary).Perm
    ((calls.filterMap ModuleCall.offer).flatMap fun holding ↦ holding.dylib.toList)
  /-- A module that is never handed over with ownership is not destroyed. -/
  spared : ∀ target, (∀ call ∈ calls, ∀ holding ∈ call.offer,
      holding.target = some target → holding.owned = false) →
    ∀ viaPlugin, .destroyed target viaPlugin ∉ trace
  /-- The module of a plugin is destroyed before its library is closed, and after that no hook of
  it is called. -/
  unloaded : ∀ before target handle destroyFn after,
    calls = before ++ .loadShared ⟨some handle, some (some target), destroyFn⟩ :: after →
    (∀ call ∈ before ++ after, ∀ holding ∈ call.offer, holding.target ≠ some target) →
    Unloaded target handle destroyFn trace

theorem exists_stepModule (hooks : Hooks) (registry : ModuleRegistry) (call : ModuleCall) :
    ∃ next, registry.stepModule hooks call = some next := by
  cases call with
  | registry call => cases call <;> exact ⟨_, rfl⟩
  | loadShared plugin => exact ⟨_, rfl⟩

/-- Every call is possible in every state. -/
theorem exists_execute (hooks : Hooks) (calls : List ModuleCall) (registry : ModuleRegistry) :
    ∃ final, (pluginRegistry hooks).execute registry calls = some final := by
  induction calls generalizing registry with
  | nil => exact ⟨registry, rfl⟩
  | cons call rest ih =>
    obtain ⟨next, hnext⟩ := exists_stepModule hooks registry call
    obtain ⟨final, hfinal⟩ := ih next
    refine ⟨final, ?_⟩
    have hstep : (pluginRegistry hooks).step registry call = some next := hnext
    rw [TransitionSystem.execute, hstep]
    exact hfinal

/-- The ledger of a run. -/
theorem ledger_execute {hooks : Hooks} {calls : List ModuleCall} {final : ModuleRegistry}
    (hexecute : (pluginRegistry hooks).execute .new calls = some final) :
    Ledger (calls.filterMap ModuleCall.offer) final := by
  refine TransitionSystem.execute_induction
    (fun done state ↦ Ledger (done.filterMap ModuleCall.offer) state) hexecute ?_ ?_
  · exact ⟨.refl _, .refl _⟩
  · intro done call _ state next hledger hstep
    have h := hledger.step (holdingStep hstep)
    rw [List.filterMap_append]
    cases hoffer : call.offer with
    | none => simpa [hoffer] using h
    | some holding => simpa [hoffer] using h

/-- A module that no call has handed over is in no record. -/
theorem holdingsOf_execute {hooks : Hooks} {calls : List ModuleCall} {final : ModuleRegistry}
    (hexecute : (pluginRegistry hooks).execute .new calls = some final)
    (hoffers : ∀ call ∈ calls, ∀ holding ∈ call.offer, holding.target ≠ some target) :
    holdingsOf target final.holdings = [] := by
  refine TransitionSystem.execute_induction
    (fun _ state ↦ holdingsOf target state.holdings = []) hexecute rfl ?_
  intro _ call hcall state next hnone hstep
  rw [holdingsOf_eq_nil] at hnone ⊢
  cases holdingStep hstep with
  | quiet _ hquiet => exact hquiet.holdings_eq ▸ hnone
  | taken holding hoffer hholdings =>
    rw [hholdings]
    intro other hother
    rcases List.mem_append.mp hother with h | h
    · exact hnone other h
    · rw [List.mem_singleton.mp h]
      exact hoffers call hcall holding hoffer
  | refused _ _ hholdings => exact hholdings ▸ hnone
  | removed first second holding _ _ hsplit hholdings =>
    intro other hother
    refine hnone other ?_
    rw [hholdings] at hother
    rw [hsplit]
    exact List.mem_append.mpr ((List.mem_append.mp hother).imp_right (List.mem_cons_of_mem _))

/-- In every run of calls to a new registry, with any hooks and any libraries, and after the
destruction of the registry: every owned module that was handed over has been destroyed exactly
once, every opened library has been closed exactly once for each time it was opened, no other module
has been destroyed, and after the module of a plugin has been destroyed its library is closed and no
hook of it is called. -/
theorem ownership_accounted (hooks : Hooks) (calls : List ModuleCall) :
    ∃ final, (pluginRegistry hooks).execute .new calls = some final ∧
      OwnershipAccounted calls (final.destroy hooks).trace := by
  obtain ⟨final, hexecute⟩ := exists_execute hooks calls .new
  refine ⟨final, hexecute, ?_⟩
  have hledger := ledger_execute hexecute
  obtain ⟨events, htrace, honly⟩ := destroy_trace hooks final
  have hdestroyed : ((final.destroy hooks).trace.filterMap Event.destroyedModule).Perm
      ((calls.filterMap ModuleCall.offer).flatMap Holding.owed) := by
    rw [htrace, List.filterMap_append, List.filterMap_append, honly.destroyed_eq, List.append_nil,
      List.filterMap_flatMap]
    simp only [Holding.destroyed_ends]
    exact hledger.destroyed
  refine ⟨hdestroyed, ?_, fun target hspared viaPlugin hmem ↦ ?_, ?_⟩
  · rw [htrace, List.filterMap_append, List.filterMap_append, honly.closed_eq, List.append_nil,
      List.filterMap_flatMap]
    simp only [Holding.closed_ends]
    exact hledger.closed
  · have hgiven : (target, viaPlugin) ∈
        (final.destroy hooks).trace.filterMap Event.destroyedModule :=
      List.mem_filterMap.mpr ⟨_, hmem, rfl⟩
    obtain ⟨holding, hholding, howed⟩ := List.mem_flatMap.mp (hdestroyed.mem_iff.mp hgiven)
    obtain ⟨call, hcall, hoffer⟩ := List.mem_filterMap.mp hholding
    unfold Holding.owed at howed
    split_ifs at howed with howned
    · obtain ⟨held, hheld, heq⟩ := List.mem_map.mp howed
      have htarget : holding.target = some target := by
        rw [Option.mem_toList.mp hheld, (Prod.mk.inj heq).1]
      rw [hspared call hcall holding hoffer htarget] at howned
      contradiction
    · exact List.not_mem_nil howed
  · rintro before target handle destroyFn after rfl hothers
    rw [TransitionSystem.execute_append, Option.bind_eq_some_iff] at hexecute
    obtain ⟨middle, hbefore, hrest⟩ := hexecute
    rw [TransitionSystem.execute, Option.bind_eq_some_iff] at hrest
    obtain ⟨loaded, hload, hafter⟩ := hrest
    have hnone := holdingsOf_execute hbefore fun call hcall ↦
      hothers call (List.mem_append_left _ hcall)
    have hstep : middle.stepModule hooks
        (.loadShared ⟨some handle, some (some target), destroyFn⟩) = some loaded := hload
    have hloaded : Loaded target handle destroyFn loaded :=
      loaded_of_holdingStep hnone (holdingStep hstep)
    have hfinal : Loaded target handle destroyFn final := by
      refine TransitionSystem.execute_induction
        (fun _ state ↦ Loaded target handle destroyFn state) hafter hloaded ?_
      intro _ call hcall state next hstate hstep
      exact hstate.step (holdingStep hstep) (hothers call (List.mem_append_right _ hcall))
    exact hfinal.destroy hooks

end GameEngine.Core
