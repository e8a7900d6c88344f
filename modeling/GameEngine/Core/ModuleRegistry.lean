import GameEngine.Library.TransitionSystem
import Mathlib.Logic.Function.Basic
import Mathlib.Data.Int.Notation

/-!
# The module registry

The registry keeps a vector of records, one for each registered module, with the names of the
modules it depends on, its phase and its last error. The definitions here follow the registry's
member functions; an index into the vector of records stands for a pointer to a record.

What a hook returns is given by `Hooks`, which may look at everything that has happened so far. The
`trace` is the history of the calls that the registry makes to modules: hooks with their results,
destructions, and closings of shared libraries.
-/

set_option autoImplicit false
set_option relaxedAutoImplicit false

namespace GameEngine.Core

open GameEngine.Library

/-- The phases of a module. -/
inductive ModulePhase
  | unregistered
  | registered
  | preInit
  | init
  | postInit
  | ready
  | failed
  | shutdown
deriving DecidableEq

/-- A module, by its identity and by what `name` returns. -/
structure IModule where
  id : ℕ
  name : Option String
deriving DecidableEq

/-- The hooks of a module that the registry calls. -/
inductive Hook
  | preInit
  | startup
  | postInit
  | shutdown
deriving DecidableEq

/-- What the registry does to modules and libraries. `viaPlugin` says that the plugin's function
destroys the module, and not `delete`. `shutdown` returns nothing; its result is never read. -/
inductive Event
  | called (target : IModule) (hook : Hook) (succeeded : Bool)
  | destroyed (target : IModule) (viaPlugin : Bool)
  | closed (dylib : ℕ)
deriving DecidableEq

/-- What a hook of a module returns after a history. -/
abbrev Hooks := List Event → IModule → Hook → Bool

/-- A record of the registry. -/
structure Record where
  target : IModule
  deps : List String
  phase : ModulePhase
  error : String
  owned : Bool
  dylib : Option ℕ
  destroyFn : Bool

/-- Marks a record as failed. -/
def Record.fail (rec : Record) (error : String) : Record :=
  { rec with phase := .failed, error := error }

/-- The index of the record of a name. -/
def findRecord (records : List Record) (name : String) : Option ℕ :=
  records.findIdx? fun rec ↦ rec.target.name = some name

/-- The record at an index is not failed. -/
def notFailed (records : List Record) (i : ℕ) : Bool :=
  records[i]?.any fun rec ↦ rec.phase ≠ .failed

/-! ### The order of the startups -/

/-- The graph that the first loop of `compute_order` builds: the number of dependencies of each
record, and the records that depend on it. -/
structure Links where
  records : List Record
  indeg : ℕ → ℤ
  adj : ℕ → List ℕ

/-- One dependency of a record. -/
def linkDep (i : ℕ) (links : Links) (depName : String) : Links :=
  match findRecord links.records depName with
  | none => { links with records := links.records.modify i (·.fail "missing dependency") }
  | some dep =>
    { links with
      adj := Function.update links.adj dep (links.adj dep ++ [i])
      indeg := Function.update links.indeg i (links.indeg i + 1) }

/-- All dependencies of a record. -/
def linkModule (links : Links) (i : ℕ) : Links :=
  match links.records[i]? with
  | none => links
  | some rec => rec.deps.foldl (linkDep i) links

/-- The first loop of `compute_order`. -/
def linkAll (records : List Record) : Links :=
  (List.range records.length).foldl linkModule ⟨records, fun _ ↦ 0, fun _ ↦ []⟩

/-- The state of the second loop of `compute_order`. -/
structure Worklist where
  ready : List ℕ
  cursor : ℕ
  order : List ℕ
  indeg : ℕ → ℤ

/-- The records that start the worklist: those without dependencies that have not failed. -/
def Worklist.initial (links : Links) : Worklist where
  ready := (List.range links.records.length).filter fun i ↦
    links.indeg i = 0 ∧ notFailed links.records i
  cursor := 0
  order := []
  indeg := links.indeg

/-- A record learns that one of its dependencies has been ordered. -/
def Worklist.visit (records : List Record) (list : Worklist) (nxt : ℕ) : Worklist :=
  let indeg := Function.update list.indeg nxt (list.indeg nxt - 1)
  if indeg nxt = 0 ∧ notFailed records nxt then
    { list with indeg := indeg, ready := list.ready ++ [nxt] }
  else { list with indeg := indeg }

/-- One round of the loop: the record at the cursor is ordered. -/
def Worklist.take (links : Links) (list : Worklist) (i : ℕ) : Worklist :=
  (links.adj i).foldl (Worklist.visit links.records)
    { list with cursor := list.cursor + 1, order := list.order ++ [i] }

/-- The loop, with a bound on the number of rounds. -/
def Worklist.drain (links : Links) : ℕ → Worklist → Worklist
  | 0, list => list
  | rounds + 1, list =>
    match list.ready[list.cursor]? with
    | none => list
    | some i => drain links rounds (list.take links i)

/-- One record in the last loop of `compute_order`. -/
def markCycle (order : List ℕ) (state : List Record × Bool) (i : ℕ) : List Record × Bool :=
  if notFailed state.1 i ∧ i ∉ order then
    (state.1.modify i (·.fail "dependency cycle"), false)
  else state

/-- The order in which the modules start, with the records in which modules with missing or cyclic
dependencies are failed, and whether no cycle was found. The loop over the worklist ends within one
round for each record. -/
def computeOrder (records : List Record) : List Record × List ℕ × Bool :=
  let links := linkAll records
  let order := ((Worklist.initial links).drain links records.length).order
  let marked := (List.range records.length).foldl (markCycle order) (links.records, true)
  (marked.1, order, marked.2)

/-- All dependencies of a record are registered and ready. -/
def depsReady (records : List Record) (rec : Record) : Bool :=
  rec.deps.all fun depName ↦
    match findRecord records depName with
    | none => false
    | some dep => records[dep]?.any fun depRec ↦ depRec.phase = .ready

/-! ### The registry -/

/-- The registry and the history of what it did. -/
structure ModuleRegistry where
  records : List Record
  trace : List Event

namespace ModuleRegistry

/-- A new registry. -/
def new : ModuleRegistry := ⟨[], []⟩

/-- Events that happen. -/
def emit (registry : ModuleRegistry) (events : List Event) : ModuleRegistry :=
  { registry with trace := registry.trace ++ events }

/-- Calls a hook. -/
def call (hooks : Hooks) (registry : ModuleRegistry) (target : IModule) (hook : Hook) :
    ModuleRegistry × Bool :=
  let succeeded := hooks registry.trace target hook
  (registry.emit [.called target hook succeeded], succeeded)

/-- Replaces the record at an index. -/
def setRecord (registry : ModuleRegistry) (i : ℕ) (rec : Record) : ModuleRegistry :=
  { registry with records := registry.records.set i rec }

/-- The destruction of a module that the registry owns. -/
def destroyEvents (target : IModule) (owned destroyFn : Bool) : List Event :=
  if owned then [.destroyed target destroyFn] else []

/-- The closing of a library. -/
def closeEvents (dylib : Option ℕ) : List Event := dylib.toList.map .closed

/-- Adds a record. A null module, a module without a name and a second module of one name are
refused; a refused module that the registry would own is destroyed. Empty and null names of
dependencies are dropped. -/
def insertRecord (registry : ModuleRegistry) (target : Option IModule)
    (dependencies : List (Option String)) (owned : Bool) (dylib : Option ℕ) (destroyFn : Bool) :
    ModuleRegistry × Bool :=
  match target with
  | none => (registry.emit (closeEvents dylib), false)
  | some target =>
    let name := target.name.getD ""
    if name = "" ∨ (findRecord registry.records name).isSome then
      (registry.emit (destroyEvents target owned destroyFn ++ closeEvents dylib), false)
    else
      let rec' : Record :=
        { target := target
          deps := (dependencies.filterMap fun dep ↦ dep).filter fun dep ↦ dep ≠ ""
          phase := .registered
          error := ""
          owned := owned
          dylib := dylib
          destroyFn := destroyFn }
      ({ registry with records := registry.records ++ [rec'] }, true)

/-- Registers a module, owned or not. -/
def registerModule (registry : ModuleRegistry) (target : Option IModule)
    (dependencies : List (Option String)) (owned : Bool) : ModuleRegistry × Bool :=
  registry.insertRecord target dependencies owned none false

/-- One module in the loop of `startup_all`. The second result says that nothing went wrong. -/
def startupModule (hooks : Hooks) (registry : ModuleRegistry) (idx : ℕ) :
    ModuleRegistry × Bool :=
  match registry.records[idx]? with
  | none => (registry, false)
  | some rec =>
    if rec.phase = .failed then (registry, false)
    else if rec.phase = .ready then (registry, true)
    else if depsReady registry.records rec = false then
      (registry.setRecord idx (rec.fail "dependency not ready"), false)
    else
      let cleared := { rec with error := "", phase := .preInit }
      let pre := (registry.setRecord idx cleared).call hooks rec.target .preInit
      if pre.2 = false then (pre.1.setRecord idx (rec.fail "pre_init failed"), false)
      else
        let startup := (pre.1.setRecord idx { cleared with phase := .init }).call hooks
          rec.target .startup
        if startup.2 = false then
          ((startup.1.call hooks rec.target .shutdown).1.setRecord idx
            (rec.fail "startup failed"), false)
        else
          let post := (startup.1.setRecord idx { cleared with phase := .postInit }).call hooks
            rec.target .postInit
          if post.2 = false then
            ((post.1.call hooks rec.target .shutdown).1.setRecord idx
              (rec.fail "post_init failed"), false)
          else (post.1.setRecord idx { cleared with phase := .ready }, true)

/-- Starts the modules in an order. -/
def startupLoop (hooks : Hooks) (order : List ℕ) (state : ModuleRegistry × Bool) :
    ModuleRegistry × Bool :=
  order.foldl (fun state idx ↦
    let result := startupModule hooks state.1 idx
    (result.1, state.2 && result.2)) state

/-- Starts all modules that are not ready yet, and says whether all modules are ready. -/
def startupAll (hooks : Hooks) (registry : ModuleRegistry) : ModuleRegistry × Bool :=
  let computed := computeOrder registry.records
  let started := startupLoop hooks computed.2.1 ({ registry with records := computed.1 }, true)
  (started.1, started.2 && started.1.records.all fun rec ↦ rec.phase = .ready)

/-- One record in the loop of `shutdown_all`. -/
def shutdownRecord (hooks : Hooks) (registry : ModuleRegistry) (i : ℕ) : ModuleRegistry :=
  match registry.records[i]? with
  | none => registry
  | some rec =>
    if rec.phase = .ready ∨ rec.phase = .postInit ∨ rec.phase = .init then
      (registry.call hooks rec.target .shutdown).1.setRecord i { rec with phase := .shutdown }
    else if rec.phase = .preInit then registry.setRecord i { rec with phase := .shutdown }
    else registry

/-- Shuts all started modules down, the last record first. -/
def shutdownAll (hooks : Hooks) (registry : ModuleRegistry) : ModuleRegistry :=
  (List.range registry.records.length).reverse.foldl (shutdownRecord hooks) registry

/-- Removes the module of a name, after its shutdown if it has started. -/
def unregister (hooks : Hooks) (registry : ModuleRegistry) (name : String) :
    ModuleRegistry × Bool :=
  match findRecord registry.records name with
  | none => (registry, false)
  | some i =>
    match registry.records[i]? with
    | none => (registry, false)
    | some rec =>
      let stopped :=
        if rec.phase = .ready ∨ rec.phase = .init ∨ rec.phase = .postInit ∨
            rec.phase = .preInit then
          (registry.call hooks rec.target .shutdown).1.setRecord i { rec with phase := .shutdown }
        else registry
      ({ stopped with records := stopped.records.eraseIdx i }.emit
        (destroyEvents rec.target rec.owned rec.destroyFn ++ closeEvents rec.dylib), true)

/-- The destructor. -/
def destroy (hooks : Hooks) (registry : ModuleRegistry) : ModuleRegistry :=
  let stopped := registry.shutdownAll hooks
  let ends := stopped.records.flatMap fun rec : Record ↦
    destroyEvents rec.target rec.owned rec.destroyFn ++ closeEvents rec.dylib
  { stopped with records := [] }.emit ends

end ModuleRegistry

/-! ### Runs of the registry -/

/-- A call to the registry. -/
inductive RegistryCall
  | registerModule (target : Option IModule) (dependencies : List (Option String)) (owned : Bool)
  | startupAll
  | shutdownAll
  | unregister (name : String)

/-- One call. -/
def ModuleRegistry.step (hooks : Hooks) (registry : ModuleRegistry) :
    RegistryCall → Option ModuleRegistry
  | .registerModule target dependencies owned =>
    some (registry.registerModule target dependencies owned).1
  | .startupAll => some (registry.startupAll hooks).1
  | .shutdownAll => some (registry.shutdownAll hooks)
  | .unregister name => some (registry.unregister hooks name).1

/-- The registry as a transition system. -/
def moduleRegistry (hooks : Hooks) : TransitionSystem ModuleRegistry RegistryCall where
  step := ModuleRegistry.step hooks

end GameEngine.Core
