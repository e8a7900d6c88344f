import GameEngine.Core.ModuleIdempotence

/-!
# The errors of modules that cannot be ordered

`compute_order` reports a missing dependency where one is declared, and a dependency cycle wherever
else a module is left out of the order. A module that depends on a module with a missing dependency
is left out as well. `errors_attributed_iff` says when the reports are right: every such module has
a missing dependency of its own or depends on a cycle. `cycle_reported_without_cycle` is a registry
in which a cycle is reported and there is none.
-/

set_option autoImplicit false
set_option relaxedAutoImplicit false

namespace GameEngine.Core

open GameEngine.Library
open Relation (ReflTransGen TransGen)

/-- The last error of the module of a name. -/
def ModuleRegistry.lastError (registry : ModuleRegistry) (name : String) : String :=
  match findRecord registry.records name with
  | none => ""
  | some i => (registry.records[i]?.map Record.error).getD ""

/-! ### The graph of the names -/

/-- The module of a name declares a dependency that is not registered. -/
def Misses (records : List Record) (name : String) : Prop :=
  ∃ dep, Declares records dep name ∧ findRecord records dep = none

/-- The module of a name lies on a cycle of the dependency graph. -/
def OnCycle (records : List Record) (name : String) : Prop :=
  TransGen (Declares records) name name

/-- The module of a name lies on a cycle, or depends on a module that does, directly or not. -/
def ReachesCycle (records : List Record) (name : String) : Prop :=
  ∃ other, ReflTransGen (Declares records) other name ∧ OnCycle records other

/-- The errors after a `startup_all` say what is wrong with the dependencies. -/
structure ErrorsAttributed (records : List Record) (after : ModuleRegistry) : Prop where
  missing_iff : ∀ name, after.lastError name = "missing dependency" ↔ Misses records name
  cycle : ∀ name, after.lastError name = "dependency cycle" → ReachesCycle records name
  acyclic : (∀ name, ¬ OnCycle records name) →
    ∀ name, after.lastError name ≠ "dependency cycle"

variable {records : List Record}

theorem finite_declared (records : List Record) :
    {dep | ∃ name, Declares records dep name}.Finite := by
  refine (List.finite_toSet (records.flatMap Record.deps)).subset ?_
  rintro dep ⟨name, rec, hrec, -, hdep⟩
  exact List.mem_flatMap.mpr ⟨rec, hrec, hdep⟩

/-- The module of a name declares what its record declares. -/
theorem WellNamed.declares_iff (hnamed : WellNamed records) {rec : Record} {name : String}
    (hrec : rec ∈ records) (hname : rec.target.name = some name) (dep : String) :
    Declares records dep name ↔ dep ∈ rec.deps := by
  constructor
  · rintro ⟨other, hother, hname', hdep⟩
    exact hnamed.rec_eq hother hrec (hname'.trans hname.symm) ▸ hdep
  · exact fun hdep ↦ ⟨rec, hrec, hname, hdep⟩

theorem WellNamed.misses_iff (hnamed : WellNamed records) {rec : Record} {name : String}
    (hrec : rec ∈ records) (hname : rec.target.name = some name) :
    Misses records name ↔ hasMissing records rec = true := by
  simp only [Misses, hnamed.declares_iff hrec hname, hasMissing, List.any_eq_true,
    Option.isNone_iff_eq_none]

/-- A record of fresh records is ordered when its name is grounded in the graph of the names, where
the modules with a missing dependency are not allowed. -/
theorem Fresh.orderable_iff (hfresh : Fresh records) {i : ℕ} {rec : Record} {name : String}
    (hrec : records[i]? = some rec) (hname : rec.target.name = some name) :
    Orderable records i ↔
      Grounded (fun name ↦ ¬ Misses records name) (Declares records) name := by
  have hnamed := hfresh.wellNamed
  constructor
  · intro horderable
    induction horderable generalizing rec name with
    | @intro i hallowed hedges ih =>
      obtain ⟨same, hsame, -, hmissing⟩ := hallowed
      obtain rfl := Option.some.inj (hrec.symm.trans hsame)
      have hmem := List.mem_of_getElem? hrec
      refine .intro ?_ fun dep hdep ↦ ?_
      · rw [hnamed.misses_iff hmem hname, hmissing]
        exact Bool.false_ne_true
      · have hdeclared := (hnamed.declares_iff hmem hname dep).mp hdep
        cases hfind : findRecord records dep with
        | none =>
          have hfound := List.any_eq_false.mp hmissing dep hdeclared
          simp [hfind] at hfound
        | some j =>
          obtain ⟨depRec, hdepRec, hdepName⟩ := findRecord_name hfind
          exact ih j ⟨rec, hrec, dep, hdeclared, hfind⟩ hdepRec hdepName
  · intro hgrounded
    induction hgrounded generalizing i rec with
    | @intro name hallowed hedges ih =>
      have hmem := List.mem_of_getElem? hrec
      rw [hnamed.misses_iff hmem hname, Bool.not_eq_true] at hallowed
      refine .intro ⟨rec, hrec, ?_, hallowed⟩ ?_
      · rw [hfresh.registered rec hmem]
        exact ModulePhase.noConfusion
      · rintro j ⟨other, hother, dep, hdep, hfind⟩
        obtain rfl := Option.some.inj (hrec.symm.trans hother)
        obtain ⟨depRec, hdepRec, hdepName⟩ := findRecord_name hfind
        exact ih dep ((hnamed.declares_iff hmem hname dep).mpr hdep) hdepRec hdepName

/-! ### The errors after `startup_all` -/

/-- The record of a module after `startup_all`. -/
theorem lastError_eq {registry after : ModuleRegistry}
    (htargets : after.records.map Record.target = registry.records.map Record.target) {i : ℕ}
    {rec : Record} {name : String} (hfind : findRecord registry.records name = some i)
    (hrec : after.records[i]? = some rec) : after.lastError name = rec.error := by
  rw [ModuleRegistry.lastError, findRecord_congr htargets, hfind]
  simp [hrec]

/-- The error of a fresh module after `startup_all`: it has a missing dependency, or it is left out
of the order, or it has an error of the loop. -/
theorem Fresh.lastError_cases {registry : ModuleRegistry} (hfresh : Fresh registry.records)
    (hooks : Hooks) {i : ℕ} {rec : Record} {name : String}
    (hrec : registry.records[i]? = some rec) (hname : rec.target.name = some name) :
    (Misses registry.records name ∧
      (registry.startupAll hooks).1.lastError name = "missing dependency") ∨
    (¬ Misses registry.records name ∧ ¬ Orderable registry.records i ∧
      (registry.startupAll hooks).1.lastError name = "dependency cycle") ∨
    (¬ Misses registry.records name ∧ Orderable registry.records i ∧
      (registry.startupAll hooks).1.lastError name ∈ startErrors) := by
  have hmem := List.mem_of_getElem? hrec
  have hspec := computeOrder_spec registry.records
  have hloop := ResolvesAll.startupLoop hooks (computeOrder registry.records).2.1
    ({ registry with records := (computeOrder registry.records).1 }, true)
  have hdeclared := hloop.declared_eq.trans (map_declared_computeOrder registry.records)
  have hfind := hfresh.wellNamed.findRecord_eq_some_iff.mpr ⟨rec, hrec, hname⟩
  have hcomputed : (computeOrder registry.records).1[i]? =
      some (orderedRecord registry.records (computeOrder registry.records).2.1 i rec) := by
    rw [hspec.records_eq, hrec, Option.map_some]
  have herror : ∀ stopped : Record, (registry.startupAll hooks).1.records[i]? = some stopped →
      (registry.startupAll hooks).1.lastError name = stopped.error :=
    fun _ ↦ lastError_eq (map_target_of_declared hdeclared) hfind
  have hphase : ¬ rec.IsResolved := by
    rw [Record.IsResolved, hfresh.registered rec hmem]
    simp
  rw [hfresh.wellNamed.misses_iff hmem hname]
  by_cases hmissing : hasMissing registry.records rec = true
  · rw [orderedRecord, if_pos hmissing] at hcomputed
    exact .inl ⟨hmissing, herror _ (hloop.kept i _ hcomputed (.inr rfl))⟩
  · rw [orderedRecord, if_neg hmissing, cycleFailed] at hcomputed
    refine .inr ?_
    by_cases horder : i ∈ (computeOrder registry.records).2.1
    · rw [if_neg fun hcycle ↦ hcycle.2 horder] at hcomputed
      obtain ⟨stopped, hstopped, -⟩ := exists_of_declared hdeclared.symm hrec
      refine .inr ⟨hmissing, (hspec.mem_iff i).mp horder, ?_⟩
      rw [herror stopped hstopped]
      exact hloop.errors i horder rec stopped hcomputed hphase hstopped
    · rw [if_pos ⟨fun hfailed ↦ hphase (.inr hfailed), horder⟩] at hcomputed
      exact .inl ⟨hmissing, fun horderable ↦ horder ((hspec.mem_iff i).mpr horderable),
        herror _ (hloop.kept i _ hcomputed (.inr rfl))⟩

/-- A name without a record has no error and declares nothing. -/
theorem lastError_unregistered {registry : ModuleRegistry} (hooks : Hooks) {name : String}
    (hfind : findRecord registry.records name = none) :
    (registry.startupAll hooks).1.lastError name = "" ∧
      ∀ dep, ¬ Declares registry.records dep name := by
  have hloop := ResolvesAll.startupLoop hooks (computeOrder registry.records).2.1
    ({ registry with records := (computeOrder registry.records).1 }, true)
  have htargets := map_target_of_declared
    (hloop.declared_eq.trans (map_declared_computeOrder registry.records))
  constructor
  · unfold ModuleRegistry.lastError
    rw [show findRecord (registry.startupAll hooks).1.records name = none from
      (findRecord_congr htargets name).trans hfind]
  · rintro dep ⟨rec, hrec, hname, -⟩
    exact findRecord_eq_none_iff.mp hfind rec hrec hname

/-- A missing dependency is reported exactly for the modules that declare one. -/
theorem Fresh.missing_iff {registry : ModuleRegistry} (hfresh : Fresh registry.records)
    (hooks : Hooks) (name : String) :
    (registry.startupAll hooks).1.lastError name = "missing dependency" ↔
      Misses registry.records name := by
  cases hfind : findRecord registry.records name with
  | none =>
    obtain ⟨hempty, hnone⟩ := lastError_unregistered hooks hfind
    rw [hempty]
    refine iff_of_false (by simp) ?_
    rintro ⟨dep, hdep, -⟩
    exact hnone dep hdep
  | some i =>
    obtain ⟨rec, hrec, hname⟩ := findRecord_name hfind
    rcases hfresh.lastError_cases hooks hrec hname with ⟨hmisses, herror⟩ | ⟨hnot, -, herror⟩ |
      ⟨hnot, -, herror⟩
    · exact iff_of_true herror hmisses
    · refine iff_of_false ?_ hnot
      rw [herror]
      simp
    · refine iff_of_false (fun heq ↦ ?_) hnot
      rw [heq] at herror
      simp [startErrors] at herror

/-- A dependency cycle is reported exactly for the modules without a missing dependency that depend,
directly or not, on a module that has one or lies on a cycle. -/
theorem Fresh.cycle_iff {registry : ModuleRegistry} (hfresh : Fresh registry.records)
    (hooks : Hooks) (name : String) :
    (registry.startupAll hooks).1.lastError name = "dependency cycle" ↔
      ¬ Misses registry.records name ∧
        ∃ other, ReflTransGen (Declares registry.records) other name ∧
          (Misses registry.records other ∨ OnCycle registry.records other) := by
  have hgrounded : ¬ Grounded (fun name ↦ ¬ Misses registry.records name)
      (Declares registry.records) name ↔
      ∃ other, ReflTransGen (Declares registry.records) other name ∧
        (Misses registry.records other ∨ OnCycle registry.records other) := by
    rw [Grounded.iff_forall_path (finite_declared registry.records)]
    simp only [not_forall, not_and_or, not_not, exists_prop, OnCycle]
  cases hfind : findRecord registry.records name with
  | none =>
    obtain ⟨hempty, hnone⟩ := lastError_unregistered hooks hfind
    rw [hempty]
    refine iff_of_false (by simp) ?_
    rintro ⟨-, hpath⟩
    exact hgrounded.mpr hpath (.intro (fun ⟨dep, hdep, _⟩ ↦ hnone dep hdep)
      fun dep hdep ↦ absurd hdep (hnone dep))
  | some i =>
    obtain ⟨rec, hrec, hname⟩ := findRecord_name hfind
    rw [← hgrounded, ← hfresh.orderable_iff hrec hname]
    rcases hfresh.lastError_cases hooks hrec hname with ⟨hmisses, herror⟩ |
      ⟨hnot, hleft, herror⟩ | ⟨hnot, horderable, herror⟩
    · refine iff_of_false ?_ fun hboth ↦ hboth.1 hmisses
      rw [herror]
      simp
    · exact iff_of_true herror ⟨hnot, hleft⟩
    · refine iff_of_false (fun heq ↦ ?_) fun hboth ↦ hboth.2 horderable
      rw [heq] at herror
      simp [startErrors] at herror

/-- For freshly registered modules and hooks that return anything, the errors after `startup_all`
say what is wrong with the dependencies if and only if every module that depends, directly or not,
on a module with a missing dependency has a missing dependency itself or depends on a cycle. -/
theorem errors_attributed_iff {hooks : Hooks} {registry : ModuleRegistry}
    (hreach : (moduleRegistry hooks).Reaches (fun _ call ↦ call.IsRegistration) .new registry) :
    ErrorsAttributed registry.records (registry.startupAll hooks).1 ↔
      ∀ name other, TransGen (Declares registry.records) other name →
        Misses registry.records other →
        Misses registry.records name ∨ ReachesCycle registry.records name := by
  have hfresh := reachable_fresh hreach
  constructor
  · intro hattributed name other hpath hmisses
    by_cases hself : Misses registry.records name
    · exact .inl hself
    · exact .inr (hattributed.cycle name
        ((hfresh.cycle_iff hooks name).mpr ⟨hself, other, hpath.to_reflTransGen, .inl hmisses⟩))
  · intro hgraph
    have hcycle : ∀ name, (registry.startupAll hooks).1.lastError name = "dependency cycle" →
        ReachesCycle registry.records name := by
      intro name herror
      obtain ⟨hself, other, hpath, hmisses | hcycle⟩ := (hfresh.cycle_iff hooks name).mp herror
      · rcases Relation.reflTransGen_iff_eq_or_transGen.mp hpath with rfl | hproper
        · exact absurd hmisses hself
        · exact (hgraph name other hproper hmisses).resolve_left hself
      · exact ⟨other, hpath, hcycle⟩
    refine ⟨hfresh.missing_iff hooks, hcycle, fun hacyclic name herror ↦ ?_⟩
    obtain ⟨other, -, honCycle⟩ := hcycle name herror
    exact hacyclic other honCycle

/-- The theorem at a registry with two modules that depend on each other and one that depends on
both. -/
theorem errors_attributed_cycle : ∃ registry : ModuleRegistry,
    ["core", "left", "right", "user"].map
        (registry.startupAll fun _ _ _ ↦ true).1.lastError =
      ["", "dependency cycle", "dependency cycle", "dependency cycle"] ∧
    ErrorsAttributed registry.records (registry.startupAll fun _ _ _ ↦ true).1 := by
  obtain ⟨registry, hreach, htest⟩ := TransitionSystem.Reaches.exists_of_any
    (moduleRegistry fun _ _ _ ↦ true) .new
    [.registerModule (some ⟨0, some "user"⟩) [some "left", some "right", some "core"] false,
      .registerModule (some ⟨1, some "left"⟩) [some "right"] true,
      .registerModule (some ⟨2, some "right"⟩) [some "left"] false,
      .registerModule (some ⟨3, some "core"⟩) [] true]
    (fun _ call ↦ decide call.IsRegistration)
    (fun registry ↦ ["core", "left", "right", "user"].map
          (registry.startupAll fun _ _ _ ↦ true).1.lastError =
        ["", "dependency cycle", "dependency cycle", "dependency cycle"] ∧
      registry.records.all fun rec ↦ !hasMissing registry.records rec)
    (fun _ _ h ↦ of_decide_eq_true h) (by decide) (by decide)
  obtain ⟨herrors, hall⟩ := of_decide_eq_true htest
  refine ⟨registry, herrors, (errors_attributed_iff hreach).mpr ?_⟩
  rintro name other - ⟨dep, ⟨rec, hrec, -, hdep⟩, hnone⟩
  have hfound := List.all_eq_true.mp hall rec hrec
  rw [Bool.not_eq_true', hasMissing, List.any_eq_false] at hfound
  exact absurd (Option.isNone_iff_eq_none.mpr hnone) (hfound dep hdep)

/-- `b` depends on `a`, and `a` on a module that is not registered: there is no cycle, and a cycle
is reported for `b`. -/
theorem cycle_reported_without_cycle : ∃ registry : ModuleRegistry,
    (moduleRegistry fun _ _ _ ↦ true).Reaches (fun _ call ↦ call.IsRegistration) .new registry ∧
    (∀ name, ¬ OnCycle registry.records name) ∧
    (registry.startupAll fun _ _ _ ↦ true).1.lastError "a" = "missing dependency" ∧
    (registry.startupAll fun _ _ _ ↦ true).1.lastError "b" = "dependency cycle" := by
  obtain ⟨registry, hreach, htest⟩ := TransitionSystem.Reaches.exists_of_any
    (moduleRegistry fun _ _ _ ↦ true) .new
    [.registerModule (some ⟨0, some "a"⟩) [some "ghost"] false,
      .registerModule (some ⟨1, some "b"⟩) [some "a"] false]
    (fun _ call ↦ decide call.IsRegistration)
    (fun registry ↦ registry.records.map (fun rec ↦ (rec.target, rec.deps)) =
        [(⟨0, some "a"⟩, ["ghost"]), (⟨1, some "b"⟩, ["a"])] ∧
      (registry.startupAll fun _ _ _ ↦ true).1.lastError "a" = "missing dependency" ∧
      (registry.startupAll fun _ _ _ ↦ true).1.lastError "b" = "dependency cycle")
    (fun _ _ h ↦ of_decide_eq_true h) (by decide) (by decide)
  obtain ⟨hdeclared, herrors⟩ := of_decide_eq_true htest
  let rank : String → ℕ := fun name ↦ if name = "b" then 2 else if name = "a" then 1 else 0
  have hrank : ∀ dep name, Declares registry.records dep name → rank dep < rank name := by
    rintro dep name ⟨rec, hrec, hname, hdep⟩
    have hmem : (rec.target, rec.deps) ∈ registry.records.map fun rec ↦ (rec.target, rec.deps) :=
      List.mem_map.mpr ⟨rec, hrec, rfl⟩
    rw [hdeclared] at hmem
    simp only [List.mem_cons, Prod.mk.injEq, List.not_mem_nil, or_false] at hmem
    rcases hmem with ⟨htarget, hdeps⟩ | ⟨htarget, hdeps⟩
    · rw [htarget, Option.some.injEq] at hname
      rw [hdeps, List.mem_singleton] at hdep
      simp [rank, ← hname, hdep]
    · rw [htarget, Option.some.injEq] at hname
      rw [hdeps, List.mem_singleton] at hdep
      simp [rank, ← hname, hdep]
  have hlt : ∀ other name, TransGen (Declares registry.records) other name →
      rank other < rank name := by
    intro other name hpath
    induction hpath with
    | single hedge => exact hrank _ _ hedge
    | tail _ hedge ih => exact ih.trans (hrank _ _ hedge)
  exact ⟨registry, hreach, fun name hcycle ↦ (hlt name name hcycle).false, herrors⟩

end GameEngine.Core
