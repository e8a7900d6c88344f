import GameEngine.Library.TransitionSystem
import GameEngine.Core.ModuleOrder

/-!
# The loops of `compute_order`, step by step

`computeOrder` gives the result of the loops. Here the loops take one dependency or one entry of the
worklist at a time, so that the in-degree counters can be looked at after every single change.
`OrderState.Follows` says what holds on the way: the first loop is on its way to `linkAll`, and in
the second loop the counter of a module is the number of its dependencies on modules that have not
been ordered, with those of the present round that have not been visited yet. The loops end in the
worklist from which `computeOrder` takes its order (`reaches_drain`).
-/

set_option autoImplicit false
set_option relaxedAutoImplicit false

namespace GameEngine.Core

open GameEngine.Library
open Relation DependencyCount

/-! ### The loops -/

/-- Where the loops of `compute_order` are. -/
inductive OrderState
  /-- The first loop is at a record, some of whose dependencies are left. -/
  | linking (i : ℕ) (deps : List String) (links : Links)
  /-- The second loop is about to look at its cursor. -/
  | ordering (links : Links) (list : Worklist)
  /-- A record has been ordered, and some entries of its list are left. -/
  | visiting (links : Links) (entries : List ℕ) (list : Worklist)

namespace OrderState

/-- The loops start at the first record, with all counters zero. -/
def start (records : List Record) : OrderState :=
  .linking 0 (depsAt records 0) ⟨records, fun _ ↦ 0, fun _ ↦ []⟩

/-- One step of the loops. They end when the cursor has passed the last ready record. -/
def step : OrderState → Option OrderState
  | .linking i (depName :: rest) links => some (.linking i rest (linkDep i links depName))
  | .linking i [] links =>
    if i + 1 < links.records.length then
      some (.linking (i + 1) (depsAt links.records (i + 1)) links)
    else some (.ordering links (.initial links))
  | .ordering links list =>
    list.ready[list.cursor]?.map fun i ↦
      .visiting links (links.adj i)
        { list with cursor := list.cursor + 1, order := list.order ++ [i] }
  | .visiting links (nxt :: rest) list => some (.visiting links rest (list.visit links.records nxt))
  | .visiting links [] list => some (.ordering links list)

/-- The loops as a transition system with a single action. -/
def system : TransitionSystem OrderState Unit where
  step := fun s _ ↦ s.step

/-- The counter of a record. -/
def indeg : OrderState → ℕ → ℤ
  | .linking _ _ links => links.indeg
  | .ordering _ list => list.indeg
  | .visiting _ _ list => list.indeg

/-- The rounds of the second loop that have been started: each one moves the cursor. -/
def rounds : OrderState → ℕ
  | .linking _ _ _ => 0
  | .ordering _ list => list.cursor
  | .visiting _ _ list => list.cursor

end OrderState

/-! ### The first loop -/

variable {records : List Record} {links : Links}

/-- Linking a dependency takes nothing from a counter. -/
theorem indeg_le_linkDep (i : ℕ) (links : Links) (depName : String) (j : ℕ) :
    links.indeg j ≤ (linkDep i links depName).indeg j := by
  unfold linkDep
  cases findRecord links.records depName with
  | none => exact le_rfl
  | some dep =>
    dsimp only
    by_cases hj : j = i
    · subst hj
      rw [Function.update_self]
      omega
    · rw [Function.update_of_ne hj]

theorem indeg_le_foldl_linkDep (i : ℕ) (deps : List String) (links : Links) (j : ℕ) :
    links.indeg j ≤ (deps.foldl (linkDep i) links).indeg j := by
  induction deps generalizing links with
  | nil => exact le_rfl
  | cons depName rest ih => exact (indeg_le_linkDep i links depName j).trans (ih _)

/-- A record is linked by linking its dependencies. -/
theorem linkModule_eq (links : Links) (i : ℕ) :
    linkModule links i = (depsAt links.records i).foldl (linkDep i) links := by
  unfold linkModule depsAt
  cases links.records[i]? <;> rfl

theorem indeg_le_foldl_linkModule (rest : List ℕ) (links : Links) (j : ℕ) :
    links.indeg j ≤ (rest.foldl linkModule links).indeg j := by
  induction rest generalizing links with
  | nil => exact le_rfl
  | cons i rest ih =>
    refine le_trans ?_ (ih _)
    rw [linkModule_eq]
    exact indeg_le_foldl_linkDep i _ links j

/-- Linking a dependency keeps the number of records. -/
theorem length_linkDep (i : ℕ) (links : Links) (depName : String) :
    (linkDep i links depName).records.length = links.records.length := by
  unfold linkDep
  cases findRecord links.records depName with
  | none => exact List.length_modify ..
  | some dep => rfl

theorem length_linkModule (links : Links) (i : ℕ) :
    (linkModule links i).records.length = links.records.length := by
  rw [linkModule_eq]
  generalize depsAt links.records i = deps
  induction deps generalizing links with
  | nil => rfl
  | cons depName rest ih => exact (ih _).trans (length_linkDep i links depName)

/-- The first loop ends with a counter for each resolved dependency. -/
theorem indeg_linkAll (records : List Record) (i : ℕ) :
    (linkAll records).indeg i = ((allEdges records).countP fun edge ↦ edge.2 = i : ℕ) :=
  (linked_linkAll records).indeg_eq i

/-- Every edge of a record comes from one of its dependencies. -/
theorem length_edgesOf_le (records : List Record) (i : ℕ) (deps : List String) :
    (edgesOf records i deps).length ≤ deps.length := by
  induction deps with
  | nil => exact le_rfl
  | cons depName rest ih =>
    have hone : (findRecord records depName).toList.length ≤ 1 := by
      cases findRecord records depName <;> simp
    simp only [edgesOf, List.flatMap_cons, List.length_append, List.length_map,
      List.length_cons] at ih ⊢
    omega

/-- The edges of a record lead to it. -/
theorem countP_edgesOf (records : List Record) (i j : ℕ) (deps : List String) :
    ((edgesOf records j deps).countP fun edge ↦ edge.2 = i) =
      if j = i then (edgesOf records j deps).length else 0 := by
  have htarget : ∀ edge ∈ edgesOf records j deps, edge.2 = j := by
    intro edge hedge
    simp only [edgesOf, List.mem_flatMap, List.mem_map] at hedge
    obtain ⟨_, _, _, _, rfl⟩ := hedge
    rfl
  split_ifs with hij
  · exact List.countP_eq_length.mpr fun edge hedge ↦ by simp [htarget edge hedge, hij]
  · exact List.countP_eq_zero.mpr fun edge hedge ↦ by simp [htarget edge hedge, hij]

/-- A module has at most one resolved dependency for each of the names it lists. -/
theorem countP_allEdges_le (records : List Record) (i : ℕ) :
    ((allEdges records).countP fun edge ↦ edge.2 = i) ≤ (depsAt records i).length := by
  have hbelow : ∀ count, (((List.range count).flatMap fun j ↦
      edgesOf records j (depsAt records j)).countP fun edge ↦ edge.2 = i) ≤
        if i < count then (depsAt records i).length else 0 := by
    intro count
    induction count with
    | zero => simp
    | succ count ih =>
      rw [List.range_succ, List.flatMap_append, List.countP_append, List.flatMap_singleton,
        countP_edgesOf]
      by_cases hi : count = i
      · subst hi
        have hedges := length_edgesOf_le records count (depsAt records count)
        simp only [lt_self_iff_false, if_false, Nat.lt_succ_self, if_true] at ih ⊢
        omega
      · have hlt : i < count + 1 ↔ i < count := by omega
        simpa [hi, hlt] using ih
  refine (hbelow records.length).trans ?_
  split_ifs
  · exact le_rfl
  · exact Nat.zero_le _

theorem indeg_linkAll_le (records : List Record) (i : ℕ) :
    (linkAll records).indeg i ≤ (depsAt records i).length := by
  rw [indeg_linkAll]
  exact_mod_cast countP_allEdges_le records i

/-! ### The second loop -/

/-- The counter of every record is the number of its dependencies on records that have not been
ordered, and of the entries of the present round that have not been visited yet. It is at most the
number of names the record lists. -/
structure Worklist.Counts (records : List Record) (entries : List ℕ) (list : Worklist) : Prop where
  indeg_eq : ∀ i, list.indeg i = (waiting (allEdges records) list.order i + entries.count i : ℕ)
  indeg_le : ∀ i, list.indeg i ≤ (depsAt records i).length

namespace Worklist

variable {list : Worklist} {entries : List ℕ}

/-- Before the first round. -/
theorem counts_initial (records : List Record) :
    (initial (linkAll records)).Counts records [] where
  indeg_eq := fun i ↦ by
    rw [List.count_nil, Nat.add_zero]
    exact (indeg_linkAll records i).trans (by rw [initial, waiting_nil])
  indeg_le := fun i ↦ indeg_linkAll_le records i

/-- The start of a round. -/
theorem Counts.order (hcounts : list.Counts records []) {i : ℕ} (hnew : i ∉ list.order) :
    Counts records ((linkAll records).adj i)
      { list with cursor := list.cursor + 1, order := list.order ++ [i] } where
  indeg_eq := fun j ↦ by
    rw [(linked_linkAll records).adj_eq, waiting_append hnew]
    exact hcounts.indeg_eq j
  indeg_le := hcounts.indeg_le

/-- What visiting an entry does to the counters, and what it leaves as it is. -/
theorem visit_eq (list : Worklist) (records : List Record) (nxt : ℕ) :
    (list.visit records nxt).indeg = Function.update list.indeg nxt (list.indeg nxt - 1) ∧
      (list.visit records nxt).order = list.order ∧
      (list.visit records nxt).cursor = list.cursor := by
  unfold Worklist.visit
  dsimp only
  split_ifs <;> exact ⟨rfl, rfl, rfl⟩

/-- Visiting an entry. -/
theorem Counts.visit {nxt : ℕ} (hcounts : list.Counts records (nxt :: entries)) :
    (list.visit links.records nxt).Counts records entries := by
  obtain ⟨hindeg, horder, -⟩ := visit_eq list links.records nxt
  refine ⟨fun i ↦ ?_, fun i ↦ ?_⟩
  · have hi := hcounts.indeg_eq i
    rw [hindeg, horder]
    by_cases heq : i = nxt
    · subst heq
      rw [List.count_cons_self] at hi
      rw [Function.update_self]
      omega
    · rw [List.count_cons_of_ne (Ne.symm heq)] at hi
      rw [Function.update_of_ne heq, hi]
  · have hi := hcounts.indeg_le i
    rw [hindeg]
    by_cases heq : i = nxt
    · subst heq
      rw [Function.update_self]
      omega
    · rw [Function.update_of_ne heq]
      exact hi

theorem Counts.bounds (hcounts : list.Counts records entries) (i : ℕ) :
    0 ≤ list.indeg i ∧ list.indeg i ≤ (depsAt records i).length := by
  refine ⟨?_, hcounts.indeg_le i⟩
  rw [hcounts.indeg_eq]
  exact Int.natCast_nonneg _

/-- The visits of a round leave the cursor as it is. -/
theorem foldl_visit_cursor (records : List Record) (entries : List ℕ) (list : Worklist) :
    (entries.foldl (Worklist.visit records) list).cursor = list.cursor := by
  induction entries generalizing list with
  | nil => rfl
  | cons nxt rest ih => exact (ih _).trans (visit_eq list records nxt).2.2

/-- Between two rounds the cursor has passed no more records than there are. -/
theorem Between.cursor_le (hbetween : list.Between (linkAll records)) :
    list.cursor ≤ records.length := by
  obtain ⟨progress, hsound, -⟩ := hbetween
  exact hsound.cursor_le.trans (length_linkAll records ▸ hsound.length_le)

end Worklist

/-! ### Both loops -/

/-- What holds on the way: the first loop is on its way to `linkAll`, with no counter below zero,
and the second loop to the end of its round. -/
def OrderState.Follows (records : List Record) : OrderState → Prop
  | .linking i deps links =>
    ((List.range' (i + 1) (records.length - (i + 1))).foldl linkModule
      (deps.foldl (linkDep i) links)) = linkAll records ∧
      links.records.length = records.length ∧ ∀ j, 0 ≤ links.indeg j
  | .ordering links list =>
    links = linkAll records ∧ list.Between links ∧ list.Counts records []
  | .visiting links entries list =>
    links = linkAll records ∧ (entries.foldl (Worklist.visit links.records) list).Between links ∧
      list.Counts records entries

namespace OrderState

theorem follows_start (records : List Record) : (start records).Follows records := by
  refine ⟨?_, rfl, fun _ ↦ le_rfl⟩
  cases records with
  | nil => rfl
  | cons rec rest =>
    rw [linkAll, List.length_cons, List.range_eq_range', List.range'_succ, List.foldl_cons,
      linkModule_eq, Nat.zero_add, Nat.add_sub_cancel]

/-- Every step keeps to the way. -/
theorem Follows.step {s next : OrderState} (hfollows : s.Follows records)
    (hstep : s.step = some next) : next.Follows records := by
  cases s with
  | linking i deps links =>
    obtain ⟨hway, hlength, hcounts⟩ := hfollows
    cases deps with
    | cons depName rest =>
      obtain rfl := Option.some.inj hstep
      exact ⟨hway, (length_linkDep i links depName).trans hlength,
        fun j ↦ (hcounts j).trans (indeg_le_linkDep i links depName j)⟩
    | nil =>
      rw [OrderState.step, hlength] at hstep
      rw [List.foldl_nil] at hway
      split_ifs at hstep with hnext
      · obtain rfl := Option.some.inj hstep
        refine ⟨?_, hlength, hcounts⟩
        have hsplit : List.range' (i + 1) (records.length - (i + 1)) =
            (i + 1) :: List.range' (i + 1 + 1) (records.length - (i + 1 + 1)) := by
          rw [← List.range'_succ]
          congr 1
          omega
        rw [hsplit, List.foldl_cons, linkModule_eq] at hway
        exact hway
      · obtain rfl := Option.some.inj hstep
        have hnil : records.length - (i + 1) = 0 := by omega
        rw [hnil] at hway
        obtain rfl : links = linkAll records := hway
        exact ⟨rfl, Worklist.between_initial records, Worklist.counts_initial records⟩
  | ordering links list =>
    obtain ⟨rfl, hbetween, hcounts⟩ := hfollows
    rw [OrderState.step, Option.map_eq_some_iff] at hstep
    obtain ⟨i, hi, rfl⟩ := hstep
    obtain ⟨progress, hsound, -⟩ := id hbetween
    exact ⟨rfl, (hbetween.take hi).1, hcounts.order (hsound.cursor_notMem hi)⟩
  | visiting links entries list =>
    obtain ⟨rfl, hbetween, hcounts⟩ := hfollows
    cases entries with
    | cons nxt rest =>
      obtain rfl := Option.some.inj hstep
      exact ⟨rfl, hbetween, hcounts.visit⟩
    | nil =>
      obtain rfl := Option.some.inj hstep
      exact ⟨rfl, hbetween, hcounts⟩

theorem follows_of_reaches {s : OrderState}
    (hreach : system.Reaches TransitionSystem.unguarded (start records) s) : s.Follows records :=
  hreach.invariant (follows_start records) fun _ _ _ hfollows _ hstep ↦ hfollows.step hstep

/-- On the way no counter is below zero or above the number of names the module lists. -/
theorem Follows.indeg_bounds {s : OrderState} (hfollows : s.Follows records) (i : ℕ) :
    0 ≤ s.indeg i ∧ s.indeg i ≤ (depsAt records i).length := by
  cases s with
  | linking j deps links =>
    obtain ⟨hway, -, hcounts⟩ := hfollows
    have hgrows : links.indeg i ≤ (linkAll records).indeg i := by
      rw [← hway]
      exact (indeg_le_foldl_linkDep j deps links i).trans (indeg_le_foldl_linkModule _ _ i)
    exact ⟨hcounts i, hgrows.trans (indeg_linkAll_le records i)⟩
  | ordering links list =>
    obtain ⟨-, -, hcounts⟩ := hfollows
    exact hcounts.bounds i
  | visiting links entries list =>
    obtain ⟨-, -, hcounts⟩ := hfollows
    exact hcounts.bounds i

/-- On the way no more rounds are started than there are modules. -/
theorem Follows.rounds_le {s : OrderState} (hfollows : s.Follows records) :
    s.rounds ≤ records.length := by
  cases s with
  | linking j deps links => exact Nat.zero_le _
  | ordering links list =>
    obtain ⟨rfl, hbetween, -⟩ := hfollows
    exact hbetween.cursor_le
  | visiting links entries list =>
    obtain ⟨rfl, hbetween, -⟩ := hfollows
    have hcursor := hbetween.cursor_le
    rw [Worklist.foldl_visit_cursor] at hcursor
    exact hcursor

/-! ### The end of the loops -/

theorem reaches_step {s next : OrderState} (hstep : s.step = some next) :
    system.Reaches TransitionSystem.unguarded s next :=
  @TransitionSystem.Reaches.single _ _ system _ s () next trivial hstep

theorem reaches_link (i : ℕ) (deps : List String) (links : Links) :
    system.Reaches TransitionSystem.unguarded (.linking i deps links)
      (.linking i [] (deps.foldl (linkDep i) links)) := by
  induction deps generalizing links with
  | nil => exact .refl
  | cons depName rest ih =>
    have hstep := @reaches_step (.linking i (depName :: rest) links) _ rfl
    exact hstep.trans (ih _)

theorem reaches_linkRest (count : ℕ) {i : ℕ} {links : Links}
    (hcount : links.records.length - (i + 1) = count) :
    system.Reaches TransitionSystem.unguarded (.linking i [] links)
      (.ordering ((List.range' (i + 1) count).foldl linkModule links)
        (.initial ((List.range' (i + 1) count).foldl linkModule links))) := by
  induction count generalizing i links with
  | zero => exact reaches_step (if_neg (by omega))
  | succ count ih =>
    have hstep : system.Reaches TransitionSystem.unguarded (.linking i [] links)
        (.linking (i + 1) (depsAt links.records (i + 1)) links) := reaches_step (if_pos (by omega))
    have hlink := reaches_link (i + 1) (depsAt links.records (i + 1)) links
    rw [← linkModule_eq] at hlink
    rw [List.range'_succ, List.foldl_cons]
    refine (hstep.trans hlink).trans (ih ?_)
    rw [length_linkModule]
    omega

/-- The first loop ends with its graph and the first worklist. -/
theorem reaches_initial (records : List Record) :
    system.Reaches TransitionSystem.unguarded (start records)
      (.ordering (linkAll records) (.initial (linkAll records))) := by
  have hlink := reaches_link 0 (depsAt records 0) ⟨records, fun _ ↦ 0, fun _ ↦ []⟩
  obtain ⟨hway, hlength, -⟩ := follows_of_reaches hlink
  have hrest := hlink.trans (reaches_linkRest (records.length - (0 + 1)) (by rw [hlength]))
  rw [List.foldl_nil] at hway
  rwa [hway] at hrest

theorem reaches_visit (links : Links) (entries : List ℕ) (list : Worklist) :
    system.Reaches TransitionSystem.unguarded (.visiting links entries list)
      (.ordering links (entries.foldl (Worklist.visit links.records) list)) := by
  induction entries generalizing list with
  | nil => exact reaches_step rfl
  | cons nxt rest ih =>
    have hstep := @reaches_step (.visiting links (nxt :: rest) list) _ rfl
    exact hstep.trans (ih _)

/-- The second loop takes its rounds as `computeOrder` does. -/
theorem reaches_drain (links : Links) (rounds : ℕ) (list : Worklist) :
    system.Reaches TransitionSystem.unguarded (.ordering links list)
      (.ordering links (list.drain links rounds)) := by
  induction rounds generalizing list with
  | zero => exact .refl
  | succ rounds ih =>
    unfold Worklist.drain
    cases hi : list.ready[list.cursor]? with
    | none => exact .refl
    | some i =>
      have hstep : (OrderState.ordering links list).step = some (.visiting links (links.adj i)
          { list with cursor := list.cursor + 1, order := list.order ++ [i] }) := by
        rw [OrderState.step, hi, Option.map_some]
      exact ((reaches_step hstep).trans (reaches_visit links _ _)).trans (ih (list.take links i))

/-- The loops end, in the worklist from which `computeOrder` takes its order. -/
theorem reaches_computeOrder (records : List Record) :
    ∃ links list, system.Reaches TransitionSystem.unguarded (start records) (.ordering links list) ∧
      (OrderState.ordering links list).step = none ∧ list.order = (computeOrder records).2.1 := by
  refine ⟨linkAll records, (Worklist.initial (linkAll records)).drain (linkAll records)
    records.length, (reaches_initial records).trans (reaches_drain _ _ _), ?_, rfl⟩
  obtain ⟨⟨progress, hsound, -⟩, hall⟩ := (Worklist.between_initial records).drain records.length
    (by simp [length_linkAll])
  rw [OrderState.step, Option.map_eq_none_iff, List.getElem?_eq_none_iff]
  have htake := congrArg List.length (hsound.order_eq.symm.trans hall)
  rw [List.length_take] at htake
  omega

end OrderState

open OrderState

/-- The dependencies are finitely many. -/
theorem finite_dependsOn (records : List Record) :
    {j | ∃ i, DependsOn records i j}.Finite := by
  refine (Set.finite_lt_nat records.length).subset ?_
  rintro j ⟨i, _, _, _, _, hfind⟩
  exact findRecord_lt hfind

/-- For every vector of records, with any dependencies and phases, the order that `compute_order`
returns has no repetition, has every module after all modules its dependency names resolve to, and
holds exactly the modules from which dependencies, followed any number of times, lead only to
modules that are not failed, have no missing dependency and are on no cycle. On the way every
in-degree counter stays between zero and the number of names its module lists, and there are no more
rounds over the worklist than modules. The loops end, with this order. -/
theorem compute_order (records : List Record) :
    (computeOrder records).2.1.Nodup ∧
    IsTopological (fun j i ↦ DependsOn records i j) (computeOrder records).2.1 ∧
    (∀ i, i ∈ (computeOrder records).2.1 ↔
      ∀ j, ReflTransGen (fun j i ↦ DependsOn records i j) j i →
        MayStart records j ∧ ¬ TransGen (fun j i ↦ DependsOn records i j) j j) ∧
    (∀ s, OrderState.system.Reaches TransitionSystem.unguarded (.start records) s →
      (∀ i, 0 ≤ s.indeg i ∧ s.indeg i ≤ (depsAt records i).length) ∧
        s.rounds ≤ records.length) ∧
    ∃ links list,
      OrderState.system.Reaches TransitionSystem.unguarded (.start records)
        (.ordering links list) ∧
      (OrderState.ordering links list).step = none ∧ list.order = (computeOrder records).2.1 := by
  have hspec := computeOrder_spec records
  refine ⟨hspec.nodup, hspec.topological, fun i ↦ ?_, fun s hreach ↦ ?_,
    reaches_computeOrder records⟩
  · rw [hspec.mem_iff]
    exact Grounded.iff_forall_path (finite_dependsOn records)
  · have hfollows := follows_of_reaches hreach
    exact ⟨hfollows.indeg_bounds, hfollows.rounds_le⟩

end GameEngine.Core
