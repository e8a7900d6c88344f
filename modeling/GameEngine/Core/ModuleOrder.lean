import GameEngine.Core.ModuleRegistry
import GameEngine.Library.DependencyCount
import GameEngine.Library.TopologicalOrder
import Mathlib.Data.Int.Basic

/-!
# The order of the startups

`compute_order` is Kahn's algorithm on the graph of the dependencies, with names that do not resolve
failed first. `computeOrder_spec` says what it computes for every vector of records: an order
without repetition in which every module comes after its dependencies, and which holds exactly the
modules that are not failed, have no missing dependency, and depend only on such modules without
running into a cycle. All other modules are failed in the records it returns, with the reason.
-/

set_option autoImplicit false
set_option relaxedAutoImplicit false

namespace GameEngine.Core

open GameEngine.Library
open DependencyCount

/-! ### The graph of the dependencies -/

/-- The record at an index depends on the record at another one. -/
def DependsOn (records : List Record) (i j : ℕ) : Prop :=
  ∃ rec, records[i]? = some rec ∧ ∃ depName ∈ rec.deps, findRecord records depName = some j

/-- A record has a dependency that is not registered. -/
def hasMissing (records : List Record) (rec : Record) : Bool :=
  rec.deps.any fun depName ↦ (findRecord records depName).isNone

/-- A record that is not failed and has no missing dependency. -/
def MayStart (records : List Record) (i : ℕ) : Prop :=
  ∃ rec, records[i]? = some rec ∧ rec.phase ≠ .failed ∧ hasMissing records rec = false

/-- The records that can be ordered: the least set that contains a record that may start as soon as
it contains all the records it depends on. -/
def Orderable (records : List Record) : ℕ → Prop :=
  Grounded (MayStart records) fun j i ↦ DependsOn records i j

/-- Finding a record looks at the modules only. -/
theorem findRecord_congr {records records' : List Record}
    (htargets : records'.map Record.target = records.map Record.target) (name : String) :
    findRecord records' name = findRecord records name := by
  have hmap : ∀ list : List Record, findRecord list name =
      (list.map Record.target).findIdx? fun target ↦ target.name = some name := by
    intro list
    rw [List.findIdx?_map]
    rfl
  rw [hmap, hmap, htargets]

theorem findRecord_lt {records : List Record} {name : String} {i : ℕ}
    (hfind : findRecord records name = some i) : i < records.length := by
  obtain ⟨hlt, -⟩ := List.findIdx?_eq_some_iff_getElem.mp hfind
  exact hlt

/-- The modules of two vectors of records with the same modules at every index. -/
theorem map_target_eq {records records' : List Record} {change : ℕ → Record → Record}
    (hrecords : ∀ i, records'[i]? = records[i]?.map (change i))
    (htarget : ∀ i rec, (change i rec).target = rec.target) :
    records'.map Record.target = records.map Record.target := by
  refine List.ext_getElem? fun i ↦ ?_
  rw [List.getElem?_map, List.getElem?_map, hrecords, Option.map_map]
  exact congrArg (fun f ↦ Option.map f records[i]?) (funext fun rec ↦ htarget i rec)

/-! ### The first loop -/

/-- The edges from the dependencies of a record to it, with repetition. -/
def edgesOf (records : List Record) (i : ℕ) (deps : List String) : List (ℕ × ℕ) :=
  deps.flatMap fun depName ↦ (findRecord records depName).toList.map fun dep ↦ (dep, i)

/-- The graph after some dependencies of some records: `marked` are the records that have been
failed, `edges` the dependencies that have been found. -/
structure Linked (records : List Record) (marked : ℕ → Bool) (edges : List (ℕ × ℕ))
    (links : Links) : Prop where
  records_eq : ∀ i, links.records[i]? = records[i]?.map fun rec ↦
    if marked i then rec.fail "missing dependency" else rec
  adj_eq : ∀ i, links.adj i = successorsOf edges i
  indeg_eq : ∀ i, links.indeg i = ((edges.countP fun edge ↦ edge.2 = i : ℕ) : ℤ)

variable {records : List Record} {marked : ℕ → Bool} {edges : List (ℕ × ℕ)} {links : Links}

/-- The modules are as before. -/
theorem Linked.findRecord_eq (hlinked : Linked records marked edges links) (name : String) :
    findRecord links.records name = findRecord records name := by
  refine findRecord_congr (map_target_eq hlinked.records_eq fun i rec ↦ ?_) name
  split_ifs <;> rfl

/-- One dependency. -/
theorem Linked.linkDep (hlinked : Linked records marked edges links) (i : ℕ) (depName : String) :
    Linked records (fun j ↦ marked j || (j == i && (findRecord records depName).isNone))
      (edges ++ edgesOf records i [depName]) (linkDep i links depName) := by
  unfold Core.linkDep
  rw [hlinked.findRecord_eq]
  cases hfind : findRecord records depName with
  | none =>
    refine ⟨fun j ↦ ?_, fun j ↦ ?_, fun j ↦ ?_⟩
    · rw [List.getElem?_modify, hlinked.records_eq]
      by_cases hj : i = j
      · subst hj
        cases records[i]? <;> cases marked i <;> simp [Record.fail]
      · simp [hj, Ne.symm hj]
    · simpa [edgesOf, hfind] using hlinked.adj_eq j
    · simpa [edgesOf, hfind] using hlinked.indeg_eq j
  | some dep =>
    have hedges : edges ++ edgesOf records i [depName] = edges ++ [(dep, i)] := by
      simp [edgesOf, hfind]
    rw [hedges]
    refine ⟨fun j ↦ ?_, fun j ↦ ?_, fun j ↦ ?_⟩ <;> dsimp only
    · simpa using hlinked.records_eq j
    · rw [successorsOf_append]
      by_cases hj : j = dep
      · subst hj
        rw [Function.update_self, if_pos rfl, hlinked.adj_eq]
      · rw [Function.update_of_ne hj, if_neg hj, hlinked.adj_eq]
    · rw [List.countP_append]
      by_cases hj : j = i
      · subst hj
        rw [Function.update_self, hlinked.indeg_eq]
        simp
      · rw [Function.update_of_ne hj, hlinked.indeg_eq]
        simp [Ne.symm hj]

/-- All dependencies of a record. -/
theorem Linked.foldl_linkDep (i : ℕ) (deps : List String)
    (hlinked : Linked records marked edges links) :
    Linked records
      (fun j ↦ marked j || (j == i && deps.any fun depName ↦ (findRecord records depName).isNone))
      (edges ++ edgesOf records i deps) (deps.foldl (Core.linkDep i) links) := by
  induction deps generalizing marked edges links with
  | nil => simpa [edgesOf] using hlinked
  | cons depName rest ih =>
    have hrest := ih (hlinked.linkDep i depName)
    have hmarked : (fun j ↦ (marked j || (j == i && (findRecord records depName).isNone)) ||
        (j == i && rest.any fun depName ↦ (findRecord records depName).isNone)) =
        fun j ↦ marked j || (j == i &&
          (depName :: rest).any fun depName ↦ (findRecord records depName).isNone) := by
      funext j
      rw [List.any_cons, Bool.and_or_distrib_left, Bool.or_assoc]
    have hedges : edges ++ edgesOf records i [depName] ++ edgesOf records i rest =
        edges ++ edgesOf records i (depName :: rest) := by
      simp [edgesOf]
    rw [hmarked, hedges] at hrest
    exact hrest

/-- The names of the dependencies of the record at an index. -/
def depsAt (records : List Record) (i : ℕ) : List String :=
  (records[i]?.map Record.deps).getD []

/-- The record at an index has a dependency that is not registered. -/
def missingAt (records : List Record) (i : ℕ) : Bool :=
  (depsAt records i).any fun depName ↦ (findRecord records depName).isNone

/-- One record. -/
theorem Linked.linkModule (hlinked : Linked records marked edges links) (i : ℕ) :
    Linked records (fun j ↦ marked j || (j == i && missingAt records i))
      (edges ++ edgesOf records i (depsAt records i)) (linkModule links i) := by
  have hfold := hlinked.foldl_linkDep i (depsAt records i)
  unfold Core.linkModule
  rw [hlinked.records_eq i]
  cases hrec : records[i]? with
  | none =>
    have hnone : depsAt records i = [] := by simp [depsAt, hrec]
    rw [hnone] at hfold
    simpa [missingAt, hnone] using hfold
  | some rec =>
    have hdeps : depsAt records i = rec.deps := by simp [depsAt, hrec]
    simp only [Option.map_some]
    split_ifs <;> (rw [hdeps] at hfold; simpa [missingAt, hdeps, Record.fail] using hfold)

/-- The first records. -/
theorem linked_foldl_range (records : List Record) (count : ℕ) :
    Linked records (fun j ↦ decide (j < count) && missingAt records j)
      ((List.range count).flatMap fun i ↦ edgesOf records i (depsAt records i))
      ((List.range count).foldl Core.linkModule ⟨records, fun _ ↦ 0, fun _ ↦ []⟩) := by
  induction count with
  | zero =>
    refine ⟨fun i ↦ ?_, fun _ ↦ rfl, fun _ ↦ rfl⟩
    simp
  | succ count ih =>
    have hnext := ih.linkModule count
    rw [List.range_succ, List.foldl_append, List.flatMap_append]
    have hmarked : (fun j ↦ (decide (j < count) && missingAt records j) ||
        (j == count && missingAt records count)) =
        fun j ↦ decide (j < count + 1) && missingAt records j := by
      funext j
      by_cases hj : j = count
      · subst hj
        simp
      · have hlt : j < count + 1 ↔ j < count := by omega
        simp [hj, hlt]
    rw [hmarked] at hnext
    simpa using hnext

/-- All resolved dependencies, with repetition: from a dependency to the record that has it. -/
def allEdges (records : List Record) : List (ℕ × ℕ) :=
  (List.range records.length).flatMap fun i ↦ edgesOf records i (depsAt records i)

/-- What the first loop builds. -/
theorem linked_linkAll (records : List Record) :
    Linked records (missingAt records) (allEdges records) (linkAll records) := by
  have hmarked : (fun j ↦ decide (j < records.length) && missingAt records j) =
      missingAt records := by
    funext j
    by_cases hj : j < records.length
    · simp [hj]
    · simp [hj, missingAt, depsAt]
  exact hmarked ▸ linked_foldl_range records records.length

/-- The first loop keeps the number of records. -/
theorem length_linkAll (records : List Record) :
    (linkAll records).records.length = records.length := by
  have htargets := map_target_eq (linked_linkAll records).records_eq fun i rec ↦ by
    split_ifs <;> rfl
  simpa using congrArg List.length htargets

/-- The edges are the dependencies. -/
theorem mem_allEdges {i j : ℕ} : (j, i) ∈ allEdges records ↔ DependsOn records i j := by
  have hmem : (j, i) ∈ allEdges records ↔ i < records.length ∧
      ∃ depName ∈ depsAt records i, findRecord records depName = some j := by
    simp only [allEdges, edgesOf, List.mem_flatMap, List.mem_range, List.mem_map,
      Option.mem_toList, Prod.mk.injEq]
    constructor
    · rintro ⟨_, hlt, depName, hdep, _, hfind, rfl, rfl⟩
      exact ⟨hlt, depName, hdep, hfind⟩
    · rintro ⟨hlt, depName, hdep, hfind⟩
      exact ⟨i, hlt, depName, hdep, j, hfind, rfl, rfl⟩
  rw [hmem]
  constructor
  · rintro ⟨hlt, depName, hdep, hfind⟩
    have hrec : records[i]? = some records[i] := List.getElem?_eq_getElem hlt
    rw [depsAt, hrec] at hdep
    exact ⟨_, hrec, depName, hdep, hfind⟩
  · rintro ⟨rec, hrec, depName, hdep, hfind⟩
    refine ⟨(List.getElem?_eq_some_iff.mp hrec).1, depName, ?_, hfind⟩
    rw [depsAt, hrec]
    exact hdep

/-- A dependency is the index of a record. -/
theorem allEdges_lt {edge : ℕ × ℕ} (hedge : edge ∈ allEdges records) :
    edge.1 < records.length := by
  obtain ⟨_, _, _, _, hfind⟩ := mem_allEdges.mp hedge
  exact findRecord_lt hfind

/-- After the first loop, the records that are not failed are those that may start. -/
theorem notFailed_linkAll {i : ℕ} :
    notFailed (linkAll records).records i = true ↔ MayStart records i := by
  rw [notFailed, (linked_linkAll records).records_eq, missingAt, depsAt, MayStart]
  cases hrec : records[i]? with
  | none => simp
  | some rec =>
    simp only [Option.map_some, Option.getD_some, Option.any_some, Option.some.injEq,
      exists_eq_left', hasMissing]
    split_ifs with hmissing <;> simp [hmissing, Record.fail]

theorem MayStart.lt {i : ℕ} (hstart : MayStart records i) : i < records.length := by
  obtain ⟨_, hrec, _⟩ := hstart
  exact (List.getElem?_eq_some_iff.mp hrec).1

/-! ### The second loop -/

/-- The worklist in the middle of a round: `progress` says how many of the entries of each record's
list have been visited. A record is ready when it may start and nothing is left to be visited for
it, and all the records it depends on have been ordered. -/
structure Worklist.Sound (links : Links) (progress : ℕ → ℕ) (list : Worklist) : Prop where
  indeg_eq : ∀ i, list.indeg i = (owed links.records.length links.adj progress i : ℤ)
  mem_ready : ∀ i, i ∈ list.ready ↔
    notFailed links.records i ∧ owed links.records.length links.adj progress i = 0
  nodup : list.ready.Nodup
  order_eq : list.order = list.ready.take list.cursor
  cursor_le : list.cursor ≤ list.ready.length
  unordered : ∀ i, i ∉ list.order → progress i = 0
  adj_lt : ∀ i j, i ∈ links.adj j → j < links.records.length
  topological : IsTopological (fun j i ↦ i ∈ links.adj j) list.ready

/-- A record that is not failed is a record. -/
theorem notFailed_lt {i : ℕ} (hnotFailed : notFailed records i = true) : i < records.length := by
  obtain ⟨_, hrec, -⟩ := Option.any_eq_true _ _ |>.mp hnotFailed
  exact (List.getElem?_eq_some_iff.mp hrec).1

namespace Worklist

variable {progress : ℕ → ℕ} {list : Worklist}

/-- No more records are ready than there are records. -/
theorem Sound.length_le (hsound : list.Sound links progress) :
    list.ready.length ≤ links.records.length := by
  have hsubset : list.ready ⊆ List.range links.records.length := fun i hi ↦
    List.mem_range.mpr (notFailed_lt ((hsound.mem_ready i).mp hi).1)
  simpa using (hsound.nodup.subperm hsubset).length_le

/-- The worklist before the first round. -/
theorem sound_initial (records : List Record) :
    (initial (linkAll records)).Sound (linkAll records) fun _ ↦ 0 := by
  have hlinked := linked_linkAll records
  have hlength := length_linkAll records
  have hindeg : ∀ i, (linkAll records).indeg i =
      (owed (linkAll records).records.length (linkAll records).adj (fun _ ↦ 0) i : ℤ) := by
    intro i
    have hadj : (linkAll records).adj = successorsOf (allEdges records) := funext hlinked.adj_eq
    rw [hadj, hlength, owed_successorsOf (fun edge hedge ↦ allEdges_lt hedge), hlinked.indeg_eq]
  refine ⟨hindeg, fun i ↦ ?_, List.nodup_range.filter _, rfl, Nat.zero_le _,
    fun _ _ ↦ rfl, ?_, ?_⟩
  · have hzero : (linkAll records).indeg i = 0 ↔
        owed (linkAll records).records.length (linkAll records).adj (fun _ ↦ 0) i = 0 := by
      rw [hindeg]
      exact Int.natCast_eq_zero
    simp only [initial, List.mem_filter, List.mem_range, decide_eq_true_eq, hzero]
    constructor
    · rintro ⟨-, howed, hnotFailed⟩
      exact ⟨hnotFailed, howed⟩
    · rintro ⟨hnotFailed, howed⟩
      exact ⟨notFailed_lt hnotFailed, howed, hnotFailed⟩
  · intro i j hmem
    rw [hlinked.adj_eq, mem_successorsOf] at hmem
    rw [hlength]
    exact allEdges_lt hmem
  · rintro before target after hready source hmem
    have htarget : target ∈ (initial (linkAll records)).ready := by
      rw [hready]
      simp
    simp only [initial, List.mem_filter, decide_eq_true_eq, hindeg] at htarget
    have howed := owed_eq_zero.mp (Int.natCast_eq_zero.mp htarget.2.1)
    have hsource : source < (linkAll records).records.length := by
      rw [hlinked.adj_eq, mem_successorsOf] at hmem
      rw [hlength]
      exact allEdges_lt hmem
    exact absurd hmem (by simpa using howed source hsource)

/-- Visiting the next entry of the list of an ordered record. -/
theorem Sound.visit (hsound : list.Sound links progress) {current nxt : ℕ}
    (hcurrent : current ∈ list.order) (hnxt : (links.adj current)[progress current]? = some nxt) :
    (list.visit links.records nxt).Sound links
      (Function.update progress current (progress current + 1)) := by
  have hlt : current < links.records.length :=
    hsound.adj_lt nxt current (List.mem_of_getElem? hnxt)
  have howed := fun i ↦ @owed_advance _ links.adj progress current i nxt hlt hnxt
  have hindeg : ∀ i, Function.update list.indeg nxt (list.indeg nxt - 1) i =
      (owed links.records.length links.adj
        (Function.update progress current (progress current + 1)) i : ℤ) := by
    intro i
    have hi := howed i
    by_cases heq : i = nxt
    · subst heq
      rw [if_pos rfl] at hi
      rw [Function.update_self, hsound.indeg_eq, ← hi]
      push_cast
      omega
    · rw [if_neg heq] at hi
      rw [Function.update_of_ne heq, hsound.indeg_eq, ← hi]
      simp
  have hzero : Function.update list.indeg nxt (list.indeg nxt - 1) nxt = 0 ↔
      owed links.records.length links.adj
        (Function.update progress current (progress current + 1)) nxt = 0 := by
    rw [hindeg]
    exact Int.natCast_eq_zero
  have hwas : owed links.records.length links.adj progress nxt ≠ 0 := by
    have hself := howed nxt
    rw [if_pos rfl] at hself
    omega
  have hnew : nxt ∉ list.ready := fun hmem ↦ hwas ((hsound.mem_ready nxt).mp hmem).2
  have hothers : ∀ i, i ≠ nxt → (owed links.records.length links.adj
      (Function.update progress current (progress current + 1)) i = 0 ↔
        owed links.records.length links.adj progress i = 0) := by
    intro i hi
    have h := howed i
    rw [if_neg hi, Nat.add_zero] at h
    rw [h]
  have hunordered : ∀ i, i ∉ list.order →
      Function.update progress current (progress current + 1) i = 0 := by
    intro i hi
    have hne : i ≠ current := fun heq ↦ hi (heq ▸ hcurrent)
    rw [Function.update_of_ne hne]
    exact hsound.unordered i hi
  unfold Worklist.visit
  dsimp only
  split_ifs with hready
  · obtain ⟨hindegZero, hnotFailed⟩ := hready
    have howedZero := hzero.mp hindegZero
    refine ⟨hindeg, fun i ↦ ?_, ?_, ?_, ?_, hunordered, hsound.adj_lt, ?_⟩
    · by_cases hi : i = nxt
      · subst hi
        simp [hnotFailed, howedZero]
      · rw [hothers i hi, ← hsound.mem_ready i]
        simp [hi]
    · exact List.nodup_append'.mpr ⟨hsound.nodup, List.nodup_singleton nxt,
        List.disjoint_singleton.mpr hnew⟩
    · rw [List.take_append_of_le_length hsound.cursor_le]
      exact hsound.order_eq
    · rw [List.length_append]
      exact Nat.le_add_right_of_le hsound.cursor_le
    · refine hsound.topological.concat fun source hmem ↦ ?_
      by_contra hnotReady
      have hnotOrder : source ∉ list.order := fun horder ↦
        hnotReady (List.mem_of_mem_take (hsound.order_eq ▸ horder))
      have hpassed := owed_eq_zero.mp howedZero source (hsound.adj_lt _ _ hmem)
      rw [hunordered source hnotOrder] at hpassed
      exact hpassed hmem
  · refine ⟨hindeg, fun i ↦ ?_, hsound.nodup, hsound.order_eq, hsound.cursor_le, hunordered,
      hsound.adj_lt, hsound.topological⟩
    by_cases hi : i = nxt
    · subst hi
      rw [← hzero]
      simp only [hnew, false_iff]
      exact fun hboth ↦ hready ⟨hboth.2, hboth.1⟩
    · rw [hothers i hi]
      exact hsound.mem_ready i

/-- Visiting the rest of the list of an ordered record. -/
theorem Sound.foldl_visit {current : ℕ} : ∀ (rest visited : List ℕ) {progress : ℕ → ℕ}
    {list : Worklist}, list.Sound links progress → current ∈ list.order →
    links.adj current = visited ++ rest → progress current = visited.length →
    (rest.foldl (Worklist.visit links.records) list).Sound links
      (Function.update progress current (links.adj current).length) ∧
      (rest.foldl (Worklist.visit links.records) list).order = list.order ∧
      (rest.foldl (Worklist.visit links.records) list).cursor = list.cursor := by
  intro rest
  induction rest with
  | nil =>
    intro visited progress list hsound _ hadj hprogress
    have hdone : Function.update progress current (links.adj current).length = progress := by
      rw [hadj, List.append_nil, ← hprogress]
      exact Function.update_eq_self ..
    refine ⟨?_, rfl, rfl⟩
    rw [hdone]
    exact hsound
  | cons nxt rest ih =>
    intro visited progress list hsound hcurrent hadj hprogress
    have hnxt : (links.adj current)[progress current]? = some nxt := by
      rw [hadj, hprogress]
      simp
    have hframe : (list.visit links.records nxt).order = list.order ∧
        (list.visit links.records nxt).cursor = list.cursor := by
      unfold Worklist.visit
      dsimp only
      split_ifs <;> exact ⟨rfl, rfl⟩
    obtain ⟨hnext, horder, hcursor⟩ := ih (visited ++ [nxt]) (hsound.visit hcurrent hnxt)
      (by rw [hframe.1]; exact hcurrent) (by simp [hadj]) (by simp [hprogress])
    rw [Function.update_idem] at hnext
    exact ⟨hnext, horder.trans hframe.1, hcursor.trans hframe.2⟩

/-- The record at the cursor has not been ordered. -/
theorem Sound.cursor_notMem (hsound : list.Sound links progress) {i : ℕ}
    (hi : list.ready[list.cursor]? = some i) : i ∉ list.order := by
  obtain ⟨hlt, hget⟩ := List.getElem?_eq_some_iff.mp hi
  rw [hsound.order_eq]
  intro hmem
  obtain ⟨k, hk, hkget⟩ := List.mem_take_iff_getElem.mp hmem
  have hk' : k < list.ready.length := by omega
  have heq := (@List.Nodup.getElem_inj_iff _ _ hsound.nodup k hk' _ hlt).mp (hkget.trans hget.symm)
  omega

/-- The worklist between two rounds: the lists of the ordered records have been visited. -/
def Between (links : Links) (list : Worklist) : Prop :=
  ∃ progress, list.Sound links progress ∧
    ∀ i ∈ list.order, progress i = (links.adj i).length

theorem between_initial (records : List Record) :
    (initial (linkAll records)).Between (linkAll records) :=
  ⟨_, sound_initial records, fun _ hi ↦ absurd hi List.not_mem_nil⟩

/-- One round. -/
theorem Between.take (hbetween : list.Between links) {i : ℕ}
    (hi : list.ready[list.cursor]? = some i) :
    (list.take links i).Between links ∧ (list.take links i).cursor = list.cursor + 1 := by
  obtain ⟨progress, hsound, hvisited⟩ := hbetween
  obtain ⟨hlt, -⟩ := List.getElem?_eq_some_iff.mp hi
  have hmoved : Sound links progress
      { list with cursor := list.cursor + 1, order := list.order ++ [i] } := by
    refine ⟨hsound.indeg_eq, hsound.mem_ready, hsound.nodup, ?_, hlt, fun j hj ↦ ?_,
      hsound.adj_lt, hsound.topological⟩
    · rw [hsound.order_eq, List.take_add_one, hi]
      rfl
    · exact hsound.unordered j fun hmem ↦ hj (List.mem_append_left _ hmem)
  have hnew : i ∉ list.order := hsound.cursor_notMem hi
  obtain ⟨hnext, horder, hcursor⟩ := Sound.foldl_visit (links.adj i) [] hmoved
    (List.mem_append_right _ (List.mem_singleton_self i)) rfl (hsound.unordered i hnew)
  refine ⟨⟨_, hnext, fun j hj ↦ ?_⟩, hcursor⟩
  rw [Worklist.take, horder] at hj
  by_cases hji : j = i
  · subst hji
    exact Function.update_self ..
  · rw [Function.update_of_ne hji]
    rcases List.mem_append.mp hj with hold | hlast
    · exact hvisited j hold
    · exact absurd (List.mem_singleton.mp hlast) hji

/-- The loop ends after at most one round for each record, with all ready records ordered. -/
theorem Between.drain (rounds : ℕ) (hbetween : list.Between links)
    (hrounds : links.records.length ≤ list.cursor + rounds) :
    (list.drain links rounds).Between links ∧
      (list.drain links rounds).order = (list.drain links rounds).ready := by
  induction rounds generalizing list with
  | zero =>
    obtain ⟨progress, hsound, -⟩ := id hbetween
    refine ⟨hbetween, ?_⟩
    exact hsound.order_eq.trans (List.take_of_length_le (hsound.length_le.trans hrounds))
  | succ rounds ih =>
    unfold Worklist.drain
    cases hi : list.ready[list.cursor]? with
    | none =>
      obtain ⟨progress, hsound, -⟩ := id hbetween
      exact ⟨hbetween, hsound.order_eq.trans
        (List.take_of_length_le (List.getElem?_eq_none_iff.mp hi))⟩
    | some i =>
      obtain ⟨hnext, hcursor⟩ := hbetween.take hi
      exact ih hnext (by omega)

/-- With all ready records ordered, the order holds exactly the grounded records. -/
theorem Between.mem_order_iff (hbetween : list.Between links) (hall : list.order = list.ready)
    (i : ℕ) : i ∈ list.order ↔
      Grounded (fun i ↦ notFailed links.records i = true) (fun j i ↦ i ∈ links.adj j) i := by
  obtain ⟨progress, hsound, hvisited⟩ := hbetween
  refine IsTopological.mem_iff_grounded (hall ▸ hsound.topological) (fun j hj ↦ ?_)
    (fun j hj hsources ↦ ?_) i
  · exact ((hsound.mem_ready j).mp (hall ▸ hj)).1
  · rw [hall, hsound.mem_ready]
    refine ⟨hj, owed_eq_zero.mpr fun source _ hmem ↦ ?_⟩
    have hsource := hsources source (List.mem_of_mem_drop hmem)
    rw [hvisited source hsource, List.drop_length] at hmem
    exact List.not_mem_nil hmem

end Worklist

/-! ### The last loop -/

/-- A record that was not ordered is failed. -/
def cycleFailed (order : List ℕ) (i : ℕ) (rec : Record) : Record :=
  if rec.phase ≠ .failed ∧ i ∉ order then rec.fail "dependency cycle" else rec

/-- The first records. -/
theorem foldl_markCycle (records : List Record) (order : List ℕ) (count : ℕ) :
    (∀ i, ((List.range count).foldl (markCycle order) (records, true)).1[i]? =
        records[i]?.map fun rec ↦ if i < count then cycleFailed order i rec else rec) ∧
      (((List.range count).foldl (markCycle order) (records, true)).2 = true ↔
        ∀ i < count, notFailed records i = true → i ∈ order) := by
  induction count with
  | zero => simp
  | succ count ih =>
    obtain ⟨hrecords, hacyclic⟩ := ih
    rw [List.range_succ, List.foldl_append, List.foldl_cons, List.foldl_nil]
    generalize (List.range count).foldl (markCycle order) (records, true) = state
      at hrecords hacyclic
    have hsame : notFailed state.1 count = notFailed records count := by
      rw [notFailed, notFailed, hrecords]
      simp
    unfold markCycle
    rw [hsame]
    split_ifs with hcycle
    · obtain ⟨hnotFailed, hnotMem⟩ := hcycle
      refine ⟨fun i ↦ ?_, ?_⟩
      · rw [List.getElem?_modify, hrecords]
        by_cases hi : count = i
        · subst hi
          cases hrec : records[count]? with
          | none => simp
          | some rec =>
            have hphase : rec.phase ≠ .failed := by simpa [notFailed, hrec] using hnotFailed
            simp [cycleFailed, hphase, hnotMem]
        · have hlt : i < count + 1 ↔ i < count := by omega
          simp [hi, hlt]
      · simp only [false_iff, not_forall]
        exact ⟨count, Nat.lt_succ_self count, hnotFailed, hnotMem⟩
    · refine ⟨fun i ↦ ?_, ?_⟩
      · rw [hrecords]
        by_cases hi : i = count
        · subst hi
          cases hrec : records[i]? with
          | none => rfl
          | some rec =>
            have hfailed : ¬ (rec.phase ≠ .failed ∧ i ∉ order) := by
              simpa [notFailed, hrec] using hcycle
            simp [cycleFailed, hfailed]
        · have hlt : i < count + 1 ↔ i < count := by omega
          simp [hlt]
      · rw [hacyclic]
        constructor
        · intro hbelow i hi hnotFailed
          rcases Nat.lt_succ_iff_lt_or_eq.mp hi with hlt | rfl
          · exact hbelow i hlt hnotFailed
          · by_contra hnotMem
            exact hcycle ⟨hnotFailed, hnotMem⟩
        · exact fun hall i hi ↦ hall i (Nat.lt_succ_of_lt hi)

/-! ### The whole function -/

/-- The record at an index after `compute_order`. -/
def orderedRecord (records : List Record) (order : List ℕ) (i : ℕ) (rec : Record) : Record :=
  if hasMissing records rec then rec.fail "missing dependency" else cycleFailed order i rec

/-- What `compute_order` computes: the records, the order, and whether no cycle was found. -/
structure OrderSpec (records records' : List Record) (order : List ℕ) (acyclic : Bool) : Prop where
  nodup : order.Nodup
  topological : IsTopological (fun j i ↦ DependsOn records i j) order
  mem_iff : ∀ i, i ∈ order ↔ Orderable records i
  records_eq : ∀ i, records'[i]? = records[i]?.map (orderedRecord records order i)
  acyclic_iff : acyclic = true ↔ ∀ i, MayStart records i → i ∈ order

/-- The specification of `compute_order`, for every vector of records. -/
theorem computeOrder_spec (records : List Record) :
    OrderSpec records (computeOrder records).1 (computeOrder records).2.1
      (computeOrder records).2.2 := by
  have hlinked := linked_linkAll records
  have hlength := length_linkAll records
  obtain ⟨hbetween, hall⟩ := (Worklist.between_initial records).drain records.length
    (by simp [hlength])
  have hedge : (fun j i ↦ i ∈ (linkAll records).adj j) = fun j i ↦ DependsOn records i j := by
    funext j i
    rw [hlinked.adj_eq, mem_successorsOf]
    exact propext mem_allEdges
  have hallowed : (fun i ↦ notFailed (linkAll records).records i = true) = MayStart records :=
    funext fun i ↦ propext notFailed_linkAll
  obtain ⟨hmarked, hacyclic⟩ := foldl_markCycle (linkAll records).records
    ((Worklist.initial (linkAll records)).drain (linkAll records) records.length).order
    records.length
  obtain ⟨progress, hsound, -⟩ := id hbetween
  have hnodup := hsound.nodup
  have htopological := hsound.topological
  rw [← hall] at hnodup htopological
  rw [hedge] at htopological
  refine ⟨hnodup, htopological, fun i ↦ ?_, fun i ↦ ?_, ?_⟩
  · have hmem := hbetween.mem_order_iff hall i
    rw [hallowed, hedge] at hmem
    exact hmem
  · refine (hmarked i).trans ?_
    rw [hlinked.records_eq, Option.map_map]
    cases hrec : records[i]? with
    | none => rfl
    | some rec =>
      have hlt : i < records.length := (List.getElem?_eq_some_iff.mp hrec).1
      have hmissing : missingAt records i = hasMissing records rec := by
        simp [missingAt, depsAt, hrec, hasMissing]
      simp only [Option.map_some, Function.comp_apply, hlt, if_true, hmissing, orderedRecord]
      split_ifs
      · simp [cycleFailed, Record.fail]
      · rfl
  · refine Iff.trans hacyclic ⟨fun h i hstart ↦ ?_, fun h i _ hnotFailed ↦ ?_⟩
    · exact h i hstart.lt (notFailed_linkAll.mpr hstart)
    · exact h i (notFailed_linkAll.mp hnotFailed)

end GameEngine.Core
