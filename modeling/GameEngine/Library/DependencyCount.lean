import Mathlib.Algebra.BigOperators.Group.Finset.Basic
import Mathlib.Algebra.Order.BigOperators.Group.Finset
import Mathlib.Data.List.Count
import Mathlib.Logic.Relation
import Mathlib.Order.WellFounded
import Mathlib.Data.Fintype.EquivFin

/-!
# Counting down dependencies

Nodes are numbered below `nodeCount`, and `successors` lists, for every node, the nodes that wait
for it, with repetition; `successorsOf` takes these lists from a list of edges. Every node works
through its list from the front; `progress` says how far it has come. A node is owed one count for
each of its entries that has not been reached yet (`owed`). `owed_advance` is what one step does to
the counts; `waiting` counts the edges from nodes that have not been entered at all; and
`Acyclic.induction` is the induction along the edges of a finite acyclic graph, with
which one shows that every count reaches zero.
-/

set_option autoImplicit false
set_option relaxedAutoImplicit false

namespace GameEngine.Library.DependencyCount

variable {nodeCount : ℕ} {successors : ℕ → List ℕ} {progress : ℕ → ℕ}

/-- The number of entries of a node that have not been reached yet. -/
def owed (nodeCount : ℕ) (successors : ℕ → List ℕ) (progress : ℕ → ℕ) (target : ℕ) : ℕ :=
  ∑ node ∈ Finset.range nodeCount, ((successors node).drop (progress node)).count target

/-- A node is owed nothing if and only if every list has passed its last entry of it. -/
theorem owed_eq_zero {target : ℕ} : owed nodeCount successors progress target = 0 ↔
    ∀ node < nodeCount, target ∉ (successors node).drop (progress node) := by
  simp [owed, Finset.sum_eq_zero_iff, List.count_eq_zero]

/-- A node is owed the most before any list has been entered. -/
theorem owed_le (target : ℕ) : owed nodeCount successors progress target ≤
    owed nodeCount successors (fun _ ↦ 0) target :=
  Finset.sum_le_sum fun _ _ ↦ (List.drop_sublist_drop_left _ (Nat.zero_le _)).count_le target

/-- Reaching an entry takes one count from its node, and none from another. -/
theorem owed_advance {node target reached : ℕ} (hnode : node < nodeCount)
    (hreached : (successors node)[progress node]? = some reached) :
    owed nodeCount successors (Function.update progress node (progress node + 1)) target +
        (if target = reached then 1 else 0) =
      owed nodeCount successors progress target := by
  have hmem : node ∈ Finset.range nodeCount := Finset.mem_range.mpr hnode
  have hothers : ∑ other ∈ (Finset.range nodeCount).erase node,
      ((successors other).drop
        (Function.update progress node (progress node + 1) other)).count target =
      ∑ other ∈ (Finset.range nodeCount).erase node,
        ((successors other).drop (progress other)).count target := by
    refine Finset.sum_congr rfl fun other hother ↦ ?_
    rw [Function.update_of_ne (Finset.ne_of_mem_erase hother)]
  have hsplit : (successors node).drop (progress node) =
      reached :: (successors node).drop (progress node + 1) := by
    obtain ⟨hlt, hget⟩ := List.getElem?_eq_some_iff.mp hreached
    rw [List.drop_eq_getElem_cons hlt, hget]
  unfold owed
  rw [← Finset.add_sum_erase _ _ hmem, ← Finset.add_sum_erase _ _ hmem, hothers,
    Function.update_self, hsplit, List.count_cons]
  by_cases htarget : target = reached
  · subst htarget
    simp only [beq_self_eq_true, if_true]
    omega
  · have hbeq : (reached == target) = false := by simpa using Ne.symm htarget
    simp [htarget, hbeq]

/-- The nodes that wait for a node, in the order of the edges. -/
def successorsOf (edges : List (ℕ × ℕ)) (node : ℕ) : List ℕ :=
  (edges.filter fun edge ↦ edge.1 = node).map Prod.snd

/-- A new edge extends the list of its source and no other list. -/
theorem successorsOf_append (edges : List (ℕ × ℕ)) (source target node : ℕ) :
    successorsOf (edges ++ [(source, target)]) node =
      if node = source then successorsOf edges node ++ [target] else successorsOf edges node := by
  by_cases hnode : node = source
  · simp [successorsOf, hnode]
  · simp [successorsOf, hnode, Ne.symm hnode]

theorem successorsOf_append_list (first second : List (ℕ × ℕ)) (node : ℕ) :
    successorsOf (first ++ second) node = successorsOf first node ++ successorsOf second node := by
  simp [successorsOf]

theorem mem_successorsOf {edges : List (ℕ × ℕ)} {source target : ℕ} :
    target ∈ successorsOf edges source ↔ (source, target) ∈ edges := by
  simp [successorsOf]

/-- Before any list has been entered, a node is owed one count for each edge into it. Assumes: the
edges start at the numbered nodes. -/
theorem owed_successorsOf {edges : List (ℕ × ℕ)} (hedges : ∀ edge ∈ edges, edge.1 < nodeCount)
    (target : ℕ) : owed nodeCount (successorsOf edges) (fun _ ↦ 0) target =
      edges.countP fun edge ↦ edge.2 = target := by
  induction edges with
  | nil => simp [owed, successorsOf]
  | cons edge rest ih =>
    have hhead : ∑ node ∈ Finset.range nodeCount,
        (if edge.1 = node ∧ edge.2 = target then 1 else 0) =
          if edge.2 = target then 1 else 0 := by
      have hmem : edge.1 ∈ Finset.range nodeCount :=
        Finset.mem_range.mpr (hedges edge List.mem_cons_self)
      rw [Finset.sum_eq_single_of_mem edge.1 hmem fun other _ hother ↦ by simp [Ne.symm hother]]
      simp
    have hcons : ∀ node, (successorsOf (edge :: rest) node).count target =
        (successorsOf rest node).count target +
          if edge.1 = node ∧ edge.2 = target then 1 else 0 := by
      intro node
      by_cases hnode : edge.1 = node
      · by_cases htarget : edge.2 = target <;> simp [successorsOf, hnode, htarget]
      · simp [successorsOf, hnode]
    have hrest := ih fun other hother ↦ hedges other (List.mem_cons_of_mem _ hother)
    simp only [owed, List.drop_zero] at hrest ⊢
    rw [Finset.sum_congr rfl fun node _ ↦ hcons node, Finset.sum_add_distrib, hrest, hhead,
      List.countP_cons]
    simp

/-- The edges into a node from nodes that are not in a list. -/
def waiting (edges : List (ℕ × ℕ)) (order : List ℕ) (target : ℕ) : ℕ :=
  edges.countP fun edge ↦ edge.2 = target ∧ edge.1 ∉ order

theorem waiting_nil (edges : List (ℕ × ℕ)) (target : ℕ) :
    waiting edges [] target = edges.countP fun edge ↦ edge.2 = target := by
  simp [waiting]

/-- Listing a new node turns the edges from it into the entries of its list. -/
theorem waiting_append {order : List ℕ} {node : ℕ} (hnew : node ∉ order) (edges : List (ℕ × ℕ))
    (target : ℕ) :
    waiting edges (order ++ [node]) target + (successorsOf edges node).count target =
      waiting edges order target := by
  induction edges with
  | nil => rfl
  | cons edge rest ih =>
    by_cases hsource : edge.1 = node
    · have hsuccessors : successorsOf (edge :: rest) node = edge.2 :: successorsOf rest node := by
        simp [successorsOf, hsource]
      rw [hsuccessors, List.count_cons]
      simp only [waiting, List.countP_cons, hsource, List.mem_append, List.mem_singleton, or_true,
        hnew, not_true_eq_false, and_false, decide_false, Bool.false_eq_true, if_false,
        not_false_eq_true, and_true, beq_iff_eq, decide_eq_true_eq] at ih ⊢
      omega
    · have hsuccessors : successorsOf (edge :: rest) node = successorsOf rest node := by
        simp [successorsOf, hsource]
      rw [hsuccessors]
      simp only [waiting, List.countP_cons, List.mem_append, List.mem_singleton, hsource,
        or_false] at ih ⊢
      omega

/-! ### Lists that change -/

/-- How often the lists of the numbered nodes name a node. -/
def listed (nodeCount : ℕ) (lists : ℕ → List ℕ) (target : ℕ) : ℕ :=
  ∑ node ∈ Finset.range nodeCount, (lists node).count target

/-- A node is listed if and only if some list names it. -/
theorem listed_pos {lists : ℕ → List ℕ} {target : ℕ} :
    0 < listed nodeCount lists target ↔ ∃ node < nodeCount, target ∈ lists node := by
  simp [listed, Nat.pos_iff_ne_zero, Finset.sum_eq_zero_iff, List.count_eq_zero]

/-- One list changes. -/
theorem listed_update (lists : ℕ → List ℕ) {node : ℕ} (hnode : node < nodeCount) (list : List ℕ)
    (target : ℕ) : listed nodeCount (Function.update lists node list) target +
        (lists node).count target = listed nodeCount lists target + list.count target := by
  have hmem : node ∈ Finset.range nodeCount := Finset.mem_range.mpr hnode
  have hothers : ∑ other ∈ (Finset.range nodeCount).erase node,
      (Function.update lists node list other).count target =
      ∑ other ∈ (Finset.range nodeCount).erase node, (lists other).count target := by
    refine Finset.sum_congr rfl fun other hother ↦ ?_
    rw [Function.update_of_ne (Finset.ne_of_mem_erase hother)]
  unfold listed
  rw [← Finset.add_sum_erase _ _ hmem, ← Finset.add_sum_erase _ _ hmem, hothers,
    Function.update_self]
  omega

/-- The first entry of a list is taken off. -/
theorem listed_tail {lists : ℕ → List ℕ} {node first : ℕ} {rest : List ℕ} (hnode : node < nodeCount)
    (hlist : lists node = first :: rest) (target : ℕ) :
    listed nodeCount (Function.update lists node rest) target + (if target = first then 1 else 0) =
      listed nodeCount lists target := by
  have hupdate := listed_update lists hnode rest target
  rw [hlist, List.count_cons] at hupdate
  by_cases htarget : target = first
  · subst htarget
    simp only [beq_self_eq_true, if_true] at hupdate ⊢
    omega
  · have hbeq : (first == target) = false := by simpa using Ne.symm htarget
    simp only [hbeq, Bool.false_eq_true, if_false, htarget] at hupdate ⊢
    omega

/-- An entry is added to a list. -/
theorem listed_append (lists : ℕ → List ℕ) {node : ℕ} (hnode : node < nodeCount)
    (last target : ℕ) :
    listed nodeCount (Function.update lists node (lists node ++ [last])) target =
      listed nodeCount lists target + (if target = last then 1 else 0) := by
  have hupdate := listed_update lists hnode (lists node ++ [last]) target
  rw [List.count_append, List.count_singleton] at hupdate
  by_cases htarget : target = last
  · subst htarget
    simp only [beq_self_eq_true, if_true] at hupdate ⊢
    omega
  · have hbeq : (last == target) = false := by simpa using Ne.symm htarget
    simp only [hbeq, Bool.false_eq_true, if_false, htarget] at hupdate ⊢
    omega

/-! ### Acyclic graphs -/

/-- An edge relation without cycles. -/
def Acyclic (edge : ℕ → ℕ → Prop) : Prop := ∀ node, ¬ Relation.TransGen edge node node

/-- A graph whose edges all lead to a higher rank has no cycle. -/
theorem Acyclic.of_rank {edge : ℕ → ℕ → Prop} (rank : ℕ → ℕ)
    (hrank : ∀ source target, edge source target → rank source < rank target) : Acyclic edge := by
  have hpath : ∀ source target, Relation.TransGen edge source target →
      rank source < rank target := by
    intro source target hpath
    induction hpath with
    | single hedge => exact hrank _ _ hedge
    | tail _ hedge ih => exact ih.trans (hrank _ _ hedge)
  exact fun node hcycle ↦ (hpath node node hcycle).false

/-- Induction along the edges of a finite acyclic graph: a property that passes from all the
predecessors of a node to the node holds of every node. -/
theorem Acyclic.induction {edge : ℕ → ℕ → Prop} (hacyclic : Acyclic edge)
    (hlt : ∀ source target, edge source target → source < nodeCount) {property : ℕ → Prop}
    (hstep : ∀ target, (∀ source, edge source target → property source) → property target) :
    ∀ target, property target := by
  have hwf : WellFounded fun source target : Fin nodeCount ↦
      Relation.TransGen edge source target := by
    have htrans : IsTrans (Fin nodeCount) fun source target ↦
        Relation.TransGen edge source target :=
      ⟨fun _ _ _ hfirst hsecond ↦ hfirst.trans hsecond⟩
    have hirrefl : Std.Irrefl fun source target : Fin nodeCount ↦
        Relation.TransGen edge source target := ⟨fun node ↦ hacyclic node⟩
    exact Finite.wellFounded_of_trans_of_irrefl _
  have hbelow : ∀ node : Fin nodeCount, property node := by
    intro node
    induction node using hwf.induction with
    | _ node ih =>
      exact hstep node fun source hsource ↦ ih ⟨source, hlt _ _ hsource⟩ (.single hsource)
  exact fun target ↦ hstep target fun source hsource ↦ hbelow ⟨source, hlt _ _ hsource⟩

end GameEngine.Library.DependencyCount
