import Mathlib.Data.List.Induction
import Mathlib.Data.Set.Finite.Basic
import Mathlib.Logic.Relation

/-!
# Orders that put sources before targets

`Grounded allowed edge` is the least set that contains an allowed node as soon as it contains every
source of an edge into it. Nodes on a cycle, and nodes that can be reached from a cycle or from a
node that is not allowed, are not in it. A list of nodes is topological when every source of an edge
into one of its nodes occurs before that node. `IsTopological.mem_iff_grounded` says that a
topological list of allowed nodes that leaves no node out holds exactly the grounded nodes, and
`Grounded.iff_forall_path` that in a finite graph the grounded nodes are those that only allowed
nodes and no cycles lead to.
-/

set_option autoImplicit false
set_option relaxedAutoImplicit false

namespace GameEngine.Library

variable {Node : Type*} {allowed : Node → Prop} {edge : Node → Node → Prop}

/-- The least set that contains an allowed node as soon as it contains the sources of all edges into
the node. -/
inductive Grounded (allowed : Node → Prop) (edge : Node → Node → Prop) : Node → Prop
  | intro {target : Node} : allowed target →
      (∀ source, edge source target → Grounded allowed edge source) →
      Grounded allowed edge target

namespace Grounded

/-- A grounded node is allowed. -/
theorem isAllowed {node : Node} (hnode : Grounded allowed edge node) : allowed node := by
  cases hnode with
  | intro hallowed _ => exact hallowed

/-- The nodes that lead to a grounded node are grounded. -/
theorem of_path {node other : Node} (hnode : Grounded allowed edge node)
    (hpath : Relation.ReflTransGen edge other node) : Grounded allowed edge other := by
  induction hpath using Relation.ReflTransGen.head_induction_on with
  | refl => exact hnode
  | head hedge _ ih =>
    cases ih with
    | intro _ hsources => exact hsources _ hedge

/-- A grounded node is on no cycle. -/
theorem not_cycle {node : Node} (hnode : Grounded allowed edge node) :
    ¬ Relation.TransGen edge node node := by
  induction hnode with
  | intro _ _ ih =>
    intro hcycle
    obtain ⟨source, hpath, hedge⟩ := Relation.TransGen.tail'_iff.mp hcycle
    exact ih source hedge (Relation.TransGen.head' hedge hpath)

/-- In a finite graph a node is grounded when all nodes that lead to it are allowed and on no
cycle. -/
theorem of_forall_path (hfinite : {source | ∃ target, edge source target}.Finite) {node : Node}
    (hpaths : ∀ other, Relation.ReflTransGen edge other node →
      allowed other ∧ ¬ Relation.TransGen edge other other) : Grounded allowed edge node := by
  let Ancestor := {other // Relation.ReflTransGen edge other node}
  have hancestors : Finite Ancestor := by
    refine (hfinite.insert node).subset fun other hpath ↦ ?_
    rcases Relation.ReflTransGen.cases_head hpath with heq | ⟨target, hedge, -⟩
    · exact .inl heq
    · exact .inr ⟨target, hedge⟩
  have hwf : WellFounded fun first second : Ancestor ↦
      Relation.TransGen edge first.1 second.1 := by
    have htrans : IsTrans Ancestor fun first second ↦ Relation.TransGen edge first.1 second.1 :=
      ⟨fun _ _ _ hfirst hsecond ↦ hfirst.trans hsecond⟩
    have hirrefl : Std.Irrefl fun first second : Ancestor ↦
        Relation.TransGen edge first.1 second.1 := ⟨fun other ↦ (hpaths other.1 other.2).2⟩
    exact Finite.wellFounded_of_trans_of_irrefl _
  have hall : ∀ other : Ancestor, Grounded allowed edge other.1 := by
    intro other
    induction other using hwf.induction with
    | _ other ih =>
      refine .intro (hpaths other.1 other.2).1 fun source hedge ↦ ?_
      exact ih ⟨source, .head hedge other.2⟩ (.single hedge)
  exact hall ⟨node, .refl⟩

/-- In a finite graph the grounded nodes are those that only allowed nodes and no cycles lead to. -/
theorem iff_forall_path (hfinite : {source | ∃ target, edge source target}.Finite) {node : Node} :
    Grounded allowed edge node ↔ ∀ other, Relation.ReflTransGen edge other node →
      allowed other ∧ ¬ Relation.TransGen edge other other :=
  ⟨fun hnode _ hpath ↦ ⟨(hnode.of_path hpath).isAllowed, (hnode.of_path hpath).not_cycle⟩,
    of_forall_path hfinite⟩

end Grounded

/-- Every source of an edge into a node of the list occurs before that node. -/
def IsTopological (edge : Node → Node → Prop) (order : List Node) : Prop :=
  ∀ before target after, order = before ++ target :: after →
    ∀ source, edge source target → source ∈ before

namespace IsTopological

variable {order : List Node}

/-- A node all of whose sources are listed may be added at the end. -/
theorem concat (htop : IsTopological edge order) {node : Node}
    (hsources : ∀ source, edge source node → source ∈ order) :
    IsTopological edge (order ++ [node]) := by
  intro before target after horder source hedge
  rcases List.append_eq_append_iff.mp horder with ⟨rest, hbefore, hrest⟩ | ⟨rest, horder', hrest⟩
  · cases rest with
    | nil =>
      simp only [List.nil_append, List.cons.injEq] at hrest
      rw [hbefore, List.append_nil]
      exact hsources source (hrest.1 ▸ hedge)
    | cons head tail =>
      have hlength := congrArg List.length hrest
      simp at hlength
  · cases rest with
    | nil =>
      simp only [List.nil_append, List.cons.injEq] at hrest
      rw [List.append_nil] at horder'
      rw [← horder']
      exact hsources source (hrest.1 ▸ hedge)
    | cons head tail =>
      simp only [List.cons_append, List.cons.injEq] at hrest
      exact htop before target tail (by rw [horder', hrest.1]) source hedge

/-- The beginning of a topological list is topological. -/
theorem of_append {first second : List Node} (htop : IsTopological edge (first ++ second)) :
    IsTopological edge first := by
  rintro before target after rfl source hedge
  exact htop before target (after ++ second) (by simp) source hedge

/-- A property that passes from the sources of a node to the node holds of the whole list. -/
theorem induction (htop : IsTopological edge order) {property : Node → Prop}
    (hstep : ∀ target ∈ order, (∀ source, edge source target → property source) →
      property target) : ∀ node ∈ order, property node := by
  induction order using List.reverseRecOn with
  | nil => exact fun node hnode ↦ absurd hnode List.not_mem_nil
  | append_singleton before last ih =>
    have hbefore : ∀ node ∈ before, property node :=
      ih htop.of_append fun target htarget ↦ hstep target (List.mem_append_left _ htarget)
    intro node hnode
    rcases List.mem_append.mp hnode with hold | hlast
    · exact hbefore node hold
    · rw [List.mem_singleton.mp hlast]
      exact hstep last (by simp) fun source hedge ↦
        hbefore source (htop before last [] rfl source hedge)

/-- A topological list of allowed nodes that contains an allowed node as soon as it contains the
node's sources holds exactly the grounded nodes. -/
theorem mem_iff_grounded (htop : IsTopological edge order)
    (hallowed : ∀ node ∈ order, allowed node)
    (hclosed : ∀ node, allowed node → (∀ source, edge source node → source ∈ order) →
      node ∈ order) (node : Node) : node ∈ order ↔ Grounded allowed edge node := by
  constructor
  · exact htop.induction (fun target htarget hsources ↦
      .intro (hallowed target htarget) hsources) node
  · intro hnode
    induction hnode with
    | intro hself _ ih => exact hclosed _ hself ih

end IsTopological

end GameEngine.Library
