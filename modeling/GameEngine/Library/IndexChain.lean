import Mathlib.Logic.Function.Basic
import Mathlib.Data.List.Basic

/-!
# Linked lists by index

A linked list kept in an array of successor indices: `Chain next null start nodes` says that
following `next` from `start` visits exactly `nodes` and then reaches `null`. A chain of finite
length is acyclic.
-/

set_option autoImplicit false
set_option relaxedAutoImplicit false

namespace GameEngine.Library.IndexChain

variable {Index : Type*} {next : Index → Index} {null : Index}

/-- Following `next` from an index visits the list and ends at `null`. -/
def Chain (next : Index → Index) (null : Index) : Index → List Index → Prop
  | start, [] => start = null
  | start, node :: rest => start = node ∧ node ≠ null ∧ Chain next null (next node) rest

/-- The chain from `null` is empty. -/
theorem Chain.eq_nil {nodes : List Index} (hchain : Chain next null null nodes) : nodes = [] := by
  cases nodes with
  | nil => rfl
  | cons node rest => exact absurd hchain.1.symm hchain.2.1

/-- A chain from another index starts with that index. -/
theorem Chain.exists_rest {start : Index} {nodes : List Index}
    (hchain : Chain next null start nodes) (hstart : start ≠ null) :
    ∃ rest, nodes = start :: rest ∧ Chain next null (next start) rest := by
  cases nodes with
  | nil => exact absurd hchain hstart
  | cons node rest =>
    obtain ⟨rfl, -, hrest⟩ := hchain
    exact ⟨rest, rfl, hrest⟩

/-- A chain starts at `null` or at one of its nodes. -/
theorem Chain.start_eq_or_mem {start : Index} {nodes : List Index}
    (hchain : Chain next null start nodes) : start = null ∨ start ∈ nodes := by
  cases nodes with
  | nil => exact .inl hchain
  | cons node rest => exact .inr (hchain.1 ▸ List.mem_cons_self)

/-- Changing the successor of an index outside the chain keeps the chain. -/
theorem Chain.update [DecidableEq Index] {start changed successor : Index} {nodes : List Index}
    (hchain : Chain next null start nodes) (hchanged : changed ∉ nodes) :
    Chain (Function.update next changed successor) null start nodes := by
  induction nodes generalizing start with
  | nil => exact hchain
  | cons node rest ih =>
    obtain ⟨hstart, hnode, hrest⟩ := hchain
    have hne : node ≠ changed := fun heq ↦ hchanged (heq ▸ List.mem_cons_self)
    refine ⟨hstart, hnode, ?_⟩
    rw [Function.update_of_ne hne]
    exact ih hrest fun hmem ↦ hchanged (List.mem_cons_of_mem _ hmem)

end GameEngine.Library.IndexChain
