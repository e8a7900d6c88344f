import Mathlib.Data.Finset.Card
import Mathlib.Data.List.Nodup
import Mathlib.Logic.Function.Basic

/-!
# Items, each in one place

Every item is in one place, and a container of a system holds the items whose places have some
property. `Matches` says that a container and the places agree. When one item moves, a container
that the move does not concern keeps agreeing (`Matches.keep`), and the others gain or lose the item
(`Matches.move`, and its forms for lists). `card_filter_update` counts the items.
-/

set_option autoImplicit false
set_option relaxedAutoImplicit false

namespace GameEngine.Library

variable {Item Place : Type*} {place : Item → Place} {property : Place → Prop}

/-- The items whose place has a property are those that a container holds. -/
def Matches (place : Item → Place) (property : Place → Prop) (contains : Item → Prop) : Prop :=
  ∀ item, property (place item) ↔ contains item

namespace Matches

variable [DecidableEq Item] {contains contains' : Item → Prop} {item : Item} {next : Place}

/-- An item moves, and the container changes for that item only. -/
theorem move (hmatches : Matches place property contains)
    (hothers : ∀ other, other ≠ item → (contains' other ↔ contains other))
    (hitem : property next ↔ contains' item) :
    Matches (Function.update place item next) property contains' := by
  intro other
  by_cases heq : other = item
  · subst heq
    rw [Function.update_self]
    exact hitem
  · rw [Function.update_of_ne heq, hothers other heq]
    exact hmatches other

/-- A move between two places that a container does not tell apart. -/
theorem keep (hmatches : Matches place property contains)
    (hnext : property next ↔ property (place item)) :
    Matches (Function.update place item next) property contains :=
  hmatches.move (fun _ _ ↦ Iff.rfl) (hnext.trans (hmatches item))

variable {list : List Item}

/-- An item enters a list at its end. -/
theorem append (hmatches : Matches place property (· ∈ list)) (hnext : property next) :
    Matches (Function.update place item next) property (· ∈ list ++ [item]) := by
  refine hmatches.move (fun other hother ↦ ?_) ?_
  · simp [hother]
  · simp [hnext]

/-- An item enters a list at its front. -/
theorem cons (hmatches : Matches place property (· ∈ list)) (hnext : property next) :
    Matches (Function.update place item next) property (· ∈ item :: list) := by
  refine hmatches.move (fun other hother ↦ ?_) ?_
  · simp [hother]
  · simp [hnext]

/-- An item leaves a list without repetitions. -/
theorem erase (hmatches : Matches place property (· ∈ list)) (hnodup : list.Nodup)
    (hnext : ¬ property next) :
    Matches (Function.update place item next) property (· ∈ list.erase item) := by
  refine hmatches.move (fun other hother ↦ ?_) ?_
  · rw [hnodup.mem_erase_iff]
    exact and_iff_right hother
  · rw [hnodup.mem_erase_iff]
    exact ⟨fun h ↦ absurd h hnext, fun h ↦ absurd rfl h.1⟩

/-- The first item leaves a list without repetitions. -/
theorem tail {rest : List Item} (hmatches : Matches place property (· ∈ item :: rest))
    (hnodup : (item :: rest).Nodup) (hnext : ¬ property next) :
    Matches (Function.update place item next) property (· ∈ rest) := by
  have herase : Matches (Function.update place item next) property
      (· ∈ (item :: rest).erase item) := hmatches.erase hnodup hnext
  rwa [List.erase_cons_head] at herase

/-- The last item leaves a list without repetitions. -/
theorem dropLast (hmatches : Matches place property (· ∈ list)) (hnodup : list.Nodup)
    (hlast : list.getLast? = some item) (hnext : ¬ property next) :
    Matches (Function.update place item next) property (· ∈ list.dropLast) := by
  obtain ⟨front, rfl⟩ := List.getLast?_eq_some_iff.mp hlast
  rw [List.dropLast_concat]
  have hfresh : item ∉ front := fun hmem ↦
    (List.nodup_append'.mp hnodup).2.2 hmem List.mem_cons_self
  refine hmatches.move (fun other hother ↦ ?_) ?_
  · simp [hother]
  · exact ⟨fun h ↦ absurd h hnext, fun h ↦ absurd h hfresh⟩

end Matches

/-- When one item moves, the number of items whose places have a property changes by that item. -/
theorem card_filter_update [DecidableEq Item] (place : Item → Place) (property : Place → Prop)
    [DecidablePred property] {items : Finset Item} {item : Item} (hitem : item ∈ items)
    (next : Place) :
    (items.filter fun other ↦ property (Function.update place item next other)).card +
        (if property (place item) then 1 else 0) =
      (items.filter fun other ↦ property (place other)).card + if property next then 1 else 0 := by
  have hothers : (items.erase item).filter
      (fun other ↦ property (Function.update place item next other)) =
      (items.erase item).filter fun other ↦ property (place other) := by
    refine Finset.filter_congr fun other hother ↦ ?_
    rw [Function.update_of_ne (Finset.ne_of_mem_erase hother)]
  have hsplit : ∀ q : Item → Prop, [DecidablePred q] → (items.filter q).card =
      ((items.erase item).filter q).card + if q item then 1 else 0 := by
    intro q _
    conv_lhs => rw [← Finset.insert_erase hitem, Finset.filter_insert]
    split_ifs with hq
    · rw [Finset.card_insert_of_notMem (by simp)]
    · rfl
  rw [hsplit, hsplit fun other ↦ property (place other), hothers, Function.update_self]
  omega

end GameEngine.Library
