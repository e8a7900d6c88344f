import Mathlib.Algebra.Order.Ring.Nat
import Mathlib.Order.Interval.Finset.Nat

/-!
# Ranges that are stacked up

An allocator that moves one pointer up hands out ranges each of which starts at or above the end of
those before. `StackedBelow` says that ranges are pairwise disjoint and end at or below a bound;
`StackedBelow.push` is the step of such an allocator. `StackedBelow.sum_size_le` counts the numbers
in them.
-/

set_option autoImplicit false
set_option relaxedAutoImplicit false

namespace GameEngine.Library

/-- The numbers from `start` up to, but not including, `start + size`. -/
structure Range where
  start : ℕ
  size : ℕ
deriving DecidableEq

namespace Range

/-- The number behind the last one. -/
def stop (range : Range) : ℕ := range.start + range.size

/-- One range ends before the other starts. -/
def Disjoint (first second : Range) : Prop :=
  first.stop ≤ second.start ∨ second.stop ≤ first.start

instance (first second : Range) : Decidable (first.Disjoint second) :=
  inferInstanceAs (Decidable (_ ∨ _))

end Range

/-- Pairwise disjoint ranges that end at or below a bound. -/
structure StackedBelow (bound : ℕ) (ranges : List Range) : Prop where
  stop_le : ∀ range ∈ ranges, range.stop ≤ bound
  disjoint : ranges.Pairwise Range.Disjoint

theorem StackedBelow.nil (bound : ℕ) : StackedBelow bound [] := ⟨by simp, .nil⟩

/-- A range that starts at or above the bound goes on top. -/
theorem StackedBelow.push {bound : ℕ} {ranges : List Range} (hstacked : StackedBelow bound ranges)
    (range : Range) (hstart : bound ≤ range.start) :
    StackedBelow range.stop (range :: ranges) := by
  refine ⟨fun other hother ↦ ?_, List.pairwise_cons.mpr ⟨fun other hother ↦ ?_, hstacked.disjoint⟩⟩
  · rcases List.mem_cons.mp hother with rfl | hold
    · exact Nat.le_refl _
    · exact Nat.le_trans (hstacked.stop_le other hold)
        (Nat.le_trans hstart (Nat.le_add_right _ _))
  · exact .inr (Nat.le_trans (hstacked.stop_le other hother) hstart)

/-- Ranges that end at or below a lower bound stay when the bound moves down to it. -/
theorem StackedBelow.lower {bound mark : ℕ} {ranges kept : List Range}
    (hstacked : StackedBelow bound ranges) (hkept : List.Sublist kept ranges)
    (hstop : ∀ range ∈ kept, range.stop ≤ mark) : StackedBelow mark kept :=
  ⟨hstop, hstacked.disjoint.sublist hkept⟩

/-- A range that starts at or above the bound, behind those before it. -/
theorem StackedBelow.concat {bound : ℕ} {ranges : List Range}
    (hstacked : StackedBelow bound ranges) (range : Range) (hstart : bound ≤ range.start) :
    StackedBelow range.stop (ranges ++ [range]) := by
  refine ⟨fun other hother ↦ ?_, List.pairwise_append.mpr
    ⟨hstacked.disjoint, List.pairwise_singleton _ _, fun other hother last hlast ↦ ?_⟩⟩
  · rcases List.mem_append.mp hother with hold | hlast
    · exact Nat.le_trans (hstacked.stop_le other hold)
        (Nat.le_trans hstart (Nat.le_add_right _ _))
    · exact (List.mem_singleton.mp hlast) ▸ Nat.le_refl _
  · obtain rfl := List.mem_singleton.mp hlast
    exact .inl (Nat.le_trans (hstacked.stop_le other hother) hstart)

/-- Disjoint ranges between two bounds have no more numbers than there are between the bounds. -/
theorem StackedBelow.sum_size_le {low bound : ℕ} {ranges : List Range}
    (hstacked : StackedBelow bound ranges) (hlow : ∀ range ∈ ranges, low ≤ range.start) :
    (ranges.map Range.size).sum ≤ bound - low := by
  have hnumbers : ∃ numbers : Finset ℕ, numbers.card = (ranges.map Range.size).sum ∧
      ∀ n ∈ numbers, ∃ range ∈ ranges, range.start ≤ n ∧ n < range.stop := by
    have hdisjoint := hstacked.disjoint
    clear hstacked hlow
    induction ranges with
    | nil => exact ⟨∅, rfl, by simp⟩
    | cons range rest ih =>
      obtain ⟨hfirst, hrest⟩ := List.pairwise_cons.mp hdisjoint
      obtain ⟨numbers, hcard, hmem⟩ := ih hrest
      refine ⟨Finset.Ico range.start range.stop ∪ numbers, ?_, fun n hn ↦ ?_⟩
      · rw [Finset.card_union_of_disjoint, Nat.card_Ico, hcard, List.map_cons, List.sum_cons,
          Range.stop, Nat.add_sub_cancel_left]
        refine Finset.disjoint_left.mpr fun n hrange hn ↦ ?_
        obtain ⟨other, hother, hstart, hstop⟩ := hmem n hn
        rw [Finset.mem_Ico] at hrange
        rcases hfirst other hother with hbefore | hbehind <;> omega
      · rcases Finset.mem_union.mp hn with hrange | hold
        · exact ⟨range, List.mem_cons_self, Finset.mem_Ico.mp hrange⟩
        · obtain ⟨other, hother, hbounds⟩ := hmem n hold
          exact ⟨other, List.mem_cons_of_mem _ hother, hbounds⟩
  obtain ⟨numbers, hcard, hmem⟩ := hnumbers
  have hsubset : numbers ⊆ Finset.Ico low bound := by
    intro n hn
    obtain ⟨range, hrange, hstart, hstop⟩ := hmem n hn
    exact Finset.mem_Ico.mpr ⟨(hlow range hrange).trans hstart,
      hstop.trans_le (hstacked.stop_le range hrange)⟩
  rw [← hcard, ← Nat.card_Ico]
  exact Finset.card_le_card hsubset

end GameEngine.Library
