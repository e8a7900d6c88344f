import GameEngine.Core.AllocatorAlignment

/-!
# Markers of the stack allocator

A marker of `StackAllocator` is the offset at which it was taken, and `rewind` moves the offset back
to it if that is not above the offset. `StackHistory` is a stack with every allocation that it has
granted. An allocation is released by a `rewind` or a `reset` that leaves the offset below its end.

`stack_discipline` says that the allocations that have not been released lie in the buffer and are
disjoint, that a `rewind` releases no allocation granted before its marker was taken, and that it
leads back to the stack at which the marker was taken if nothing has gone below it since. Markers
are plain numbers and may be stale.
-/

set_option autoImplicit false
set_option relaxedAutoImplicit false

namespace GameEngine.Core

open GameEngine.Library GameEngine.Library.MachineWord

/-- `marker`. -/
def StackAllocator.marker (stack : StackAllocator) : ℕ := stack.offset

deriving instance DecidableEq for StackAllocator

/-! ### Allocations and calls -/

/-- The offsets that an allocation was granted, and whether it has been released since. -/
structure Allocation where
  range : Range
  released : Bool
deriving DecidableEq

/-- A stack with all allocations that it has granted, the oldest first. -/
structure StackHistory where
  stack : StackAllocator
  allocations : List Allocation
deriving DecidableEq

/-- A call to a stack, or the reading of a marker. -/
inductive MarkedCall
  | call (call : StackCall)
  | marker

/-- Releases the allocations that end above an offset. -/
def releaseAbove (offset : ℕ) (allocations : List Allocation) : List Allocation :=
  allocations.map fun allocation ↦
    if offset < allocation.range.stop then { allocation with released := true } else allocation

namespace StackHistory

/-- A new stack. -/
def new (buffer : ℕ) (capacityBytes : UInt64) : StackHistory := ⟨.new buffer capacityBytes, []⟩

/-- A call, with what it returns: an address or null, or an offset. -/
def perform (history : StackHistory) : MarkedCall → StackHistory × Option ℕ
  | .call (.allocate size alignment) =>
    let (stack, address) := history.stack.allocate size alignment
    (⟨stack, history.allocations ++ (address.map fun _ ↦
      ⟨⟨alignedFor history.stack.offset alignment, size.toNat⟩, false⟩).toList⟩, address)
  | .call (.rewind marker) =>
    let stack := history.stack.rewind marker
    (⟨stack, releaseAbove stack.offset history.allocations⟩, none)
  | .call .reset =>
    let stack := history.stack.reset
    (⟨stack, releaseAbove stack.offset history.allocations⟩, none)
  | .marker => (history, some history.stack.marker)

/-- What calls return, one after the other. -/
def outcomes (history : StackHistory) : List MarkedCall → List (Option ℕ)
  | [] => []
  | call :: rest => (history.perform call).2 :: (history.perform call).1.outcomes rest

/-- The ranges of the allocations that have not been released. -/
def unreleased (history : StackHistory) : List Range :=
  (history.allocations.filter fun allocation ↦ !allocation.released).map Allocation.range

/-- A stack with its allocations as a transition system. -/
def system : TransitionSystem StackHistory MarkedCall :=
  ⟨fun history call ↦ some (history.perform call).1⟩

/-- The aligned end of a request fits in 64 bits. -/
def FitsCall (history : StackHistory) : MarkedCall → Prop
  | .call (.allocate size alignment) => Fits history.stack.offset size alignment
  | _ => True

/-- The call is no `rewind` and no `reset` that goes below a marker. -/
def StaysAbove (marker : ℕ) (history : StackHistory) : MarkedCall → Prop
  | .call (.rewind other) => marker ≤ (history.stack.rewind other).offset
  | .call .reset => marker ≤ history.stack.reset.offset
  | _ => True

instance (history : StackHistory) : DecidablePred history.FitsCall
  | .call (.allocate _ _) => inferInstanceAs (Decidable (Fits _ _ _))
  | .call (.rewind _) | .call .reset | .marker => isTrue trivial

instance (marker : ℕ) (history : StackHistory) : DecidablePred (history.StaysAbove marker)
  | .call (.rewind _) => inferInstanceAs (Decidable (_ ≤ _))
  | .call .reset => inferInstanceAs (Decidable (_ ≤ _))
  | .call (.allocate _ _) | .marker => isTrue trivial

/-! ### The invariant -/

/-- The allocations that have not been released are stacked up to the offset. -/
structure Sound (history : StackHistory) : Prop where
  stacked : StackedBelow history.stack.offset history.unreleased
  offset_le : history.stack.offset ≤ history.stack.capacity

theorem sound_new (buffer : ℕ) (capacityBytes : UInt64) : (new buffer capacityBytes).Sound :=
  ⟨.nil _, Nat.zero_le _⟩

theorem Sound.stop_le {history : StackHistory} (hsound : history.Sound) {allocation : Allocation}
    (hmem : allocation ∈ history.allocations) (hlive : allocation.released = false) :
    allocation.range.stop ≤ history.stack.offset := by
  refine hsound.stacked.stop_le _ (List.mem_map_of_mem (List.mem_filter.mpr ⟨hmem, ?_⟩))
  rw [hlive]
  rfl

/-- What is left when allocations above an offset are released. -/
theorem unreleased_releaseAbove (offset : ℕ) (allocations : List Allocation) :
    ((releaseAbove offset allocations).filter fun allocation ↦ !allocation.released).map
        Allocation.range =
      ((allocations.filter fun allocation ↦ !allocation.released).map Allocation.range).filter
        fun range ↦ range.stop ≤ offset := by
  induction allocations with
  | nil => rfl
  | cons allocation rest ih =>
    rw [releaseAbove] at ih ⊢
    rw [List.map_cons, List.filter_cons, List.filter_cons]
    by_cases habove : offset < allocation.range.stop
    · cases hreleased : allocation.released with
      | true => simpa [habove] using ih
      | false => simpa [habove, hreleased, Nat.not_le.mpr habove] using ih
    · cases hreleased : allocation.released with
      | true => simpa [habove, hreleased] using ih
      | false => simpa [habove, hreleased, Nat.not_lt.mp habove] using ih

/-- A `rewind` or `reset` that leaves the offset where it is or moves it down. -/
theorem Sound.lower {history : StackHistory} (hsound : history.Sound) {stack : StackAllocator}
    (hoffset : stack.offset ≤ history.stack.offset)
    (hcapacity : stack.capacity = history.stack.capacity) :
    Sound ⟨stack, releaseAbove stack.offset history.allocations⟩ where
  stacked := by
    rw [unreleased, unreleased_releaseAbove]
    exact hsound.stacked.lower List.filter_sublist fun range hrange ↦ by
      simpa using (List.mem_filter.mp hrange).2
  offset_le := hcapacity ▸ hoffset.trans hsound.offset_le

end StackHistory

/-- A `rewind` leaves the offset or moves it down. -/
theorem StackAllocator.rewind_spec (stack : StackAllocator) (marker : ℕ) :
    (stack.rewind marker).offset = min marker stack.offset ∧
      (stack.rewind marker).capacity = stack.capacity := by
  unfold StackAllocator.rewind
  split_ifs with hle
  · exact ⟨(Nat.min_eq_left hle).symm, rfl⟩
  · exact ⟨(Nat.min_eq_right (Nat.le_of_not_le hle)).symm, rfl⟩

/-- A request whose aligned end fits is refused, or gets a range at or above the offset. -/
theorem StackAllocator.allocate_cases (stack : StackAllocator) {size alignment : UInt64}
    (hfits : Fits stack.offset size alignment) :
    stack.allocate size alignment = (stack, none) ∨
      alignedFor stack.offset alignment + size.toNat ≤ stack.capacity ∧
        stack.offset ≤ alignedFor stack.offset alignment ∧
        stack.allocate size alignment =
          ({ stack with offset := alignedFor stack.offset alignment + size.toNat },
            some (addressAt stack.buffer (alignedFor stack.offset alignment))) := by
  obtain ⟨hstart, hnext⟩ := hfits.bounds
  unfold StackAllocator.allocate
  dsimp only
  rw [hnext]
  split_ifs with hzero hfull
  · exact .inl rfl
  · exact .inl rfl
  · exact .inr ⟨Nat.not_lt.mp hfull, hstart, rfl⟩

namespace StackHistory

variable {history later : StackHistory} {marker : ℕ}

/-- Every call keeps the invariant. -/
theorem Sound.perform (hsound : history.Sound) {call : MarkedCall}
    (hfits : history.FitsCall call) : (history.perform call).1.Sound := by
  cases call with
  | call call =>
    cases call with
    | allocate size alignment =>
      rcases history.stack.allocate_cases hfits with hnone | ⟨hle, hstart, hsome⟩
      · simp only [StackHistory.perform, hnone, Option.map_none, Option.toList_none,
          List.append_nil]
        exact hsound
      · simp only [StackHistory.perform, hsome, Option.map_some, Option.toList_some]
        refine ⟨?_, hle⟩
        have hpushed := hsound.stacked.concat
          ⟨alignedFor history.stack.offset alignment, size.toNat⟩ hstart
        simpa [unreleased, Range.stop] using hpushed
    | rewind other =>
      obtain ⟨hoffset, hcapacity⟩ := history.stack.rewind_spec other
      exact hsound.lower (hoffset ▸ Nat.min_le_right _ _) hcapacity
    | reset => exact hsound.lower (Nat.zero_le _) rfl
  | marker => exact hsound

/-! ### What a run keeps of the allocations before it -/

/-- An allocation later on: it has its range, and it has not been released if it is not. -/
def Persists (allocation after : Allocation) : Prop :=
  after.range = allocation.range ∧ (after.released = false → allocation.released = false)

/-- Every allocation of a history is in a later one, at its place. -/
def Extended (history later : StackHistory) : Prop :=
  ∀ (i : ℕ) (allocation : Allocation), history.allocations[i]? = some allocation →
    ∃ after, later.allocations[i]? = some after ∧ Persists allocation after

theorem extended_refl (history : StackHistory) : Extended history history :=
  fun _ allocation hallocation ↦ ⟨allocation, hallocation, rfl, id⟩

theorem persists_releaseAbove (offset : ℕ) (allocations : List Allocation) {i : ℕ}
    {allocation : Allocation} (hallocation : allocations[i]? = some allocation) :
    ∃ after, (releaseAbove offset allocations)[i]? = some after ∧ Persists allocation after := by
  refine ⟨_, by rw [releaseAbove, List.getElem?_map, hallocation, Option.map_some], ?_⟩
  split_ifs
  · exact ⟨rfl, by simp⟩
  · exact ⟨rfl, id⟩

/-- No call removes an allocation or takes its release back. -/
theorem Extended.perform (hextended : Extended history later) (call : MarkedCall) :
    Extended history (later.perform call).1 := by
  intro i allocation hallocation
  obtain ⟨middle, hmiddle, hrange, hreleased⟩ := hextended i allocation hallocation
  have hnext : ∃ after, (later.perform call).1.allocations[i]? = some after ∧
      Persists middle after := by
    cases call with
    | call call =>
      cases call with
      | allocate size alignment =>
        refine ⟨middle, ?_, rfl, id⟩
        simp only [StackHistory.perform]
        rw [List.getElem?_append_left (List.getElem?_eq_some_iff.mp hmiddle).1]
        exact hmiddle
      | rewind other => exact persists_releaseAbove _ _ hmiddle
      | reset => exact persists_releaseAbove _ _ hmiddle
    | marker => exact ⟨middle, hmiddle, rfl, id⟩
  obtain ⟨after, hafter, hrange', hreleased'⟩ := hnext
  exact ⟨after, hafter, hrange'.trans hrange, fun h ↦ hreleased (hreleased' h)⟩

/-- A `rewind` to the marker of a history releases none of its allocations. Assumes: the
allocations of the history that have not been released end at or below its offset, and later ones
at or below the later offset. -/
theorem Extended.rewind (hextended : Extended history later) (hsound : history.Sound)
    (hlater : later.Sound) {i : ℕ} (hi : i < history.allocations.length) :
    (later.perform (.call (.rewind history.stack.marker))).1.allocations[i]? =
      later.allocations[i]? := by
  obtain ⟨after, hafter, hrange, hreleased⟩ :=
    hextended i _ (List.getElem?_eq_getElem hi)
  simp only [StackHistory.perform, releaseAbove]
  rw [List.getElem?_map, hafter, Option.map_some, (later.stack.rewind_spec _).1]
  congr 1
  cases hstate : after.released with
  | true =>
    split_ifs
    · rw [← hstate]
    · rfl
  | false =>
    have hbefore : history.allocations[i].range.stop ≤ history.stack.marker :=
      hsound.stop_le (List.getElem_mem hi) (hreleased hstate)
    have hnow := hlater.stop_le (List.mem_of_getElem? hafter) hstate
    rw [← hrange] at hbefore
    rw [if_neg (Nat.not_lt.mpr (Nat.le_min.mpr ⟨hbefore, hnow⟩))]

/-! ### Going back to a marker -/

/-- The stack has the buffer and the capacity that it had when a marker was taken, and has not gone
below it since. -/
structure Above (history later : StackHistory) : Prop where
  buffer_eq : later.stack.buffer = history.stack.buffer
  capacity_eq : later.stack.capacity = history.stack.capacity
  marker_le : history.stack.marker ≤ later.stack.offset

theorem Above.perform (habove : Above history later) {call : MarkedCall}
    (hfits : later.FitsCall call) (hstays : later.StaysAbove history.stack.marker call) :
    Above history (later.perform call).1 := by
  obtain ⟨hbuffer, hcapacity, hmarker⟩ := habove
  cases call with
  | call call =>
    cases call with
    | allocate size alignment =>
      rcases later.stack.allocate_cases hfits with hnone | ⟨-, hstart, hsome⟩
      · simp only [StackHistory.perform, hnone]
        exact ⟨hbuffer, hcapacity, hmarker⟩
      · simp only [StackHistory.perform, hsome]
        exact ⟨hbuffer, hcapacity, hmarker.trans (hstart.trans (Nat.le_add_right _ _))⟩
    | rewind other =>
      refine ⟨?_, (later.stack.rewind_spec other).2.trans hcapacity, hstays⟩
      simp only [StackHistory.perform, StackAllocator.rewind]
      split_ifs <;> exact hbuffer
    | reset => exact ⟨hbuffer, hcapacity, hstays⟩
  | marker => exact ⟨hbuffer, hcapacity, hmarker⟩

/-- The `rewind` leads back to the stack at which the marker was taken. -/
theorem Above.rewind (habove : Above history later) :
    (later.perform (.call (.rewind history.stack.marker))).1.stack = history.stack := by
  obtain ⟨hbuffer, hcapacity, hmarker⟩ := habove
  obtain ⟨⟨buffer, capacity, offset⟩, allocations⟩ := later
  simp only [StackHistory.perform, StackAllocator.rewind, if_pos hmarker]
  obtain rfl : buffer = history.stack.buffer := hbuffer
  obtain rfl : capacity = history.stack.capacity := hcapacity
  rfl

/-- What calls return depends on the stack only. -/
theorem outcomes_congr {first second : StackHistory} (hstack : first.stack = second.stack)
    (calls : List MarkedCall) : first.outcomes calls = second.outcomes calls := by
  induction calls generalizing first second with
  | nil => rfl
  | cons call rest ih =>
    have hstep : (first.perform call).1.stack = (second.perform call).1.stack ∧
        (first.perform call).2 = (second.perform call).2 := by
      cases call with
      | call call => cases call <;> simp [StackHistory.perform, hstack]
      | marker => exact ⟨hstack, by simp [StackHistory.perform, hstack]⟩
    rw [outcomes, outcomes, hstep.2, ih hstep.1]

end StackHistory

open StackHistory

/-- In every run of allocations, markers, rewinds to any number and resets in which every aligned
end fits in 64 bits: the allocations that have not been released lie in the buffer and are pairwise
disjoint; a `rewind` to a marker releases no allocation that was granted before the marker was
taken; and if nothing has gone below the marker since, all calls after the `rewind` return what they
would have returned when the marker was taken. -/
theorem stack_discipline {buffer : ℕ} {capacityBytes : UInt64} {history : StackHistory}
    (hreach : StackHistory.system.Reaches FitsCall (.new buffer capacityBytes) history) :
    (∀ allocation ∈ history.allocations, allocation.released = false →
      allocation.range.stop ≤ history.stack.capacity) ∧
    history.unreleased.Pairwise Range.Disjoint ∧
    (∀ later, StackHistory.system.Reaches FitsCall history later →
      ∀ i < history.allocations.length,
        (later.perform (.call (.rewind history.stack.marker))).1.allocations[i]? =
          later.allocations[i]?) ∧
    ∀ later, StackHistory.system.Reaches
        (fun state call ↦ state.FitsCall call ∧ state.StaysAbove history.stack.marker call)
        history later →
      ∀ calls, (later.perform (.call (.rewind history.stack.marker))).1.outcomes calls =
        history.outcomes calls := by
  have hkeeps : ∀ start state, start.Sound → StackHistory.system.Reaches FitsCall start state →
      state.Sound := by
    intro start state hstart hrun
    refine hrun.invariant hstart fun state call next hstate hfits hstep ↦ ?_
    exact Option.some.inj hstep ▸ hstate.perform hfits
  have hsound := hkeeps _ history (sound_new buffer capacityBytes) hreach
  refine ⟨fun allocation hmem hlive ↦ (hsound.stop_le hmem hlive).trans hsound.offset_le,
    hsound.stacked.disjoint, fun later hlater i hi ↦ ?_, fun later hlater ↦ ?_⟩
  · have hextended : Extended history later := hlater.invariant (extended_refl history)
      fun _ call _ hstate _ hstep ↦ Option.some.inj hstep ▸ hstate.perform call
    exact hextended.rewind hsound (hkeeps _ later hsound hlater) hi
  · have habove : Above history later := by
      refine hlater.invariant ⟨rfl, rfl, le_rfl⟩ fun state call next hstate hguard hstep ↦ ?_
      exact Option.some.inj hstep ▸ hstate.perform hguard.1 hguard.2
    exact outcomes_congr habove.rewind

/-- The theorem at a marker at 74. It is used after a `rewind` to a later marker, where it leads
back, and, stale, after a `reset` and an allocation of 32 bytes, where it does nothing. -/
theorem stack_discipline_nested : ∃ history later stale : StackHistory,
    history.stack.marker = 74 ∧ later.stack.offset = 113 ∧ stale.stack.offset = 32 ∧
      (later.perform (.call (.rewind 74))).1.outcomes [.call (.allocate 5 16), .marker] =
        history.outcomes [.call (.allocate 5 16), .marker] ∧
      (stale.perform (.call (.rewind 74))).1.allocations[1]? = stale.allocations[1]? := by
  let history : StackHistory := ⟨⟨4096, 1024, 74⟩, [⟨⟨0, 10⟩, false⟩, ⟨⟨64, 10⟩, false⟩]⟩
  let later : StackHistory := ⟨⟨4096, 1024, 113⟩,
    history.allocations ++ [⟨⟨80, 20⟩, false⟩, ⟨⟨112, 3⟩, true⟩, ⟨⟨112, 1⟩, false⟩]⟩
  let stale : StackHistory :=
    ⟨⟨4096, 1024, 32⟩, releaseAbove 0 history.allocations ++ [⟨⟨0, 32⟩, false⟩]⟩
  have hhistory : StackHistory.system.Reaches FitsCall (.new 4096 1000) history :=
    @TransitionSystem.Reaches.ofExecute _ _ _ _ _ (fun history call ↦ history.FitsCall call)
      [.call (.allocate 10 16), .call (.allocate 10 64)] _ (fun _ _ h ↦ of_decide_eq_true h)
      (by decide) (by decide)
  have hlater : StackHistory.system.Reaches (fun state call ↦
      state.FitsCall call ∧ state.StaysAbove 74 call) history later :=
    @TransitionSystem.Reaches.ofExecute _ _ _ _ _
      (fun state call ↦ state.FitsCall call ∧ state.StaysAbove 74 call)
      [.call (.allocate 20 16), .call (.allocate 3 16), .call (.rewind 100),
        .call (.allocate 1 16)] _
      (fun _ _ h ↦ of_decide_eq_true h) (by decide) (by decide)
  have hstale : StackHistory.system.Reaches FitsCall history stale :=
    @TransitionSystem.Reaches.ofExecute _ _ _ _ _ (fun history call ↦ history.FitsCall call)
      [.call .reset, .call (.allocate 32 16)] _ (fun _ _ h ↦ of_decide_eq_true h) (by decide)
      (by decide)
  obtain ⟨-, -, hreleases, hreturns⟩ := stack_discipline hhistory
  exact ⟨history, later, stale, rfl, rfl, rfl, hreturns later hlater _,
    hreleases stale hstale 1 (by decide)⟩

end GameEngine.Core
