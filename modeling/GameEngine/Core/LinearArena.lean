import GameEngine.Core.PoolAllocator
import GameEngine.Library.RangeStack

/-!
# The linear arena

`LinearArenaAllocator` hands out memory by moving one offset up through its buffer, and `reset`
moves the offset back to zero. An `allocate` call loads the offset, computes the aligned end of the
request in 64-bit words, compares it with the capacity, and takes the memory by a compare-exchange
of the offset; then it raises the high-water mark. `ArenaCall` says how far a call has come. A weak
compare-exchange may fail although the value is as expected.

`arena_disjoint` says that the granted ranges lie inside the buffer and are disjoint, in every run
in which no bound check accepts an aligned end that has wrapped. `arena_disjoint_fails` is a request
of almost `2 ^ 64` bytes, whose aligned end wraps to zero and passes the check.
-/

set_option autoImplicit false
set_option relaxedAutoImplicit false

namespace GameEngine.Core

open GameEngine.Library GameEngine.Library.MachineWord

/-! ### The arena and its calls -/

/-- `LinearArenaAllocator`, whose addresses are counted from the start of the buffer. -/
structure LinearArenaAllocator where
  capacity : ℕ
  offset : ℕ
  highWater : ℕ

/-- The size of a cache line. -/
def kCacheLineAlign : ℕ := 64

/-- A new arena. A capacity of zero is taken as one cache line. -/
def LinearArenaAllocator.new (capacityBytes : UInt64) : LinearArenaAllocator where
  capacity :=
    alignUp (if capacityBytes = 0 then kCacheLineAlign else capacityBytes.toNat) kCacheLineAlign
  offset := 0
  highWater := 0

/-- The aligned offset of a request, as `allocate` computes it. -/
def alignedFor (current : ℕ) (alignment : UInt64) : ℕ :=
  alignUp current (normalizeAlign alignment.toNat)

/-- The end of a request, as `allocate` computes it. -/
def nextFor (current : ℕ) (size alignment : UInt64) : ℕ :=
  addMod word64 (alignedFor current alignment) size.toNat

/-- How far a call has come. -/
inductive ArenaCall
  /-- `allocate` has loaded the offset and is about to check the bound. -/
  | loaded (size alignment : UInt64) (current : ℕ)
  /-- `allocate` has found room and is about to compare-exchange the offset. -/
  | claiming (size alignment : UInt64) (current aligned next : ℕ)
  /-- `allocate` has its memory and is about to load the high-water mark. -/
  | granted (aligned next : ℕ)
  /-- `allocate` has loaded the high-water mark and is about to raise it. -/
  | raising (aligned next hw : ℕ)
  /-- `reset_high_water` has loaded the offset and is about to store it. -/
  | lowering (offset : ℕ)

/-- The arena with the calls in progress on it and the ranges granted since the last reset, newest
first. -/
structure ArenaState (Thread : Type) where
  arena : LinearArenaAllocator
  calls : CallTable Thread ArenaCall
  grants : List Range

/-- A step: a call starts, which includes its first load, or takes its next step; or the arena is
reset. `spurious` makes a compare-exchange fail. -/
inductive ArenaAction (Thread : Type)
  | allocate (thread : Thread) (size alignment : UInt64)
  | resetHighWater (thread : Thread)
  | advance (thread : Thread) (spurious : Bool)
  | reset

namespace ArenaState

variable {Thread : Type}

/-- A new arena with no call in progress. -/
def new (capacityBytes : UInt64) : ArenaState Thread := ⟨.new capacityBytes, .idle, []⟩

/-- `used`. -/
def used (s : ArenaState Thread) : ℕ := s.arena.offset

variable [DecidableEq Thread]

/-- Replaces the call of a thread. -/
def setCall (s : ArenaState Thread) (thread : Thread) (call : Option ArenaCall) :
    ArenaState Thread :=
  { s with calls := Function.update s.calls thread call }

/-- The next step of a call. -/
def advance (s : ArenaState Thread) (thread : Thread) (spurious : Bool) :
    ArenaCall → ArenaState Thread
  | .loaded size alignment current =>
    let next := nextFor current size alignment
    if s.arena.capacity < next then s.setCall thread none
    else
      s.setCall thread (some (.claiming size alignment current (alignedFor current alignment) next))
  | .claiming size alignment current aligned next =>
    if s.arena.offset = current ∧ spurious = false then
      { arena := { s.arena with offset := next }
        calls := Function.update s.calls thread (some (.granted aligned next))
        grants := ⟨aligned, size.toNat⟩ :: s.grants }
    else s.setCall thread (some (.loaded size alignment s.arena.offset))
  | .granted aligned next => s.setCall thread (some (.raising aligned next s.arena.highWater))
  | .raising aligned next hw =>
    if next ≤ hw then s.setCall thread none
    else if s.arena.highWater = hw ∧ spurious = false then
      { s with
        arena := { s.arena with highWater := next }
        calls := Function.update s.calls thread none }
    else s.setCall thread (some (.raising aligned next s.arena.highWater))
  | .lowering offset =>
    { s with
      arena := { s.arena with highWater := offset }
      calls := Function.update s.calls thread none }

/-- One step. A request of no bytes is refused without touching the arena. -/
def step (s : ArenaState Thread) : ArenaAction Thread → Option (ArenaState Thread)
  | .allocate thread size alignment =>
    if (s.calls thread).isNone then
      if size = 0 then some s
      else some (s.setCall thread (some (.loaded size alignment s.arena.offset)))
    else none
  | .resetHighWater thread =>
    if (s.calls thread).isNone then some (s.setCall thread (some (.lowering s.arena.offset)))
    else none
  | .advance thread spurious => (s.calls thread).map (s.advance thread spurious)
  | .reset => some { s with arena := { s.arena with offset := 0 }, grants := [] }

/-- The arena as a transition system. -/
def system : TransitionSystem (ArenaState Thread) (ArenaAction Thread) where
  step := step

/-- What a step can do. -/
inductive Stepped (s : ArenaState Thread) : ArenaAction Thread → ArenaState Thread → Prop
  | refused (thread : Thread) (alignment : UInt64) : Stepped s (.allocate thread 0 alignment) s
  | allocates {thread : Thread} {size alignment : UInt64} : s.calls thread = none →
      Stepped s (.allocate thread size alignment)
        (s.setCall thread (some (.loaded size alignment s.arena.offset)))
  | lowers {thread : Thread} : s.calls thread = none →
      Stepped s (.resetHighWater thread) (s.setCall thread (some (.lowering s.arena.offset)))
  | advances {thread : Thread} {spurious : Bool} {call : ArenaCall} : s.calls thread = some call →
      Stepped s (.advance thread spurious) (s.advance thread spurious call)
  | resets : Stepped s .reset { s with arena := { s.arena with offset := 0 }, grants := [] }

theorem stepped_of_step {s next : ArenaState Thread} {action : ArenaAction Thread}
    (hstep : s.step action = some next) : s.Stepped action next := by
  cases action with
  | allocate thread size alignment =>
    simp only [step, Option.ite_none_right_eq_some, Option.isNone_iff_eq_none] at hstep
    obtain ⟨hidle, hstep⟩ := hstep
    split_ifs at hstep with hzero
    · obtain rfl := Option.some.inj hstep
      exact hzero ▸ .refused thread alignment
    · exact Option.some.inj hstep ▸ .allocates hidle
  | resetHighWater thread =>
    simp only [step, Option.ite_none_right_eq_some, Option.isNone_iff_eq_none,
      Option.some.injEq] at hstep
    exact hstep.2 ▸ .lowers hstep.1
  | advance thread spurious =>
    simp only [step, Option.map_eq_some_iff] at hstep
    obtain ⟨call, hcall, rfl⟩ := hstep
    exact .advances hcall
  | reset => exact Option.some.inj hstep ▸ .resets

end ArenaState

/-! ### The ranges that are granted -/

/-- Neither rounding the offset up nor adding the size goes past the last 64-bit word. -/
def Fits (current : ℕ) (size alignment : UInt64) : Prop :=
  current + (normalizeAlign alignment.toNat - 1) < word64 ∧
    alignedFor current alignment + size.toNat < word64

instance (current : ℕ) (size alignment : UInt64) : Decidable (Fits current size alignment) :=
  inferInstanceAs (Decidable (_ ∧ _))

/-- A request that fits starts at or above the offset and has its end in exact arithmetic. -/
theorem Fits.bounds {current : ℕ} {size alignment : UInt64} (hfits : Fits current size alignment) :
    current ≤ alignedFor current alignment ∧
      nextFor current size alignment = alignedFor current alignment + size.toNat :=
  ⟨le_alignUp hfits.1, Nat.mod_eq_of_lt hfits.2⟩

namespace ArenaState

variable {Thread : Type}

/-- What is expected between two resets: the granted ranges lie inside the buffer, no two of them
overlap, and what is used is not more than there is. -/
structure ArenaCorrect (s : ArenaState Thread) : Prop where
  inside : ∀ range ∈ s.grants, range.stop ≤ s.arena.capacity
  disjoint : s.grants.Pairwise Range.Disjoint
  used_le : s.used ≤ s.arena.capacity

/-- The step is no bound check that accepts an end that has wrapped. -/
def noWrap (s : ArenaState Thread) : ArenaAction Thread → Bool
  | .advance thread _ =>
    match s.calls thread with
    | some (.loaded size alignment current) =>
      Fits current size alignment ∨ s.arena.capacity < nextFor current size alignment
    | _ => true
  | _ => true

/-- What a call that has passed the bound check holds: a range of the requested size at or above the
offset it loaded, inside the buffer. -/
def CallSound (capacity : ℕ) : ArenaCall → Prop
  | .claiming size _ current aligned next =>
    current ≤ aligned ∧ next = aligned + size.toNat ∧ next ≤ capacity
  | _ => True

/-- The invariant: the granted ranges are stacked up to the offset. -/
structure Sound (s : ArenaState Thread) : Prop where
  stacked : StackedBelow s.arena.offset s.grants
  offset_le : s.arena.offset ≤ s.arena.capacity
  calls : s.calls.Forall fun _ call ↦ CallSound s.arena.capacity call

theorem Sound.correct {s : ArenaState Thread} (hsound : s.Sound) : s.ArenaCorrect where
  inside := fun range hrange ↦ (hsound.stacked.stop_le range hrange).trans hsound.offset_le
  disjoint := hsound.stacked.disjoint
  used_le := hsound.offset_le

theorem new_sound (capacityBytes : UInt64) : (new capacityBytes : ArenaState Thread).Sound where
  stacked := .nil _
  offset_le := Nat.zero_le _
  calls := CallTable.forall_idle _

variable [DecidableEq Thread]

/-- A step that changes only the call of one thread keeps the invariant. -/
theorem Sound.setCall {s : ArenaState Thread} (hsound : s.Sound) {thread : Thread}
    {call : Option ArenaCall} (hcall : ∀ new, call = some new → CallSound s.arena.capacity new) :
    (s.setCall thread call).Sound where
  stacked := hsound.stacked
  offset_le := hsound.offset_le
  calls := CallTable.Forall.update (fun other old _ hold ↦ hsound.calls other old hold) hcall

/-- A store to the high-water mark that ends a call keeps the invariant. -/
theorem Sound.storeMark {s : ArenaState Thread} (hsound : s.Sound) (thread : Thread) (mark : ℕ) :
    Sound { s with
      arena := { s.arena with highWater := mark }
      calls := Function.update s.calls thread none } where
  stacked := hsound.stacked
  offset_le := hsound.offset_le
  calls := (hsound.setCall (by simp) : (s.setCall thread none).Sound).calls

/-- Every step of a call keeps the invariant, one case for each point the call may be at. -/
theorem Sound.advance {s : ArenaState Thread} (hsound : s.Sound) {thread : Thread} {spurious : Bool}
    {call : ArenaCall} (hcall : s.calls thread = some call)
    (hguard : s.noWrap (.advance thread spurious) = true) :
    (s.advance thread spurious call).Sound := by
  have hheld := hsound.calls thread call hcall
  cases call with
  | loaded size alignment current =>
    simp only [ArenaState.advance]
    split_ifs with hbound
    · exact hsound.setCall (by simp)
    · -- The check has accepted the end, so the guard says that it has not wrapped.
      simp only [noWrap, hcall, decide_eq_true_eq] at hguard
      have hfits := hguard.resolve_right hbound
      refine hsound.setCall ?_
      rintro _ ⟨⟩
      exact ⟨hfits.bounds.1, hfits.bounds.2, Nat.not_lt.mp hbound⟩
  | claiming size alignment current aligned next =>
    simp only [ArenaState.advance]
    split_ifs with hexchange
    · obtain ⟨rfl, -⟩ := hexchange
      obtain ⟨hstart, rfl, hle⟩ := hheld
      exact
        { stacked := hsound.stacked.push ⟨aligned, size.toNat⟩ hstart
          offset_le := hle
          calls := CallTable.Forall.update (fun other old _ hold ↦ hsound.calls other old hold)
            (by rintro _ ⟨⟩; trivial) }
    · exact hsound.setCall (by rintro _ ⟨⟩; trivial)
  | granted aligned next => exact hsound.setCall (by rintro _ ⟨⟩; trivial)
  | raising aligned next hw =>
    simp only [ArenaState.advance]
    split_ifs with hdone hexchange
    · exact hsound.setCall (by simp)
    · exact hsound.storeMark thread next
    · exact hsound.setCall (by rintro _ ⟨⟩; trivial)
  | lowering offset => exact hsound.storeMark thread offset

/-- Every step that meets the condition keeps the invariant. -/
theorem Sound.step {s next : ArenaState Thread} (hsound : s.Sound) {action : ArenaAction Thread}
    (hguard : s.noWrap action = true) (hstep : s.step action = some next) : next.Sound := by
  cases stepped_of_step hstep with
  | refused thread alignment => exact hsound
  | allocates hidle => exact hsound.setCall (by rintro _ ⟨⟩; trivial)
  | lowers hidle => exact hsound.setCall (by rintro _ ⟨⟩; trivial)
  | advances hcall => exact hsound.advance hcall hguard
  | resets => exact ⟨.nil _, Nat.zero_le _, hsound.calls⟩

/-- No step but a reset moves the offset down. -/
theorem Sound.used_le_step {s next : ArenaState Thread} (hsound : s.Sound)
    {action : ArenaAction Thread} (hreset : action ≠ .reset) (hstep : s.step action = some next) :
    s.used ≤ next.used := by
  cases stepped_of_step hstep with
  | @advances thread spurious call hcall =>
    have hheld := hsound.calls thread call hcall
    cases call with
    | claiming size alignment current aligned next =>
      simp only [ArenaState.advance]
      split_ifs with hexchange
      · obtain ⟨hstart, rfl, -⟩ := hheld
        exact hexchange.1.le.trans (hstart.trans (Nat.le_add_right _ _))
      · exact le_rfl
    | loaded size alignment current =>
      simp only [ArenaState.advance]
      split_ifs <;> exact le_rfl
    | raising aligned next hw =>
      simp only [ArenaState.advance]
      split_ifs <;> exact le_rfl
    | granted aligned next => exact le_rfl
    | lowering offset => exact le_rfl
  | resets => exact absurd rfl hreset
  | _ => exact le_rfl

end ArenaState

open ArenaState

/-- An arena of 4096 bytes grants 4000 bytes, and then a request of `2 ^ 64 - 4000` bytes, whose
aligned end wraps to zero: the offset is back at zero, and the next grant overlaps the first. -/
theorem arena_disjoint_fails : ∃ s : ArenaState Unit,
    ArenaState.system.Reaches TransitionSystem.unguarded (.new 4096) s ∧
    s.grants = [⟨0, 16⟩, ⟨4000, 2 ^ 64 - 4000⟩, ⟨0, 4000⟩] ∧ s.used = 16 ∧
    ¬ s.ArenaCorrect := by
  have hany : (ArenaState.system.execute (.new 4096 : ArenaState Unit)
      ([(4000, 16), (18446744073709547616, 16), (16, 16)].flatMap fun request : UInt64 × UInt64 ↦
        [.allocate () request.1 request.2, .advance () false, .advance () false, .advance () false,
          .advance () false])).any
        (fun s ↦ s.grants = [⟨0, 16⟩, ⟨4000, 2 ^ 64 - 4000⟩, ⟨0, 4000⟩] ∧ s.used = 16) = true := by
    decide
  obtain ⟨s, hreach, htest⟩ := TransitionSystem.Reaches.exists_of_schedule _ _ _ _ hany
  obtain ⟨hgrants, hused⟩ := of_decide_eq_true htest
  refine ⟨s, hreach, hgrants, hused, fun hcorrect ↦ ?_⟩
  have hdisjoint := hcorrect.disjoint
  rw [hgrants] at hdisjoint
  exact absurd hdisjoint (by decide)

/-- In every run of the calls of any number of threads, with requests of every size and alignment,
in which no bound check accepts an aligned end that has wrapped, the ranges granted since the last
reset lie inside the buffer and are pairwise disjoint, and what is used is at most the capacity and
goes down only by a reset. -/
theorem arena_disjoint {Thread : Type} [DecidableEq Thread] {capacityBytes : UInt64}
    {s : ArenaState Thread}
    (hreach : ArenaState.system.Reaches (fun s action ↦ s.noWrap action = true)
      (.new capacityBytes) s) :
    s.ArenaCorrect ∧ ∀ action next, action ≠ .reset → s.step action = some next →
      s.used ≤ next.used := by
  have hsound : s.Sound := hreach.invariant (new_sound capacityBytes)
    fun _ _ _ hsound hguard hstep ↦ hsound.step hguard hstep
  exact ⟨hsound.correct, fun action next hreset hstep ↦ hsound.used_le_step hreset hstep⟩

/-- The theorem at two threads whose calls overlap: the second takes its memory first, the first
tries again, and a request of `2 ^ 63 + 4192` bytes aligned to `2 ^ 63` is refused although its end
wraps. -/
theorem arena_disjoint_overlapping : ∃ s : ArenaState (Fin 2),
    s.grants = [⟨64, 16⟩, ⟨0, 8⟩] ∧ s.ArenaCorrect := by
  obtain ⟨s, hreach, htest⟩ := TransitionSystem.Reaches.exists_of_any ArenaState.system
    (.new 4096 : ArenaState (Fin 2))
    [.allocate 0 16 64, .allocate 1 8 16, .advance 0 false, .advance 1 false, .advance 1 false,
      .advance 0 false, .advance 0 false, .advance 0 false, .advance 1 false, .advance 1 false,
      .allocate 1 9223372036854780000 9223372036854775808, .advance 1 false]
    noWrap (fun s ↦ s.grants = [⟨64, 16⟩, ⟨0, 8⟩] ∧ (s.calls 1).isNone)
    (fun _ _ hguard ↦ hguard) (by decide) (by decide)
  exact ⟨s, (of_decide_eq_true htest).1, (arena_disjoint hreach).1⟩


end GameEngine.Core
