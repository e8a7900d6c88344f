import GameEngine.Library.PeakHistory
import GameEngine.Core.LinearArena
import Mathlib.Data.Fintype.Defs

/-!
# The high-water mark of the linear arena

The offset and the high-water mark are two atomics. `allocate` moves the offset first and then
raises the mark to its end by a compare-exchange that never lowers it. `reset_high_water` loads the
offset and stores it as the mark, in two steps and without a comparison.

The invariant is `MarkCovers`: the mark is at least the offset, or a call that has taken memory up
to the offset has yet to raise the mark. `high_water_mark` follows from it for the runs in which
`reset_high_water` stores no offset that has been passed in the meantime. `high_water_mark_fails` is
a run in which it does: another thread allocates between the load and the store, and the mark ends
below the offset. That the mark is at most the largest offset so far holds in every run
(`within_peak`).
-/

set_option autoImplicit false
set_option relaxedAutoImplicit false

namespace GameEngine.Core

open GameEngine.Library

/-- What a call holds that it may store in the high-water mark. -/
def ArenaCall.toStore : ArenaCall → ℕ
  | .granted _ next => next
  | .raising _ next _ => next
  | .lowering offset => offset
  | _ => 0

/-- The call has memory that ends at the offset or above it, and by what it has seen of the
high-water mark it will raise the mark to that end. -/
def ArenaCall.raises (offset : ℕ) : ArenaCall → Bool
  | .granted _ next => offset ≤ next
  | .raising _ next hw => offset ≤ next ∧ hw < next
  | _ => false

namespace ArenaState

variable {Thread : Type}

/-- `high_water_mark`. -/
def highWaterMark (s : ArenaState Thread) : ℕ := s.arena.highWater

/-- No call is in progress. -/
def Quiet (s : ArenaState Thread) : Prop := ∀ thread, s.calls thread = none

/-- Some call has yet to raise the mark to the offset. -/
def RaisePending (s : ArenaState Thread) : Prop :=
  ∃ thread, (s.calls thread).any (ArenaCall.raises s.used) = true

/-- The mark is at least the offset, or some call has yet to raise it. -/
def MarkCovers (s : ArenaState Thread) : Prop :=
  s.used ≤ s.highWaterMark ∨ s.RaisePending

/-- The step is no store of a `reset_high_water` call that loaded an offset which has been passed
since, unless a call has yet to raise the mark to the present one. -/
def StoresCurrent (s : ArenaState Thread) : ArenaAction Thread → Prop
  | .advance thread _ =>
    match s.calls thread with
    | some (.lowering offset) => s.used ≤ offset ∨ s.RaisePending
    | _ => True
  | _ => True

instance [Fintype Thread] (s : ArenaState Thread) : Decidable s.RaisePending :=
  inferInstanceAs (Decidable (∃ thread, (s.calls thread).any (ArenaCall.raises s.used) = true))

instance [Fintype Thread] (s : ArenaState Thread) (action : ArenaAction Thread) :
    Decidable (s.StoresCurrent action) := by
  unfold StoresCurrent
  split
  · split <;> infer_instance
  · infer_instance

/-- With no call in progress, a mark that covers the offset is at least the offset. -/
theorem MarkCovers.used_le {s : ArenaState Thread} (hcovers : s.MarkCovers) (hquiet : s.Quiet) :
    s.used ≤ s.highWaterMark := by
  refine hcovers.resolve_right ?_
  rintro ⟨thread, hraises⟩
  simp [hquiet thread] at hraises

/-- The offset, the mark, and what calls may store in the mark are within a bound. -/
structure Within (bound : ℕ) (s : ArenaState Thread) : Prop where
  used_le : s.used ≤ bound
  mark_le : s.highWaterMark ≤ bound
  calls : s.calls.Forall fun _ call ↦ call.toStore ≤ bound

variable [DecidableEq Thread]

/-! ### The mark covers the offset -/

/-- A change of one thread's call keeps the mark above the offset, if the thread's call was not to
raise it or the new call is. -/
theorem MarkCovers.setCall {s : ArenaState Thread} (hcovers : s.MarkCovers) {thread : Thread}
    {call : Option ArenaCall}
    (hkeep : (s.calls thread).any (ArenaCall.raises s.used) = true →
      call.any (ArenaCall.raises s.used) = true) :
    (s.setCall thread call).MarkCovers :=
  hcovers.imp id (CallTable.exists_any_update hkeep)

/-- A call that loads the mark has seen one at or above its end, and the offset below it, or it will
raise the mark. -/
theorem MarkCovers.loadMark {s : ArenaState Thread} (hcovers : s.MarkCovers) {thread : Thread}
    {call : ArenaCall} {aligned next : ℕ} (hcall : s.calls thread = some call)
    (hraises : call.raises s.used = true → s.used ≤ next) :
    (s.setCall thread (some (.raising aligned next s.highWaterMark))).MarkCovers := by
  by_cases hused : s.used ≤ s.highWaterMark
  · exact .inl hused
  · refine hcovers.setCall fun hold ↦ ?_
    rw [hcall, Option.any_some] at hold
    have hend : s.used ≤ next := hraises hold
    simp only [Option.any_some, ArenaCall.raises, decide_eq_true_eq]
    exact ⟨hend, by omega⟩

/-- A mark that is raised to an end above what the call had seen still covers the offset. -/
theorem MarkCovers.raise {s : ArenaState Thread} (hcovers : s.MarkCovers) {thread : Thread}
    {aligned next hw : ℕ} (hcall : s.calls thread = some (.raising aligned next hw))
    (hhigher : hw < next) (hmark : s.highWaterMark = hw) :
    MarkCovers { s with
      arena := { s.arena with highWater := next }
      calls := Function.update s.calls thread none } := by
  by_cases hend : s.used ≤ next
  · exact .inl hend
  · rcases hcovers with hused | hpending
    · exact absurd (hused.trans (hmark.trans_lt hhigher).le) hend
    · refine .inr (CallTable.exists_any_update (fun hold ↦ ?_) hpending)
      simp only [hcall, Option.any_some, ArenaCall.raises, decide_eq_true_eq] at hold
      exact absurd hold.1 hend

/-- The next step of a call keeps the mark above the offset, one case for each point the call may be
at. -/
theorem MarkCovers.advance {s : ArenaState Thread} (hcovers : s.MarkCovers) {thread : Thread}
    {spurious : Bool} {call : ArenaCall} (hcall : s.calls thread = some call)
    (hguard : s.StoresCurrent (.advance thread spurious)) :
    (s.advance thread spurious call).MarkCovers := by
  cases call with
  | loaded size alignment current =>
    simp only [ArenaState.advance]
    split_ifs <;> exact hcovers.setCall (by simp [hcall, ArenaCall.raises])
  | claiming size alignment current aligned next =>
    simp only [ArenaState.advance]
    split_ifs with hexchange
    · -- The call that has moved the offset will raise the mark to it.
      exact .inr ⟨thread, by simp [ArenaCall.raises, used]⟩
    · exact hcovers.setCall (by simp [hcall, ArenaCall.raises])
  | granted aligned next => exact hcovers.loadMark hcall (by simp [ArenaCall.raises])
  | raising aligned next hw =>
    simp only [ArenaState.advance]
    split_ifs with hdone hexchange
    · refine hcovers.setCall fun hold ↦ ?_
      simp only [hcall, Option.any_some, ArenaCall.raises, decide_eq_true_eq] at hold
      omega
    · exact hcovers.raise hcall (Nat.not_le.mp hdone) hexchange.1
    · exact hcovers.loadMark hcall (by simp +contextual [ArenaCall.raises])
  | lowering offset =>
    simp only [StoresCurrent, hcall] at hguard
    exact hguard.imp id (CallTable.exists_any_update (by simp [hcall, ArenaCall.raises]))

/-- Every step that stores no passed offset keeps the mark above the offset. -/
theorem MarkCovers.step {s next : ArenaState Thread} (hcovers : s.MarkCovers)
    {action : ArenaAction Thread} (hguard : s.StoresCurrent action)
    (hstep : s.step action = some next) : next.MarkCovers := by
  cases stepped_of_step hstep with
  | refused thread alignment => exact hcovers
  | allocates hidle => exact hcovers.setCall (by simp [hidle])
  | lowers hidle => exact hcovers.setCall (by simp [hidle])
  | advances hcall => exact hcovers.advance hcall hguard
  | resets => exact .inl (Nat.zero_le _)

/-- A step that stores a passed offset, with no call left to raise the mark, leaves the mark below
the offset. -/
theorem lt_of_not_storesCurrent {s next : ArenaState Thread} {action : ArenaAction Thread}
    (hguard : ¬ s.StoresCurrent action) (hstep : s.step action = some next) :
    next.highWaterMark < next.used := by
  cases stepped_of_step hstep with
  | @advances thread spurious call hcall =>
    cases call with
    | lowering offset =>
      simp only [StoresCurrent, hcall, not_or, Nat.not_le] at hguard
      exact hguard.1
    | _ => simp [StoresCurrent, hcall] at hguard
  | _ => simp [StoresCurrent] at hguard

/-! ### The mark and the largest offset -/

theorem Within.setCall {bound : ℕ} {s : ArenaState Thread} (hwithin : s.Within bound)
    {thread : Thread} {call : Option ArenaCall}
    (hcall : ∀ new, call = some new → new.toStore ≤ bound) :
    (s.setCall thread call).Within bound where
  used_le := hwithin.used_le
  mark_le := hwithin.mark_le
  calls := CallTable.Forall.update (fun other old _ hold ↦ hwithin.calls other old hold) hcall

/-- A store to the mark of what the call holds stays within the bound. -/
theorem Within.store {bound : ℕ} {s : ArenaState Thread} (hwithin : s.Within bound)
    {thread : Thread} {mark : ℕ} (hmark : mark ≤ bound) :
    Within bound { s with
      arena := { s.arena with highWater := mark }
      calls := Function.update s.calls thread none } where
  used_le := hwithin.used_le
  mark_le := hmark
  calls := (hwithin.setCall (by simp) : (s.setCall thread none).Within bound).calls

/-- The next step of a call stays within a bound on the offset. -/
theorem Within.advance {bound : ℕ} {s : ArenaState Thread} (hwithin : s.Within bound)
    {thread : Thread} {spurious : Bool} {call : ArenaCall} (hcall : s.calls thread = some call)
    (hused : (s.advance thread spurious call).used ≤ bound) :
    (s.advance thread spurious call).Within bound := by
  have hheld : call.toStore ≤ bound := hwithin.calls thread call hcall
  cases call with
  | loaded size alignment current =>
    simp only [ArenaState.advance]
    split_ifs <;> exact hwithin.setCall (by simp [ArenaCall.toStore])
  | claiming size alignment current aligned next =>
    simp only [ArenaState.advance] at hused ⊢
    split_ifs at hused ⊢ with hexchange
    · -- The end of the memory taken is the offset from now on.
      exact
        { used_le := hused
          mark_le := hwithin.mark_le
          calls := CallTable.Forall.update (fun other old _ hold ↦ hwithin.calls other old hold)
            (by rintro _ ⟨⟩; exact hused) }
    · exact hwithin.setCall (by simp [ArenaCall.toStore])
  | granted aligned next => exact hwithin.setCall (by rintro _ ⟨⟩; exact hheld)
  | raising aligned next hw =>
    simp only [ArenaState.advance]
    split_ifs
    · exact hwithin.setCall (by simp)
    · exact hwithin.store hheld
    · exact hwithin.setCall (by rintro _ ⟨⟩; exact hheld)
  | lowering offset => exact hwithin.store hheld

/-- Every step stays within a bound on the offset. -/
theorem Within.step {bound : ℕ} {s next : ArenaState Thread} (hwithin : s.Within bound)
    {action : ArenaAction Thread} (hstep : s.step action = some next) (hused : next.used ≤ bound) :
    next.Within bound := by
  cases stepped_of_step hstep with
  | refused thread alignment => exact hwithin
  | allocates hidle => exact hwithin.setCall (by simp [ArenaCall.toStore])
  | lowers hidle => exact hwithin.setCall (by rintro _ ⟨⟩; exact hwithin.used_le)
  | advances hcall => exact hwithin.advance hcall hused
  | resets => exact ⟨hused, hwithin.mark_le, hwithin.calls⟩

/-- In every run the offset, the mark and what calls may store in it stay within the largest offset
so far. -/
theorem within_peak {capacityBytes : UInt64}
    {guard : Peaked (ArenaState Thread) ℕ → ArenaAction Thread → Prop}
    {s : Peaked (ArenaState Thread) ℕ}
    (hreach : (system.peaked used).Reaches guard (.start used (new capacityBytes)) s) :
    s.state.Within s.peak := by
  refine hreach.peak_invariant ?_ ?_ ?_
  · exact ⟨le_rfl, le_rfl, CallTable.forall_idle _⟩
  · intro low high state hle hwithin
    exact ⟨hwithin.used_le.trans hle, hwithin.mark_le.trans hle,
      fun thread call hcall ↦ (hwithin.calls thread call hcall).trans hle⟩
  · intro bound state action next hwithin hstep hused
    exact hwithin.step hstep hused

end ArenaState

open ArenaState

/-- One thread starts `reset_high_water` and loads the offset of a new arena; another allocates 16
bytes, which moves the offset and raises the mark; the first thread stores what it loaded. No call
is in progress, and the mark is zero with 16 bytes used. -/
theorem high_water_mark_fails : ∃ s : Peaked (ArenaState (Fin 2)) ℕ,
    (ArenaState.system.peaked used).Reaches (fun s action ↦ s.state.noWrap action = true)
      (.start used (.new 4096)) s ∧
    s.state.Quiet ∧ s.state.used = 16 ∧ s.state.highWaterMark = 0 ∧
    ¬ s.state.used ≤ s.state.highWaterMark := by
  obtain ⟨s, hreach, htest⟩ := TransitionSystem.Reaches.exists_of_any
    (ArenaState.system.peaked used) (.start used (.new 4096) : Peaked (ArenaState (Fin 2)) ℕ)
    [.resetHighWater 0, .allocate 1 16 16, .advance 1 false, .advance 1 false, .advance 1 false,
      .advance 1 false, .advance 0 false]
    (fun s action ↦ s.state.noWrap action)
    (fun s ↦ (∀ thread, (s.state.calls thread).isNone) ∧ s.state.used = 16 ∧
      s.state.highWaterMark = 0)
    (fun _ _ hguard ↦ hguard) (by decide) (by decide)
  obtain ⟨hquiet, hused, hmark⟩ := of_decide_eq_true htest
  have hidle : s.state.Quiet := fun thread ↦ Option.isNone_iff_eq_none.mp (hquiet thread)
  exact ⟨s, hreach, hidle, hused, hmark, by omega⟩

/-- In every run of `allocate`, `reset` and `reset_high_water` calls of any number of threads in
which `reset_high_water` stores no offset that has been passed since it was loaded, or a call has
yet to raise the mark to the present one: the mark is at least what is used whenever no call is in
progress, and it is at most the largest value that has been used since construction. The condition
is exact for the step that ends the last call in progress. -/
theorem high_water_mark {Thread : Type} [DecidableEq Thread] {capacityBytes : UInt64}
    {s : Peaked (ArenaState Thread) ℕ}
    (hreach : (ArenaState.system.peaked used).Reaches
      (fun s action ↦ s.state.StoresCurrent action) (.start used (.new capacityBytes)) s) :
    (s.state.Quiet → s.state.used ≤ s.state.highWaterMark) ∧ s.state.highWaterMark ≤ s.peak ∧
    ∀ action next, s.state.step action = some next → next.Quiet →
      (next.used ≤ next.highWaterMark ↔ s.state.StoresCurrent action) := by
  have hcovers : s.state.MarkCovers := hreach.forgetPeak.invariant (.inl le_rfl)
    fun _ _ _ hcovers hguard hstep ↦ hcovers.step hguard hstep
  refine ⟨hcovers.used_le, (within_peak hreach).mark_le, fun action next hstep hquiet ↦ ?_⟩
  constructor
  · intro hused
    by_contra hguard
    exact absurd hused (Nat.not_le.mpr (lt_of_not_storesCurrent hguard hstep))
  · intro hguard
    exact (hcovers.step hguard hstep).used_le hquiet

/-- The theorem at two threads whose calls overlap: the second loads an offset of 32, the arena is
reset, and the first allocates 16 bytes before the second stores the 32. -/
theorem high_water_mark_overlapping : ∃ s : Peaked (ArenaState (Fin 2)) ℕ,
    s.state.Quiet ∧ s.state.used = 16 ∧ s.state.used ≤ s.state.highWaterMark ∧
      s.state.highWaterMark ≤ s.peak := by
  obtain ⟨s, hreach, htest⟩ := TransitionSystem.Reaches.exists_of_any
    (ArenaState.system.peaked used) (.start used (.new 4096) : Peaked (ArenaState (Fin 2)) ℕ)
    [.allocate 0 32 16, .advance 0 false, .advance 0 false, .advance 0 false, .advance 0 false,
      .resetHighWater 1, .reset, .allocate 0 16 16, .advance 0 false, .advance 0 false,
      .advance 1 false, .advance 0 false, .advance 0 false]
    (fun s action ↦ s.state.StoresCurrent action)
    (fun s ↦ (∀ thread, (s.state.calls thread).isNone) ∧ s.state.used = 16)
    (fun _ _ hguard ↦ of_decide_eq_true hguard) (by decide) (by decide)
  obtain ⟨hquiet, hused⟩ := of_decide_eq_true htest
  have hidle : s.state.Quiet := fun thread ↦ Option.isNone_iff_eq_none.mp (hquiet thread)
  exact ⟨s, hidle, hused, (high_water_mark hreach).1 hidle, (high_water_mark hreach).2.1⟩

end GameEngine.Core
