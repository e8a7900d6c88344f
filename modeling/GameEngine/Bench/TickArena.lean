import GameEngine.Core.LinearArena
import GameEngine.Core.PoolConstruction

/-!
# The arena of a tick

Every tick of the benchmark resets the frame arena and asks it for the memory of its state, of two
vectors and of a matrix. If one of the requests is refused the tick ends there. `tickMemory` is this
part of `run_ticks`, with `request` for an `allocate` call that no other call disturbs
(`execute_request`). `tickMemory_new` says for which `--arena-bytes` the ticks get their memory.
-/

set_option autoImplicit false
set_option relaxedAutoImplicit false

namespace GameEngine.Core

open GameEngine.Library GameEngine.Library.MachineWord

namespace LinearArenaAllocator

/-- An `allocate` that no other call disturbs: the arena after it, and the address if there is
room. -/
def request (arena : LinearArenaAllocator) (size alignment : UInt64) :
    LinearArenaAllocator × Option ℕ :=
  let next := nextFor arena.offset size alignment
  if size = 0 ∨ arena.capacity < next then (arena, none)
  else
    ({ arena with offset := next, highWater := max arena.highWater next },
      some (alignedFor arena.offset alignment))

/-- `reset`. -/
def reset (arena : LinearArenaAllocator) : LinearArenaAllocator := { arena with offset := 0 }

@[simp]
theorem capacity_request (arena : LinearArenaAllocator) (size alignment : UInt64) :
    (arena.request size alignment).1.capacity = arena.capacity := by
  unfold request
  dsimp only
  split_ifs <;> rfl

/-- A request whose end is known. -/
theorem request_eq {capacity offset highWater next : ℕ} {size alignment : UInt64}
    (hsize : size ≠ 0) (hnext : nextFor offset size alignment = next) :
    (LinearArenaAllocator.mk capacity offset highWater).request size alignment =
      if capacity < next then (⟨capacity, offset, highWater⟩, none)
      else (⟨capacity, next, max highWater next⟩, some (alignedFor offset alignment)) := by
  rw [request]
  dsimp only
  rw [hnext]
  exact if_congr (by simp [hsize]) rfl rfl

end LinearArenaAllocator

section Calls

variable {Thread : Type} [DecidableEq Thread] {s : ArenaState Thread} {thread : Thread}

theorem ArenaState.step_advance {call : ArenaCall} (hcall : s.calls thread = some call) :
    system.step s (.advance thread false) = some (s.advance thread false call) :=
  congrArg (Option.map _) hcall

@[simp]
theorem ArenaState.calls_setCall (s : ArenaState Thread) (thread : Thread)
    (call : Option ArenaCall) : (s.setCall thread call).calls thread = call := by
  simp [setCall]

/-- The last two steps of a call that has its memory raise the high-water mark. -/
theorem ArenaState.execute_granted {aligned next : ℕ}
    (hcall : s.calls thread = some (.granted aligned next)) :
    ∃ last, system.execute s [.advance thread false, .advance thread false] = some last ∧
      last.arena = { s.arena with highWater := max s.arena.highWater next } ∧
      last.calls thread = none := by
  rw [TransitionSystem.execute, step_advance hcall, Option.bind_some, advance,
    TransitionSystem.execute, step_advance (calls_setCall _ _ _)]
  refine ⟨_, rfl, ?_⟩
  rw [advance]
  split_ifs with hle hsame
  · rw [max_eq_left hle]
    exact ⟨rfl, calls_setCall _ _ _⟩
  · rw [max_eq_right (le_of_not_ge hle)]
    exact ⟨rfl, Function.update_self _ _ _⟩
  · exact absurd ⟨rfl, rfl⟩ hsame

/-- The two steps before them find room and take the memory. -/
theorem ArenaState.execute_loaded {size alignment : UInt64}
    (hcall : s.calls thread = some (.loaded size alignment s.arena.offset))
    (hroom : ¬s.arena.capacity < nextFor s.arena.offset size alignment) :
    ∃ granted, system.execute s [.advance thread false, .advance thread false] = some granted ∧
      granted.calls thread = some (.granted (alignedFor s.arena.offset alignment)
        (nextFor s.arena.offset size alignment)) ∧
      granted.arena = { s.arena with offset := nextFor s.arena.offset size alignment } := by
  rw [TransitionSystem.execute, step_advance hcall, Option.bind_some, advance, if_neg hroom,
    TransitionSystem.execute, step_advance (calls_setCall _ _ _)]
  refine ⟨_, rfl, ?_⟩
  rw [advance, if_pos ⟨rfl, rfl⟩]
  exact ⟨Function.update_self _ _ _, rfl⟩

/-- A request is what the steps of one call do when no other call takes a step between them. -/
theorem ArenaState.execute_request (hidle : s.calls thread = none) (size alignment : UInt64) :
    ∃ advances last, system.execute s (.allocate thread size alignment ::
        List.replicate advances (.advance thread false)) = some last ∧
      last.arena = (s.arena.request size alignment).1 ∧ last.calls thread = none := by
  have hstart : system.step s (.allocate thread size alignment) =
      if size = 0 then some s
      else some (s.setCall thread (some (.loaded size alignment s.arena.offset))) :=
    if_pos (by rw [hidle]; rfl)
  by_cases hsize : size = 0
  · refine ⟨0, s, ?_, ?_, hidle⟩
    · rw [TransitionSystem.execute, hstart, if_pos hsize]
      rfl
    · rw [LinearArenaAllocator.request, if_pos (.inl hsize)]
  rw [if_neg hsize] at hstart
  obtain ⟨loaded, hloaded⟩ : ∃ loaded, loaded =
      s.setCall thread (some (.loaded size alignment s.arena.offset)) := ⟨_, rfl⟩
  have harena : s.arena = loaded.arena := by
    rw [hloaded]
    rfl
  have hcall : loaded.calls thread = some (.loaded size alignment loaded.arena.offset) := by
    rw [← harena, hloaded, calls_setCall]
  rw [← hloaded] at hstart
  rw [harena]
  by_cases hroom : loaded.arena.capacity < nextFor loaded.arena.offset size alignment
  · refine ⟨1, loaded.setCall thread none, ?_, ?_, calls_setCall _ _ _⟩
    · rw [List.replicate_one, TransitionSystem.execute, hstart, Option.bind_some,
        TransitionSystem.execute, step_advance hcall, advance, if_pos hroom]
      rfl
    · rw [LinearArenaAllocator.request, if_pos (.inr hroom)]
      rfl
  · obtain ⟨granted, hgranted, hcall', hclaimed⟩ := execute_loaded hcall hroom
    obtain ⟨last, hlast, hraised, hdone⟩ := execute_granted hcall'
    refine ⟨4, last, ?_, ?_, hdone⟩
    · change system.execute s (.allocate thread size alignment ::
        ([.advance thread false, .advance thread false] ++
          [.advance thread false, .advance thread false])) = _
      rw [TransitionSystem.execute, hstart, Option.bind_some, TransitionSystem.execute_append,
        hgranted, Option.bind_some, hlast]
    · rw [hraised, hclaimed, LinearArenaAllocator.request, if_neg (not_or.mpr ⟨hsize, hroom⟩)]

end Calls

end GameEngine.Core

namespace GameEngine.Bench

open GameEngine.Library GameEngine.Core MachineWord

/-! ### The memory of a tick -/

/-- The loop of `main` over the arena, from the given number of rounds on. A round that finds the
arena full resets it and asks again. -/
def arenaLoop : ℕ → LinearArenaAllocator → LinearArenaAllocator
  | 0, arena => arena
  | rounds + 1, arena =>
    match arena.request 32 16 with
    | (arena, none) => arenaLoop rounds (arena.reset.request 32 16).1
    | (arena, some _) => arenaLoop rounds arena

/-- The number of rounds of `main`. -/
def kArenaIters : ℕ := 200000

/-- The frame arena as the ticks find it. -/
def frameArena (arenaBytes : UInt64) : LinearArenaAllocator :=
  arenaLoop kArenaIters (.new arenaBytes)

/-- The first lines of a tick: `reset`, and the requests for `TickState` and for `x`, `y` and `w`;
and whether the tick goes on. -/
def tickMemory (arena : LinearArenaAllocator) : LinearArenaAllocator × Bool :=
  let (arena, st) := arena.reset.request 16 16
  if st.isNone then (arena, false)
  else
    let (arena, x) := arena.request 16 64
    let (arena, y) := arena.request 16 64
    let (arena, w) := arena.request 64 64
    (arena, x.isSome && y.isSome && w.isSome)

theorem capacity_tickMemory (arena : LinearArenaAllocator) :
    (tickMemory arena).1.capacity = arena.capacity := by
  unfold tickMemory
  dsimp only
  split_ifs <;> simp only [LinearArenaAllocator.capacity_request, LinearArenaAllocator.reset]

/-- A tick gets its memory if the arena has four cache lines. -/
theorem tickMemory_iff (arena : LinearArenaAllocator) :
    (tickMemory arena).2 = true ↔ 256 ≤ arena.capacity := by
  have hst : nextFor 0 16 16 = 16 := by decide
  have hx : nextFor 16 16 64 = 80 := by decide
  have hy : nextFor 80 16 64 = 144 := by decide
  have hw : nextFor 144 64 64 = 256 := by decide
  obtain ⟨capacity, offset, highWater⟩ := arena
  rw [tickMemory, LinearArenaAllocator.reset]
  dsimp only
  -- The first request that is refused decides, whatever the others are given.
  rw [LinearArenaAllocator.request_eq (by decide) hst]
  by_cases hstate : capacity < 16
  · simp only [if_pos hstate, Option.isNone_none, if_true, Bool.false_eq_true, false_iff]
    omega
  simp only [if_neg hstate, Option.isNone_some, Bool.false_eq_true, if_false]
  rw [LinearArenaAllocator.request_eq (by decide) hx]
  by_cases hfirst : capacity < 80
  · simp only [if_pos hfirst, Option.isSome_none, Bool.false_and, Bool.false_eq_true, false_iff]
    omega
  simp only [if_neg hfirst, Option.isSome_some, Bool.true_and]
  rw [LinearArenaAllocator.request_eq (by decide) hy]
  by_cases hsecond : capacity < 144
  · simp only [if_pos hsecond, Option.isSome_none, Bool.false_and, Bool.false_eq_true, false_iff]
    omega
  simp only [if_neg hsecond, Option.isSome_some, Bool.true_and]
  rw [LinearArenaAllocator.request_eq (by decide) hw]
  by_cases hmatrix : capacity < 256
  · simp only [if_pos hmatrix, Option.isSome_none, Bool.false_eq_true, false_iff]
    omega
  · simp only [if_neg hmatrix, Option.isSome_some, true_iff]
    omega

theorem capacity_arenaLoop (rounds : ℕ) (arena : LinearArenaAllocator) :
    (arenaLoop rounds arena).capacity = arena.capacity := by
  induction rounds generalizing arena with
  | zero => rfl
  | succ rounds ih =>
    have hfirst := arena.capacity_request 32 16
    rw [arenaLoop]
    split
    · next full hfull =>
      rw [ih, LinearArenaAllocator.capacity_request]
      rw [hfull] at hfirst
      exact hfirst
    · next taken address htaken =>
      rw [ih]
      rw [htaken] at hfirst
      exact hfirst

/-- The arena is large enough for the memory of a tick. Above the second bound its size wraps to
zero. -/
def HoldsTick (arenaBytes : UInt64) : Prop :=
  192 < arenaBytes.toNat ∧ arenaBytes.toNat ≤ 2 ^ 64 - 64

instance (arenaBytes : UInt64) : Decidable (HoldsTick arenaBytes) :=
  inferInstanceAs (Decidable (_ ∧ _))

/-- The capacity is the size rounded up to whole cache lines. -/
theorem le_capacity_frameArena (arenaBytes : UInt64) :
    256 ≤ (frameArena arenaBytes).capacity ↔ HoldsTick arenaBytes := by
  have hlt := arenaBytes.toNat_lt
  have hzero : arenaBytes = 0 ↔ arenaBytes.toNat = 0 := by
    rw [← UInt64.toNat_inj]
    rfl
  rw [frameArena, capacity_arenaLoop, LinearArenaAllocator.new]
  dsimp only
  rw [kCacheLineAlign, alignUp_eq _ (by decide) (by decide), addMod, HoldsTick]
  unfold word64
  split_ifs with hdefault
  · rw [hzero.mp hdefault]
    decide
  · omega

end GameEngine.Bench
