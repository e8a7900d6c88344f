import GameEngine.Core.LinearArena
import GameEngine.Core.PoolCalls

/-!
# The alignment of addresses

`LinearArenaAllocator` and `StackAllocator` round the offset in their buffer up to the requested
alignment, and get the buffer itself with the alignment of a cache line. An address is the buffer
plus an offset. `aligned_iff` says when it is a multiple of the requested alignment: if and only if
the address of the buffer is one, which it always is up to the size of a cache line. The addresses
of a `PoolAllocator`, which passes its alignment on to the system, are always multiples of it.

`ArenaGrants` is an arena in use with the addresses it has granted, `StackUse` a `StackAllocator`
with those it has returned, each with the alignment that was requested. Nothing is assumed about the
sizes of the requests, so that a rounded offset or an end may have wrapped.
-/

set_option autoImplicit false
set_option relaxedAutoImplicit false

namespace GameEngine.Core

open GameEngine.Library GameEngine.Library.MachineWord

/-- The address of an offset in a buffer. -/
def addressAt (buffer offset : ℕ) : ℕ := addMod word64 buffer offset

/-- An address that an allocator has returned, with the alignment that was requested. -/
structure Grant where
  alignment : UInt64
  address : ℕ
deriving DecidableEq

/-- The address is at an offset that has been rounded up to the requested alignment. -/
def Grant.Rounded (buffer : ℕ) (grant : Grant) : Prop :=
  ∃ current, grant.address = addressAt buffer (alignedFor current grant.alignment)

/-- An address at a rounded offset is a multiple of the alignment if and only if the buffer is. -/
theorem Grant.Rounded.dvd_iff {buffer : ℕ} {grant : Grant} (hrounded : grant.Rounded buffer)
    (hpow : isPow2 grant.alignment.toNat = true) (hmin : 16 ≤ grant.alignment.toNat) :
    grant.alignment.toNat ∣ grant.address ↔ grant.alignment.toNat ∣ buffer := by
  obtain ⟨current, haddress⟩ := hrounded
  have hlt : grant.alignment.toNat < word64 := grant.alignment.toNat_lt
  have hoffset : grant.alignment.toNat ∣ alignedFor current grant.alignment := by
    unfold alignedFor
    rw [normalizeAlign_eq hpow hmin]
    exact dvd_alignUp _ hpow hlt
  rw [haddress, addressAt, addMod, Nat.dvd_mod_iff (dvd_word64 hpow hlt)]
  exact (Nat.dvd_add_iff_left hoffset).symm

/-! ### The arena -/

/-- An arena in use with the addresses it has granted, newest first. -/
structure ArenaGrants (Thread : Type) where
  state : ArenaState Thread
  granted : List Grant

namespace ArenaGrants

variable {Thread : Type}

/-- A new arena. -/
def new (capacityBytes : UInt64) : ArenaGrants Thread := ⟨.new capacityBytes, []⟩

/-- The address that a compare-exchange of `allocate` takes. -/
def granting (buffer : ℕ) (s : ArenaState Thread) : ArenaAction Thread → List Grant
  | .advance thread spurious =>
    match s.calls thread with
    | some (.claiming _ alignment current aligned _) =>
      if s.arena.offset = current ∧ spurious = false then
        [⟨alignment, addressAt buffer aligned⟩]
      else []
    | _ => []
  | _ => []

variable [DecidableEq Thread]

/-- An arena over a buffer as a transition system. -/
def system (buffer : ℕ) : TransitionSystem (ArenaGrants Thread) (ArenaAction Thread) where
  step arena action := (arena.state.step action).map fun next ↦
    ⟨next, granting buffer arena.state action ++ arena.granted⟩

/-- The offset that a call is about to take has been rounded up. -/
def CallRounded : ArenaCall → Prop
  | .claiming _ alignment current aligned _ => aligned = alignedFor current alignment
  | _ => True

omit [DecidableEq Thread] in
theorem calls_new (capacityBytes : UInt64) :
    (ArenaState.new capacityBytes : ArenaState Thread).calls.Forall fun _ call ↦ CallRounded call :=
  CallTable.forall_idle _

/-- A step changes the call of at most one thread, to one that has rounded its offset up. -/
theorem callRounded_step {s next : ArenaState Thread} {action : ArenaAction Thread}
    (hcalls : s.calls.Forall fun _ call ↦ CallRounded call) (hstep : s.step action = some next) :
    next.calls.Forall fun _ call ↦ CallRounded call := by
  have hset : ∀ thread call, (∀ new, call = some new → CallRounded new) →
      CallTable.Forall (Function.update s.calls thread call) fun _ call ↦ CallRounded call :=
    fun thread call hcall ↦
      CallTable.Forall.update (fun other old _ hold ↦ hcalls other old hold) hcall
  cases ArenaState.stepped_of_step hstep with
  | refused thread alignment => exact hcalls
  | allocates hidle => exact hset _ _ (by rintro _ ⟨⟩; trivial)
  | lowers hidle => exact hset _ _ (by rintro _ ⟨⟩; trivial)
  | @advances thread spurious call hcall =>
    cases call with
    | loaded size alignment current =>
      simp only [ArenaState.advance]
      split_ifs
      · exact hset thread _ (by simp)
      · exact hset thread _ (by rintro _ ⟨⟩; rfl)
    | claiming size alignment current aligned next =>
      simp only [ArenaState.advance]
      split_ifs
      · exact hset thread _ (by rintro _ ⟨⟩; trivial)
      · exact hset thread _ (by rintro _ ⟨⟩; trivial)
    | granted aligned next => exact hset thread _ (by rintro _ ⟨⟩; trivial)
    | raising aligned next hw =>
      simp only [ArenaState.advance]
      split_ifs
      · exact hset thread _ (by simp)
      · exact hset thread _ (by simp)
      · exact hset thread _ (by rintro _ ⟨⟩; trivial)
    | lowering offset => exact hset thread _ (by simp)
  | resets => exact hcalls

omit [DecidableEq Thread] in
/-- What a step grants is at a rounded offset. -/
theorem rounded_granting {buffer : ℕ} {s : ArenaState Thread} {action : ArenaAction Thread}
    (hcalls : s.calls.Forall fun _ call ↦ CallRounded call) {grant : Grant}
    (hgrant : grant ∈ granting buffer s action) : grant.Rounded buffer := by
  unfold granting at hgrant
  split at hgrant
  · split at hgrant
    · rename_i hcall
      split_ifs at hgrant
      · obtain rfl := List.mem_singleton.mp hgrant
        exact ⟨_, congrArg (addressAt buffer) (hcalls _ _ hcall)⟩
      · simp at hgrant
    · simp at hgrant
  · simp at hgrant

/-- Everything that an arena grants in a run is at a rounded offset. -/
theorem rounded_of_reaches {buffer : ℕ} {capacityBytes : UInt64} {arena : ArenaGrants Thread}
    (hreach : (system buffer).Reaches TransitionSystem.unguarded (new capacityBytes) arena) :
    ∀ grant ∈ arena.granted, grant.Rounded buffer := by
  have hinvariant : (arena.state.calls.Forall fun _ call ↦ CallRounded call) ∧
      ∀ grant ∈ arena.granted, grant.Rounded buffer := by
    refine hreach.invariant ⟨calls_new _, by simp [new]⟩ ?_
    rintro arena action next ⟨hcalls, hgranted⟩ - hstep
    simp only [system, Option.map_eq_some_iff] at hstep
    obtain ⟨state, hstate, rfl⟩ := hstep
    refine ⟨callRounded_step hcalls hstate, fun grant hgrant ↦ ?_⟩
    rcases List.mem_append.mp hgrant with hnew | hold
    · exact rounded_granting hcalls hnew
    · exact hgranted grant hold
  exact hinvariant.2

end ArenaGrants

/-! ### The stack -/

/-- `StackAllocator`. -/
structure StackAllocator where
  buffer : ℕ
  capacity : ℕ
  offset : ℕ

namespace StackAllocator

/-- The constructor, where the system has returned `buffer`. -/
def new (buffer : ℕ) (capacityBytes : UInt64) : StackAllocator where
  buffer := buffer
  capacity := alignUp (if capacityBytes = 0 then 64 else capacityBytes.toNat) 64
  offset := 0

/-- `allocate`. -/
def allocate (stack : StackAllocator) (size alignment : UInt64) : StackAllocator × Option ℕ :=
  if size = 0 then (stack, none)
  else
    let aligned := alignedFor stack.offset alignment
    let next := nextFor stack.offset size alignment
    if next > stack.capacity then (stack, none)
    else ({ stack with offset := next }, some (addressAt stack.buffer aligned))

/-- `rewind`. -/
def rewind (stack : StackAllocator) (marker : ℕ) : StackAllocator :=
  if marker ≤ stack.offset then { stack with offset := marker } else stack

/-- `reset`. -/
def reset (stack : StackAllocator) : StackAllocator := { stack with offset := 0 }

/-- What `allocate` does to the buffer, and which address it returns. -/
theorem allocate_spec (stack : StackAllocator) (size alignment : UInt64) :
    (stack.allocate size alignment).1.buffer = stack.buffer ∧
      ∀ address, (stack.allocate size alignment).2 = some address →
        address = addressAt stack.buffer (alignedFor stack.offset alignment) := by
  unfold allocate
  dsimp only
  split_ifs
  · exact ⟨rfl, by simp⟩
  · exact ⟨rfl, by simp⟩
  · exact ⟨rfl, by rintro _ ⟨⟩; rfl⟩

end StackAllocator

/-- A call to a stack. A marker may be any number: its field is public. -/
inductive StackCall
  | allocate (size alignment : UInt64)
  | rewind (marker : ℕ)
  | reset

/-- A stack in use with the addresses it has returned, newest first. -/
structure StackUse where
  stack : StackAllocator
  returned : List Grant

namespace StackUse

/-- A new stack. -/
def new (buffer : ℕ) (capacityBytes : UInt64) : StackUse := ⟨.new buffer capacityBytes, []⟩

/-- A call. -/
def perform (use : StackUse) : StackCall → StackUse
  | .allocate size alignment =>
    let (stack, address) := use.stack.allocate size alignment
    ⟨stack, (address.map (⟨alignment, ·⟩)).toList ++ use.returned⟩
  | .rewind marker => { use with stack := use.stack.rewind marker }
  | .reset => { use with stack := use.stack.reset }

/-- A stack as a transition system. -/
def system : TransitionSystem StackUse StackCall := ⟨fun use call ↦ some (use.perform call)⟩

/-- The buffer stays, and every returned address is at a rounded offset. -/
structure Sound (buffer : ℕ) (use : StackUse) : Prop where
  buffer_eq : use.stack.buffer = buffer
  rounded : ∀ grant ∈ use.returned, grant.Rounded buffer

theorem Sound.perform {buffer : ℕ} {use : StackUse} (hsound : use.Sound buffer)
    (call : StackCall) : (use.perform call).Sound buffer := by
  obtain ⟨rfl, hrounded⟩ := hsound
  cases call with
  | allocate size alignment =>
    obtain ⟨hbuffer, haddress⟩ := use.stack.allocate_spec size alignment
    refine ⟨hbuffer, fun grant hgrant ↦ ?_⟩
    rcases List.mem_append.mp hgrant with hnew | hold
    · obtain ⟨address, hreturned, rfl⟩ := Option.map_eq_some_iff.mp (Option.mem_toList.mp hnew)
      exact ⟨use.stack.offset, haddress address hreturned⟩
    · exact hrounded grant hold
  | rewind marker =>
    refine ⟨?_, hrounded⟩
    unfold StackUse.perform StackAllocator.rewind
    dsimp only
    split_ifs <;> rfl
  | reset => exact ⟨rfl, hrounded⟩

end StackUse

/-! ### The pool -/

/-- Every address that a pool has returned is the address of a block. -/
def ReturnsBlocks {Thread : Type} (layout : PoolLayout) (s : PoolState Thread) : Prop :=
  ∀ thread ptr, (thread, some ptr) ∈ s.results → ∃ index, ptr = layout.block index

/-- A step of a pool returns nothing, null, or the address of a block. -/
theorem ReturnsBlocks.step {Thread : Type} [DecidableEq Thread] {layout : PoolLayout}
    {s next : PoolState Thread} {action : PoolAction Thread} (hs : ReturnsBlocks layout s)
    (hstep : poolStep layout s action = some next) : ReturnsBlocks layout next := by
  have hobserve : ∀ reader, ReturnsBlocks layout (s.observe reader) := by
    intro reader
    unfold PoolState.observe
    split_ifs
    · intro thread ptr hmem
      rcases List.mem_cons.mp hmem with hnull | hold
      · simp at hnull
      · exact hs thread ptr hold
    · exact hs
  cases action with
  | allocate reader =>
    simp only [poolStep, Option.ite_none_left_eq_some, Option.some.injEq] at hstep
    exact hstep.2 ▸ hobserve reader
  | deallocate reader ptr =>
    simp only [poolStep, Option.ite_none_left_eq_some, Option.some.injEq] at hstep
    obtain ⟨-, rfl⟩ := hstep
    unfold PoolState.startDeallocate
    split_ifs <;> exact hs
  | advance reader spurious =>
    simp only [poolStep, Option.map_eq_some_iff] at hstep
    obtain ⟨call, -, rfl⟩ := hstep
    cases call with
    | allocateRacing seen nxt readAt =>
      simp only [PoolState.advance]
      split_ifs
      · exact hs
      · exact hobserve reader
    | allocateCounting index =>
      intro thread ptr hmem
      rcases List.mem_cons.mp hmem with hnew | hold
      · exact ⟨index, Option.some.inj (Prod.mk.inj hnew).2⟩
      · exact hs thread ptr hold
    | deallocateRacing index seen readAt =>
      simp only [PoolState.advance]
      split_ifs <;> exact hs
    | _ => exact hs

/-- Every address of a block is a multiple of the alignment of the pool. -/
theorem PoolLayout.dvd_block {buffer blockSize blockCount : ℕ} {alignment : UInt64}
    (hcount : blockCountFor blockCount < word32)
    (hround : rawSize blockSize + (normalizeAlign alignment.toNat - 1) < word64)
    (hpos : 0 < buffer)
    (hfits : buffer + strideFor blockSize alignment.toNat * blockCountFor blockCount < word64)
    (hbuffer : normalizeAlign alignment.toNat ∣ buffer) (index : ℕ) :
    normalizeAlign alignment.toNat ∣ (create hcount hround hpos hfits).block index := by
  have hstride : normalizeAlign alignment.toNat ∣ strideFor blockSize alignment.toNat :=
    dvd_alignUp _ (isPow2_normalizeAlign _) (normalizeAlign_lt alignment)
  exact Nat.dvd_add hbuffer (hstride.mul_left index)

/-- For an arena and a stack whose buffer the system returns with the alignment of a cache line:
every address that they grant or return in a run, for a requested alignment that is a power of two
from 16 on, is a multiple of the requested alignment if and only if the buffer is, and up to the
size of a cache line it is. For a pool whose buffer the system returns with the alignment of the
pool: every address it returns is a multiple of that alignment, whatever its arguments and its words
are, and also between the steps of concurrent calls. -/
theorem aligned_iff {buffer : ℕ} (hbuffer : kCacheLineAlign ∣ buffer) :
    (∀ alignment : UInt64, isPow2 alignment.toNat = true → alignment.toNat ≤ kCacheLineAlign →
      alignment.toNat ∣ buffer) ∧
    (∀ (Thread : Type) [DecidableEq Thread] (capacityBytes : UInt64) (arena : ArenaGrants Thread),
      (ArenaGrants.system buffer).Reaches TransitionSystem.unguarded (.new capacityBytes) arena →
      ∀ grant ∈ arena.granted, isPow2 grant.alignment.toNat = true → 16 ≤ grant.alignment.toNat →
        (grant.alignment.toNat ∣ grant.address ↔ grant.alignment.toNat ∣ buffer)) ∧
    (∀ (capacityBytes : UInt64) (use : StackUse),
      StackUse.system.Reaches TransitionSystem.unguarded (.new buffer capacityBytes) use →
      ∀ grant ∈ use.returned, isPow2 grant.alignment.toNat = true → 16 ≤ grant.alignment.toNat →
        (grant.alignment.toNat ∣ grant.address ↔ grant.alignment.toNat ∣ buffer)) ∧
    ∀ (poolBuffer blockSize blockCount : ℕ) (alignment : UInt64),
      normalizeAlign alignment.toNat ∣ poolBuffer →
        (∀ (pool : PoolAllocator) (address : ℕ),
          (pool.allocate (.create poolBuffer blockSize blockCount alignment.toNat)).2 =
            some address → normalizeAlign alignment.toNat ∣ address) ∧
        ∀ (Thread : Type) [DecidableEq Thread] hcount hround hpos hfits (s : PoolState Thread),
          let layout := @PoolLayout.create poolBuffer blockSize blockCount alignment.toNat
            hcount hround hpos hfits
          (poolSystem layout).Reaches TransitionSystem.unguarded (.initial layout) s →
            ∀ thread address, (thread, some address) ∈ s.results →
              normalizeAlign alignment.toNat ∣ address := by
  refine ⟨fun alignment hpow hle ↦ ?_, fun Thread _ capacityBytes arena hreach grant hgrant ↦ ?_,
    fun capacityBytes use hreach grant hgrant ↦ ?_,
    fun poolBuffer blockSize blockCount alignment haligned ↦
      ⟨fun pool address hreturned ↦ ?_, ?_⟩⟩
  · obtain ⟨k, hk⟩ := isPow2_iff.mp hpow
    have hline : kCacheLineAlign = 2 ^ 6 := rfl
    rw [hk, hline] at hle
    have hdvd : 2 ^ k ∣ 2 ^ 6 := Nat.pow_dvd_pow 2 ((Nat.pow_le_pow_iff_right (by decide)).mp hle)
    rw [hk]
    exact (hline ▸ hdvd).trans hbuffer
  · exact (ArenaGrants.rounded_of_reaches hreach grant hgrant).dvd_iff
  · have hsound : use.Sound buffer := hreach.invariant ⟨rfl, by simp [StackUse.new]⟩
      fun _ call _ hstate _ hstep ↦ Option.some.inj hstep ▸ hstate.perform call
    exact (hsound.rounded grant hgrant).dvd_iff
  · unfold PoolAllocator.allocate at hreturned
    dsimp only at hreturned
    split_ifs at hreturned
    rw [← Option.some.inj hreturned]
    exact PoolShape.dvd_block _ _ haligned _
  · intro Thread _ hcount hround hpos hfits s layout hreach thread address hreturned
    have hresults : ReturnsBlocks layout s := hreach.invariant
      (by simp [ReturnsBlocks, PoolState.initial]) fun _ _ _ hstate _ hstep ↦ hstate.step hstep
    obtain ⟨index, rfl⟩ := hresults thread address hreturned
    exact PoolLayout.dvd_block hcount hround hpos hfits haligned index

/-- The theorem at a buffer at 192: of two grants to two threads, one asks for 64, which divides
192, and one for 128, which does not. -/
theorem aligned_iff_shared : ∃ arena : ArenaGrants (Fin 2),
    arena.granted = [⟨128, 320⟩, ⟨64, 192⟩] ∧ 64 ∣ 192 ∧ ¬ 128 ∣ 320 := by
  obtain ⟨arena, hreach, htest⟩ := TransitionSystem.Reaches.exists_of_schedule
    (ArenaGrants.system 192) (.new 4096 : ArenaGrants (Fin 2))
    [.allocate 0 16 64, .advance 0 false, .allocate 1 16 128, .advance 1 false, .advance 0 false,
      .advance 1 false, .advance 1 false, .advance 1 false]
    (fun arena ↦ arena.granted = [⟨128, 320⟩, ⟨64, 192⟩]) (by decide)
  have hgranted := of_decide_eq_true htest
  have hiff := (aligned_iff (by decide)).2.1 (Fin 2) 4096 arena hreach
  rw [hgranted] at hiff
  refine ⟨arena, hgranted, ?_, ?_⟩
  · exact (hiff ⟨64, 192⟩ (by decide) (by decide) (by decide)).mpr (by decide)
  · exact fun hdvd ↦
      absurd ((hiff ⟨128, 320⟩ (by decide) (by decide) (by decide)).mp hdvd) (by decide)

/-- A buffer at 64 has the alignment of a cache line, and the first address that an arena or a stack
over it returns for an alignment of 128 is 64. -/
theorem large_alignment_missed :
    kCacheLineAlign ∣ 64 ∧ isPow2 128 = true ∧ ¬ 128 ∣ 64 ∧
      (∃ arena : ArenaGrants Unit, (ArenaGrants.system 64).Reaches TransitionSystem.unguarded
        (.new 4096) arena ∧ arena.granted = [⟨128, 64⟩]) ∧
      ∃ use, StackUse.system.Reaches TransitionSystem.unguarded (.new 64 4096) use ∧
        use.returned = [⟨128, 64⟩] := by
  obtain ⟨arena, harena, hgranted⟩ := TransitionSystem.Reaches.exists_of_schedule
    (ArenaGrants.system 64) (.new 4096 : ArenaGrants Unit)
    [.allocate () 16 128, .advance () false, .advance () false]
    (fun arena ↦ arena.granted = [⟨128, 64⟩]) (by decide)
  obtain ⟨use, huse, hreturned⟩ := TransitionSystem.Reaches.exists_of_schedule StackUse.system
    (.new 64 4096) [.allocate 16 128] (fun use ↦ use.returned = [⟨128, 64⟩]) (by decide)
  exact ⟨by decide, by decide, by decide, ⟨arena, harena, of_decide_eq_true hgranted⟩, use, huse,
    of_decide_eq_true hreturned⟩

end GameEngine.Core
