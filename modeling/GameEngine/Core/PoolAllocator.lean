import GameEngine.Library.CallTable
import GameEngine.Library.IndexChain
import GameEngine.Library.MachineWord
import GameEngine.Library.TransitionSystem
import Mathlib.Data.List.Nodup
import Mathlib.Data.Fintype.Basic

/-!
# The pool allocator

`PoolAllocator` hands out the blocks of one buffer. The free blocks form a linked list by index,
whose head is packed with a tag into one 64-bit word; every successful compare-exchange on the word
increments the tag. `PoolLayout` is what the constructor fixes, `PoolAllocator` what the calls
change. A call is a sequence of atomic steps; `PoolCall` says how far it has come and what it has
read.

`PoolState.Sound` says that the blocks are divided between the free list, the callers and the calls
in progress, and what a call in progress may rely on: if the head has not been updated since the
call read it, then what the call read is still so. The tag shows the compare-exchange that it has
not, as long as fewer than 2^32 updates have happened in between (`permitted`).
-/

set_option autoImplicit false
set_option relaxedAutoImplicit false

namespace GameEngine.Core

open GameEngine.Library GameEngine.Library.MachineWord GameEngine.Library.IndexChain

/-! ### Construction -/

/-- A power of two, by its bits. -/
def isPow2 (value : ℕ) : Bool := value != 0 && value &&& (value - 1) == 0

/-- Rounds up to a multiple of a power of two, in 64-bit words. -/
def alignUp (value alignment : ℕ) : ℕ :=
  addMod word64 value (alignment - 1) &&& (word64 - 1 - (alignment - 1))

/-- The alignment that is used for a requested one. -/
def normalizeAlign (alignment : ℕ) : ℕ :=
  let atLeast16 := if alignment < 16 then 16 else alignment
  if isPow2 atLeast16 then atLeast16 else 16

/-- The bytes a block needs: at least those of a 32-bit index. -/
def rawSize (blockSize : ℕ) : ℕ := if blockSize < 4 then 4 else blockSize

/-- The distance between two blocks that the constructor computes. -/
def strideFor (blockSize alignment : ℕ) : ℕ :=
  alignUp (rawSize blockSize) (normalizeAlign alignment)

/-- The number of blocks that the constructor uses for a requested one. -/
def blockCountFor (blockCount : ℕ) : ℕ := if blockCount = 0 then 1 else blockCount

/-- What the constructor fixes: the address of the buffer, the distance between two blocks and their
number. The buffer lies in the address space, and 32-bit indices tell the blocks apart. -/
structure PoolLayout where
  buffer : ℕ
  stride : ℕ
  blockCount : ℕ
  buffer_pos : 0 < buffer
  stride_pos : 0 < stride
  blockCount_pos : 0 < blockCount
  blockCount_lt : blockCount < word32
  fits : buffer + stride * blockCount < word64

/-- The rounded size is at least the size. -/
theorem le_alignUp {value alignment : ℕ} (hfit : value + (alignment - 1) < word64) :
    value ≤ alignUp value alignment := by
  have hsplit := @and_add_and_not 64 (value + (alignment - 1)) (alignment - 1) hfit
    (lt_of_le_of_lt (Nat.le_add_left _ _) hfit)
  have hmask := @Nat.and_le_right (value + (alignment - 1)) (alignment - 1)
  unfold alignUp addMod
  rw [Nat.mod_eq_of_lt hfit]
  change value ≤ (value + (alignment - 1)) &&& (2 ^ 64 - 1 - (alignment - 1))
  omega

/-- The layout of a pool. Assumes: the number of blocks is below 2^32, rounding the size of a block
up does not wrap, and the buffer of all blocks lies in the address space, behind null. -/
def PoolLayout.create {buffer blockSize blockCount alignment : ℕ}
    (hcount : blockCountFor blockCount < word32)
    (hround : rawSize blockSize + (normalizeAlign alignment - 1) < word64) (hbuffer : 0 < buffer)
    (hfits : buffer + strideFor blockSize alignment * blockCountFor blockCount < word64) :
    PoolLayout where
  buffer := buffer
  stride := strideFor blockSize alignment
  blockCount := blockCountFor blockCount
  buffer_pos := hbuffer
  stride_pos := by
    have hraw : 4 ≤ rawSize blockSize := by
      unfold rawSize
      split_ifs <;> omega
    exact lt_of_lt_of_le (by omega) (hraw.trans (le_alignUp hround))
  blockCount_pos := by
    unfold blockCountFor
    split_ifs <;> omega
  blockCount_lt := hcount
  fits := hfits

/-- The index that ends the free list. -/
def kNullIndex : ℕ := 0xffffffff

/-- The head word of an index and a tag. -/
def pack (index tag : ℕ) : ℕ := tag <<< 32 ||| index

/-- The index in a head word. -/
def unpackIndex (word : ℕ) : ℕ := word % word32

/-- The tag in a head word. -/
def unpackTag (word : ℕ) : ℕ := (word >>> 32) % word32

/-- What the calls change. -/
structure PoolAllocator where
  nextIndex : ℕ → ℕ
  head : ℕ
  allocated : ℕ

/-- The free list after construction: all blocks, in the order of their indices. -/
def PoolLayout.initialPool (layout : PoolLayout) : PoolAllocator where
  nextIndex i := if i + 1 < layout.blockCount then i + 1 else kNullIndex
  head := pack 0 0
  allocated := 0

/-- The address of a block. -/
def PoolLayout.block (layout : PoolLayout) (index : ℕ) : ℕ := layout.buffer + index * layout.stride

/-- The address of one of the blocks. -/
def PoolLayout.IsBlock (layout : PoolLayout) (ptr : ℕ) : Prop :=
  ∃ index < layout.blockCount, ptr = layout.block index

/-- The pointer is not null and lies in the buffer. -/
def PoolLayout.owns (layout : PoolLayout) (ptr : ℕ) : Bool :=
  ptr != 0 && layout.buffer != 0 && decide (layout.buffer ≤ ptr) &&
    decide (ptr < layout.buffer + (layout.stride * layout.blockCount) % word64)

/-! ### Calls -/

/-- How far a call has come. `seen` is the head word it has read, and `readAt` the number of updates
of the head before it read it; no step reads `readAt`. -/
inductive PoolCall
  /-- `allocate` is about to read the successor of the head. -/
  | allocateReading (seen readAt : ℕ)
  /-- `allocate` has read the successor and is about to compare-exchange the head. -/
  | allocateRacing (seen nxt readAt : ℕ)
  /-- `allocate` has taken a block and is about to count it. -/
  | allocateCounting (index : ℕ)
  /-- `deallocate` is about to write the successor of its block. -/
  | deallocateWriting (index seen readAt : ℕ)
  /-- `deallocate` has written the successor and is about to compare-exchange the head. -/
  | deallocateRacing (index seen readAt : ℕ)
  /-- `deallocate` has given its block back and is about to count it. -/
  | deallocateCounting

/-- The block that a call has in its hand. -/
def PoolCall.block : PoolCall → Option ℕ
  | .allocateCounting index => some index
  | .deallocateWriting index _ _ => some index
  | .deallocateRacing index _ _ => some index
  | _ => none

/-- The call is a `deallocate`. -/
def PoolCall.releases : PoolCall → Bool
  | .deallocateWriting _ _ _ => true
  | .deallocateRacing _ _ _ => true
  | .deallocateCounting => true
  | _ => false

variable {Thread : Type}

/-- A pool with the calls in progress on it. -/
structure PoolState (Thread : Type) where
  pool : PoolAllocator
  calls : CallTable Thread PoolCall
  /-- The number of successful compare-exchanges on the head. -/
  updates : ℕ
  /-- The addresses that `allocate` has returned and that no `deallocate` has been called with
  since. -/
  held : List ℕ
  /-- The threads in a `deallocate`. -/
  releasing : List Thread
  /-- What `allocate` has returned, newest first. -/
  results : List (Thread × Option ℕ)

/-- A new pool with no call in progress. -/
def PoolState.initial (layout : PoolLayout) : PoolState Thread :=
  ⟨layout.initialPool, .idle, 0, [], [], []⟩

/-- A thread starts a call, which includes its first read of the head, or takes the next step of its
call. -/
inductive PoolAction (Thread : Type)
  | allocate (thread : Thread)
  | deallocate (thread : Thread) (ptr : ℕ)
  | advance (thread : Thread) (spurious : Bool)

section Step

variable [DecidableEq Thread]

/-- `allocate` has just read the head: it returns null if the list is empty. -/
def PoolState.observe (s : PoolState Thread) (thread : Thread) : PoolState Thread :=
  if unpackIndex s.pool.head = kNullIndex then
    { s with
      calls := Function.update s.calls thread none
      results := (thread, none) :: s.results }
  else
    { s with
      calls := Function.update s.calls thread (some (.allocateReading s.pool.head s.updates)) }

/-- The next atomic step of a call, with the local computation after it. `spurious` makes a weak
compare-exchange fail. -/
def PoolState.advance (layout : PoolLayout) (s : PoolState Thread) (thread : Thread)
    (spurious : Bool) : PoolCall → PoolState Thread
  | .allocateReading seen readAt =>
    { s with
      calls := Function.update s.calls thread
        (some (.allocateRacing seen (s.pool.nextIndex (unpackIndex seen)) readAt)) }
  | .allocateRacing seen nxt _ =>
    if s.pool.head = seen ∧ spurious = false then
      { s with
        pool := { s.pool with head := pack nxt (addMod word32 (unpackTag seen) 1) }
        calls := Function.update s.calls thread (some (.allocateCounting (unpackIndex seen)))
        updates := s.updates + 1 }
    else s.observe thread
  | .allocateCounting index =>
    { s with
      pool := { s.pool with allocated := addMod word64 s.pool.allocated 1 }
      calls := Function.update s.calls thread none
      held := layout.block index :: s.held
      results := (thread, some (layout.block index)) :: s.results }
  | .deallocateWriting index seen readAt =>
    { s with
      pool := { s.pool with
        nextIndex := Function.update s.pool.nextIndex index (unpackIndex seen) }
      calls := Function.update s.calls thread (some (.deallocateRacing index seen readAt)) }
  | .deallocateRacing index seen _ =>
    if s.pool.head = seen ∧ spurious = false then
      { s with
        pool := { s.pool with head := pack index (addMod word32 (unpackTag seen) 1) }
        calls := Function.update s.calls thread (some .deallocateCounting)
        updates := s.updates + 1 }
    else
      { s with
        calls := Function.update s.calls thread
          (some (.deallocateWriting index s.pool.head s.updates)) }
  | .deallocateCounting =>
    { s with
      pool := { s.pool with allocated := subMod word64 s.pool.allocated 1 }
      calls := Function.update s.calls thread none
      releasing := s.releasing.erase thread }

/-- The start of `deallocate`: it returns at once unless the pointer is the address of a block. -/
def PoolState.startDeallocate (layout : PoolLayout) (s : PoolState Thread) (thread : Thread)
    (ptr : ℕ) : PoolState Thread :=
  if ptr = 0 ∨ layout.owns ptr = false then s
  else if (ptr - layout.buffer) % layout.stride ≠ 0 then s
  else
    { s with
      calls := Function.update s.calls thread
        (some (.deallocateWriting ((ptr - layout.buffer) / layout.stride % word32) s.pool.head
          s.updates))
      held := s.held.erase ptr
      releasing := thread :: s.releasing }

/-- One step on the pool. A thread is in at most one call. -/
def poolStep (layout : PoolLayout) (s : PoolState Thread) :
    PoolAction Thread → Option (PoolState Thread)
  | .allocate thread => if (s.calls thread).isSome then none else some (s.observe thread)
  | .deallocate thread ptr =>
    if (s.calls thread).isSome then none else some (s.startDeallocate layout thread ptr)
  | .advance thread spurious => (s.calls thread).map (s.advance layout thread spurious)

/-- The pool as a transition system. -/
def poolSystem (layout : PoolLayout) : TransitionSystem (PoolState Thread) (PoolAction Thread) where
  step := poolStep layout

end Step

/-- Fewer than 2^32 updates of the head lie between the call's read of the head and its
compare-exchange. -/
def PoolCall.readRecently (updates : ℕ) : PoolCall → Bool
  | .allocateRacing _ _ readAt => updates - readAt < word32
  | .deallocateRacing _ _ readAt => updates - readAt < word32
  | _ => true

/-- Callers deallocate what they hold, or a pointer that is not the address of a block, and a
compare-exchange follows the read of the head before 2^32 updates have happened. -/
def permitted (layout : PoolLayout) (s : PoolState Thread) : PoolAction Thread → Prop
  | .allocate _ => True
  | .deallocate _ ptr => ptr ∈ s.held ∨ ¬ layout.IsBlock ptr
  | .advance thread _ => (s.calls thread).all (PoolCall.readRecently s.updates) = true

instance (layout : PoolLayout) (ptr : ℕ) : Decidable (layout.IsBlock ptr) :=
  inferInstanceAs (Decidable (∃ index < layout.blockCount, ptr = layout.block index))

instance (layout : PoolLayout) (s : PoolState Thread) (action : PoolAction Thread) :
    Decidable (permitted layout s action) := by
  cases action <;> unfold permitted <;> infer_instance

/-! ### The invariant -/

/-- What a call knows about the head word it has read: the tag counts the updates before the read,
and without an update since the head is still what it was. -/
def Read (pool : PoolAllocator) (updates seen readAt : ℕ) : Prop :=
  readAt ≤ updates ∧ unpackTag seen = readAt % word32 ∧ (updates = readAt → pool.head = seen)

/-- What a call in progress knows. -/
def PoolCallSound (pool : PoolAllocator) (updates : ℕ) : PoolCall → Prop
  | .allocateReading seen readAt => Read pool updates seen readAt ∧ unpackIndex seen ≠ kNullIndex
  | .allocateRacing seen nxt readAt =>
    Read pool updates seen readAt ∧ unpackIndex seen ≠ kNullIndex ∧
      (updates = readAt → nxt = pool.nextIndex (unpackIndex seen))
  | .deallocateWriting _ seen readAt => Read pool updates seen readAt
  | .deallocateRacing index seen readAt =>
    Read pool updates seen readAt ∧ pool.nextIndex index = unpackIndex seen
  | _ => True

/-- The invariant of the pool with its free list: every block is free, held by one caller, or in the
hand of exactly one call. -/
structure PoolState.SoundWith (layout : PoolLayout) (s : PoolState Thread) (free : List ℕ) :
    Prop where
  chain : Chain s.pool.nextIndex kNullIndex (unpackIndex s.pool.head) free
  free_nodup : free.Nodup
  free_lt : ∀ index ∈ free, index < layout.blockCount
  tag : unpackTag s.pool.head = s.updates % word32
  held_nodup : s.held.Nodup
  held_block : ∀ ptr ∈ s.held, ∃ index < layout.blockCount, index ∉ free ∧ ptr = layout.block index
  hands : s.calls.HeldOnce PoolCall.block fun index ↦
    index < layout.blockCount ∧ index ∉ free ∧ layout.block index ∉ s.held
  calls : s.calls.Forall fun _ ↦ PoolCallSound s.pool s.updates
  releasing_nodup : s.releasing.Nodup
  releasing_iff : ∀ thread, thread ∈ s.releasing ↔ (s.calls thread).any PoolCall.releases = true
  allocated : s.pool.allocated = (s.held.length + s.releasing.length) % word64

/-! ### Words and addresses -/

theorem unpackIndex_pack {index : ℕ} (hindex : index < word32) (tag : ℕ) :
    unpackIndex (pack index tag) = index := by
  rw [unpackIndex, pack, ← Nat.shiftLeft_add_eq_or_of_lt hindex, Nat.shiftLeft_eq]
  unfold word32 at *
  omega

theorem unpackTag_pack {index tag : ℕ} (hindex : index < word32) (htag : tag < word32) :
    unpackTag (pack index tag) = tag := by
  rw [unpackTag, pack, ← Nat.shiftLeft_add_eq_or_of_lt hindex, Nat.shiftLeft_eq,
    Nat.shiftRight_eq_div_pow]
  unfold word32 at *
  omega

/-- An index of a block is an index word, and not the one that ends the free list. -/
theorem PoolLayout.index_lt (layout : PoolLayout) {index : ℕ} (hindex : index < layout.blockCount) :
    index < word32 ∧ index ≠ kNullIndex := by
  have hcount := layout.blockCount_lt
  unfold word32 kNullIndex at *
  omega

theorem PoolLayout.block_injective (layout : PoolLayout) {first second : ℕ}
    (hblock : layout.block first = layout.block second) : first = second :=
  Nat.eq_of_mul_eq_mul_right layout.stride_pos (Nat.add_left_cancel hblock)

/-- The address computations of `deallocate` at the address of a block. -/
theorem PoolLayout.owns_block (layout : PoolLayout) {index : ℕ}
    (hindex : index < layout.blockCount) :
    layout.block index ≠ 0 ∧ layout.owns (layout.block index) = true ∧
      (layout.block index - layout.buffer) % layout.stride = 0 ∧
      (layout.block index - layout.buffer) / layout.stride % word32 = index := by
  have hbuffer := layout.buffer_pos
  have hsize : layout.stride * layout.blockCount < word64 := by
    have := layout.fits
    omega
  have hinside : index * layout.stride < layout.stride * layout.blockCount := by
    rw [Nat.mul_comm layout.stride]
    exact Nat.mul_lt_mul_of_pos_right hindex layout.stride_pos
  have hoffset : layout.block index - layout.buffer = index * layout.stride :=
    Nat.add_sub_cancel_left _ _
  refine ⟨?_, ?_, ?_, ?_⟩
  · unfold PoolLayout.block
    omega
  · simp only [PoolLayout.owns, PoolLayout.block, Nat.mod_eq_of_lt hsize, Bool.and_eq_true,
      bne_iff_ne, decide_eq_true_eq]
    exact ⟨⟨⟨by omega, by omega⟩, decide_eq_true (by omega)⟩, by omega⟩
  · rw [hoffset, Nat.mul_mod_left]
  · rw [hoffset, Nat.mul_div_cancel _ layout.stride_pos,
      Nat.mod_eq_of_lt (layout.index_lt hindex).1]

/-- A pointer that passes the checks of `deallocate` is the address of a block. -/
theorem PoolLayout.isBlock_of_owns (layout : PoolLayout) {ptr : ℕ} (howns : layout.owns ptr = true)
    (hstride : (ptr - layout.buffer) % layout.stride = 0) : layout.IsBlock ptr := by
  have hsize : layout.stride * layout.blockCount < word64 := by
    have := layout.fits
    omega
  simp only [PoolLayout.owns, Nat.mod_eq_of_lt hsize, Bool.and_eq_true, bne_iff_ne,
    decide_eq_true_eq] at howns
  obtain ⟨⟨-, hbegin⟩, hend⟩ := howns
  have hdiv := Nat.div_add_mod (ptr - layout.buffer) layout.stride
  rw [hstride, Nat.add_zero] at hdiv
  refine ⟨(ptr - layout.buffer) / layout.stride, ?_, ?_⟩
  · have hless : layout.stride * ((ptr - layout.buffer) / layout.stride) <
        layout.stride * layout.blockCount := by omega
    exact Nat.lt_of_mul_lt_mul_left hless
  · rw [PoolLayout.block, Nat.mul_comm, hdiv]
    omega

/-- A pointer that is not the address of a block changes nothing. -/
theorem startDeallocate_of_not_isBlock [DecidableEq Thread] {layout : PoolLayout}
    {s : PoolState Thread} {thread : Thread} {ptr : ℕ} (hblock : ¬ layout.IsBlock ptr) :
    s.startDeallocate layout thread ptr = s := by
  unfold PoolState.startDeallocate
  split_ifs with hnot hstride
  · rfl
  · rfl
  · rw [not_or, Bool.not_eq_false] at hnot
    exact absurd (layout.isBlock_of_owns hnot.2 (not_not.mp hstride)) hblock

/-! ### What the steps keep -/

/-- The tag of the head shows that it has not been updated since it was read. Assumes: fewer than
2^32 updates have happened in between. -/
theorem Read.updates_eq {pool : PoolAllocator} {updates seen readAt : ℕ}
    (hread : Read pool updates seen readAt) (htag : unpackTag pool.head = updates % word32)
    (hsame : pool.head = seen) (hrecent : updates - readAt < word32) : updates = readAt := by
  obtain ⟨hle, hseen, -⟩ := hread
  rw [hsame, hseen] at htag
  unfold word32 at *
  omega

/-- What a call knows survives the update of the number of allocated blocks. -/
theorem PoolCallSound.setAllocated {pool : PoolAllocator} {updates : ℕ} {call : PoolCall}
    (hcall : PoolCallSound pool updates call) (allocated : ℕ) :
    PoolCallSound { pool with allocated := allocated } updates call := by
  cases call <;> exact hcall

/-- What a call knows survives an update of the head by another thread. -/
theorem PoolCallSound.updateHead {pool : PoolAllocator} {updates word : ℕ} {call : PoolCall}
    (hcall : PoolCallSound pool updates call) :
    PoolCallSound { pool with head := word } (updates + 1) call := by
  have hread : ∀ seen readAt, Read pool updates seen readAt →
      Read { pool with head := word } (updates + 1) seen readAt := by
    rintro seen readAt ⟨hle, htag, -⟩
    exact ⟨by omega, htag, fun heq ↦ by omega⟩
  cases call with
  | allocateReading seen readAt => exact ⟨hread _ _ hcall.1, hcall.2⟩
  | allocateRacing seen nxt readAt =>
    have hle := hcall.1.1
    exact ⟨hread _ _ hcall.1, hcall.2.1, fun heq ↦ by omega⟩
  | deallocateWriting index seen readAt => exact hread _ _ hcall
  | deallocateRacing index seen readAt => exact ⟨hread _ _ hcall.1, hcall.2⟩
  | _ => trivial

/-- What a call knows survives the write of a successor by another thread. Assumes: the written
block is not the first free one, nor the one the call is giving back. -/
theorem PoolCallSound.writeNext {pool : PoolAllocator} {updates index successor : ℕ}
    {call : PoolCall} (hcall : PoolCallSound pool updates call)
    (hhead : unpackIndex pool.head ≠ kNullIndex → index ≠ unpackIndex pool.head)
    (hother : ∀ other, call.block = some other → other ≠ index) :
    PoolCallSound
      { pool with nextIndex := Function.update pool.nextIndex index successor } updates call := by
  cases call with
  | allocateReading seen readAt => exact hcall
  | allocateRacing seen nxt readAt =>
    obtain ⟨hread, hnull, hnxt⟩ := hcall
    refine ⟨hread, hnull, fun heq ↦ ?_⟩
    rw [← hread.2.2 heq] at hnull
    rw [hnxt heq, ← hread.2.2 heq]
    exact (Function.update_of_ne (hhead hnull).symm _ _).symm
  | deallocateWriting other seen readAt => exact hcall
  | deallocateRacing other seen readAt =>
    exact ⟨hcall.1, (Function.update_of_ne (hother other rfl) _ _).trans hcall.2⟩
  | _ => trivial

namespace PoolState.SoundWith

variable {layout : PoolLayout} {s : PoolState Thread} {free : List ℕ} {thread : Thread}

/-- A call that has just read the head. -/
theorem read_head (hs : s.SoundWith layout free) : Read s.pool s.updates s.pool.head s.updates :=
  ⟨le_refl _, hs.tag, fun _ ↦ rfl⟩

variable [DecidableEq Thread]

theorem releasing_update (hs : s.SoundWith layout free) {next : Option PoolCall}
    (hnext : next.any PoolCall.releases = (s.calls thread).any PoolCall.releases)
    (other : Thread) : other ∈ s.releasing ↔
      (Function.update s.calls thread next other).any PoolCall.releases = true := by
  rw [hs.releasing_iff other]
  by_cases hother : other = thread
  · subst hother
    rw [Function.update_self, hnext]
  · rw [Function.update_of_ne hother]

/-- A step that changes only the thread's call, which keeps its block. -/
theorem goto (hs : s.SoundWith layout free) {next : Option PoolCall}
    (results : List (Thread × Option ℕ))
    (hnext : ∀ after, next = some after → PoolCallSound s.pool s.updates after)
    (hblock : next.bind PoolCall.block = (s.calls thread).bind PoolCall.block)
    (hreleases : next.any PoolCall.releases = (s.calls thread).any PoolCall.releases) :
    SoundWith layout
      { s with calls := Function.update s.calls thread next, results := results } free :=
  { hs with
    hands := hs.hands.keep hblock
    calls := CallTable.Forall.update (fun other after _ hafter ↦ hs.calls other after hafter) hnext
    releasing_iff := hs.releasing_update hreleases }

/-- `allocate` reads the head. -/
theorem observe (hs : s.SoundWith layout free)
    (hblock : (s.calls thread).bind PoolCall.block = none)
    (hreleases : (s.calls thread).any PoolCall.releases = false) :
    (s.observe thread).SoundWith layout free := by
  unfold PoolState.observe
  split_ifs with hnull
  · exact hs.goto _ (by rintro after ⟨⟩) hblock.symm hreleases.symm
  · refine hs.goto s.results ?_ hblock.symm hreleases.symm
    rintro after ⟨⟩
    exact ⟨hs.read_head, hnull⟩

/-- `allocate` takes the first free block. -/
theorem takeBlock (hs : s.SoundWith layout free) {seen nxt readAt : ℕ}
    (hcall : s.calls thread = some (.allocateRacing seen nxt readAt)) (hsame : s.pool.head = seen)
    (hrecent : s.updates - readAt < word32) :
    ∃ rest, SoundWith layout
      { s with
        pool := { s.pool with head := pack nxt (addMod word32 (unpackTag seen) 1) }
        calls := Function.update s.calls thread (some (.allocateCounting (unpackIndex seen)))
        updates := s.updates + 1 } rest := by
  obtain ⟨hread, hnull, hnxt⟩ := hs.calls thread _ hcall
  have heq := hread.updates_eq hs.tag hsame hrecent
  have hnext := hnxt heq
  subst hsame
  obtain ⟨rest, rfl, hchain⟩ := hs.chain.exists_rest hnull
  rw [← hnext] at hchain
  obtain ⟨hfirst, hrest⟩ := List.nodup_cons.mp hs.free_nodup
  have hnxtLt : nxt < word32 := by
    rcases hchain.start_eq_or_mem with rfl | hmem
    · decide
    · exact (layout.index_lt (hs.free_lt nxt (List.mem_cons_of_mem _ hmem))).1
  have htagLt : addMod word32 (unpackTag s.pool.head) 1 < word32 := addMod_lt (by decide) _ _
  refine ⟨rest, ?_⟩
  constructor
  · rw [unpackIndex_pack hnxtLt]
    exact hchain
  · exact hrest
  · exact fun index hindex ↦ hs.free_lt index (List.mem_cons_of_mem _ hindex)
  · rw [unpackTag_pack hnxtLt htagLt, hs.tag, addMod_mod]
  · exact hs.held_nodup
  · intro ptr hptr
    obtain ⟨index, hindex, hnot, hblock⟩ := hs.held_block ptr hptr
    exact ⟨index, hindex, fun hmem ↦ hnot (List.mem_cons_of_mem _ hmem), hblock⟩
  · refine hs.hands.take (by rw [hcall]; rfl) rfl (fun howed ↦ howed.2.1 List.mem_cons_self)
      fun index ↦ ?_
    constructor
    · rintro ⟨hindex, hnot, hheld⟩
      by_cases hhead : index = unpackIndex s.pool.head
      · exact .inr hhead
      · exact .inl ⟨hindex, fun hmem ↦ (List.mem_cons.mp hmem).elim hhead hnot, hheld⟩
    · rintro (⟨hindex, hnot, hheld⟩ | rfl)
      · exact ⟨hindex, fun hmem ↦ hnot (List.mem_cons_of_mem _ hmem), hheld⟩
      · refine ⟨hs.free_lt _ List.mem_cons_self, hfirst, fun hheld ↦ ?_⟩
        obtain ⟨index, -, hnot, hblock⟩ := hs.held_block _ hheld
        exact hnot (layout.block_injective hblock ▸ List.mem_cons_self)
  · exact CallTable.Forall.update
      (fun other after _ hafter ↦ (hs.calls other after hafter).updateHead)
      (by rintro after ⟨⟩; trivial)
  · exact hs.releasing_nodup
  · exact hs.releasing_update (by rw [hcall]; rfl)
  · exact hs.allocated

/-- `allocate` counts its block and returns it. -/
theorem returnBlock (hs : s.SoundWith layout free) {index : ℕ}
    (hcall : s.calls thread = some (.allocateCounting index)) (results : List (Thread × Option ℕ)) :
    SoundWith layout
      { s with
        pool := { s.pool with allocated := addMod word64 s.pool.allocated 1 }
        calls := Function.update s.calls thread none
        held := layout.block index :: s.held
        results := results } free := by
  obtain ⟨hindex, hfree, hheld⟩ := hs.hands.owed hcall rfl
  refine { hs with
    held_nodup := List.nodup_cons.mpr ⟨hheld, hs.held_nodup⟩
    held_block := ?_
    hands := ?_
    calls := CallTable.Forall.update
      (fun other after _ hafter ↦ (hs.calls other after hafter).setAllocated _)
      (by rintro after ⟨⟩)
    releasing_iff := hs.releasing_update (by rw [hcall]; rfl)
    allocated := ?_ }
  · intro ptr hptr
    rcases List.mem_cons.mp hptr with rfl | hold
    · exact ⟨index, hindex, hfree, rfl⟩
    · exact hs.held_block ptr hold
  · refine hs.hands.giveUp (by rw [hcall]; rfl) rfl fun other ↦ ?_
    rw [List.mem_cons, not_or]
    constructor
    · rintro ⟨hother, hnot, hne, hold⟩
      exact ⟨⟨hother, hnot, hold⟩, fun heq ↦ hne (by rw [heq])⟩
    · rintro ⟨⟨hother, hnot, hold⟩, hne⟩
      exact ⟨hother, hnot, fun heq ↦ hne (layout.block_injective heq), hold⟩
  · dsimp only
    rw [hs.allocated, addMod_mod, List.length_cons]
    congr 1
    omega

/-- `deallocate` links its block to the head it has read. -/
theorem linkBlock (hs : s.SoundWith layout free) {index seen readAt : ℕ}
    (hcall : s.calls thread = some (.deallocateWriting index seen readAt)) :
    SoundWith layout
      { s with
        pool := { s.pool with
          nextIndex := Function.update s.pool.nextIndex index (unpackIndex seen) }
        calls := Function.update s.calls thread
          (some (.deallocateRacing index seen readAt)) } free := by
  obtain ⟨hindex, hfree, hheld⟩ := hs.hands.owed hcall rfl
  have hread : Read s.pool s.updates seen readAt := hs.calls thread _ hcall
  refine { hs with
    chain := hs.chain.update hfree
    hands := hs.hands.keep (by rw [hcall]; rfl)
    calls := CallTable.Forall.update (fun other after hother hafter ↦ ?_) ?_
    releasing_iff := hs.releasing_update (by rw [hcall]; rfl) }
  · refine (hs.calls other after hafter).writeNext (fun hnull heq ↦ ?_) fun block hblock heq ↦ ?_
    · obtain ⟨rest, rfl, -⟩ := hs.chain.exists_rest hnull
      exact hfree (heq ▸ List.mem_cons_self)
    · subst heq
      exact hother (hs.hands.eq_of_key hafter hcall hblock rfl)
  · rintro after ⟨⟩
    exact ⟨hread, Function.update_self _ _ _⟩

/-- `deallocate` puts its block at the front of the free list. -/
theorem giveBlock (hs : s.SoundWith layout free) {index seen readAt : ℕ}
    (hcall : s.calls thread = some (.deallocateRacing index seen readAt))
    (hsame : s.pool.head = seen) :
    SoundWith layout
      { s with
        pool := { s.pool with head := pack index (addMod word32 (unpackTag seen) 1) }
        calls := Function.update s.calls thread (some .deallocateCounting)
        updates := s.updates + 1 } (index :: free) := by
  obtain ⟨hindex, hfree, hheld⟩ := hs.hands.owed hcall rfl
  obtain ⟨hread, hnext⟩ := hs.calls thread _ hcall
  subst hsame
  obtain ⟨hindexLt, hindexNull⟩ := layout.index_lt hindex
  have htagLt : addMod word32 (unpackTag s.pool.head) 1 < word32 := addMod_lt (by decide) _ _
  constructor
  · rw [unpackIndex_pack hindexLt]
    exact ⟨rfl, hindexNull, by rw [hnext]; exact hs.chain⟩
  · exact List.nodup_cons.mpr ⟨hfree, hs.free_nodup⟩
  · intro other hother
    rcases List.mem_cons.mp hother with rfl | hold
    · exact hindex
    · exact hs.free_lt other hold
  · rw [unpackTag_pack hindexLt htagLt, hs.tag, addMod_mod]
  · exact hs.held_nodup
  · intro ptr hptr
    obtain ⟨other, hother, hnot, rfl⟩ := hs.held_block ptr hptr
    refine ⟨other, hother, fun hmem ↦ ?_, rfl⟩
    rcases List.mem_cons.mp hmem with rfl | hold
    · exact hheld hptr
    · exact hnot hold
  · refine hs.hands.giveUp (by rw [hcall]; rfl) rfl fun other ↦ ?_
    rw [List.mem_cons, not_or]
    tauto
  · exact CallTable.Forall.update
      (fun other after _ hafter ↦ (hs.calls other after hafter).updateHead)
      (by rintro after ⟨⟩; trivial)
  · exact hs.releasing_nodup
  · exact hs.releasing_update (by rw [hcall]; rfl)
  · exact hs.allocated

/-- `deallocate` counts its block and returns. -/
theorem finishRelease (hs : s.SoundWith layout free)
    (hcall : s.calls thread = some .deallocateCounting) {allocated : ℕ}
    (hallocated : allocated = subMod word64 s.pool.allocated 1) :
    SoundWith layout
      { s with
        pool := { s.pool with allocated := allocated }
        calls := Function.update s.calls thread none
        releasing := s.releasing.erase thread } free := by
  have hmem : thread ∈ s.releasing := (hs.releasing_iff thread).mpr (by rw [hcall]; rfl)
  refine { hs with
    hands := hs.hands.keep (by rw [hcall]; rfl)
    calls := CallTable.Forall.update
      (fun other after _ hafter ↦ (hs.calls other after hafter).setAllocated _)
      (by rintro after ⟨⟩)
    releasing_nodup := hs.releasing_nodup.erase thread
    releasing_iff := fun other ↦ ?_
    allocated := ?_ }
  · rw [hs.releasing_nodup.mem_erase_iff, hs.releasing_iff other]
    by_cases hother : other = thread
    · subst hother
      simp
    · simp [hother]
  · have hlength := List.length_erase_of_mem hmem
    have hpos := List.length_pos_of_mem hmem
    dsimp only
    rw [hallocated, hs.allocated, subMod_mod_left (by omega) (by decide), hlength]
    congr 1
    omega

/-- A caller starts to deallocate a block it holds. -/
theorem startRelease (hs : s.SoundWith layout free) (hidle : s.calls thread = none) {ptr : ℕ}
    (hptr : ptr ∈ s.held) : (s.startDeallocate layout thread ptr).SoundWith layout free := by
  obtain ⟨index, hindex, hfree, rfl⟩ := hs.held_block ptr hptr
  obtain ⟨hnonnull, howns, hstride, hdiv⟩ := layout.owns_block hindex
  have hnotIn : thread ∉ s.releasing := fun hmem ↦ by
    have := (hs.releasing_iff thread).mp hmem
    rw [hidle] at this
    contradiction
  unfold PoolState.startDeallocate
  rw [if_neg (by simp [hnonnull, howns]), if_neg (by simp [hstride]), hdiv]
  refine { hs with
    held_nodup := hs.held_nodup.erase _
    held_block := fun other hother ↦ hs.held_block other (List.mem_of_mem_erase hother)
    hands := ?_
    calls := CallTable.Forall.update (fun other after _ hafter ↦ hs.calls other after hafter)
      (by rintro after ⟨⟩; exact hs.read_head)
    releasing_nodup := List.nodup_cons.mpr ⟨hnotIn, hs.releasing_nodup⟩
    releasing_iff := fun other ↦ ?_
    allocated := ?_ }
  · refine hs.hands.take (by rw [hidle]; rfl) rfl (fun howed ↦ howed.2.2 hptr) fun other ↦ ?_
    rw [hs.held_nodup.mem_erase_iff, not_and_or, not_not]
    constructor
    · rintro ⟨hother, hnot, heq | hold⟩
      · exact .inr (layout.block_injective heq)
      · exact .inl ⟨hother, hnot, hold⟩
    · rintro (⟨hother, hnot, hold⟩ | rfl)
      · exact ⟨hother, hnot, .inr hold⟩
      · exact ⟨hindex, hfree, .inl rfl⟩
  · by_cases hother : other = thread
    · subst hother
      simp [PoolCall.releases]
    · dsimp only
      rw [List.mem_cons, hs.releasing_iff other, Function.update_of_ne hother]
      simp [hother]
  · have hlength := List.length_erase_of_mem hptr
    have hpos := List.length_pos_of_mem hptr
    dsimp only
    rw [hs.allocated, List.length_cons, hlength]
    congr 1
    omega

/-- What the next step of a call keeps. Assumes: the call's read of the head is recent. -/
theorem advance (hs : s.SoundWith layout free) {call : PoolCall}
    (hcall : s.calls thread = some call) (hrecent : call.readRecently s.updates = true)
    (spurious : Bool) : ∃ rest, (s.advance layout thread spurious call).SoundWith layout rest := by
  have hknows : PoolCallSound s.pool s.updates call := hs.calls thread call hcall
  cases call with
  | allocateReading seen readAt =>
    refine ⟨free, hs.goto s.results ?_ (by rw [hcall]; rfl) (by rw [hcall]; rfl)⟩
    rintro after ⟨⟩
    exact ⟨hknows.1, hknows.2, fun _ ↦ rfl⟩
  | allocateRacing seen nxt readAt =>
    simp only [PoolState.advance]
    split_ifs with hwon
    · exact hs.takeBlock hcall hwon.1 (of_decide_eq_true hrecent)
    · exact ⟨free, hs.observe (by rw [hcall]; rfl) (by rw [hcall]; rfl)⟩
  | allocateCounting index => exact ⟨free, hs.returnBlock hcall _⟩
  | deallocateWriting index seen readAt => exact ⟨free, hs.linkBlock hcall⟩
  | deallocateRacing index seen readAt =>
    simp only [PoolState.advance]
    split_ifs with hwon
    · exact ⟨_, hs.giveBlock hcall hwon.1⟩
    · refine ⟨free, hs.goto s.results ?_ (by rw [hcall]; rfl) (by rw [hcall]; rfl)⟩
      rintro after ⟨⟩
      exact hs.read_head
  | deallocateCounting => exact ⟨free, hs.finishRelease hcall rfl⟩

/-- The step lemma. -/
theorem step (hs : s.SoundWith layout free) {action : PoolAction Thread} {next : PoolState Thread}
    (hguard : permitted layout s action) (hstep : poolStep layout s action = some next) :
    ∃ rest, next.SoundWith layout rest := by
  cases action with
  | allocate thread =>
    simp only [poolStep, Option.ite_none_left_eq_some, Option.some.injEq] at hstep
    obtain ⟨hidle, rfl⟩ := hstep
    rw [Bool.not_eq_true, Option.isSome_eq_false_iff, Option.isNone_iff_eq_none] at hidle
    exact ⟨free, hs.observe (by rw [hidle]; rfl) (by rw [hidle]; rfl)⟩
  | deallocate thread ptr =>
    simp only [poolStep, Option.ite_none_left_eq_some, Option.some.injEq] at hstep
    obtain ⟨hidle, rfl⟩ := hstep
    rw [Bool.not_eq_true, Option.isSome_eq_false_iff, Option.isNone_iff_eq_none] at hidle
    rcases hguard with hheld | hnot
    · exact ⟨free, hs.startRelease hidle hheld⟩
    · rw [startDeallocate_of_not_isBlock hnot]
      exact ⟨free, hs⟩
  | advance thread spurious =>
    simp only [poolStep, Option.map_eq_some_iff] at hstep
    obtain ⟨call, hcall, rfl⟩ := hstep
    rw [permitted, hcall, Option.all_some] at hguard
    exact hs.advance hcall hguard spurious

end PoolState.SoundWith

/-! ### Every reachable state -/

/-- After construction the free list visits all blocks. -/
theorem PoolLayout.initial_chain (layout : PoolLayout) {first : ℕ}
    (hfirst : first < layout.blockCount) :
    Chain layout.initialPool.nextIndex kNullIndex first
      (List.range' first (layout.blockCount - first)) := by
  obtain ⟨count, hcount⟩ : ∃ count, layout.blockCount = first + 1 + count :=
    ⟨layout.blockCount - (first + 1), by omega⟩
  rw [show layout.blockCount - first = count + 1 by omega]
  induction count generalizing first with
  | zero =>
    refine ⟨rfl, (layout.index_lt hfirst).2, ?_⟩
    exact if_neg (by omega)
  | succ count ih =>
    have hnext : layout.initialPool.nextIndex first = first + 1 := if_pos (by omega)
    refine ⟨rfl, (layout.index_lt hfirst).2, ?_⟩
    rw [hnext]
    exact ih (by omega) (by omega)

/-- A new pool meets the invariant: all blocks are free. -/
theorem poolInitial_sound (layout : PoolLayout) :
    (PoolState.initial layout : PoolState Thread).SoundWith layout
      (List.range layout.blockCount) where
  chain := by
    rw [List.range_eq_range']
    have hchain := layout.initial_chain layout.blockCount_pos
    rw [Nat.sub_zero] at hchain
    exact hchain
  free_nodup := List.nodup_range
  free_lt index hindex := List.mem_range.mp hindex
  tag := unpackTag_pack (by decide) (by decide)
  held_nodup := List.nodup_nil
  held_block := by simp [PoolState.initial]
  hands := by
    have hnone : ∀ index : ℕ, (index < layout.blockCount ∧ index ∉ List.range layout.blockCount ∧
        layout.block index ∉ []) = False := by
      intro index
      simp only [List.mem_range, eq_iff_iff, iff_false]
      omega
    simp only [PoolState.initial, hnone]
    exact CallTable.heldOnce_idle _
  calls := CallTable.forall_idle _
  releasing_nodup := List.nodup_nil
  releasing_iff := by simp [PoolState.initial, CallTable.idle]
  allocated := rfl

/-- Every state that a permitted run reaches meets the invariant. -/
theorem poolReaches_sound [DecidableEq Thread] {layout : PoolLayout} {s : PoolState Thread}
    (hreach : (poolSystem layout).Reaches (permitted layout) (.initial layout) s) :
    ∃ free, s.SoundWith layout free := by
  refine hreach.invariant ⟨_, poolInitial_sound layout⟩ ?_
  rintro s action next ⟨free, hs⟩ hguard hstep
  exact hs.step hguard hstep

/-- With no call in progress, the number of allocated blocks is the number of held ones. -/
theorem PoolState.SoundWith.allocated_of_idle {layout : PoolLayout} {s : PoolState Thread}
    {free : List ℕ} (hs : s.SoundWith layout free) (hidle : ∀ thread, s.calls thread = none) :
    s.pool.allocated = s.held.length := by
  have hreleasing : s.releasing = [] := List.eq_nil_iff_forall_not_mem.mpr fun thread hmem ↦ by
    have hreleases := (hs.releasing_iff thread).mp hmem
    rw [hidle thread] at hreleases
    contradiction
  have hcount : s.held.length ≤ layout.blockCount := by
    have hsubset : s.held ⊆ (List.range layout.blockCount).map layout.block := fun ptr hptr ↦ by
      obtain ⟨index, hindex, -, rfl⟩ := hs.held_block ptr hptr
      exact List.mem_map_of_mem (List.mem_range.mpr hindex)
    simpa using (hs.held_nodup.subperm hsubset).length_le
  have hlt := layout.blockCount_lt
  rw [hs.allocated, hreleasing, List.length_nil, Nat.add_zero]
  exact Nat.mod_eq_of_lt (by unfold word32 word64 at *; omega)

/-- A step with which `allocate` returns null reads the head of an empty list. -/
theorem head_of_returned_null [DecidableEq Thread] {layout : PoolLayout} {s next : PoolState Thread}
    {action : PoolAction Thread} {thread : Thread} (hstep : poolStep layout s action = some next)
    (hresult : next.results = (thread, none) :: s.results) :
    unpackIndex s.pool.head = kNullIndex := by
  have hobserve : ∀ reader, (s.observe reader).results = (thread, none) :: s.results →
      unpackIndex s.pool.head = kNullIndex := by
    intro reader hreader
    unfold PoolState.observe at hreader
    split_ifs at hreader with hnull
    · exact hnull
    · simp at hreader
  cases action with
  | allocate reader =>
    simp only [poolStep, Option.ite_none_left_eq_some, Option.some.injEq] at hstep
    obtain ⟨-, rfl⟩ := hstep
    exact hobserve reader hresult
  | deallocate reader ptr =>
    simp only [poolStep, Option.ite_none_left_eq_some, Option.some.injEq] at hstep
    obtain ⟨-, rfl⟩ := hstep
    unfold PoolState.startDeallocate at hresult
    split_ifs at hresult <;> simp at hresult
  | advance reader spurious =>
    simp only [poolStep, Option.map_eq_some_iff] at hstep
    obtain ⟨call, -, rfl⟩ := hstep
    cases call with
    | allocateRacing seen nxt readAt =>
      simp only [PoolState.advance] at hresult
      split_ifs at hresult
      · simp at hresult
      · exact hobserve reader hresult
    | deallocateRacing index seen readAt =>
      simp only [PoolState.advance] at hresult
      split_ifs at hresult <;> simp at hresult
    | _ => simp [PoolState.advance] at hresult

/-- What the pool guarantees, in every state that a permitted run reaches.

The list from the head is a finite chain without repetition, and it contains exactly the blocks
that are neither held nor in the hand of a call: of an `allocate` about to return the block, or of a
`deallocate` that has not yet put it back. No block is held twice, and no block in the hand of a
call is held or in the hand of another. `allocate` returns null only with a read of the head of an
empty list, `deallocate` of a pointer that is not the address of a block changes nothing, and with
no call in progress `allocated_count()` is the number of held blocks. -/
theorem poolAllocator_correct [DecidableEq Thread] {buffer blockSize blockCount alignment : ℕ}
    (hcount : blockCountFor blockCount < word32)
    (hround : rawSize blockSize + (normalizeAlign alignment - 1) < word64) (hbuffer : 0 < buffer)
    (hfits : buffer + strideFor blockSize alignment * blockCountFor blockCount < word64)
    {s : PoolState Thread}
    (hreach : (poolSystem (.create hcount hround hbuffer hfits)).Reaches
      (permitted (.create hcount hround hbuffer hfits))
      (.initial (.create hcount hround hbuffer hfits)) s) :
    let layout := PoolLayout.create hcount hround hbuffer hfits
    (∃ free, Chain s.pool.nextIndex kNullIndex (unpackIndex s.pool.head) free ∧ free.Nodup ∧
      (∀ index, index ∈ free ↔ index < layout.blockCount ∧ layout.block index ∉ s.held ∧
        ∀ thread call, s.calls thread = some call → call.block ≠ some index) ∧
      ∀ action next thread, poolStep layout s action = some next →
        next.results = (thread, none) :: s.results → free = []) ∧
    (s.held.Nodup ∧ ∀ ptr ∈ s.held, layout.IsBlock ptr) ∧
    (∀ thread call index, s.calls thread = some call → call.block = some index →
      layout.block index ∉ s.held ∧
        ∀ other after, s.calls other = some after → after.block = some index → other = thread) ∧
    (∀ thread ptr, ¬ layout.IsBlock ptr → s.calls thread = none →
      poolStep layout s (.deallocate thread ptr) = some s) ∧
    ((∀ thread, s.calls thread = none) → s.pool.allocated = s.held.length) := by
  intro layout
  obtain ⟨free, hs⟩ := poolReaches_sound hreach
  refine ⟨⟨free, hs.chain, hs.free_nodup, fun index ↦ ⟨fun hfree ↦ ?_, ?_⟩, ?_⟩,
    ⟨hs.held_nodup, fun ptr hptr ↦ ?_⟩, fun thread call index hcall hblock ↦ ?_, ?_,
    hs.allocated_of_idle⟩
  · refine ⟨hs.free_lt index hfree, fun hheld ↦ ?_, fun thread call hcall hblock ↦ ?_⟩
    · obtain ⟨other, -, hnot, hsame⟩ := hs.held_block _ hheld
      exact hnot (layout.block_injective hsame ▸ hfree)
    · exact (hs.hands.owed hcall hblock).2.1 hfree
  · rintro ⟨hindex, hheld, hhand⟩
    by_contra hnot
    obtain ⟨thread, hthread⟩ := (hs.hands.owed_iff index).mp ⟨hindex, hnot, hheld⟩
    obtain ⟨call, hcall, hblock⟩ := Option.bind_eq_some_iff.mp hthread
    exact hhand thread call hcall hblock
  · intro action next thread hstep hresult
    have hnull := head_of_returned_null hstep hresult
    exact (hnull ▸ hs.chain).eq_nil
  · obtain ⟨index, hindex, -, hblock⟩ := hs.held_block ptr hptr
    exact ⟨index, hindex, hblock⟩
  · refine ⟨(hs.hands.owed hcall hblock).2.2, fun other after hafter hother ↦ ?_⟩
    exact hs.hands.eq_of_key hafter hcall hother hblock
  · intro thread ptr hnot hidle
    rw [poolStep, hidle, startDeallocate_of_not_isBlock hnot]
    rfl

/-- A pool of two blocks of 64 bytes at the address 4096. -/
private def examplePool : PoolLayout :=
  @PoolLayout.create 4096 64 2 64 (by decide) (by decide) (by decide) (by decide)

/-- The theorem at a run on two blocks in which one thread reads the head and its successor, the
other takes both blocks and gives the first one back, and the first thread's compare-exchange meets
the same index under another tag. -/
theorem poolAllocator_correct_reused : ∃ s : PoolState (Fin 2),
    s.results = [(0, some 4096), (1, some 4160), (1, some 4096)] ∧ s.held = [4096, 4160] ∧
      s.pool.allocated = 2 := by
  obtain ⟨s, hreach, htest⟩ := TransitionSystem.Reaches.exists_of_any
    (poolSystem examplePool) (.initial examplePool : PoolState (Fin 2))
    [.allocate 0, .advance 0 false, .allocate 1, .advance 1 false, .advance 1 false,
      .advance 1 false, .allocate 1, .advance 1 false, .advance 1 false, .advance 1 false,
      .deallocate 1 4096, .advance 1 false, .advance 1 true, .advance 1 false, .advance 1 false,
      .advance 1 false, .advance 0 false, .advance 0 false, .advance 0 false, .advance 0 false]
    (fun s action ↦ permitted examplePool s action)
    (fun s ↦ s.results = [(0, some 4096), (1, some 4160), (1, some 4096)] ∧
      s.held = [4096, 4160] ∧ ∀ thread, (s.calls thread).isNone)
    (fun _ _ hguard ↦ of_decide_eq_true hguard) (by decide) (by decide)
  obtain ⟨hresults, hheld, hidle⟩ := of_decide_eq_true htest
  obtain ⟨-, -, -, -, hallocated⟩ := poolAllocator_correct _ _ _ _ hreach
  refine ⟨s, hresults, hheld, ?_⟩
  rw [hallocated fun thread ↦ Option.isNone_iff_eq_none.mp (hidle thread), hheld]
  rfl

end GameEngine.Core
