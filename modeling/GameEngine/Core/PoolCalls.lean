import GameEngine.Core.PoolAllocator

/-!
# Whole calls to the pool allocator

With one thread every call to a pool runs to its return before the next one starts. `allocate` and
`deallocate` are the whole calls, for a pool that has been made with any arguments: a number of
blocks from `2 ^ 32` on, whose indices the constructor cuts to 32 bits, or a size of all blocks that
wraps. `PoolShape` is what the constructor fixes then. A weak compare-exchange that fails is
repeated with the same words, so that it makes no difference.
-/

set_option autoImplicit false
set_option relaxedAutoImplicit false

namespace GameEngine.Core

open GameEngine.Library GameEngine.Library.MachineWord GameEngine.Library.IndexChain

/-! ### Construction and calls -/

/-- What the constructor fixes, for any arguments. -/
structure PoolShape where
  buffer : ℕ
  stride : ℕ
  blockCount : ℕ

namespace PoolShape

/-- The constructor, where the system has returned `buffer`. -/
def create (buffer blockSize blockCount alignment : ℕ) : PoolShape where
  buffer := buffer
  stride := strideFor blockSize alignment
  blockCount := blockCountFor blockCount

/-- The number of bytes that the constructor asks the system for. -/
def bytes (shape : PoolShape) : ℕ := shape.stride * shape.blockCount % word64

/-- The free list after construction. -/
def initialPool (shape : PoolShape) : PoolAllocator where
  nextIndex i := if i + 1 < shape.blockCount then (i + 1) % word32 else kNullIndex
  head := pack 0 0
  allocated := 0

/-- The address that `allocate` computes from an index. -/
def block (shape : PoolShape) (index : ℕ) : ℕ :=
  addMod word64 shape.buffer (index * shape.stride % word64)

/-- `owns`. -/
def owns (shape : PoolShape) (ptr : ℕ) : Bool :=
  ptr != 0 && shape.buffer != 0 && decide (shape.buffer ≤ ptr) &&
    decide (ptr < shape.buffer + shape.bytes)

end PoolShape

namespace PoolAllocator

/-- `allocate`. -/
def allocate (shape : PoolShape) (pool : PoolAllocator) : PoolAllocator × Option ℕ :=
  let idx := unpackIndex pool.head
  if idx = kNullIndex then (pool, none)
  else
    ({ pool with
        head := pack (pool.nextIndex idx) (addMod word32 (unpackTag pool.head) 1)
        allocated := addMod word64 pool.allocated 1 },
      some (shape.block idx))

/-- `deallocate`. -/
def deallocate (shape : PoolShape) (pool : PoolAllocator) (ptr : ℕ) : PoolAllocator :=
  if ptr = 0 ∨ shape.owns ptr = false then pool
  else if (ptr - shape.buffer) % shape.stride ≠ 0 then pool
  else
    let idx := (ptr - shape.buffer) / shape.stride % word32
    { nextIndex := Function.update pool.nextIndex idx (unpackIndex pool.head)
      head := pack idx (addMod word32 (unpackTag pool.head) 1)
      allocated := subMod word64 pool.allocated 1 }

end PoolAllocator

/-! ### The steps of a call on its own -/

/-- A layout as the shape of a pool. -/
def PoolLayout.shape (layout : PoolLayout) : PoolShape :=
  ⟨layout.buffer, layout.stride, layout.blockCount⟩

section Alone

variable {Thread : Type} [DecidableEq Thread] {layout : PoolLayout} {s : PoolState Thread}
  {thread : Thread}

/-- A thread that takes all steps of an `allocate`, with no step of another thread in between, does
to the pool what the whole call does. -/
theorem execute_allocate (hidle : s.calls thread = none) :
    ∃ count, ((poolSystem layout).execute s
      (.allocate thread :: List.replicate count (.advance thread false))).map PoolState.pool =
        some (s.pool.allocate layout.shape).1 := by
  by_cases hnull : unpackIndex s.pool.head = kNullIndex
  · refine ⟨0, ?_⟩
    simp [TransitionSystem.execute, poolSystem, poolStep, hidle, PoolState.observe, hnull,
      PoolAllocator.allocate]
  · refine ⟨3, ?_⟩
    simp [TransitionSystem.execute, poolSystem, poolStep, hidle, PoolState.observe, hnull,
      PoolState.advance, PoolAllocator.allocate, List.replicate]

/-- The same for a `deallocate` of the address of a block. -/
theorem execute_deallocate (hidle : s.calls thread = none) {index : ℕ}
    (hindex : index < layout.blockCount) :
    ((poolSystem layout).execute s (.deallocate thread (layout.block index) ::
      List.replicate 3 (.advance thread false))).map PoolState.pool =
        some (s.pool.deallocate layout.shape (layout.block index)) := by
  obtain ⟨hnull, howns, hstride, -⟩ := layout.owns_block hindex
  have howns' : PoolShape.owns ⟨layout.buffer, layout.stride, layout.blockCount⟩
      (layout.block index) = true := howns
  simp [TransitionSystem.execute, poolSystem, poolStep, hidle, PoolState.startDeallocate, hnull,
    howns, hstride, PoolState.advance, PoolAllocator.deallocate, howns', PoolLayout.shape,
    List.replicate]

end Alone

/-! ### Addresses are aligned -/

/-- The check for a power of two. -/
theorem isPow2_iff {value : ℕ} : isPow2 value = true ↔ ∃ k, value = 2 ^ k := by
  rw [isPow2, Bool.and_eq_true, bne_iff_ne, beq_iff_eq]
  exact Nat.ne_zero_and_sub_one_eq_zero_iff_isPowerOfTwo

theorem isPow2_normalizeAlign (alignment : ℕ) : isPow2 (normalizeAlign alignment) = true := by
  unfold normalizeAlign
  dsimp only
  split_ifs with hsmall hpow hpow
  · exact hpow
  · decide
  · exact hpow
  · decide

/-- A power of two from 16 on is used as it is. -/
theorem normalizeAlign_eq {alignment : ℕ} (hpow : isPow2 alignment = true)
    (hmin : 16 ≤ alignment) : normalizeAlign alignment = alignment := by
  unfold normalizeAlign
  dsimp only
  rw [if_neg (Nat.not_lt.mpr hmin), if_pos hpow]

/-- A power of two in a word divides the number of words. -/
theorem dvd_word64 {alignment : ℕ} (hpow : isPow2 alignment = true) (hlt : alignment < word64) :
    alignment ∣ word64 := by
  obtain ⟨k, rfl⟩ := isPow2_iff.mp hpow
  exact Nat.pow_dvd_pow 2 ((Nat.pow_lt_pow_iff_right (by decide)).mp hlt).le

theorem normalizeAlign_lt (alignment : UInt64) : normalizeAlign alignment.toNat < word64 := by
  have hlt := alignment.toNat_lt
  unfold normalizeAlign word64
  dsimp only
  split_ifs <;> omega

theorem normalizeAlign_dvd_word64 (alignment : UInt64) :
    normalizeAlign alignment.toNat ∣ word64 :=
  dvd_word64 (isPow2_normalizeAlign _) (normalizeAlign_lt alignment)

/-- Rounding up with masks divides and multiplies by the alignment. -/
theorem alignUp_eq (value : ℕ) {alignment : ℕ} (hpow : isPow2 alignment = true)
    (hlt : alignment < word64) :
    alignUp value alignment = alignment * (addMod word64 value (alignment - 1) / alignment) := by
  obtain ⟨k, rfl⟩ := isPow2_iff.mp hpow
  obtain ⟨word, hword⟩ : ∃ word, word = addMod word64 value (2 ^ k - 1) := ⟨_, rfl⟩
  have hle : word < word64 := by
    rw [hword]
    exact addMod_lt word64_pos _ _
  have hmask : 2 ^ k - 1 < word64 := lt_of_le_of_lt (Nat.sub_le _ _) hlt
  have hsplit := and_add_and_not hle hmask
  rw [Nat.and_two_pow_sub_one_eq_mod] at hsplit
  have hdiv := Nat.div_add_mod word (2 ^ k)
  rw [alignUp, ← hword]
  change word &&& (2 ^ 64 - 1 - (2 ^ k - 1)) = _
  omega

/-- What is rounded up is a multiple of the alignment, also where it wraps. -/
theorem dvd_alignUp (value : ℕ) {alignment : ℕ} (hpow : isPow2 alignment = true)
    (hlt : alignment < word64) : alignment ∣ alignUp value alignment := by
  rw [alignUp_eq value hpow hlt]
  exact Nat.dvd_mul_right _ _

/-- Every address that a pool returns is a multiple of its alignment, whatever its words are.
Assumes: the system returns memory with the alignment passed to it. -/
theorem PoolShape.dvd_block {buffer : ℕ} (blockSize blockCount : ℕ) {alignment : UInt64}
    (hbuffer : normalizeAlign alignment.toNat ∣ buffer) (index : ℕ) :
    normalizeAlign alignment.toNat ∣
      (create buffer blockSize blockCount alignment.toNat).block index := by
  have hword := normalizeAlign_dvd_word64 alignment
  have hstride : normalizeAlign alignment.toNat ∣ strideFor blockSize alignment.toNat :=
    dvd_alignUp _ (isPow2_normalizeAlign _) (normalizeAlign_lt alignment)
  rw [block, addMod, Nat.dvd_mod_iff hword]
  refine Nat.dvd_add hbuffer ?_
  rw [Nat.dvd_mod_iff hword]
  exact hstride.mul_left index

/-! ### The blocks of a pool -/

namespace PoolShape

/-- What the system guarantees about a buffer that it has returned: it lies in the address space,
behind null, and is not larger than half of it. -/
structure Granted (shape : PoolShape) : Prop where
  buffer_pos : 0 < shape.buffer
  fits : shape.buffer + shape.bytes < word64
  half : shape.bytes ≤ 2 ^ 63
  stride_lt : shape.stride < word64
  blockCount_pos : 0 < shape.blockCount

theorem granted_create {buffer blockSize blockCount alignment : ℕ} (hbuffer : 0 < buffer)
    (hfits : buffer + (create buffer blockSize blockCount alignment).bytes < word64)
    (hhalf : (create buffer blockSize blockCount alignment).bytes ≤ 2 ^ 63) :
    (create buffer blockSize blockCount alignment).Granted where
  buffer_pos := hbuffer
  fits := hfits
  half := hhalf
  stride_lt := lt_of_le_of_lt Nat.and_le_left (addMod_lt word64_pos _ _)
  blockCount_pos := by
    unfold create blockCountFor
    dsimp only
    split_ifs <;> omega

/-- The number of blocks in the free list after construction. -/
def listed (shape : PoolShape) : ℕ := min shape.blockCount kNullIndex

theorem listed_lt {shape : PoolShape} {index : ℕ} (hindex : index < shape.listed) :
    index < word32 ∧ index ≠ kNullIndex := by
  unfold listed kNullIndex word32 at *
  omega

/-- The free list after construction visits the blocks in the order of their indices. -/
theorem initial_chain (shape : PoolShape) {first : ℕ} (hfirst : first < shape.listed) :
    Chain shape.initialPool.nextIndex kNullIndex first
      (List.range' first (shape.listed - first)) := by
  obtain ⟨count, hcount⟩ : ∃ count, shape.listed = first + 1 + count :=
    ⟨shape.listed - (first + 1), by omega⟩
  rw [show shape.listed - first = count + 1 by omega]
  have hword := listed_lt hfirst
  induction count generalizing first with
  | zero =>
    refine ⟨rfl, hword.2, ?_⟩
    change (if first + 1 < shape.blockCount then (first + 1) % word32 else kNullIndex) = kNullIndex
    unfold listed kNullIndex word32 at *
    split_ifs <;> omega
  | succ count ih =>
    have hnext : shape.initialPool.nextIndex first = first + 1 := by
      change (if first + 1 < shape.blockCount then (first + 1) % word32 else kNullIndex) = first + 1
      unfold listed kNullIndex word32 at *
      rw [if_pos (by omega), Nat.mod_eq_of_lt (by omega)]
    refine ⟨rfl, hword.2, ?_⟩
    rw [hnext]
    have hsecond : first + 1 < shape.listed := by omega
    exact ih hsecond (by omega) (listed_lt hsecond)

end PoolShape

namespace PoolAllocator

variable {shape : PoolShape} {pool : PoolAllocator} {returned : List ℕ} {fresh : ℕ}

/-- The state of a pool between whole calls: the free list visits the blocks that have been given
back, the last one first, and then those that have never been handed out. Every block that has been
handed out lies in the buffer with its first four bytes. -/
structure Accounts (shape : PoolShape) (pool : PoolAllocator) (returned : List ℕ) (fresh : ℕ) :
    Prop where
  chain : Chain pool.nextIndex kNullIndex (unpackIndex pool.head)
    (returned ++ List.range' fresh (shape.listed - fresh))
  nodup : returned.Nodup
  returned_lt : ∀ index ∈ returned, index < fresh
  fresh_le : fresh ≤ shape.listed
  inside : ∀ index < fresh, index * shape.stride + 4 ≤ shape.bytes
  allocated : pool.allocated + returned.length = fresh

/-- A block that has been handed out and not been given back. -/
def Taken (returned : List ℕ) (fresh index : ℕ) : Prop := index < fresh ∧ index ∉ returned

theorem accounts_initial (hgranted : shape.Granted) : Accounts shape shape.initialPool [] 0 where
  chain := by
    have hpos : 0 < shape.listed := by
      have hcount := hgranted.blockCount_pos
      unfold PoolShape.listed kNullIndex
      omega
    exact shape.initial_chain hpos
  nodup := List.nodup_nil
  returned_lt := by simp
  fresh_le := Nat.zero_le _
  inside := by simp
  allocated := rfl

/-- The address of a block that has been handed out. -/
theorem Accounts.block_eq (haccounts : Accounts shape pool returned fresh)
    (hgranted : shape.Granted) {index : ℕ} (hindex : index < fresh) :
    shape.block index = shape.buffer + index * shape.stride := by
  have hinside := haccounts.inside index hindex
  have hfits := hgranted.fits
  rw [PoolShape.block, addMod, Nat.mod_eq_of_lt (by omega : index * shape.stride < word64),
    Nat.mod_eq_of_lt (by omega)]

/-- The blocks of a pool that has handed one out do not all have the same address. -/
theorem Accounts.stride_pos (haccounts : Accounts shape pool returned fresh) {index : ℕ}
    (hindex : index < fresh) : 0 < shape.stride := by
  refine Nat.pos_of_ne_zero fun hzero ↦ ?_
  have hinside := haccounts.inside index hindex
  rw [PoolShape.bytes, hzero, Nat.zero_mul, Nat.zero_mod] at hinside
  omega

/-- Different blocks that have been handed out have different addresses. -/
theorem Accounts.block_injective (haccounts : Accounts shape pool returned fresh)
    (hgranted : shape.Granted) {first second : ℕ} (hfirst : first < fresh)
    (hsecond : second < fresh) (hsame : shape.block first = shape.block second) :
    first = second := by
  rw [haccounts.block_eq hgranted hfirst, haccounts.block_eq hgranted hsecond] at hsame
  exact Nat.eq_of_mul_eq_mul_right (haccounts.stride_pos hfirst) (Nat.add_left_cancel hsame)

/-- The address of the next block that has never been handed out, where it lies in the buffer: its
offset has not wrapped either. -/
theorem Accounts.fresh_inside (haccounts : Accounts shape pool returned fresh)
    (hgranted : shape.Granted) (hlower : shape.buffer ≤ shape.block fresh)
    (hupper : shape.block fresh + 4 ≤ shape.buffer + shape.bytes) :
    fresh * shape.stride + 4 ≤ shape.bytes := by
  have hfits := hgranted.fits
  have hhalf := hgranted.half
  -- The block in front lies in the buffer, which is at most half of the address space.
  have hlt : fresh * shape.stride < word64 := by
    rcases Nat.lt_or_ge fresh 2 with hsmall | hlarge
    · have hstride := hgranted.stride_lt
      have hle : fresh * shape.stride ≤ 1 * shape.stride := Nat.mul_le_mul_right _ (by omega)
      omega
    · obtain ⟨last, rfl⟩ : ∃ last, fresh = last + 1 := ⟨fresh - 1, by omega⟩
      have hinside := haccounts.inside last (Nat.lt_succ_self last)
      have hle : 1 * shape.stride ≤ last * shape.stride := Nat.mul_le_mul_right _ (by omega)
      rw [Nat.succ_mul]
      unfold word64
      omega
  rw [PoolShape.block, Nat.mod_eq_of_lt hlt] at hlower hupper
  have hsum : shape.buffer + fresh * shape.stride < 2 * word64 := by omega
  unfold addMod at hlower hupper
  rcases Nat.lt_or_ge (shape.buffer + fresh * shape.stride) word64 with hexact | hwrapped
  · rw [Nat.mod_eq_of_lt hexact] at hupper
    omega
  · rw [Nat.mod_eq_sub_mod hwrapped, Nat.mod_eq_of_lt (by omega)] at hlower
    omega

/-- Every index in a free list is a word. -/
theorem Accounts.index_lt (haccounts : Accounts shape pool returned fresh) {index : ℕ}
    (hindex : index ∈ returned ++ List.range' fresh (shape.listed - fresh)) :
    index < shape.listed := by
  rcases List.mem_append.mp hindex with hold | hnew
  · exact lt_of_lt_of_le (haccounts.returned_lt index hold) haccounts.fresh_le
  · have hrange := List.mem_range'_1.mp hnew
    omega

/-- The free list visits no block twice. -/
theorem Accounts.free_nodup (haccounts : Accounts shape pool returned fresh) :
    (returned ++ List.range' fresh (shape.listed - fresh)).Nodup := by
  refine List.nodup_append'.mpr ⟨haccounts.nodup, List.nodup_range', ?_⟩
  intro index hreturned hrange
  have hlt := haccounts.returned_lt index hreturned
  have hge := (List.mem_range'_1.mp hrange).1
  omega

/-- The blocks that are handed out are those that are not in the free list. -/
theorem Accounts.taken_iff (haccounts : Accounts shape pool returned fresh) {index : ℕ} :
    Taken returned fresh index ↔ index < shape.listed ∧
      index ∉ returned ++ List.range' fresh (shape.listed - fresh) := by
  have hle := haccounts.fresh_le
  rw [Taken, List.mem_append, List.mem_range'_1, not_or]
  constructor
  · rintro ⟨hlt, hnot⟩
    exact ⟨by omega, hnot, by omega⟩
  · rintro ⟨hlisted, hnot, hrange⟩
    exact ⟨by omega, hnot⟩

/-- What `allocate` does when it takes the first block of the free list. -/
theorem Accounts.allocate_head (haccounts : Accounts shape pool returned fresh) {index : ℕ}
    {rest : List ℕ}
    (hfree : returned ++ List.range' fresh (shape.listed - fresh) = index :: rest) :
    pool.allocate shape = ({ pool with
        head := pack (pool.nextIndex index) (addMod word32 (unpackTag pool.head) 1)
        allocated := addMod word64 pool.allocated 1 }, some (shape.block index)) ∧
      Chain pool.nextIndex kNullIndex (unpackIndex (pack (pool.nextIndex index)
        (addMod word32 (unpackTag pool.head) 1))) rest ∧
      addMod word64 pool.allocated 1 = pool.allocated + 1 := by
  have hchain := haccounts.chain
  rw [hfree] at hchain
  obtain ⟨hhead, hnull, hrest⟩ := hchain
  have hnext : pool.nextIndex index < word32 := by
    rcases hrest.start_eq_or_mem with hend | hmem
    · rw [hend]
      decide
    · exact (PoolShape.listed_lt (haccounts.index_lt (hfree ▸ List.mem_cons_of_mem _ hmem))).1
  refine ⟨?_, ?_, ?_⟩
  · rw [allocate, hhead, if_neg hnull]
  · rwa [unpackIndex_pack hnext]
  · have hlength := haccounts.allocated
    have hle := haccounts.fresh_le
    refine Nat.mod_eq_of_lt ?_
    unfold PoolShape.listed kNullIndex word64 at *
    omega

/-- What `allocate` does to a pool. Assumes: the returned block lies in the buffer with its first
four bytes. -/
theorem Accounts.allocate (haccounts : Accounts shape pool returned fresh)
    (hgranted : shape.Granted) {next : PoolAllocator} {ptr : ℕ}
    (hallocate : pool.allocate shape = (next, some ptr)) (hlower : shape.buffer ≤ ptr)
    (hupper : ptr + 4 ≤ shape.buffer + shape.bytes) :
    ∃ index returned' fresh', Accounts shape next returned' fresh' ∧ ptr = shape.block index ∧
      ¬ Taken returned fresh index ∧
      ∀ other, Taken returned' fresh' other ↔ Taken returned fresh other ∨ other = index := by
  cases returned with
  | cons index rest =>
    obtain ⟨hresult, hchain, hcount⟩ := haccounts.allocate_head List.cons_append
    rw [hresult, Prod.mk.injEq, Option.some.injEq] at hallocate
    obtain ⟨rfl, rfl⟩ := hallocate
    obtain ⟨hmem, hnodup⟩ := List.nodup_cons.mp haccounts.nodup
    have hindex := haccounts.returned_lt index List.mem_cons_self
    refine ⟨index, rest, fresh, ?_, rfl, fun htaken ↦ htaken.2 List.mem_cons_self, fun other ↦ ?_⟩
    · exact
        { chain := hchain
          nodup := hnodup
          returned_lt := fun other hother ↦
            haccounts.returned_lt other (List.mem_cons_of_mem _ hother)
          fresh_le := haccounts.fresh_le
          inside := haccounts.inside
          allocated := by
            have hlength := haccounts.allocated
            rw [List.length_cons] at hlength
            simp only [hcount]
            omega }
    · simp only [Taken, List.mem_cons, not_or]
      constructor
      · rintro ⟨hlt, hnot⟩
        by_cases heq : other = index
        · exact .inr heq
        · exact .inl ⟨hlt, heq, hnot⟩
      · rintro (⟨hlt, -, hnot⟩ | rfl)
        · exact ⟨hlt, hnot⟩
        · exact ⟨hindex, hmem⟩
  | nil =>
    have hroom : fresh < shape.listed := by
      by_contra hfull
      have hchain := haccounts.chain
      rw [show shape.listed - fresh = 0 by omega] at hchain
      have hnull : unpackIndex pool.head = kNullIndex := hchain
      rw [PoolAllocator.allocate, if_pos hnull] at hallocate
      simp at hallocate
    have hfree : [] ++ List.range' fresh (shape.listed - fresh) =
        fresh :: List.range' (fresh + 1) (shape.listed - (fresh + 1)) := by
      rw [List.nil_append, show shape.listed - fresh = shape.listed - (fresh + 1) + 1 by omega]
      rfl
    obtain ⟨hresult, hchain, hcount⟩ := haccounts.allocate_head hfree
    rw [hresult, Prod.mk.injEq, Option.some.injEq] at hallocate
    obtain ⟨rfl, rfl⟩ := hallocate
    have hinside := haccounts.fresh_inside hgranted hlower hupper
    refine ⟨fresh, [], fresh + 1, ?_, rfl, fun htaken ↦ lt_irrefl _ htaken.1, fun other ↦ ?_⟩
    · exact
        { chain := hchain
          nodup := List.nodup_nil
          returned_lt := by simp
          fresh_le := hroom
          inside := fun other hother ↦ by
            rcases Nat.lt_succ_iff_lt_or_eq.mp hother with hold | rfl
            · exact haccounts.inside other hold
            · exact hinside
          allocated := by
            have hlength := haccounts.allocated
            simp only [hcount]
            rw [List.length_nil] at hlength ⊢
            omega }
    · simp only [Taken, List.not_mem_nil, not_false_eq_true, and_true]
      omega

/-- A pool that returns null is as before. -/
theorem allocate_none {next : PoolAllocator} (hallocate : pool.allocate shape = (next, none)) :
    next = pool := by
  unfold PoolAllocator.allocate at hallocate
  dsimp only at hallocate
  split_ifs at hallocate
  · exact (Prod.mk.inj hallocate).1.symm
  · simp at hallocate

/-- What `deallocate` does to a pool when it is called with a block that has been handed out and not
been given back. -/
theorem Accounts.deallocate (haccounts : Accounts shape pool returned fresh)
    (hgranted : shape.Granted) {index : ℕ} (htaken : Taken returned fresh index) :
    Accounts shape (pool.deallocate shape (shape.block index)) (index :: returned) fresh := by
  obtain ⟨hindex, hnot⟩ := htaken
  have hblock := haccounts.block_eq hgranted hindex
  have hinside := haccounts.inside index hindex
  have hbuffer := hgranted.buffer_pos
  have hword := PoolShape.listed_lt (lt_of_lt_of_le hindex haccounts.fresh_le)
  have hstride := haccounts.stride_pos hindex
  have howns : shape.owns (shape.block index) = true := by
    rw [hblock]
    simp only [PoolShape.owns, Bool.and_eq_true, bne_iff_ne, decide_eq_true_eq]
    exact ⟨⟨⟨by omega, by omega⟩, Nat.le_add_right _ _⟩, by omega⟩
  have hoffset : shape.block index - shape.buffer = index * shape.stride := by
    rw [hblock]
    exact Nat.add_sub_cancel_left _ _
  have hlength : returned.length < fresh := by
    have hsubset : index :: returned ⊆ List.range fresh := by
      intro other hother
      rcases List.mem_cons.mp hother with rfl | hold
      · exact List.mem_range.mpr hindex
      · exact List.mem_range.mpr (haccounts.returned_lt other hold)
    have hle := ((List.nodup_cons.mpr ⟨hnot, haccounts.nodup⟩).subperm hsubset).length_le
    rwa [List.length_cons, List.length_range] at hle
  have hallocated := haccounts.allocated
  have hcount : subMod word64 pool.allocated 1 = pool.allocated - 1 := by
    have hle := haccounts.fresh_le
    refine subMod_of_le (by omega) ?_
    unfold PoolShape.listed kNullIndex word64 at *
    omega
  have hresult : pool.deallocate shape (shape.block index) =
      { nextIndex := Function.update pool.nextIndex index (unpackIndex pool.head)
        head := pack index (addMod word32 (unpackTag pool.head) 1)
        allocated := pool.allocated - 1 } := by
    unfold PoolAllocator.deallocate
    rw [if_neg (by rw [howns, hblock]; simp; omega), hoffset, Nat.mul_mod_left, if_neg (by simp),
      Nat.mul_div_cancel _ hstride, Nat.mod_eq_of_lt hword.1, hcount]
  have hfree : index ∉ returned ++ List.range' fresh (shape.listed - fresh) := by
    rw [List.mem_append, List.mem_range'_1]
    rintro (hold | hnew)
    · exact hnot hold
    · omega
  rw [hresult]
  exact
    { chain := by
        refine ⟨unpackIndex_pack hword.1 _, hword.2, ?_⟩
        have hrest := @Chain.update _ _ _ _ _ index (unpackIndex pool.head) _ haccounts.chain hfree
        dsimp only
        rw [Function.update_self]
        exact hrest
      nodup := List.nodup_cons.mpr ⟨hnot, haccounts.nodup⟩
      returned_lt := fun other hother ↦ by
        rcases List.mem_cons.mp hother with rfl | hold
        · exact hindex
        · exact haccounts.returned_lt other hold
      fresh_le := haccounts.fresh_le
      inside := haccounts.inside
      allocated := by
        rw [List.length_cons]
        dsimp only
        omega }

end PoolAllocator

end GameEngine.Core
