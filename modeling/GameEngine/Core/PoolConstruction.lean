import GameEngine.Core.PoolCalls
import GameEngine.Library.RangeStack

/-!
# The construction of a pool

The constructor of `PoolAllocator` rounds the size of a block up, multiplies it by the number of
blocks and numbers the blocks, all without a check: the rounding and the product may wrap in 64
bits, and from `2 ^ 32` blocks on the indices are cut, and one of them is the null index.

`serves_iff` says when a new pool nevertheless hands out as many disjoint blocks as it says, all in
the memory it has got: if and only if the exact size of all blocks fits in 64 bits and the number of
blocks in 32. `serves_wrapped` is a pool of two blocks of `2 ^ 63 + 64` bytes in 128 bytes of
memory.
-/

set_option autoImplicit false
set_option relaxedAutoImplicit false

namespace GameEngine.Core

open GameEngine.Library GameEngine.Library.MachineWord GameEngine.Library.IndexChain

/-! ### Rounding in exact arithmetic -/

/-- Rounds up to a multiple of the alignment, without a bound on the result. -/
def roundUp (value alignment : ℕ) : ℕ := alignment * ((value + (alignment - 1)) / alignment)

/-- The machine rounds up modulo the number of words. -/
theorem alignUp_eq_mod (value : ℕ) {alignment : ℕ} (hpow : isPow2 alignment = true)
    (hlt : alignment < word64) : alignUp value alignment = roundUp value alignment % word64 := by
  obtain ⟨k, rfl⟩ := isPow2_iff.mp hpow
  obtain ⟨count, hcount⟩ := dvd_word64 hpow hlt
  have hpos : 0 < 2 ^ k := Nat.two_pow_pos k
  rw [alignUp_eq value hpow hlt, addMod, roundUp, hcount, Nat.mul_mod_mul_left,
    Nat.mod_mul_right_div_self]

theorem le_roundUp (value : ℕ) {alignment : ℕ} (hpos : 0 < alignment) :
    value ≤ roundUp value alignment := by
  have hdiv := Nat.div_add_mod (value + (alignment - 1)) alignment
  have hmod := Nat.mod_lt (value + (alignment - 1)) hpos
  unfold roundUp
  omega

/-- A multiple of the alignment is not passed. -/
theorem roundUp_le {value alignment bound : ℕ} (hdvd : alignment ∣ bound) (hpos : 0 < alignment)
    (hle : value ≤ bound) : roundUp value alignment ≤ bound := by
  obtain ⟨count, rfl⟩ := hdvd
  refine Nat.mul_le_mul_left _ (Nat.le_of_lt_succ ((Nat.div_lt_iff_lt_mul hpos).mpr ?_))
  rw [Nat.succ_mul, Nat.mul_comm count]
  omega

/-- What lies less than the alignment below the number of words is rounded up to zero. -/
theorem alignUp_eq_zero {value alignment : ℕ} (hpow : isPow2 alignment = true)
    (hlt : alignment < word64) (hvalue : value ≤ word64) (hnear : word64 < value + alignment) :
    alignUp value alignment = 0 := by
  have hdvd := dvd_word64 hpow hlt
  have hpos : 0 < alignment := Nat.pos_of_dvd_of_pos hdvd word64_pos
  have hle : roundUp value alignment ≤ word64 := roundUp_le hdvd hpos hvalue
  have hgap : alignment ∣ word64 - roundUp value alignment := Nat.dvd_sub hdvd ⟨_, rfl⟩
  have hzero : word64 - roundUp value alignment = 0 := by
    have hge := le_roundUp value hpos
    exact Nat.eq_zero_of_dvd_of_lt hgap (by omega)
  rw [alignUp_eq_mod value hpow hlt, show roundUp value alignment = word64 by omega, Nat.mod_self]

/-! ### What a new pool serves -/

/-- What successive calls of `allocate` return. -/
def PoolAllocator.allocateAll (shape : PoolShape) : ℕ → PoolAllocator → List (Option ℕ)
  | 0, _ => []
  | count + 1, pool => (pool.allocate shape).2 :: allocateAll shape count (pool.allocate shape).1

/-- A new pool serves its blocks out of `obtained` bytes: the first calls of `allocate`, as many as
there are blocks, return addresses of disjoint ranges in these bytes, all accepted by `owns`, and
the next one returns null. -/
structure PoolShape.Serves (shape : PoolShape) (obtained : ℕ) (ptrs : List ℕ) : Prop where
  length_eq : ptrs.length = shape.blockCount
  returned : PoolAllocator.allocateAll shape (shape.blockCount + 1) shape.initialPool =
    ptrs.map some ++ [none]
  inside : ∀ ptr ∈ ptrs, shape.buffer ≤ ptr ∧ ptr + shape.stride ≤ shape.buffer + obtained
  disjoint : (ptrs.map (Range.mk · shape.stride)).Pairwise Range.Disjoint
  owned : ∀ ptr ∈ ptrs, shape.owns ptr = true

/-- The number of bytes that all blocks take in exact arithmetic. -/
def exactPoolBytes (blockSize blockCount alignment : UInt64) : ℕ :=
  roundUp (rawSize blockSize.toNat) (normalizeAlign alignment.toNat) *
    blockCountFor blockCount.toNat

/-- The number of bytes that `alloc_aligned` asks the system for. -/
def PoolShape.obtained (shape : PoolShape) (alignment : UInt64) : ℕ :=
  alignUp shape.bytes (normalizeAlign alignment.toNat)

/-- Calls to a pool return the blocks of its free list and then null. -/
theorem PoolAllocator.allocateAll_eq {shape : PoolShape} {pool : PoolAllocator} {free : List ℕ}
    (hchain : Chain pool.nextIndex kNullIndex (unpackIndex pool.head) free)
    (hword : ∀ index ∈ free, index < word32) (count : ℕ) :
    allocateAll shape count pool =
      (free.take count).map (fun index ↦ some (shape.block index)) ++
        List.replicate (count - free.length) none := by
  induction count generalizing pool free with
  | zero => simp [allocateAll]
  | succ count ih =>
    cases free with
    | nil =>
      have hnull : unpackIndex pool.head = kNullIndex := hchain
      have hsame : pool.allocate shape = (pool, none) := by
        rw [PoolAllocator.allocate, if_pos hnull]
      rw [allocateAll, hsame, ih hchain hword]
      simp [List.replicate_succ]
    | cons index rest =>
      obtain ⟨hhead, hindex, hrest⟩ := hchain
      have hnext : pool.nextIndex index < word32 := by
        rcases hrest.start_eq_or_mem with hend | hmem
        · rw [hend]
          decide
        · exact hword _ (List.mem_cons_of_mem _ hmem)
      have hrest' : Chain pool.nextIndex kNullIndex
          (unpackIndex (pack (pool.nextIndex index) (addMod word32 (unpackTag pool.head) 1)))
          rest := by
        rwa [unpackIndex_pack hnext]
      rw [allocateAll, PoolAllocator.allocate, hhead, if_neg hindex]
      dsimp only
      rw [ih hrest' fun other hother ↦ hword other (List.mem_cons_of_mem _ hother)]
      simp

namespace PoolShape

variable {buffer : ℕ} {blockSize blockCount alignment : UInt64}

/-- A new pool returns its blocks in the order of their indices. -/
theorem allocateAll_initial (shape : PoolShape) (hpos : 0 < shape.blockCount) :
    PoolAllocator.allocateAll shape (shape.blockCount + 1) shape.initialPool =
      (List.range shape.listed).map (fun index ↦ some (shape.block index)) ++
        List.replicate (shape.blockCount + 1 - shape.listed) none := by
  have hlisted : 0 < shape.listed := by
    unfold listed kNullIndex
    omega
  have hchain := shape.initial_chain hlisted
  have hword : ∀ index ∈ List.range' 0 (shape.listed - 0), index < word32 := by
    intro index hindex
    rw [List.mem_range'_1] at hindex
    have hlt : index < shape.listed := by omega
    exact (listed_lt hlt).1
  have hall := @PoolAllocator.allocateAll_eq shape shape.initialPool _ hchain hword
    (shape.blockCount + 1)
  have hlength : (List.range' 0 (shape.listed - 0)).length ≤ shape.blockCount + 1 := by
    rw [List.length_range']
    unfold listed
    omega
  rw [List.take_of_length_le hlength, List.length_range'] at hall
  simpa [List.range_eq_range'] using hall

/-- The stride is the exact one, or it has wrapped to zero. -/
theorem stride_cases (buffer : ℕ) (blockSize blockCount alignment : UInt64) :
    let exact := roundUp (rawSize blockSize.toNat) (normalizeAlign alignment.toNat)
    let shape := create buffer blockSize.toNat blockCount.toNat alignment.toNat
    0 < exact ∧ (exact < word64 ∧ shape.stride = exact ∨ exact = word64 ∧ shape.stride = 0) := by
  intro exact shape
  have hpow := isPow2_normalizeAlign alignment.toNat
  have hlt := normalizeAlign_lt alignment
  have hpos : 0 < normalizeAlign alignment.toNat := by
    obtain ⟨k, hk⟩ := isPow2_iff.mp hpow
    rw [hk]
    exact Nat.two_pow_pos k
  have hraw : 0 < rawSize blockSize.toNat ∧ rawSize blockSize.toNat ≤ word64 := by
    have hsize := blockSize.toNat_lt
    unfold rawSize word64
    split_ifs <;> omega
  have hle : exact ≤ word64 := roundUp_le (normalizeAlign_dvd_word64 alignment) hpos hraw.2
  have hstride : shape.stride = exact % word64 := alignUp_eq_mod _ hpow hlt
  refine ⟨hraw.1.trans_le (le_roundUp _ hpos), ?_⟩
  rcases Nat.lt_or_eq_of_le hle with hfits | hwraps
  · exact .inl ⟨hfits, hstride.trans (Nat.mod_eq_of_lt hfits)⟩
  · exact .inr ⟨hwraps, by rw [hstride, hwraps, Nat.mod_self]⟩

/-- The system is asked for exactly the bytes of the pool. -/
theorem obtained_eq (buffer : ℕ) (blockSize blockCount alignment : UInt64) :
    let shape := create buffer blockSize.toNat blockCount.toNat alignment.toNat
    shape.obtained alignment = shape.bytes := by
  intro shape
  have hpow := isPow2_normalizeAlign alignment.toNat
  have hlt := normalizeAlign_lt alignment
  have hword := normalizeAlign_dvd_word64 alignment
  have hpos : 0 < normalizeAlign alignment.toNat := Nat.pos_of_dvd_of_pos hword word64_pos
  have hdvd : normalizeAlign alignment.toNat ∣ shape.bytes := by
    rw [bytes, Nat.dvd_mod_iff hword]
    exact (dvd_alignUp _ hpow hlt).mul_right _
  have hbytes : shape.bytes < word64 := Nat.mod_lt _ word64_pos
  rw [obtained, alignUp_eq_mod _ hpow hlt,
    Nat.le_antisymm (roundUp_le hdvd hpos le_rfl) (le_roundUp _ hpos), Nat.mod_eq_of_lt hbytes]

/-- The address of a block is exact, and the block ends in the memory, if the size of all blocks has
not wrapped. -/
theorem block_of_exact {shape : PoolShape} (hfits : shape.buffer + shape.bytes < word64)
    (hsize : shape.stride * shape.blockCount < word64) {index : ℕ}
    (hindex : index < shape.blockCount) :
    shape.block index = shape.buffer + index * shape.stride ∧
      index * shape.stride + shape.stride ≤ shape.bytes := by
  have hbytes : shape.bytes = shape.stride * shape.blockCount := Nat.mod_eq_of_lt hsize
  have hend : index * shape.stride + shape.stride ≤ shape.bytes := by
    rw [hbytes, ← Nat.succ_mul, Nat.mul_comm shape.stride]
    exact Nat.mul_le_mul_right _ hindex
  refine ⟨?_, hend⟩
  rw [block, addMod, Nat.mod_eq_of_lt (by omega : index * shape.stride < word64),
    Nat.mod_eq_of_lt (by omega)]

/-- The blocks of a pool whose size has not wrapped. -/
theorem serves_of_exact {shape : PoolShape} (hbuffer : 0 < shape.buffer)
    (hfits : shape.buffer + shape.bytes < word64) (hstride : 0 < shape.stride)
    (hcount : 0 < shape.blockCount) (hsize : shape.stride * shape.blockCount < word64)
    (hindex : shape.blockCount < word32) :
    shape.Serves shape.bytes ((List.range shape.blockCount).map shape.block) := by
  have hlisted : shape.listed = shape.blockCount := by
    unfold listed kNullIndex
    unfold word32 at hindex
    omega
  have hblock : ∀ index < shape.blockCount,
      shape.block index = shape.buffer + index * shape.stride :=
    fun index hlt ↦ (block_of_exact hfits hsize hlt).1
  have hinside : ∀ ptr ∈ (List.range shape.blockCount).map shape.block,
      shape.buffer ≤ ptr ∧ ptr + shape.stride ≤ shape.buffer + shape.bytes := by
    intro ptr hptr
    obtain ⟨index, hmem, rfl⟩ := List.mem_map.mp hptr
    have hlt := List.mem_range.mp hmem
    obtain ⟨hblock, hend⟩ := block_of_exact hfits hsize hlt
    omega
  refine ⟨by simp, ?_, hinside, ?_, fun ptr hptr ↦ ?_⟩
  · rw [shape.allocateAll_initial hcount, hlisted, List.map_map,
      show shape.blockCount + 1 - shape.blockCount = 1 by omega]
    rfl
  · rw [List.map_map, List.pairwise_map]
    refine List.pairwise_lt_range.imp_of_mem fun {first second} hfirst hsecond hlt ↦ .inl ?_
    have hle : (first + 1) * shape.stride ≤ second * shape.stride := Nat.mul_le_mul_right _ hlt
    rw [Nat.succ_mul] at hle
    simp only [Function.comp, Range.stop, hblock _ (List.mem_range.mp hfirst),
      hblock _ (List.mem_range.mp hsecond)]
    omega
  · obtain ⟨hlower, hupper⟩ := hinside ptr hptr
    simp only [owns, Bool.and_eq_true, bne_iff_ne, decide_eq_true_eq]
    exact ⟨⟨⟨by omega, by omega⟩, hlower⟩, by omega⟩

/-- A pool that serves its blocks has few of them, and room for them. -/
theorem Serves.exact {shape : PoolShape} {ptrs : List ℕ}
    (hserves : shape.Serves shape.bytes ptrs) (hfits : shape.buffer + shape.bytes < word64)
    (hcount : 0 < shape.blockCount) :
    shape.blockCount < word32 ∧ 0 < shape.stride ∧ shape.stride * shape.blockCount < word64 := by
  obtain ⟨hlength, hreturned, hinside, -, howned⟩ := hserves
  rw [shape.allocateAll_initial hcount] at hreturned
  have hlisted : shape.listed = shape.blockCount := by
    -- As many calls as there are blocks succeed, and as many as there are indices in the list.
    have hlookup := congrArg (fun results ↦ results[shape.listed]?) hreturned
    rw [List.getElem?_append_right (by simp)] at hlookup
    by_contra hne
    have hlt : shape.listed < shape.blockCount := lt_of_le_of_ne (Nat.min_le_left _ _) hne
    rw [List.getElem?_append_left (by simpa [hlength] using hlt)] at hlookup
    simp [hlength, hlt, Nat.lt_succ_of_lt hlt] at hlookup
  have hindex : shape.blockCount < word32 := by
    have hnull : shape.blockCount ≤ kNullIndex := hlisted ▸ Nat.min_le_right _ _
    unfold kNullIndex at hnull
    unfold word32
    omega
  have hptrs : ptrs = (List.range shape.blockCount).map shape.block := by
    rw [hlisted] at hreturned
    have hmap := (List.append_inj hreturned (by simp [hlength])).1
    refine List.map_injective_iff.mpr (Option.some_injective ℕ) ?_
    rw [← hmap, List.map_map]
    rfl
  have hmem : ∀ index < shape.blockCount, shape.block index ∈ ptrs := by
    intro index hlt
    rw [hptrs]
    exact List.mem_map_of_mem (List.mem_range.mpr hlt)
  have hstride : 0 < shape.stride := by
    refine Nat.pos_of_ne_zero fun hzero ↦ ?_
    have howns := howned _ (hmem 0 hcount)
    obtain ⟨hlower, -⟩ := hinside _ (hmem 0 hcount)
    simp only [owns, bytes, hzero, Nat.zero_mul, Nat.zero_mod, Bool.and_eq_true,
      decide_eq_true_eq] at howns
    omega
  refine ⟨hindex, hstride, ?_⟩
  by_contra hwraps
  -- The first block that ends behind the memory starts in it, so that its address is exact.
  obtain ⟨index, hdef⟩ : ∃ index, index = shape.bytes / shape.stride := ⟨_, rfl⟩
  have hdiv := Nat.div_add_mod shape.bytes shape.stride
  have hmod := Nat.mod_lt shape.bytes hstride
  rw [← hdef, Nat.mul_comm] at hdiv
  have hlt : index < shape.blockCount := by
    by_contra hge
    have hle : shape.blockCount * shape.stride ≤ index * shape.stride :=
      Nat.mul_le_mul_right _ (Nat.le_of_not_lt hge)
    rw [Nat.mul_comm] at hle
    omega
  obtain ⟨-, hupper⟩ := hinside _ (hmem index hlt)
  rw [block, addMod, Nat.mod_eq_of_lt (by omega : index * shape.stride < word64),
    Nat.mod_eq_of_lt (by omega)] at hupper
  omega

end PoolShape

open PoolShape

/-- For every block size, number of blocks and alignment, and every buffer that the system returns:
a new pool hands out as many disjoint blocks of its size as it says, in the memory that it has got,
if and only if all of them together take fewer than `2 ^ 64` bytes, and they are fewer than
`2 ^ 32`. -/
theorem serves_iff {buffer : ℕ} (blockSize blockCount alignment : UInt64) (hbuffer : 0 < buffer)
    (hfits : buffer + (create buffer blockSize.toNat blockCount.toNat alignment.toNat).obtained
      alignment < word64) :
    let shape := create buffer blockSize.toNat blockCount.toNat alignment.toNat
    (∃ ptrs, shape.Serves (shape.obtained alignment) ptrs) ↔
      exactPoolBytes blockSize blockCount alignment < 2 ^ 64 ∧
        blockCountFor blockCount.toNat < 2 ^ 32 := by
  intro shape
  have hobtained := obtained_eq buffer blockSize blockCount alignment
  dsimp only at hobtained
  rw [hobtained] at hfits ⊢
  have hcount : 0 < blockCountFor blockCount.toNat := by
    unfold blockCountFor
    split_ifs <;> omega
  obtain ⟨hpos, hstride⟩ := stride_cases buffer blockSize blockCount alignment
  constructor
  · rintro ⟨ptrs, hserves⟩
    obtain ⟨hindex, hstridePos, hsize⟩ := hserves.exact hfits hcount
    rcases hstride with ⟨-, hstride⟩ | ⟨-, hstride⟩
    · refine ⟨?_, hindex⟩
      rw [exactPoolBytes, ← hstride]
      exact hsize
    · exact absurd hstride hstridePos.ne'
  · rintro ⟨hsize, hindex⟩
    have hexact : roundUp (rawSize blockSize.toNat) (normalizeAlign alignment.toNat) < word64 :=
      (Nat.le_mul_of_pos_right _ hcount).trans_lt hsize
    rcases hstride with ⟨-, hstride⟩ | ⟨hwraps, -⟩
    · have hstridePos : 0 < shape.stride := hstride ▸ hpos
      have hsize' : shape.stride * shape.blockCount < word64 := by
        rw [hstride]
        exact hsize
      exact ⟨_, serves_of_exact hbuffer hfits hstridePos hcount hsize' hindex⟩
    · exact absurd hwraps hexact.ne

/-- The theorem at three blocks of 60 bytes. -/
theorem serves_iff_small :
    ∃ ptrs, (create 4096 60 3 64).Serves ((create 4096 60 3 64).obtained 64) ptrs :=
  (@serves_iff 4096 60 3 64 (by decide) (by decide)).mpr (by decide)

/-- Two blocks of `2 ^ 63 + 64` bytes in 128 bytes of memory: the second address is behind it. -/
theorem serves_wrapped :
    let shape := create 4096 (2 ^ 63 + 64) 2 64
    shape.obtained 64 = 128 ∧
      PoolAllocator.allocateAll shape 2 shape.initialPool =
        [some 4096, some (4096 + (2 ^ 63 + 64))] ∧
      ¬ ∃ ptrs, shape.Serves (shape.obtained 64) ptrs := by
  intro shape
  have hobtained : shape.obtained 64 = shape.bytes := by decide
  refine ⟨by decide, by decide, ?_⟩
  rintro ⟨ptrs, hserves⟩
  rw [hobtained] at hserves
  exact absurd (hserves.exact (by decide) (by decide)).2.2 (by decide)

end GameEngine.Core
