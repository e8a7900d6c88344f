import GameEngine.Ai.TensorOwnership
import GameEngine.Core.PoolConstruction

/-!
# The bounds of tensor storage

The constructors of `TensorBuffer` compute the size in bytes in 64 bits and store the number of
elements as it was passed. `StoredTensor` is a buffer with the number of bytes that there are behind
its data, and `StorageState` a table of live buffers over one pool. Other than in `TensorState`, a
constructor that is about to fill more than it has got is a step like any other.

`tensors_bounded_iff` says that all accesses stay inside as long as every constructor that gets a
block of the heap is called with at most `2 ^ 62 - 16` elements, and every one that gets a block of
the pool with fewer than `2 ^ 62`, and that a larger number breaks it: the number of bytes wraps, or
wraps when it is rounded up. The size of all blocks of the pool must not have wrapped.
`large_tensor_unbounded` is a tensor of `2 ^ 62` elements in 64 bytes.
-/

set_option autoImplicit false
set_option relaxedAutoImplicit false

namespace GameEngine.Ai.TensorOwnership

open GameEngine.Library GameEngine.Library.MachineWord
open GameEngine.Core GameEngine.Core.PoolAllocator

/-! ### Buffers with their storage -/

/-- A buffer with the number of bytes that there are behind its data. -/
structure StoredTensor where
  tensor : TensorBuffer
  storage : ℕ
deriving DecidableEq

namespace StoredTensor

/-- A buffer without data. -/
def empty : StoredTensor := ⟨.empty, 0⟩

/-- The elements fit in the storage and in the capacity. -/
def Bounded (stored : StoredTensor) : Prop :=
  stored.tensor.data.isSome = true →
    4 * stored.tensor.size ≤ stored.storage ∧ stored.tensor.size ≤ stored.tensor.capacity

/-- The number of bytes behind the data that `fill` writes. -/
def fillBytes (stored : StoredTensor) : ℕ :=
  if stored.tensor.data.isSome then 4 * stored.tensor.size else 0

/-- The number of bytes behind the data that `copy_from` writes, or `copy_to` reads. `other` says
whether the other pointer is not null. -/
def copyBytes (stored : StoredTensor) (other : Bool) (count : UInt64) : ℕ :=
  if stored.tensor.data.isSome && other then min count.toNat stored.tensor.size * 4 % word64 else 0

/-- No access leaves the storage. -/
theorem Bounded.accesses {stored : StoredTensor} (hbounded : stored.Bounded) :
    stored.fillBytes ≤ stored.storage ∧
      ∀ other count, stored.copyBytes other count ≤ stored.storage := by
  cases hdata : stored.tensor.data.isSome with
  | false => simp [fillBytes, copyBytes, hdata]
  | true =>
    obtain ⟨hsize, -⟩ := hbounded hdata
    refine ⟨by simpa [fillBytes, hdata] using hsize, fun other count ↦ ?_⟩
    unfold copyBytes
    split_ifs
    · have hmod := Nat.mod_le (min count.toNat stored.tensor.size * 4) word64
      omega
    · exact Nat.zero_le _

end StoredTensor

/-! ### The constructors up to the fill -/

/-- The bytes of the block at an address that lie in the memory of the pool. -/
def blockBytes (shape : PoolShape) (ptr : ℕ) : ℕ :=
  if shape.buffer ≤ ptr then min shape.stride (shape.buffer + shape.bytes - ptr) else 0

theorem blockBytes_le (shape : PoolShape) (ptr : ℕ) :
    blockBytes shape ptr ≤ shape.buffer + shape.bytes := by
  unfold blockBytes
  split_ifs
  · exact (Nat.min_le_right _ _).trans (Nat.sub_le _ _)
  · exact Nat.zero_le _

/-- A tensor of at least one element on the heap. -/
def heapStored (count : ℕ) (answer : Option ℕ) : StoredTensor :=
  match answer with
  | none => .empty
  | some ptr => ⟨⟨some ptr, count, count, false, true⟩, heapBytes (count * 4 % word64)⟩

/-- `TensorBuffer(element_count)`. -/
def heapConstruct (count : ℕ) (answer : Option ℕ) : StoredTensor :=
  if count = 0 then .empty else heapStored count answer

/-- `TensorBuffer(pool, element_count)`. -/
def poolConstruct (shape : PoolShape) (pool : PoolAllocator) (count : ℕ) (answer : Option ℕ) :
    PoolAllocator × StoredTensor :=
  let bytes := count * 4 % word64
  if count = 0 then (pool, .empty)
  else if bytes ≤ shape.stride then
    match pool.allocate shape with
    | (pool, some ptr) =>
      (pool, ⟨⟨some ptr, count, shape.stride / 4, true, false⟩, blockBytes shape ptr⟩)
    | (pool, none) => (pool, heapStored count answer)
  else (pool, heapStored count answer)

/-- A constructor with the fill behind it makes the same buffer on the heap. -/
theorem onHeap_eq {memory next : TensorMemory} {count : ℕ} {answer : Option ℕ}
    {buffer : TensorBuffer} (hmade : onHeap memory count answer = some (next, buffer)) :
    buffer = (heapStored count answer).tensor ∧
      (heapStored count answer).fillBytes ≤ (heapStored count answer).storage := by
  cases answer with
  | none =>
    obtain ⟨-, rfl⟩ := Prod.mk.inj (Option.some.inj hmade)
    exact ⟨rfl, le_rfl⟩
  | some ptr =>
    unfold onHeap at hmade
    dsimp only at hmade
    split_ifs at hmade with hanswer
    obtain ⟨-, rfl⟩ := Prod.mk.inj (Option.some.inj hmade)
    refine ⟨rfl, ?_⟩
    simp only [heapStored, StoredTensor.fillBytes, Option.isSome_some, if_true]
    rw [Nat.mul_comm]
    exact hanswer.2.2

/-- A constructor with the fill behind it makes the same buffer over a pool. -/
theorem poolTensor_eq {shape : PoolShape} {memory next : TensorMemory} {count : ℕ}
    {answer : Option ℕ} {buffer : TensorBuffer}
    (hmade : poolTensor shape memory count answer = some (next, buffer)) :
    buffer = (poolConstruct shape memory.pool count answer).2.tensor := by
  unfold poolTensor at hmade
  unfold poolConstruct
  dsimp only at hmade ⊢
  split_ifs at hmade ⊢
  · exact (Prod.mk.inj (Option.some.inj hmade)).2.symm
  · generalize memory.pool.allocate shape = result at hmade ⊢
    obtain ⟨pool, _ | ptr⟩ := result
    · exact (onHeap_eq hmade).1
    · dsimp only at hmade ⊢
      split_ifs at hmade
      exact (Prod.mk.inj (Option.some.inj hmade)).2.symm
  · exact (onHeap_eq hmade).1

/-! ### Live buffers -/

/-- The live buffers, by the name of the object, and the pool that they share. -/
structure StorageState (Name : Type) where
  pool : PoolAllocator
  buffers : CallTable Name StoredTensor

/-- A use of a buffer that owns its storage, or a call of the pool by somebody else. -/
inductive StorageUse (Name : Type)
  | constructHeap (name : Name) (count : UInt64) (answer : Option ℕ)
  | constructPooled (name : Name) (count : UInt64) (answer : Option ℕ)
  | moveConstruct (name other : Name)
  | moveAssign (name other : Name)
  | destroy (name : Name)
  | fill (name : Name)
  | copyFrom (name : Name) (src : Bool) (count : UInt64)
  | copyTo (name : Name) (dst : Bool) (count : UInt64)
  | allocate
  | deallocate (ptr : ℕ)

namespace StorageState

variable {Name : Type}

/-- No buffer, and a pool that has just been made. -/
def initial (shape : PoolShape) : StorageState Name := ⟨shape.initialPool, .idle⟩

/-- The pool after `release`. -/
def released (shape : PoolShape) (pool : PoolAllocator) (stored : StoredTensor) : PoolAllocator :=
  match stored.tensor.data with
  | none => pool
  | some ptr => if stored.tensor.pool then pool.deallocate shape ptr else pool

variable [DecidableEq Name]

/-- One step. -/
def step (shape : PoolShape) (s : StorageState Name) :
    StorageUse Name → Option (StorageState Name)
  | .constructHeap name count answer =>
    if (s.buffers name).isSome then none
    else some { s with
      buffers := Function.update s.buffers name (some (heapConstruct count.toNat answer)) }
  | .constructPooled name count answer =>
    if (s.buffers name).isSome then none
    else
      let made := poolConstruct shape s.pool count.toNat answer
      some ⟨made.1, Function.update s.buffers name (some made.2)⟩
  | .moveConstruct name other =>
    if (s.buffers name).isSome then none
    else (s.buffers other).map fun source ↦
      { s with
        buffers := Function.update (Function.update s.buffers name (some source)) other
          (some .empty) }
  | .moveAssign name other =>
    (s.buffers name).bind fun target ↦ (s.buffers other).map fun source ↦
      if name = other then s
      else
        { pool := released shape s.pool target
          buffers := Function.update (Function.update s.buffers name (some source)) other
            (some .empty) }
  | .destroy name =>
    (s.buffers name).map fun stored ↦
      ⟨released shape s.pool stored, Function.update s.buffers name none⟩
  | .fill name => (s.buffers name).map fun _ ↦ s
  | .copyFrom name _ _ => (s.buffers name).map fun _ ↦ s
  | .copyTo name _ _ => (s.buffers name).map fun _ ↦ s
  | .allocate => some { s with pool := (s.pool.allocate shape).1 }
  | .deallocate ptr => some { s with pool := s.pool.deallocate shape ptr }

/-- The buffers over a pool as a transition system. -/
def system (shape : PoolShape) : TransitionSystem (StorageState Name) (StorageUse Name) :=
  ⟨step shape⟩

omit [DecidableEq Name] in
/-- The elements of every live buffer fit in its storage and in its capacity. -/
def Bounded (s : StorageState Name) : Prop := s.buffers.Forall fun _ stored ↦ stored.Bounded

/-- A constructor that gets a block of the heap is called with at most `2 ^ 62 - 16` elements, and
one that gets a block of the pool with fewer than `2 ^ 62`. -/
def Modest (shape : PoolShape) (s : StorageState Name) : StorageUse Name → Prop
  | .constructHeap _ count answer => answer.isSome = true → count.toNat ≤ 2 ^ 62 - 16
  | .constructPooled _ count answer =>
    if count.toNat * 4 % word64 ≤ shape.stride ∧ (s.pool.allocate shape).2.isSome = true then
      count.toNat < 2 ^ 62
    else answer.isSome = true → count.toNat ≤ 2 ^ 62 - 16
  | _ => True

instance (shape : PoolShape) (s : StorageState Name) (use : StorageUse Name) :
    Decidable (Modest shape s use) := by
  cases use <;> unfold Modest <;> infer_instance

end StorageState

/-! ### The sizes -/

/-- The heap is asked for enough bytes. -/
theorem le_heapBytes {count : ℕ} (hcount : count ≤ 2 ^ 62 - 16) :
    4 * count ≤ heapBytes (count * 4 % word64) := by
  have hmod : count * 4 % word64 = 4 * count := by
    rw [Nat.mod_eq_of_lt (by unfold word64; omega), Nat.mul_comm]
  unfold heapBytes
  rw [hmod]
  split_ifs with hzero
  · omega
  · exact le_alignUp (by unfold word64; omega)

/-- The heap is asked for too few bytes. -/
theorem heapBytes_lt {count : ℕ} (hcount : 2 ^ 62 - 16 < count) :
    heapBytes (count * 4 % word64) < 4 * count := by
  have hword : heapBytes (count * 4 % word64) < word64 := by
    rw [heapBytes, alignUp_eq_mod _ (by decide) (by decide)]
    exact Nat.mod_lt _ word64_pos
  by_cases hfits : 4 * count < word64
  · have hmod : count * 4 % word64 = 4 * count := by
      rw [Nat.mul_comm, Nat.mod_eq_of_lt hfits]
    have hzero : heapBytes (4 * count) = 0 := by
      rw [heapBytes, if_neg (by omega)]
      exact alignUp_eq_zero (by decide) (by decide) hfits.le (by unfold word64; omega)
    rw [hmod, hzero]
    omega
  · omega

/-- A tensor on the heap is bounded unless it has too many elements. -/
theorem heapStored_bounded_iff (count : ℕ) (answer : Option ℕ) :
    (heapStored count answer).Bounded ↔ (answer.isSome = true → count ≤ 2 ^ 62 - 16) := by
  cases answer with
  | none => simp [heapStored, StoredTensor.empty, TensorBuffer.empty, StoredTensor.Bounded]
  | some ptr =>
    constructor
    · intro hbounded _
      by_contra hlarge
      exact absurd (hbounded rfl).1 (Nat.not_le.mpr (heapBytes_lt (Nat.lt_of_not_le hlarge)))
    · exact fun hcount _ ↦ ⟨le_heapBytes (hcount rfl), le_rfl⟩

theorem bounded_empty : StoredTensor.empty.Bounded := by
  simp [StoredTensor.empty, TensorBuffer.empty, StoredTensor.Bounded]

/-! ### The blocks of the pool -/

/-- Every index in the pool is that of a block, or null. -/
structure IndicesInRange (shape : PoolShape) (pool : PoolAllocator) : Prop where
  head : unpackIndex pool.head = kNullIndex ∨ unpackIndex pool.head < shape.blockCount
  next_lt : ∀ index, pool.nextIndex index < word32
  next : ∀ index, pool.nextIndex index = kNullIndex ∨ pool.nextIndex index < shape.blockCount

section Pool

variable {shape : PoolShape} {pool : PoolAllocator}

theorem indicesInRange_initial (hcount : 0 < shape.blockCount) :
    IndicesInRange shape shape.initialPool where
  head := .inr (by simpa [PoolShape.initialPool, pack, unpackIndex] using hcount)
  next_lt index := by
    unfold PoolShape.initialPool
    dsimp only
    split_ifs
    · exact Nat.mod_lt _ (by decide)
    · decide
  next index := by
    unfold PoolShape.initialPool
    dsimp only
    split_ifs with hlt
    · exact .inr ((Nat.mod_le _ _).trans_lt hlt)
    · exact .inl rfl

theorem IndicesInRange.allocate (hpool : IndicesInRange shape pool) :
    IndicesInRange shape (pool.allocate shape).1 := by
  unfold PoolAllocator.allocate
  dsimp only
  split_ifs with hnull
  · exact hpool
  · refine ⟨?_, hpool.next_lt, hpool.next⟩
    rw [unpackIndex_pack (hpool.next_lt _)]
    exact hpool.next _

theorem IndicesInRange.deallocate (hpool : IndicesInRange shape pool) (ptr : ℕ) :
    IndicesInRange shape (pool.deallocate shape ptr) := by
  unfold PoolAllocator.deallocate
  split_ifs with hforeign hoffset
  · exact hpool
  · exact hpool
  · obtain ⟨index, hindex⟩ : ∃ index, index = (ptr - shape.buffer) / shape.stride % word32 :=
      ⟨_, rfl⟩
    have hword : index < word32 := hindex ▸ Nat.mod_lt _ (by decide)
    have hlt : index < shape.blockCount := by
      have howns : shape.owns ptr = true := by
        by_contra hnot
        exact hforeign (.inr (Bool.eq_false_iff.mpr hnot))
      simp only [PoolShape.owns, Bool.and_eq_true, decide_eq_true_eq] at howns
      have hbytes : ptr - shape.buffer < shape.blockCount * shape.stride := by
        have hmod := Nat.mod_le (shape.stride * shape.blockCount) word64
        rw [Nat.mul_comm]
        unfold PoolShape.bytes at howns
        omega
      exact hindex ▸ (Nat.mod_le _ _).trans_lt (Nat.div_lt_of_lt_mul (Nat.mul_comm _ _ ▸ hbytes))
    dsimp only
    rw [← hindex]
    refine ⟨.inr (by rwa [unpackIndex_pack hword]), fun other ↦ ?_, fun other ↦ ?_⟩
    · dsimp only
      rw [Function.update_apply]
      split_ifs
      · exact Nat.mod_lt _ (by decide)
      · exact hpool.next_lt other
    · dsimp only
      rw [Function.update_apply]
      split_ifs
      · exact hpool.head
      · exact hpool.next other

theorem IndicesInRange.construct (hpool : IndicesInRange shape pool) (count : ℕ)
    (answer : Option ℕ) :
    IndicesInRange shape (poolConstruct shape pool count answer).1 := by
  have hallocate := hpool.allocate
  unfold poolConstruct
  dsimp only
  split_ifs
  · exact hpool
  · split
    all_goals
      rename_i heq
      rw [heq] at hallocate
      exact hallocate
  · exact hpool

/-- There is a whole block behind every address that `allocate` returns. -/
theorem IndicesInRange.blockBytes_eq (hpool : IndicesInRange shape pool)
    (hfits : shape.buffer + shape.bytes < word64)
    (hsize : shape.stride * shape.blockCount < word64) {ptr : ℕ}
    (hptr : (pool.allocate shape).2 = some ptr) : blockBytes shape ptr = shape.stride := by
  unfold PoolAllocator.allocate at hptr
  dsimp only at hptr
  split_ifs at hptr with hnull
  obtain ⟨hblock, hend⟩ :=
    PoolShape.block_of_exact hfits hsize (hpool.head.resolve_left hnull)
  rw [← Option.some.inj hptr, blockBytes, hblock, if_pos (Nat.le_add_right _ _)]
  exact Nat.min_eq_left (by omega)

/-- A tensor over a pool is bounded unless it has too many elements. -/
theorem IndicesInRange.construct_bounded_iff (hpool : IndicesInRange shape pool)
    (hfits : shape.buffer + shape.bytes < word64)
    (hsize : shape.stride * shape.blockCount < word64) (count : ℕ) (answer : Option ℕ) :
    (poolConstruct shape pool count answer).2.Bounded ↔
      if count * 4 % word64 ≤ shape.stride ∧ (pool.allocate shape).2.isSome = true then
        count < 2 ^ 62
      else answer.isSome = true → count ≤ 2 ^ 62 - 16 := by
  by_cases hzero : count = 0
  · simp [poolConstruct, hzero, bounded_empty]
  obtain ⟨result, hresult⟩ : ∃ result, result = pool.allocate shape := ⟨_, rfl⟩
  unfold poolConstruct
  rw [if_neg hzero, ← hresult]
  obtain ⟨after, ptr⟩ := result
  have hptr : ptr = (pool.allocate shape).2 := congrArg Prod.snd hresult
  by_cases hsmall : count * 4 % word64 ≤ shape.stride
  · cases ptr with
    | none => simpa [hsmall] using heapStored_bounded_iff count answer
    | some ptr =>
      have hblock := hpool.blockBytes_eq hfits hsize hptr.symm
      have hstride : shape.stride < word64 := by
        rw [← hblock]
        exact (blockBytes_le shape ptr).trans_lt (by omega)
      have hbounded : StoredTensor.Bounded
          ⟨⟨some ptr, count, shape.stride / 4, true, false⟩, blockBytes shape ptr⟩ ↔
            4 * count ≤ shape.stride := by
        simp only [StoredTensor.Bounded, Option.isSome_some, hblock, forall_const]
        omega
      simp only [hsmall, if_true, Option.isSome_some, and_self, hbounded]
      unfold word64 at hsmall hstride
      omega
  · simpa [hsmall] using heapStored_bounded_iff count answer

end Pool

/-! ### Runs -/

namespace StorageState

variable {Name : Type} [DecidableEq Name] {shape : PoolShape} {s next : StorageState Name}
  {use : StorageUse Name}

/-- The pool of a state that a step leaves is the old one, or the one after a call of it. -/
theorem step_pool (hstep : step shape s use = some next)
    (hpool : IndicesInRange shape s.pool) : IndicesInRange shape next.pool := by
  have hreleased : ∀ stored, IndicesInRange shape (released shape s.pool stored) := by
    intro stored
    unfold released
    split
    · exact hpool
    · split_ifs
      · exact hpool.deallocate _
      · exact hpool
  cases use with
  | constructHeap name count answer =>
    simp only [step] at hstep
    split_ifs at hstep
    exact Option.some.inj hstep ▸ hpool
  | constructPooled name count answer =>
    simp only [step] at hstep
    split_ifs at hstep
    rw [← Option.some.inj hstep]
    exact hpool.construct count.toNat answer
  | moveConstruct name other =>
    simp only [step] at hstep
    split_ifs at hstep
    obtain ⟨source, -, rfl⟩ := Option.map_eq_some_iff.mp hstep
    exact hpool
  | moveAssign name other =>
    obtain ⟨target, -, hstep⟩ := Option.bind_eq_some_iff.mp hstep
    obtain ⟨source, -, rfl⟩ := Option.map_eq_some_iff.mp hstep
    split_ifs
    · exact hpool
    · exact hreleased target
  | destroy name =>
    obtain ⟨stored, -, rfl⟩ := Option.map_eq_some_iff.mp hstep
    exact hreleased stored
  | fill name | copyFrom name src count | copyTo name dst count =>
    obtain ⟨stored, -, rfl⟩ := Option.map_eq_some_iff.mp hstep
    exact hpool
  | allocate => exact Option.some.inj hstep ▸ hpool.allocate
  | deallocate ptr => exact Option.some.inj hstep ▸ hpool.deallocate ptr

/-- A new buffer leaves all buffers bounded if and only if it is. -/
theorem Bounded.place (hbounded : s.Bounded) (name : Name) (stored : StoredTensor)
    (pool : PoolAllocator) :
    Bounded ⟨pool, Function.update s.buffers name (some stored)⟩ ↔ stored.Bounded :=
  ⟨fun hall ↦ hall name stored (Function.update_self ..),
    fun hnew ↦ CallTable.Forall.update (fun other call _ hcall ↦ hbounded other call hcall)
      fun _ hcall ↦ Option.some.inj hcall ▸ hnew⟩

/-- A move leaves all buffers bounded. -/
theorem Bounded.move (hbounded : s.Bounded) {name other : Name} {source : StoredTensor}
    (hsource : s.buffers other = some source) (pool : PoolAllocator) :
    Bounded ⟨pool, Function.update (Function.update s.buffers name (some source)) other
      (some .empty)⟩ :=
  CallTable.Forall.update
    (fun third call _ hcall ↦
      ((hbounded.place name source pool).mpr (hbounded other source hsource)) third call hcall)
    fun _ hcall ↦ Option.some.inj hcall ▸ bounded_empty

/-- A step from a bounded state leads to a bounded state if and only if it is modest. -/
theorem Bounded.step_iff (hbounded : s.Bounded) (hpool : IndicesInRange shape s.pool)
    (hfits : shape.buffer + shape.bytes < word64)
    (hsize : shape.stride * shape.blockCount < word64)
    (hstep : step shape s use = some next) : next.Bounded ↔ s.Modest shape use := by
  cases use with
  | constructHeap name count answer =>
    simp only [step] at hstep
    split_ifs at hstep
    rw [← Option.some.inj hstep, hbounded.place, heapConstruct]
    split_ifs with hzero
    · simp [Modest, bounded_empty, hzero]
    · exact heapStored_bounded_iff count.toNat answer
  | constructPooled name count answer =>
    simp only [step] at hstep
    split_ifs at hstep
    rw [← Option.some.inj hstep, hbounded.place]
    exact hpool.construct_bounded_iff hfits hsize count.toNat answer
  | moveConstruct name other =>
    simp only [step] at hstep
    split_ifs at hstep
    obtain ⟨source, hsource, rfl⟩ := Option.map_eq_some_iff.mp hstep
    exact iff_of_true (hbounded.move hsource s.pool) trivial
  | moveAssign name other =>
    obtain ⟨target, -, hstep⟩ := Option.bind_eq_some_iff.mp hstep
    obtain ⟨source, hsource, rfl⟩ := Option.map_eq_some_iff.mp hstep
    refine iff_of_true ?_ trivial
    split_ifs
    · exact hbounded
    · exact hbounded.move hsource _
  | destroy name =>
    obtain ⟨stored, -, rfl⟩ := Option.map_eq_some_iff.mp hstep
    exact iff_of_true (CallTable.Forall.update (fun other call _ hcall ↦ hbounded other call hcall)
      (by simp)) trivial
  | fill name | copyFrom name src count | copyTo name dst count =>
    obtain ⟨stored, -, rfl⟩ := Option.map_eq_some_iff.mp hstep
    exact iff_of_true hbounded trivial
  | allocate => exact Option.some.inj hstep ▸ iff_of_true hbounded trivial
  | deallocate ptr => exact Option.some.inj hstep ▸ iff_of_true hbounded trivial

end StorageState

open StorageState

/-- For every pool whose blocks take fewer than `2 ^ 64` bytes, and every run whose constructors do
not get memory for too many elements: there are at least four bytes behind the data for every
element, the elements fit in the capacity, and `fill`, `copy_from` and `copy_to` stay inside. The
next step keeps it so if and only if it does not get memory for too many elements either. -/
theorem tensors_bounded_iff {Name : Type} [DecidableEq Name] {buffer : ℕ}
    (blockSize blockCount alignment : UInt64)
    (hfits : buffer + (PoolShape.create buffer blockSize.toNat blockCount.toNat
      alignment.toNat).bytes < word64)
    (hexact : exactPoolBytes blockSize blockCount alignment < 2 ^ 64) :
    let shape := PoolShape.create buffer blockSize.toNat blockCount.toNat alignment.toNat
    ∀ s : StorageState Name, (system shape).Reaches (Modest shape) (initial shape) s →
      s.Bounded ∧
      (∀ name stored, s.buffers name = some stored →
        stored.fillBytes ≤ stored.storage ∧
          ∀ other count, stored.copyBytes other count ≤ stored.storage) ∧
      ∀ use next, step shape s use = some next → (next.Bounded ↔ s.Modest shape use) := by
  intro shape s hreach
  have hcount : 0 < shape.blockCount := by
    change 0 < blockCountFor blockCount.toNat
    unfold blockCountFor
    split_ifs <;> omega
  have hsize : shape.stride * shape.blockCount < word64 := by
    obtain ⟨-, ⟨-, hstride⟩ | ⟨-, hstride⟩⟩ :=
      PoolShape.stride_cases buffer blockSize blockCount alignment
    · rw [hstride]
      exact hexact
    · rw [hstride, Nat.zero_mul]
      exact word64_pos
  have hinvariant : s.Bounded ∧ IndicesInRange shape s.pool := by
    refine hreach.invariant ⟨CallTable.forall_idle _, indicesInRange_initial hcount⟩ ?_
    rintro state use next ⟨hbounded, hpool⟩ hmodest hstep
    exact ⟨(hbounded.step_iff hpool hfits hsize hstep).mpr hmodest, step_pool hstep hpool⟩
  exact ⟨hinvariant.1, fun name stored hstored ↦ (hinvariant.1 name stored hstored).accesses,
    fun use next hstep ↦ hinvariant.1.step_iff hinvariant.2 hfits hsize hstep⟩

/-- The theorem at a pool of two blocks of 256 bytes, and a run with a tensor in a block, one that
is too large for it, and a move. -/
theorem tensors_bounded_iff_moved : ∃ s : StorageState ℕ,
    s.buffers 0 = some ⟨⟨some 8192, 65, 65, false, true⟩, 320⟩ ∧ s.Bounded := by
  obtain ⟨s, hreach, htest⟩ := TransitionSystem.Reaches.exists_of_any
    (system (PoolShape.create 4096 250 2 64)) (initial (PoolShape.create 4096 250 2 64))
    [.constructPooled 0 64 none, .fill 0, .constructPooled 1 65 (some 8192), .moveAssign 0 1,
      .copyFrom 0 true 100, .deallocate 4096]
    (fun s use ↦ decide (Modest (PoolShape.create 4096 250 2 64) s use))
    (fun s ↦ s.buffers 0 = some ⟨⟨some 8192, 65, 65, false, true⟩, 320⟩)
    (fun _ _ h ↦ of_decide_eq_true h) (by decide) (by decide)
  exact ⟨s, of_decide_eq_true htest,
    (@tensors_bounded_iff ℕ _ 4096 250 2 64 (by decide) (by decide) s hreach).1⟩

/-- A tensor of `2 ^ 62` elements gets 64 bytes of the heap. -/
theorem large_tensor_unbounded : ∃ s : StorageState ℕ,
    (system (PoolShape.create 4096 250 2 64)).Reaches TransitionSystem.unguarded
        (initial (PoolShape.create 4096 250 2 64)) s ∧
      s.buffers 0 = some ⟨⟨some 8192, 2 ^ 62, 2 ^ 62, false, true⟩, 64⟩ ∧ ¬ s.Bounded := by
  obtain ⟨s, hreach, htest⟩ := TransitionSystem.Reaches.exists_of_schedule
    (system (PoolShape.create 4096 250 2 64)) (initial (PoolShape.create 4096 250 2 64))
    [.constructHeap 0 4611686018427387904 (some 8192)]
    (fun s ↦ s.buffers 0 = some ⟨⟨some 8192, 2 ^ 62, 2 ^ 62, false, true⟩, 64⟩) (by decide)
  have hbuffer := of_decide_eq_true htest
  exact ⟨s, hreach, hbuffer, fun hbounded ↦ absurd (hbounded 0 _ hbuffer rfl).1 (by decide)⟩

end GameEngine.Ai.TensorOwnership
