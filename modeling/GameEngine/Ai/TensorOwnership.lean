import GameEngine.Core.PoolCalls
import Mathlib.Data.Finset.Dedup
import Mathlib.Data.Fintype.Card

/-!
# The ownership of tensor memory

`TensorBuffer` of `ai/tensor_buffer` holds memory in one of three ways, told apart by two of its
fields: a block of a pool, a block of the heap, or memory of somebody else. `TensorState` is a table
of live buffers over one pool and the heap; its actions are the constructors, the two moves and the
destructor. A constructor fills its block, and a fill that leaves the block is undefined behaviour:
what would follow it is `none`, as after freeing a block that is not in use. The answer of the
system to a request for a block of the heap is part of an action: null, or a block that is not in
use.

`ownership_correct` says that in every run every block is held by one live buffer and released once,
that the count of the pool is right, and that nothing but held blocks is released.
-/

set_option autoImplicit false
set_option relaxedAutoImplicit false

namespace GameEngine.Ai.TensorOwnership

open GameEngine.Library GameEngine.Library.MachineWord GameEngine.Library.IndexChain
open GameEngine.Core GameEngine.Core.PoolAllocator

/-! ### Buffers and memory -/

/-- A block of the pool or of the heap. -/
inductive Block
  | pooled (ptr : ℕ)
  | heap (ptr : ℕ)
deriving DecidableEq

/-- `TensorBuffer`. A pointer to elements is null or an address, and `pool` says whether the pointer
to the pool is not null. -/
structure TensorBuffer where
  data : Option ℕ
  size : ℕ
  capacity : ℕ
  pool : Bool
  owns : Bool
deriving DecidableEq

namespace TensorBuffer

/-- `TensorBuffer()`. -/
def empty : TensorBuffer := ⟨none, 0, 0, false, false⟩

/-- `TensorBuffer(external, element_count)`. -/
def external (data : Option ℕ) (count : ℕ) : TensorBuffer := ⟨data, count, count, false, false⟩

/-- The block that a buffer holds. -/
def block (buffer : TensorBuffer) : Option Block :=
  buffer.data.bind fun ptr ↦
    if buffer.pool then some (.pooled ptr)
    else if buffer.owns then some (.heap ptr)
    else none

end TensorBuffer

/-- The pool and the heap, with the blocks that have been acquired from them and released to them,
newest first. -/
structure TensorMemory where
  pool : PoolAllocator
  heap : List ℕ
  acquired : List Block
  released : List Block

/-- `release`, with the buffer that it leaves. -/
def release (shape : PoolShape) (memory : TensorMemory) (buffer : TensorBuffer) :
    Option (TensorMemory × TensorBuffer) :=
  match buffer.data with
  | none => some (memory, buffer)
  | some ptr =>
    if buffer.pool then
      some ({ memory with
        pool := memory.pool.deallocate shape ptr
        released := .pooled ptr :: memory.released }, .empty)
    else if buffer.owns then
      if ptr ∈ memory.heap then
        some ({ memory with
          heap := memory.heap.erase ptr
          released := .heap ptr :: memory.released }, .empty)
      else none
    else some (memory, .empty)

/-- The number of bytes that `tensor_aligned_alloc` asks the system for. -/
def heapBytes (bytes : ℕ) : ℕ := alignUp (if bytes = 0 then 64 else bytes) 64

/-- A tensor of at least one element in a block of the heap, filled with zeros. -/
def onHeap (memory : TensorMemory) (count : ℕ) (answer : Option ℕ) :
    Option (TensorMemory × TensorBuffer) :=
  match answer with
  | none => some (memory, .empty)
  | some ptr =>
    if ptr ≠ 0 ∧ ptr ∉ memory.heap ∧ count * 4 ≤ heapBytes (count * 4 % word64) then
      some ({ memory with
        heap := ptr :: memory.heap
        acquired := .heap ptr :: memory.acquired }, ⟨some ptr, count, count, false, true⟩)
    else none

/-- `TensorBuffer(element_count)`. -/
def heapTensor (memory : TensorMemory) (count : ℕ) (answer : Option ℕ) :
    Option (TensorMemory × TensorBuffer) :=
  if count = 0 then some (memory, .empty) else onHeap memory count answer

/-- `TensorBuffer(pool, element_count)`. -/
def poolTensor (shape : PoolShape) (memory : TensorMemory) (count : ℕ) (answer : Option ℕ) :
    Option (TensorMemory × TensorBuffer) :=
  let bytes := count * 4 % word64
  if count = 0 then some (memory, .empty)
  else if bytes ≤ shape.stride then
    match memory.pool.allocate shape with
    | (pool, some ptr) =>
      if shape.buffer ≤ ptr ∧ ptr + count * 4 ≤ shape.buffer + shape.bytes then
        some ({ memory with
          pool := pool
          acquired := .pooled ptr :: memory.acquired },
          ⟨some ptr, count, shape.stride / 4, true, false⟩)
      else none
    | (pool, none) => onHeap { memory with pool := pool } count answer
  else onHeap memory count answer

/-! ### Live buffers -/

/-- The live buffers, by the name of the object, and the memory they use. -/
structure TensorState (Name : Type) where
  memory : TensorMemory
  buffers : CallTable Name TensorBuffer

/-- A construction, a move or a destruction. -/
inductive TensorAction (Name : Type)
  | construct (name : Name)
  | constructHeap (name : Name) (count : UInt64) (answer : Option ℕ)
  | constructPooled (name : Name) (count : UInt64) (answer : Option ℕ)
  | constructExternal (name : Name) (data : Option ℕ) (count : UInt64)
  | moveConstruct (name other : Name)
  | moveAssign (name other : Name)
  | destroy (name : Name)

namespace TensorState

variable {Name : Type}

/-- No buffer, and a pool that has just been made. -/
def initial (shape : PoolShape) : TensorState Name :=
  ⟨⟨shape.initialPool, [], [], []⟩, .idle⟩

/-- A live buffer that holds a block. -/
def Holds (s : TensorState Name) (name : Name) (block : Block) : Prop :=
  (s.buffers name).bind TensorBuffer.block = some block

variable [DecidableEq Name]

/-- A new buffer. -/
def place (s : TensorState Name) (name : Name) (made : Option (TensorMemory × TensorBuffer)) :
    Option (TensorState Name) :=
  if (s.buffers name).isSome then none
  else made.map fun made ↦ ⟨made.1, Function.update s.buffers name (some made.2)⟩

/-- One step. -/
def step (shape : PoolShape) (s : TensorState Name) :
    TensorAction Name → Option (TensorState Name)
  | .construct name => s.place name (some (s.memory, .empty))
  | .constructHeap name count answer => s.place name (heapTensor s.memory count.toNat answer)
  | .constructPooled name count answer =>
    s.place name (poolTensor shape s.memory count.toNat answer)
  | .constructExternal name data count =>
    s.place name (some (s.memory, .external data count.toNat))
  | .moveConstruct name other =>
    if (s.buffers name).isSome then none
    else (s.buffers other).map fun source ↦
      { s with
        buffers := Function.update (Function.update s.buffers name (some source)) other
          (some .empty) }
  | .moveAssign name other =>
    (s.buffers name).bind fun target ↦ (s.buffers other).bind fun source ↦
      if name = other then some s
      else (release shape s.memory target).map fun next ↦
        { memory := next.1
          buffers := Function.update (Function.update s.buffers name (some source)) other
            (some .empty) }
  | .destroy name =>
    (s.buffers name).bind fun buffer ↦ (release shape s.memory buffer).map fun next ↦
      ⟨next.1, Function.update s.buffers name none⟩

/-- The buffers over a pool as a transition system. -/
def system (shape : PoolShape) : TransitionSystem (TensorState Name) (TensorAction Name) :=
  ⟨step shape⟩

end TensorState

/-! ### What memory owes -/

/-- The blocks that are owed have been acquired once more than released, all others as often. -/
structure Balanced (acquired released : List Block) (owed : Block → Prop) : Prop where
  owed_count : ∀ block, owed block → acquired.count block = released.count block + 1
  free_count : ∀ block, ¬ owed block → acquired.count block = released.count block

theorem Balanced.acquire {acquired released : List Block} {owed : Block → Prop} {block : Block}
    (hbalanced : Balanced acquired released owed) (hfresh : ¬ owed block) :
    Balanced (block :: acquired) released fun other ↦ owed other ∨ other = block where
  owed_count other hother := by
    rcases hother with hold | rfl
    · have hne : block ≠ other := fun heq ↦ hfresh (heq ▸ hold)
      rw [List.count_cons_of_ne hne, hbalanced.owed_count other hold]
    · rw [List.count_cons_self, hbalanced.free_count other hfresh]
  free_count other hother := by
    have hne : block ≠ other := fun heq ↦ hother (.inr heq.symm)
    rw [List.count_cons_of_ne hne, hbalanced.free_count other fun hold ↦ hother (.inl hold)]

theorem Balanced.release {acquired released : List Block} {owed : Block → Prop} {block : Block}
    (hbalanced : Balanced acquired released owed) (howed : owed block) :
    Balanced acquired (block :: released) fun other ↦ owed other ∧ some block ≠ some other where
  owed_count other hother := by
    have hne : block ≠ other := fun heq ↦ hother.2 (congrArg some heq)
    rw [List.count_cons_of_ne hne, hbalanced.owed_count other hother.1]
  free_count other hother := by
    by_cases heq : block = other
    · subst heq
      rw [List.count_cons_self, hbalanced.owed_count block howed]
    · have hnot : ¬ owed other := fun hold ↦ hother ⟨hold, fun hsome ↦ heq (Option.some.inj hsome)⟩
      rw [List.count_cons_of_ne heq, hbalanced.free_count other hnot]

/-- The invariant of the memory: the owed blocks are those that are handed out by the pool and in
use on the heap. -/
structure MemorySound (shape : PoolShape) (memory : TensorMemory) (owed : Block → Prop) : Prop where
  pool : ∃ returned fresh, Accounts shape memory.pool returned fresh ∧
    ∀ ptr, owed (.pooled ptr) ↔ ∃ index, Taken returned fresh index ∧ ptr = shape.block index
  heap_nodup : memory.heap.Nodup
  heap_iff : ∀ ptr, owed (.heap ptr) ↔ ptr ∈ memory.heap
  balanced : Balanced memory.acquired memory.released owed

/-- What a constructor leaves: a buffer that holds nothing, or one that holds a block that was not
owed before. -/
structure Makes (shape : PoolShape) (owed : Block → Prop) (memory next : TensorMemory)
    (buffer : TensorBuffer) : Prop where
  released_eq : next.released = memory.released
  sound : buffer.block = none ∧ MemorySound shape next owed ∨
    ∃ block, buffer.block = some block ∧ ¬ owed block ∧
      MemorySound shape next fun other ↦ owed other ∨ other = block

section Memory

variable {shape : PoolShape} {memory next : TensorMemory} {owed : Block → Prop}
  {buffer : TensorBuffer}

theorem MemorySound.onHeap (hsound : MemorySound shape memory owed) {count : ℕ}
    {answer : Option ℕ}
    (hmade : TensorOwnership.onHeap memory count answer = some (next, buffer)) :
    Makes shape owed memory next buffer := by
  cases answer with
  | none =>
    obtain ⟨rfl, rfl⟩ := Prod.mk.inj (Option.some.inj hmade)
    exact ⟨rfl, .inl ⟨rfl, hsound⟩⟩
  | some ptr =>
    unfold TensorOwnership.onHeap at hmade
    dsimp only at hmade
    split_ifs at hmade with hanswer
    obtain ⟨rfl, rfl⟩ := Prod.mk.inj (Option.some.inj hmade)
    have hfresh : ¬ owed (.heap ptr) := fun howed ↦ hanswer.2.1 ((hsound.heap_iff ptr).mp howed)
    refine ⟨rfl, .inr ⟨.heap ptr, rfl, hfresh, ?_⟩⟩
    obtain ⟨returned, fresh, haccounts, howed⟩ := hsound.pool
    exact
      { pool := ⟨returned, fresh, haccounts, fun other ↦ by simp [howed]⟩
        heap_nodup := List.nodup_cons.mpr ⟨hanswer.2.1, hsound.heap_nodup⟩
        heap_iff := fun other ↦ by
          rw [hsound.heap_iff, Block.heap.injEq, List.mem_cons, or_comm]
        balanced := hsound.balanced.acquire hfresh }

theorem MemorySound.heapTensor (hsound : MemorySound shape memory owed) {count : ℕ}
    {answer : Option ℕ}
    (hmade : TensorOwnership.heapTensor memory count answer = some (next, buffer)) :
    Makes shape owed memory next buffer := by
  unfold TensorOwnership.heapTensor at hmade
  split_ifs at hmade
  · obtain ⟨rfl, rfl⟩ := Prod.mk.inj (Option.some.inj hmade)
    exact ⟨rfl, .inl ⟨rfl, hsound⟩⟩
  · exact hsound.onHeap hmade

theorem MemorySound.poolTensor (hsound : MemorySound shape memory owed) (hgranted : shape.Granted)
    {count : ℕ} {answer : Option ℕ}
    (hmade : TensorOwnership.poolTensor shape memory count answer = some (next, buffer)) :
    Makes shape owed memory next buffer := by
  unfold TensorOwnership.poolTensor at hmade
  dsimp only at hmade
  split_ifs at hmade with hempty hsmall
  · obtain ⟨rfl, rfl⟩ := Prod.mk.inj (Option.some.inj hmade)
    exact ⟨rfl, .inl ⟨rfl, hsound⟩⟩
  · obtain ⟨pool, hpool⟩ : ∃ pool, pool = memory.pool.allocate shape := ⟨_, rfl⟩
    rw [← hpool] at hmade
    obtain ⟨pool, _ | ptr⟩ := pool
    · rw [allocate_none hpool.symm] at hmade
      exact hsound.onHeap hmade
    · dsimp only at hmade
      split_ifs at hmade with hinside
      obtain ⟨rfl, rfl⟩ := Prod.mk.inj (Option.some.inj hmade)
      obtain ⟨returned, fresh, haccounts, howed⟩ := hsound.pool
      obtain ⟨index, returned', fresh', hnext, rfl, hfree, htaken⟩ :=
        haccounts.allocate hgranted hpool.symm hinside.1 (by omega)
      -- Its address is not that of a block that is handed out.
      have hfresh : ¬ owed (.pooled (shape.block index)) := by
        intro hold
        obtain ⟨other, hother, hsame⟩ := (howed _).mp hold
        have hlt := ((htaken other).mpr (.inl hother)).1
        have hlt' := ((htaken index).mpr (.inr rfl)).1
        exact hfree (hnext.block_injective hgranted hlt' hlt hsame ▸ hother)
      refine ⟨rfl, .inr ⟨_, rfl, hfresh, ?_⟩⟩
      exact
        { pool := ⟨returned', fresh', hnext, fun other ↦ by
            rw [howed, Block.pooled.injEq]
            constructor
            · rintro (⟨old, hold, rfl⟩ | rfl)
              · exact ⟨old, (htaken old).mpr (.inl hold), rfl⟩
              · exact ⟨index, (htaken index).mpr (.inr rfl), rfl⟩
            · rintro ⟨old, hold, rfl⟩
              rcases (htaken old).mp hold with hbefore | rfl
              · exact .inl ⟨old, hbefore, rfl⟩
              · exact .inr rfl⟩
          heap_nodup := hsound.heap_nodup
          heap_iff := fun other ↦ by simp [hsound.heap_iff]
          balanced := hsound.balanced.acquire hfresh }
  · exact hsound.onHeap hmade

/-- A release of a buffer gives the block that it holds back. -/
theorem MemorySound.release (hsound : MemorySound shape memory owed) (hgranted : shape.Granted)
    (hheld : ∀ block, buffer.block = some block → owed block) :
    ∃ next reset, TensorOwnership.release shape memory buffer = some (next, reset) ∧
      next.released = buffer.block.toList ++ memory.released ∧
      MemorySound shape next fun other ↦ owed other ∧ buffer.block ≠ some other := by
  obtain ⟨data, size, capacity, pool, owns⟩ := buffer
  have hsame : ∀ buffer : TensorBuffer, buffer.block = none →
      MemorySound shape memory fun other ↦ owed other ∧ buffer.block ≠ some other := by
    intro buffer hnone
    simpa [hnone] using hsound
  cases data with
  | none => exact ⟨memory, _, rfl, rfl, hsame _ rfl⟩
  | some ptr =>
    cases pool with
    | true =>
      -- A block of the pool.
      refine ⟨_, _, rfl, rfl, ?_⟩
      have howed := hheld (.pooled ptr) rfl
      obtain ⟨returned, fresh, haccounts, hpool⟩ := hsound.pool
      obtain ⟨index, htaken, rfl⟩ := (hpool ptr).mp howed
      exact
        { pool := ⟨index :: returned, fresh, haccounts.deallocate hgranted htaken, fun other ↦ by
            rw [hpool]
            constructor
            · rintro ⟨⟨old, hold, rfl⟩, hne⟩
              refine ⟨old, ⟨hold.1, fun hmem ↦ ?_⟩, rfl⟩
              rcases List.mem_cons.mp hmem with rfl | hreturned
              · exact hne rfl
              · exact hold.2 hreturned
            · rintro ⟨old, ⟨hlt, hnot⟩, rfl⟩
              rw [List.mem_cons, not_or] at hnot
              obtain ⟨hne, hreturned⟩ := hnot
              refine ⟨⟨old, ⟨hlt, hreturned⟩, rfl⟩, fun heq ↦ hne ?_⟩
              have hblock := Block.pooled.inj (Option.some.inj heq)
              exact haccounts.block_injective hgranted hlt htaken.1 hblock.symm⟩
          heap_nodup := hsound.heap_nodup
          heap_iff := fun other ↦ by simp [hsound.heap_iff, TensorBuffer.block]
          balanced := hsound.balanced.release howed }
    | false =>
      cases owns with
      | true =>
        -- A block of the heap.
        have howed := hheld (.heap ptr) rfl
        have hmem := (hsound.heap_iff ptr).mp howed
        refine ⟨_, _, if_pos hmem, rfl, ?_⟩
        obtain ⟨returned, fresh, haccounts, hpool⟩ := hsound.pool
        exact
          { pool := ⟨returned, fresh, haccounts, fun other ↦ by simp [hpool, TensorBuffer.block]⟩
            heap_nodup := hsound.heap_nodup.erase _
            heap_iff := fun other ↦ by
              simp only [hsound.heap_nodup.mem_erase_iff, hsound.heap_iff, TensorBuffer.block]
              simp [and_comm, eq_comm]
            balanced := hsound.balanced.release howed }
      | false =>
        -- Memory of somebody else.
        exact ⟨memory, _, rfl, rfl, hsame _ rfl⟩

end Memory

/-! ### Every run -/

namespace TensorState

variable {Name : Type} [DecidableEq Name] {shape : PoolShape} {s next : TensorState Name}

/-- The invariant: the blocks that the memory owes are held by one live buffer each. -/
def Sound (shape : PoolShape) (s : TensorState Name) : Prop :=
  ∃ owed, MemorySound shape s.memory owed ∧ s.buffers.HeldOnce TensorBuffer.block owed

omit [DecidableEq Name] in
theorem sound_initial (hgranted : shape.Granted) :
    (initial shape : TensorState Name).Sound shape := by
  refine ⟨fun _ ↦ False, ?_, CallTable.heldOnce_idle _⟩
  exact
    { pool := ⟨[], 0, accounts_initial hgranted, fun ptr ↦ by simp [Taken]⟩
      heap_nodup := List.nodup_nil
      heap_iff := by simp [initial]
      balanced := ⟨fun _ h ↦ h.elim, fun _ _ ↦ rfl⟩ }

/-- A constructor. -/
theorem Sound.place {name : Name} {made : Option (TensorMemory × TensorBuffer)}
    (hmakes : ∀ owed memory buffer, MemorySound shape s.memory owed → made = some (memory, buffer) →
      Makes shape owed s.memory memory buffer)
    (hsound : s.Sound shape) (hstep : s.place name made = some next) :
    next.Sound shape ∧ next.memory.released = s.memory.released ∧
      ∃ memory buffer, made = some (memory, buffer) ∧ next.buffers name = some buffer := by
  obtain ⟨owed, hmemory, hheld⟩ := hsound
  unfold TensorState.place at hstep
  rw [Option.ite_none_left_eq_some, Option.map_eq_some_iff] at hstep
  obtain ⟨hfree, ⟨memory, buffer⟩, hmade, rfl⟩ := hstep
  have hname : s.buffers name = none := Option.not_isSome_iff_eq_none.mp hfree
  have hnone : (s.buffers name).bind TensorBuffer.block = none := by
    rw [hname]
    rfl
  obtain ⟨hreleased, hkind⟩ := hmakes owed memory buffer hmemory hmade
  refine ⟨?_, hreleased, memory, buffer, hmade, Function.update_self _ _ _⟩
  rcases hkind with ⟨hblock, hnext⟩ | ⟨block, hblock, hfresh, hnext⟩
  · exact ⟨owed, hnext, hheld.keep (hblock.trans hnone.symm)⟩
  · exact ⟨_, hnext, hheld.take hnone hblock hfresh fun _ ↦ Iff.rfl⟩

/-- The end of the life of a buffer, or of its hold on its block. -/
theorem Sound.release (hsound : s.Sound shape) (hgranted : shape.Granted) {name : Name}
    {buffer : TensorBuffer} (hname : s.buffers name = some buffer) (left : Option TensorBuffer)
    (hleft : left.bind TensorBuffer.block = none) :
    ∃ memory reset, TensorOwnership.release shape s.memory buffer = some (memory, reset) ∧
      memory.released = buffer.block.toList ++ s.memory.released ∧
      Sound shape ⟨memory, Function.update s.buffers name left⟩ := by
  obtain ⟨owed, hmemory, hheld⟩ := hsound
  obtain ⟨memory, reset, hrelease, hreleased, hnext⟩ :=
    hmemory.release hgranted fun _ hblock ↦ hheld.owed hname hblock
  refine ⟨memory, reset, hrelease, hreleased, _, hnext, hheld.update (fun k ↦ ?_) fun k hk ↦ ?_⟩
  · rw [hname, hleft, Option.bind_some]
    simp
  · rw [hleft] at hk
    contradiction

/-- A move to a buffer that holds nothing. -/
theorem Sound.handOn (hsound : s.Sound shape) {name other : Name} {source : TensorBuffer}
    (hne : other ≠ name) (hnone : (s.buffers name).bind TensorBuffer.block = none)
    (hother : s.buffers other = some source) :
    Sound shape ⟨s.memory, Function.update (Function.update s.buffers name (some source)) other
      (some .empty)⟩ := by
  obtain ⟨owed, hmemory, hheld⟩ := hsound
  exact ⟨owed, hmemory, hheld.handOn hne hnone rfl (by rw [hother])⟩

/-- The block that an action gives back: what the buffer that it destroys or overwrites holds. -/
def givenBack (s : TensorState Name) : TensorAction Name → Option Block
  | .moveAssign name other =>
    if name = other then none else (s.buffers name).bind TensorBuffer.block
  | .destroy name => (s.buffers name).bind TensorBuffer.block
  | _ => none

/-- What an action leaves in the buffers it names. A buffer over memory of somebody else holds no
block. The source of a move is left empty, and its target has all its fields. A self-assignment
changes nothing. -/
def Leaves (s next : TensorState Name) : TensorAction Name → Prop
  | .constructExternal name data count =>
    next.buffers name = some (.external data count.toNat) ∧ ∀ block, ¬ next.Holds name block
  | .moveConstruct name other =>
    next.buffers name = s.buffers other ∧ next.buffers other = some .empty
  | .moveAssign name other =>
    if name = other then next = s
    else next.buffers name = s.buffers other ∧ next.buffers other = some .empty
  | _ => True

/-- The source and the target after a move. -/
theorem moved_buffers (buffers : CallTable Name TensorBuffer) {name other : Name}
    (hne : other ≠ name) (source : TensorBuffer) :
    Function.update (Function.update buffers name (some source)) other (some .empty) name =
        some source ∧
      Function.update (Function.update buffers name (some source)) other (some .empty) other =
        some .empty := by
  refine ⟨?_, Function.update_self _ _ _⟩
  rw [Function.update_of_ne hne.symm, Function.update_self]

/-- Every step keeps the invariant, releases what the buffer that it destroys or overwrites holds,
and leaves what it should. -/
theorem Sound.step (hsound : s.Sound shape) (hgranted : shape.Granted)
    {action : TensorAction Name} (hstep : s.step shape action = some next) :
    next.Sound shape ∧ next.memory.released = (s.givenBack action).toList ++ s.memory.released ∧
      Leaves s next action := by
  have hbuffer : ∀ buffer : TensorBuffer, buffer.block = none → ∀ owed memory made,
      MemorySound shape s.memory owed → some (s.memory, buffer) = some (memory, made) →
        Makes shape owed s.memory memory made := by
    intro buffer hblock owed memory made hmemory hmade
    obtain ⟨rfl, rfl⟩ := Prod.mk.inj (Option.some.inj hmade)
    exact ⟨rfl, .inl ⟨hblock, hmemory⟩⟩
  cases action with
  | construct name =>
    obtain ⟨hnext, hreleased, -⟩ := hsound.place (hbuffer _ rfl) hstep
    exact ⟨hnext, hreleased, trivial⟩
  | constructHeap name count answer =>
    obtain ⟨hnext, hreleased, -⟩ :=
      hsound.place (fun _ _ _ hmemory hmade ↦ hmemory.heapTensor hmade) hstep
    exact ⟨hnext, hreleased, trivial⟩
  | constructPooled name count answer =>
    obtain ⟨hnext, hreleased, -⟩ :=
      hsound.place (fun _ _ _ hmemory hmade ↦ hmemory.poolTensor hgranted hmade) hstep
    exact ⟨hnext, hreleased, trivial⟩
  | constructExternal name data count =>
    have hblock : (TensorBuffer.external data count.toNat).block = none := by
      cases data <;> rfl
    obtain ⟨hnext, hreleased, memory, made, hmade, hname⟩ := hsound.place (hbuffer _ hblock) hstep
    obtain ⟨rfl, rfl⟩ := Prod.mk.inj (Option.some.inj hmade)
    refine ⟨hnext, hreleased, hname, fun block hholds ↦ ?_⟩
    rw [Holds, hname, Option.bind_some, hblock] at hholds
    contradiction
  | moveConstruct name other =>
    simp only [TensorState.step, Option.ite_none_left_eq_some, Option.map_eq_some_iff] at hstep
    obtain ⟨hfree, source, hother, rfl⟩ := hstep
    have hname : s.buffers name = none := Option.not_isSome_iff_eq_none.mp hfree
    have hne : other ≠ name := by
      rintro rfl
      rw [hname] at hother
      contradiction
    refine ⟨hsound.handOn hne (by rw [hname]; rfl) hother, rfl, ?_⟩
    rw [Leaves, hother]
    exact moved_buffers s.buffers hne source
  | moveAssign name other =>
    simp only [TensorState.step, Option.bind_eq_some_iff] at hstep
    obtain ⟨target, hname, source, hother, hstep⟩ := hstep
    by_cases hself : name = other
    · rw [if_pos hself] at hstep
      obtain rfl := Option.some.inj hstep
      refine ⟨hsound, ?_, ?_⟩
      · rw [givenBack, if_pos hself, Option.toList_none, List.nil_append]
      · rw [Leaves, if_pos hself]
    · rw [if_neg hself] at hstep
      obtain ⟨memory, reset, hrelease, hreleased, hafter⟩ :=
        hsound.release hgranted hname (some .empty) rfl
      rw [hrelease, Option.map_some] at hstep
      obtain rfl := Option.some.inj hstep
      have hother' : Function.update s.buffers name (some .empty) other = some source := by
        rw [Function.update_of_ne (Ne.symm hself)]
        exact hother
      have hempty : (Function.update s.buffers name (some .empty) name).bind TensorBuffer.block =
          none := by
        rw [Function.update_self]
        rfl
      have hmoved := hafter.handOn (Ne.symm hself) hempty hother'
      rw [Function.update_idem] at hmoved
      refine ⟨hmoved, ?_, ?_⟩
      · rw [givenBack, if_neg hself, hname]
        exact hreleased
      · rw [Leaves, if_neg hself, hother]
        exact moved_buffers s.buffers (Ne.symm hself) source
  | destroy name =>
    simp only [TensorState.step, Option.bind_eq_some_iff] at hstep
    obtain ⟨buffer, hname, hstep⟩ := hstep
    obtain ⟨memory, reset, hrelease, hreleased, hafter⟩ :=
      hsound.release hgranted hname none rfl
    rw [hrelease, Option.map_some] at hstep
    obtain rfl := Option.some.inj hstep
    refine ⟨hafter, ?_, trivial⟩
    rw [givenBack, hname]
    exact hreleased

omit [DecidableEq Name] in
/-- A live buffer holds a block of the pool if it has a pool and data. -/
theorem holds_pooled_iff {name : Name} :
    (∃ ptr, s.Holds name (.pooled ptr)) ↔
      ∃ buffer, s.buffers name = some buffer ∧ buffer.pool = true ∧ buffer.data.isSome = true := by
  constructor
  · rintro ⟨ptr, hholds⟩
    obtain ⟨buffer, hname, hblock⟩ := Option.bind_eq_some_iff.mp hholds
    obtain ⟨data, hdata, hkind⟩ := Option.bind_eq_some_iff.mp hblock
    refine ⟨buffer, hname, ?_, by rw [hdata]; rfl⟩
    split_ifs at hkind with hpool howns
    · exact hpool
    · simp at hkind
  · rintro ⟨buffer, hname, hpool, hdata⟩
    obtain ⟨ptr, hptr⟩ := Option.isSome_iff_exists.mp hdata
    refine ⟨ptr, ?_⟩
    rw [Holds, hname, Option.bind_some, TensorBuffer.block, hptr, Option.bind_some, if_pos hpool]

/-- What is expected between two steps. -/
structure OwnershipCorrect (shape : PoolShape) (s : TensorState Name) : Prop where
  holder_unique : ∀ block first second, s.Holds first block → s.Holds second block → first = second
  held_count : ∀ block name, s.Holds name block →
    s.memory.acquired.count block = s.memory.released.count block + 1
  free_count : ∀ block, (∀ name, ¬ s.Holds name block) →
    s.memory.acquired.count block = s.memory.released.count block
  heap_in_use : ∀ ptr, ptr ∈ s.memory.heap ↔ ∃ name, s.Holds name (.heap ptr)
  pool_in_use : ∃ free, Chain s.memory.pool.nextIndex kNullIndex
    (unpackIndex s.memory.pool.head) free ∧ free.Nodup ∧
      ∀ ptr, (∃ name, s.Holds name (.pooled ptr)) ↔
        ∃ index < shape.listed, index ∉ free ∧ ptr = shape.block index
  allocated_count : ∃ names : Finset Name, names.card = s.memory.pool.allocated ∧
    ∀ name, name ∈ names ↔ ∃ buffer, s.buffers name = some buffer ∧ buffer.pool = true ∧
      buffer.data.isSome = true

omit [DecidableEq Name] in
/-- The holders of blocks of the pool are as many as the blocks that are handed out. -/
theorem card_holders {owed : Block → Prop} {returned : List ℕ} {fresh : ℕ}
    (hheld : s.buffers.HeldOnce TensorBuffer.block owed) (hgranted : shape.Granted)
    (haccounts : Accounts shape s.memory.pool returned fresh)
    (hpool : ∀ ptr, owed (.pooled ptr) ↔
      ∃ index, Taken returned fresh index ∧ ptr = shape.block index) :
    ∃ names : Finset Name, names.card = s.memory.pool.allocated ∧
      ∀ name, name ∈ names ↔ ∃ ptr, s.Holds name (.pooled ptr) := by
  classical
  have hholder : ∀ index : {index // index ∈ Finset.range fresh \ returned.toFinset},
      ∃ name, s.Holds name (.pooled (shape.block index)) := by
    rintro ⟨index, hindex⟩
    rw [Finset.mem_sdiff, Finset.mem_range, List.mem_toFinset] at hindex
    exact (hheld.owed_iff _).mp ((hpool _).mpr ⟨index, hindex, rfl⟩)
  choose holder hholds using hholder
  have hinjective : Function.Injective holder := by
    intro first second hsame
    have hfirst := hholds first
    rw [hsame, Holds, hholds second, Option.some.injEq, Block.pooled.injEq] at hfirst
    have hlt := Finset.mem_range.mp (Finset.mem_sdiff.mp first.2).1
    have hlt' := Finset.mem_range.mp (Finset.mem_sdiff.mp second.2).1
    exact Subtype.ext (haccounts.block_injective hgranted hlt hlt' hfirst.symm)
  refine ⟨Finset.univ.image holder, ?_, fun name ↦ ?_⟩
  · have hsubset : returned.toFinset ⊆ Finset.range fresh := fun index hindex ↦
      Finset.mem_range.mpr (haccounts.returned_lt index (List.mem_toFinset.mp hindex))
    have hallocated := haccounts.allocated
    rw [Finset.card_image_of_injective _ hinjective, Finset.card_univ, Fintype.card_coe,
      Finset.card_sdiff_of_subset hsubset, Finset.card_range,
      List.toFinset_card_of_nodup haccounts.nodup]
    omega
  · rw [Finset.mem_image]
    constructor
    · rintro ⟨index, -, rfl⟩
      exact ⟨_, hholds index⟩
    · rintro ⟨ptr, hname⟩
      obtain ⟨index, htaken, rfl⟩ := (hpool ptr).mp ((hheld.owed_iff _).mpr ⟨name, hname⟩)
      have hmem : index ∈ Finset.range fresh \ returned.toFinset := by
        rw [Finset.mem_sdiff, Finset.mem_range, List.mem_toFinset]
        exact htaken
      exact ⟨⟨index, hmem⟩, Finset.mem_univ _, hheld.unique _ _ _ (hholds ⟨index, hmem⟩) hname⟩

omit [DecidableEq Name] in
/-- The invariant says what is expected. -/
theorem Sound.correct (hsound : s.Sound shape) (hgranted : shape.Granted) :
    s.OwnershipCorrect shape := by
  obtain ⟨owed, hmemory, hheld⟩ := hsound
  obtain ⟨returned, fresh, haccounts, hpool⟩ := hmemory.pool
  exact
    { holder_unique := fun block first second ↦ hheld.unique first second block
      held_count := fun block name hname ↦
        hmemory.balanced.owed_count block ((hheld.owed_iff block).mpr ⟨name, hname⟩)
      free_count := fun block hnone ↦ by
        refine hmemory.balanced.free_count block fun howed ↦ ?_
        obtain ⟨name, hname⟩ := (hheld.owed_iff block).mp howed
        exact hnone name hname
      heap_in_use := fun ptr ↦ (hmemory.heap_iff ptr).symm.trans (hheld.owed_iff _)
      pool_in_use := by
        refine ⟨_, haccounts.chain, haccounts.free_nodup, fun ptr ↦ ?_⟩
        refine ((hheld.owed_iff _).symm.trans (hpool ptr)).trans ?_
        constructor
        · rintro ⟨index, htaken, rfl⟩
          obtain ⟨hlisted, hnot⟩ := haccounts.taken_iff.mp htaken
          exact ⟨index, hlisted, hnot, rfl⟩
        · rintro ⟨index, hlisted, hnot, rfl⟩
          exact ⟨index, haccounts.taken_iff.mpr ⟨hlisted, hnot⟩, rfl⟩
      allocated_count := by
        obtain ⟨names, hcard, hnames⟩ := card_holders hheld hgranted haccounts hpool
        exact ⟨names, hcard, fun name ↦ (hnames name).trans holds_pooled_iff⟩ }

/-- A live buffer can be destroyed, and assigned to. -/
theorem Sound.isSome_step (hsound : s.Sound shape) (hgranted : shape.Granted) {name : Name}
    (hname : (s.buffers name).isSome = true) :
    (s.step shape (.destroy name)).isSome = true ∧
      ∀ other, (s.buffers other).isSome = true →
        (s.step shape (.moveAssign name other)).isSome = true := by
  obtain ⟨buffer, hbuffer⟩ := Option.isSome_iff_exists.mp hname
  obtain ⟨memory, reset, hrelease, -⟩ := hsound.release hgranted hbuffer none rfl
  refine ⟨?_, fun other hother ↦ ?_⟩
  · rw [TensorState.step, hbuffer, Option.bind_some, hrelease]
    rfl
  · obtain ⟨source, hsource⟩ := Option.isSome_iff_exists.mp hother
    rw [TensorState.step, hbuffer, Option.bind_some, hsource, Option.bind_some, hrelease]
    split_ifs <;> rfl

/-- In every run of constructions, moves and destructions over a pool and the heap: what is expected
holds; every live buffer can be destroyed, and assigned to from every live buffer; a step releases
exactly what the buffer that it destroys or overwrites holds; and a move leaves its source empty. -/
theorem ownership_correct {buffer blockSize blockCount alignment : ℕ} (hbuffer : 0 < buffer)
    (hfits : buffer + (PoolShape.create buffer blockSize blockCount alignment).bytes < word64)
    (hhalf : (PoolShape.create buffer blockSize blockCount alignment).bytes ≤ 2 ^ 63)
    (hreach : (system (.create buffer blockSize blockCount alignment)).Reaches
      TransitionSystem.unguarded (initial (.create buffer blockSize blockCount alignment)) s) :
    let shape := PoolShape.create buffer blockSize blockCount alignment
    s.OwnershipCorrect shape ∧
    (∀ name, (s.buffers name).isSome = true → (s.step shape (.destroy name)).isSome = true ∧
      ∀ other, (s.buffers other).isSome = true →
        (s.step shape (.moveAssign name other)).isSome = true) ∧
    ∀ action next, s.step shape action = some next →
      next.memory.released = (s.givenBack action).toList ++ s.memory.released ∧
        Leaves s next action := by
  intro shape
  have hgranted : shape.Granted := PoolShape.granted_create hbuffer hfits hhalf
  have hsound : s.Sound shape := hreach.invariant (sound_initial hgranted)
    fun _ _ _ hstate _ hstep ↦ (hstate.step hgranted hstep).1
  exact ⟨hsound.correct hgranted, fun _ hname ↦ hsound.isSome_step hgranted hname,
    fun _ _ hstep ↦ (hsound.step hgranted hstep).2⟩

/-- The theorem at a pool of two blocks of 64 bytes and a run in which a third tensor falls back to
the heap, a view of memory of somebody else is moved onto a pooled tensor, and the other pooled
tensor is moved twice and destroyed. -/
theorem ownership_correct_shared : ∃ s : TensorState (Fin 6),
    s.memory.acquired = [.heap 9000, .pooled 4160, .pooled 4096] ∧
      s.memory.released = [.pooled 4160, .pooled 4096] ∧ s.Holds 2 (.heap 9000) ∧
      s.OwnershipCorrect (.create 4096 64 2 64) := by
  obtain ⟨s, hreach, htest⟩ := TransitionSystem.Reaches.exists_of_schedule
    (system (.create 4096 64 2 64)) (initial (.create 4096 64 2 64) : TensorState (Fin 6))
    [.constructPooled 0 16 none, .constructPooled 1 3 none, .constructPooled 2 5 (some 9000),
      .constructExternal 3 (some 70) 8, .moveAssign 0 3, .moveAssign 0 0, .moveConstruct 4 1,
      .construct 5, .moveAssign 5 4, .destroy 5, .destroy 0]
    (fun s ↦ s.memory.acquired = [.heap 9000, .pooled 4160, .pooled 4096] ∧
      s.memory.released = [.pooled 4160, .pooled 4096] ∧
      (s.buffers 2).bind TensorBuffer.block = some (.heap 9000)) (by decide)
  obtain ⟨hacquired, hreleased, hholds⟩ := of_decide_eq_true htest
  refine ⟨s, hacquired, hreleased, hholds, ?_⟩
  exact (ownership_correct (by decide) (by decide) (by decide) hreach).1

end TensorState

end GameEngine.Ai.TensorOwnership
