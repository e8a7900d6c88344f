import GameEngine.Library.MachineWord
import GameEngine.Library.CircularBuffer
import Mathlib.Algebra.Order.Ring.Nat

/-!
# The byte ring

`ZeroCopyRing` of `multimedia/zero_copy_ring`: a byte buffer whose capacity is a power of two, and
two free-running 64-bit positions. The operations are those of the source, in its words. A view is
a pair of spans of buffer indices. Every operation first loads the two positions, so its arithmetic
is a function of the loaded values (`usedBytes`, `freeBytes`, `segments`, `clampedView`,
`writeView`, `readView`, `writeCommit`, `readCommit`), which the sequential operations here and the
concurrent ones of `RingConcurrency` share.

The buffer is a function from indices to bytes; that no operation leaves `[0, capacity)` is proved
in `RingRefinement`. The buffer pointer is never null: the constructor throws instead.

`nextPow2_of_le` is the specification of `next_pow2`: for arguments up to `2 ^ 63` it is the least
power of two that is at least the argument; above that it wraps to zero (`nextPow2_of_gt`).
-/

set_option autoImplicit false
set_option relaxedAutoImplicit false

namespace GameEngine.Multimedia

open GameEngine.Library.MachineWord

/-! ### The capacity -/

/-- The shift amounts `1, 2, 4, …` below the width of `size_t`. -/
def shiftAmounts : List ℕ := [1, 2, 4, 8, 16, 32]

/-- `next_pow2`: decrements, smears the leading bit to the right and increments, in 64 bits. -/
def nextPow2 (value : ℕ) : ℕ :=
  if value ≤ 1 then 1
  else addMod word64 (shiftAmounts.foldl (fun value i ↦ value ||| value >>> i) (value - 1)) 1

/-- One smearing step doubles the distance over which bits have been copied to the right. -/
theorem testBit_smear {original value distance : ℕ}
    (hvalue : ∀ j, value.testBit j = true ↔ ∃ d < distance, original.testBit (j + d) = true)
    (j : ℕ) : (value ||| value >>> distance).testBit j = true ↔
      ∃ d < distance + distance, original.testBit (j + d) = true := by
  rw [Nat.testBit_or, Bool.or_eq_true, Nat.testBit_shiftRight, hvalue, hvalue]
  constructor
  · rintro (⟨d, hd, hbit⟩ | ⟨d, hd, hbit⟩)
    · exact ⟨d, by omega, hbit⟩
    · exact ⟨distance + d, by omega, by rwa [show j + (distance + d) = distance + j + d by omega]⟩
  · rintro ⟨d, hd, hbit⟩
    by_cases hnear : d < distance
    · exact Or.inl ⟨d, hnear, hbit⟩
    · exact Or.inr ⟨d - distance, by omega,
        by rwa [show distance + j + (d - distance) = j + d by omega]⟩

/-- After all shifts every bit has been copied to the 63 places to its right. -/
theorem testBit_shiftAmounts (value j : ℕ) :
    (shiftAmounts.foldl (fun value i ↦ value ||| value >>> i) value).testBit j = true ↔
      ∃ d < 64, value.testBit (j + d) = true := by
  have hone : ∀ j, value.testBit j = true ↔ ∃ d < 1, value.testBit (j + d) = true := fun j ↦
    ⟨fun hbit ↦ ⟨0, by omega, hbit⟩, fun ⟨d, hd, hbit⟩ ↦ by
      rwa [show d = 0 by omega, Nat.add_zero] at hbit⟩
  exact testBit_smear (testBit_smear (testBit_smear (testBit_smear (testBit_smear
    (testBit_smear hone))))) j

/-- Smearing a nonzero 64-bit value sets exactly the bits up to its leading one. -/
theorem smear_eq {value : ℕ} (hpos : value ≠ 0) (hlt : value < 2 ^ 64) :
    shiftAmounts.foldl (fun value i ↦ value ||| value >>> i) value = 2 ^ (value.log2 + 1) - 1 := by
  have hlog : value.log2 < 64 := (Nat.log2_lt hpos).mpr hlt
  refine Nat.eq_of_testBit_eq fun j ↦ ?_
  rw [Nat.testBit_two_pow_sub_one, Bool.eq_iff_iff, decide_eq_true_iff, testBit_shiftAmounts]
  constructor
  · rintro ⟨d, -, hbit⟩
    have hle := Nat.ge_two_pow_of_testBit hbit
    have hj : 2 ^ (j + d) < 2 ^ (value.log2 + 1) := lt_of_le_of_lt hle Nat.lt_log2_self
    have := (Nat.pow_lt_pow_iff_right (by omega : 1 < 2)).mp hj
    omega
  · intro hj
    refine ⟨value.log2 - j, by omega, ?_⟩
    rw [Nat.add_sub_cancel' (by omega), Nat.testBit_log2 hpos]

/-- `next_pow2` up to `2 ^ 63`: the least power of two that is at least the argument. -/
theorem nextPow2_of_le {value : ℕ} (hle : value ≤ 2 ^ 63) :
    ∃ bits ≤ 63, nextPow2 value = 2 ^ bits ∧ value ≤ 2 ^ bits ∧
      ∀ other, value ≤ 2 ^ other → bits ≤ other := by
  by_cases hsmall : value ≤ 1
  · exact ⟨0, by omega, by simp [nextPow2, hsmall], by simpa using hsmall, fun _ _ ↦ by omega⟩
  have hpos : value - 1 ≠ 0 := by omega
  have hlog : (value - 1).log2 < 63 := (Nat.log2_lt hpos).mpr (by omega)
  have hself : 2 ^ (value - 1).log2 ≤ value - 1 := Nat.log2_self_le hpos
  have hnext : value - 1 < 2 ^ ((value - 1).log2 + 1) := Nat.lt_log2_self
  refine ⟨(value - 1).log2 + 1, by omega, ?_, by omega, fun other hother ↦ ?_⟩
  · have hbound : 2 ^ ((value - 1).log2 + 1) ≤ 2 ^ 63 := Nat.pow_le_pow_right (by omega) (by omega)
    rw [nextPow2, if_neg hsmall, smear_eq hpos (by omega), addMod, word64, Nat.mod_eq_of_lt]
    · omega
    · omega
  · have hlt : 2 ^ (value - 1).log2 < 2 ^ other := by omega
    have := (Nat.pow_lt_pow_iff_right (by omega : 1 < 2)).mp hlt
    omega

/-- `next_pow2` above `2 ^ 63`: the increment wraps to zero. -/
theorem nextPow2_of_gt {value : ℕ} (hgt : 2 ^ 63 < value) (hlt : value < 2 ^ 64) :
    nextPow2 value = 0 := by
  have hpos : value - 1 ≠ 0 := by omega
  have hlow : 63 ≤ (value - 1).log2 := (Nat.le_log2 hpos).mpr (by omega)
  have hhigh : (value - 1).log2 < 64 := (Nat.log2_lt hpos).mpr (by omega)
  have hlog : (value - 1).log2 = 63 := by omega
  rw [nextPow2, if_neg (by omega), smear_eq hpos (by omega), hlog]
  norm_num [addMod, word64]

/-! ### Views -/

/-- A span of buffer bytes: the index of its first byte and its size. -/
structure Span where
  data : ℕ
  size : ℕ
deriving DecidableEq, Repr

/-- `RingView`: the two segments of a region of the ring. -/
structure RingView where
  first : Span
  second : Span
deriving DecidableEq, Repr

/-- The empty view `{}`. -/
def RingView.empty : RingView := ⟨⟨0, 0⟩, ⟨0, 0⟩⟩

/-- `RingView::size`. -/
def RingView.size (view : RingView) : ℕ := view.first.size + view.second.size

/-- The index of the `k`-th byte of a view, in the order in which `copy_into` and `copy_from` go
through its two segments. -/
def RingView.index (view : RingView) (k : ℕ) : ℕ :=
  if k < view.first.size then view.first.data + k else view.second.data + (k - view.first.size)

/-! ### Arithmetic on loaded positions -/

/-- `size()` from a loaded write and read position. -/
def usedBytes (writePos readPos : ℕ) : ℕ := subMod word64 writePos readPos

/-- `free_space()` from a loaded write and read position. -/
def freeBytes (capacity writePos readPos : ℕ) : ℕ :=
  subMod word64 capacity (usedBytes writePos readPos)

/-- The two segments of the `bytes` bytes from position `pos` on, split at the end of the
buffer. -/
def segments (capacity mask pos bytes : ℕ) : RingView :=
  let idx := pos &&& mask
  let first := if bytes < capacity - idx then bytes else capacity - idx
  { first := ⟨idx, first⟩
    second := if first < bytes then ⟨0, bytes - first⟩ else ⟨0, 0⟩ }

/-- The view that `acquire_write` and `acquire_read` return for a request of `bytes` bytes from
position `pos` on when `limit` bytes are available there. -/
def clampedView (capacity mask pos limit bytes : ℕ) : RingView :=
  if bytes = 0 then .empty
  else
    let bytes := if bytes > limit then limit else bytes
    if bytes = 0 then .empty else segments capacity mask pos bytes

/-- The view of `acquire_write`, from the loaded positions. -/
def writeView (capacity mask writePos readPos bytes : ℕ) : RingView :=
  clampedView capacity mask writePos (freeBytes capacity writePos readPos) bytes

/-- The view of `acquire_read`, from the loaded positions. -/
def readView (capacity mask writePos readPos bytes : ℕ) : RingView :=
  clampedView capacity mask readPos (usedBytes writePos readPos) bytes

/-- The number of bytes that `commit_write` adds to the write position, from the loaded
positions. -/
def writeCommit (capacity writePos readPos bytes : ℕ) : ℕ :=
  let free := freeBytes capacity writePos readPos
  if bytes > free then free else bytes

/-- The number of bytes that `commit_read` adds to the read position, from the loaded positions. -/
def readCommit (writePos readPos bytes : ℕ) : ℕ :=
  let used := usedBytes writePos readPos
  if bytes > used then used else bytes

/-- A write commit is clamped to the free bytes. -/
theorem writeCommit_eq (capacity writePos readPos bytes : ℕ) :
    writeCommit capacity writePos readPos bytes =
      min bytes (freeBytes capacity writePos readPos) := by
  unfold writeCommit
  dsimp only
  split_ifs <;> omega

/-- A read commit is clamped to the stored bytes. -/
theorem readCommit_eq (writePos readPos bytes : ℕ) :
    readCommit writePos readPos bytes = min bytes (usedBytes writePos readPos) := by
  unfold readCommit
  dsimp only
  split_ifs <;> omega

/-! ### The ring and its operations -/

/-- `ZeroCopyRing`. -/
structure ZeroCopyRing where
  buffer : ℕ → UInt8
  capacity : ℕ
  mask : ℕ
  writePos : ℕ
  readPos : ℕ

namespace ZeroCopyRing

open GameEngine.Library.CircularBuffer

/-- The constructor, over memory with arbitrary initial contents. -/
def create (capacityBytes : ℕ) (memory : ℕ → UInt8) : ZeroCopyRing where
  buffer := memory
  capacity := nextPow2 (if capacityBytes = 0 then 4096 else capacityBytes)
  mask := subMod word64 (nextPow2 (if capacityBytes = 0 then 4096 else capacityBytes)) 1
  writePos := 0
  readPos := 0

/-- `size`. -/
def size (ring : ZeroCopyRing) : ℕ := usedBytes ring.writePos ring.readPos

/-- `free_space`. -/
def freeSpace (ring : ZeroCopyRing) : ℕ := freeBytes ring.capacity ring.writePos ring.readPos

/-- `acquire_write`. -/
def acquireWrite (ring : ZeroCopyRing) (bytes : ℕ) : RingView :=
  writeView ring.capacity ring.mask ring.writePos ring.readPos bytes

/-- `commit_write`. -/
def commitWrite (ring : ZeroCopyRing) (bytes : ℕ) : ZeroCopyRing :=
  if bytes = 0 then ring
  else { ring with
    writePos := addMod word64 ring.writePos
      (writeCommit ring.capacity ring.writePos ring.readPos bytes) }

/-- `acquire_read`. -/
def acquireRead (ring : ZeroCopyRing) (bytes : ℕ) : RingView :=
  readView ring.capacity ring.mask ring.writePos ring.readPos bytes

/-- `commit_read`. -/
def commitRead (ring : ZeroCopyRing) (bytes : ℕ) : ZeroCopyRing :=
  if bytes = 0 then ring
  else { ring with
    readPos := addMod word64 ring.readPos (readCommit ring.writePos ring.readPos bytes) }

/-- `copy_into`: copies the first `n` bytes of the source into a view, segment by segment. -/
def copyInto (ring : ZeroCopyRing) (view : RingView) (src : List UInt8) (n : ℕ) : ZeroCopyRing :=
  let n1 := if n < view.first.size then n else view.first.size
  let buffer1 := if n1 > 0 then splice ring.buffer view.first.data (src.take n1) else ring.buffer
  let buffer2 :=
    if n > n1 ∧ view.second.size ≠ 0 then
      splice buffer1 view.second.data ((src.drop n1).take (n - n1))
    else buffer1
  { ring with buffer := buffer2 }

/-- `copy_from`: the first `n` bytes of a view, segment by segment. -/
def copyFrom (ring : ZeroCopyRing) (view : RingView) (n : ℕ) : List UInt8 :=
  let n1 := if n < view.first.size then n else view.first.size
  (if n1 > 0 then cells ring.buffer view.first.data n1 else []) ++
    (if n > n1 ∧ view.second.size ≠ 0 then cells ring.buffer view.second.data (n - n1) else [])

/-- `write`, with the number of bytes taken. -/
def write (ring : ZeroCopyRing) (src : List UInt8) : ZeroCopyRing × ℕ :=
  if src.length = 0 then (ring, 0)
  else
    let view := ring.acquireWrite src.length
    let n := view.size
    ((ring.copyInto view src n).commitWrite n, n)

/-- `read`, with the number it returns and the bytes it copies to the destination. -/
def read (ring : ZeroCopyRing) (bytes : ℕ) : ZeroCopyRing × ℕ × List UInt8 :=
  if bytes = 0 then (ring, 0, [])
  else
    let view := ring.acquireRead bytes
    let n := view.size
    (ring.commitRead n, n, ring.copyFrom view n)

/-- `peek`: the number it returns and the bytes it copies to the destination. -/
def peek (ring : ZeroCopyRing) (bytes : ℕ) : ℕ × List UInt8 :=
  if bytes = 0 then (0, [])
  else
    let used := usedBytes ring.writePos ring.readPos
    let bytes := if bytes > used then used else bytes
    if bytes = 0 then (0, [])
    else
      let idx := ring.readPos &&& ring.mask
      let first := if bytes < ring.capacity - idx then bytes else ring.capacity - idx
      (bytes, cells ring.buffer idx first ++
        (if first < bytes then cells ring.buffer 0 (bytes - first) else []))

end ZeroCopyRing

end GameEngine.Multimedia
