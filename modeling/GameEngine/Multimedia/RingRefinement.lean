import GameEngine.Multimedia.ZeroCopyRing

/-!
# The byte ring refines a bounded byte queue

`ByteQueue` says what the ring is for: it holds at most `capacity` bytes, oldest first, and behind
them the contents of the free region in the order in which it will be filled. A commit moves bytes
across the boundary between the two, so committing more than was filled is meaningful: it stores
what the free region happens to hold.

`ZeroCopyRing.Valid` is the invariant of the ring: the capacity is a power of two, the mask matches
it, the positions are words, and their wrapped difference is at most the capacity. Under it a
clamped view is a window of the buffer (`copyFrom_clampedView`, `copyInto_clampedView`), and every
operation of the ring is the operation of the queue on `ZeroCopyRing.toQueue`
(`perform_refines`). `zeroCopyRing_refines_byteQueue` is the refinement over whole runs from the
constructor. The positions are free-running words: nothing in the invariant bounds how often they
have wrapped.
-/

set_option autoImplicit false
set_option relaxedAutoImplicit false

namespace GameEngine.Multimedia

open GameEngine.Library.MachineWord GameEngine.Library.CircularBuffer

/-! ### The abstract queue -/

/-- A bounded byte queue: the stored bytes, oldest first, and the contents of the free region, in
the order in which it will be filled. -/
@[ext] structure ByteQueue where
  capacity : ℕ
  stored : List UInt8
  spare : List UInt8
  fits : stored.length + spare.length = capacity

/-- An operation of the ring. Acquiring for writing is followed by filling a prefix of the view
with the given bytes. -/
inductive RingOp
  | acquireWrite (bytes : ℕ) (fill : List UInt8)
  | commitWrite (bytes : ℕ)
  | acquireRead (bytes : ℕ)
  | commitRead (bytes : ℕ)
  | write (src : List UInt8)
  | read (bytes : ℕ)
  | peek (bytes : ℕ)

/-- What an operation returns: a number of bytes, and the bytes a view shows or a copy delivers. -/
@[ext] structure RingResult where
  count : ℕ
  bytes : List UInt8
deriving DecidableEq

namespace ByteQueue

/-- Overwrites the front of the free region. -/
def fillSpare (queue : ByteQueue) (data : List UInt8) : ByteQueue where
  capacity := queue.capacity
  stored := queue.stored
  spare := data.take queue.spare.length ++ queue.spare.drop data.length
  fits := by
    have h := queue.fits
    simp only [List.length_append, List.length_take, List.length_drop]
    omega

/-- Moves the front of the free region behind the stored bytes. -/
def append (queue : ByteQueue) (count : ℕ) : ByteQueue where
  capacity := queue.capacity
  stored := queue.stored ++ queue.spare.take count
  spare := queue.spare.drop count
  fits := by
    have h := queue.fits
    simp only [List.length_append, List.length_take, List.length_drop]
    omega

/-- Moves the oldest stored bytes to the end of the free region. -/
def release (queue : ByteQueue) (count : ℕ) : ByteQueue where
  capacity := queue.capacity
  stored := queue.stored.drop count
  spare := queue.spare ++ queue.stored.take count
  fits := by
    have h := queue.fits
    simp only [List.length_append, List.length_take, List.length_drop]
    omega

/-- The bytes of `data` that fit are appended to the stored bytes. -/
def push (queue : ByteQueue) (data : List UInt8) : ByteQueue where
  capacity := queue.capacity
  stored := queue.stored ++ data.take queue.spare.length
  spare := queue.spare.drop data.length
  fits := by
    have h := queue.fits
    simp only [List.length_append, List.length_take, List.length_drop]
    omega

/-- The operations of the bounded queue. -/
def perform (queue : ByteQueue) : RingOp → ByteQueue × RingResult
  | .acquireWrite bytes fill =>
    (queue.fillSpare (fill.take (min bytes queue.spare.length)),
      ⟨min bytes queue.spare.length, queue.spare.take bytes⟩)
  | .commitWrite bytes => (queue.append bytes, ⟨0, []⟩)
  | .acquireRead bytes => (queue, ⟨min bytes queue.stored.length, queue.stored.take bytes⟩)
  | .commitRead bytes => (queue.release bytes, ⟨0, []⟩)
  | .write src => (queue.push src, ⟨min src.length queue.spare.length, []⟩)
  | .read bytes => (queue.release bytes, ⟨min bytes queue.stored.length, queue.stored.take bytes⟩)
  | .peek bytes => (queue, ⟨min bytes queue.stored.length, queue.stored.take bytes⟩)

/-- Runs a list of operations, with their results. -/
def performAll (queue : ByteQueue) : List RingOp → ByteQueue × List RingResult
  | [] => (queue, [])
  | op :: rest =>
    let (next, result) := queue.perform op
    let (last, results) := next.performAll rest
    (last, result :: results)

/-- No operation changes the capacity. -/
theorem capacity_performAll (queue : ByteQueue) (ops : List RingOp) :
    (queue.performAll ops).1.capacity = queue.capacity := by
  induction ops generalizing queue with
  | nil => rfl
  | cons op rest ih =>
    have hstep : (queue.perform op).1.capacity = queue.capacity := by cases op <;> rfl
    exact (ih _).trans hstep

/-- The empty queue whose free region shows the given memory. -/
def empty (capacity : ℕ) (memory : ℕ → UInt8) : ByteQueue where
  capacity := capacity
  stored := []
  spare := window memory capacity 0 capacity
  fits := by simp

/-- Writing is filling the free region with the bytes that fit and committing them. -/
theorem push_eq_append_fillSpare (queue : ByteQueue) (data : List UInt8) :
    queue.push data =
      (queue.fillSpare (data.take queue.spare.length)).append
        (min data.length queue.spare.length) := by
  have hfilled : (data.take queue.spare.length).take queue.spare.length =
      data.take queue.spare.length := by rw [List.take_take, min_self]
  have hlength : (data.take queue.spare.length).length = min data.length queue.spare.length := by
    rw [List.length_take, Nat.min_comm]
  have hrest : queue.spare.drop (data.take queue.spare.length).length =
      queue.spare.drop data.length := by
    rw [hlength]
    rcases Nat.le_total data.length queue.spare.length with hle | hle
    · rw [min_eq_left hle]
    · rw [min_eq_right hle, List.drop_of_length_le le_rfl, List.drop_of_length_le hle]
  ext1
  · rfl
  · simp only [push, append, fillSpare, hfilled, List.take_left' hlength]
  · simp only [push, append, fillSpare, hfilled, hrest, List.drop_left' hlength]

/-- Releasing the clamped number of bytes is releasing the requested number. -/
theorem release_min (queue : ByteQueue) (bytes : ℕ) :
    queue.release (min bytes queue.stored.length) = queue.release bytes := by
  rcases Nat.le_total bytes queue.stored.length with hle | hle
  · rw [min_eq_left hle]
  · rw [min_eq_right hle]
    ext1 <;> simp only [release, List.drop_of_length_le hle, List.take_of_length_le hle,
      List.drop_length, List.take_length]

end ByteQueue

/-! ### Views are windows of the buffer -/

/-- The capacity is a power of two that divides the range of the positions, and the mask is one
less. -/
def PowerOfTwoRing (capacity mask : ℕ) : Prop :=
  ∃ bits ≤ 63, capacity = 2 ^ bits ∧ mask = 2 ^ bits - 1

section Views

variable {capacity mask : ℕ}

theorem PowerOfTwoRing.pos (hring : PowerOfTwoRing capacity mask) : 0 < capacity := by
  obtain ⟨bits, -, rfl, -⟩ := hring
  exact Nat.two_pow_pos bits

theorem PowerOfTwoRing.dvd (hring : PowerOfTwoRing capacity mask) : capacity ∣ word64 := by
  obtain ⟨bits, hbits, rfl, -⟩ := hring
  exact Nat.pow_dvd_pow 2 (by omega)

theorem PowerOfTwoRing.lt (hring : PowerOfTwoRing capacity mask) : capacity < word64 := by
  obtain ⟨bits, hbits, rfl, -⟩ := hring
  exact Nat.pow_lt_pow_right (by omega) (by omega)

/-- Masking a position is its remainder. -/
theorem PowerOfTwoRing.and_mask (hring : PowerOfTwoRing capacity mask) (pos : ℕ) :
    pos &&& mask = pos % capacity := by
  obtain ⟨bits, -, rfl, rfl⟩ := hring
  exact Nat.and_two_pow_sub_one_eq_mod pos bits

/-- The two segments of a region are its part up to the end of the buffer and the part that wrapped
to the front. -/
theorem segments_eq (hring : PowerOfTwoRing capacity mask) (pos bytes : ℕ) :
    segments capacity mask pos bytes =
      ⟨⟨pos % capacity, firstSegment capacity pos bytes⟩,
        ⟨0, bytes - firstSegment capacity pos bytes⟩⟩ := by
  have hidx := hring.and_mask pos
  simp only [segments, firstSegment, hidx, RingView.mk.injEq, Span.mk.injEq, true_and]
  constructor
  · split_ifs <;> omega
  · split_ifs <;> simp <;> omega

/-- A clamped view is the empty view or the segments of the bytes that are both requested and
available. -/
theorem clampedView_eq (hring : PowerOfTwoRing capacity mask) (pos limit bytes : ℕ) :
    clampedView capacity mask pos limit bytes = .empty ∧ min bytes limit = 0 ∨
      clampedView capacity mask pos limit bytes =
        ⟨⟨pos % capacity, firstSegment capacity pos (min bytes limit)⟩,
          ⟨0, min bytes limit - firstSegment capacity pos (min bytes limit)⟩⟩ := by
  by_cases hbytes : bytes = 0
  · exact Or.inl ⟨by simp [clampedView, hbytes], by simp [hbytes]⟩
  have hmin : (if bytes > limit then limit else bytes) = min bytes limit := by
    split_ifs <;> omega
  by_cases hzero : min bytes limit = 0
  · exact Or.inl ⟨by simp only [clampedView, hbytes, if_false, hmin, hzero, if_true], hzero⟩
  · refine Or.inr ?_
    simp only [clampedView, hbytes, if_false, hmin, hzero]
    exact segments_eq hring pos (min bytes limit)

/-- A clamped view has as many bytes as are both requested and available. -/
theorem size_clampedView (hring : PowerOfTwoRing capacity mask) (pos limit bytes : ℕ) :
    (clampedView capacity mask pos limit bytes).size = min bytes limit := by
  rcases clampedView_eq hring pos limit bytes with ⟨hview, hzero⟩ | hview
  · rw [hview, hzero]
    rfl
  · rw [hview]
    simp only [RingView.size, firstSegment]
    omega

/-- Both segments of a clamped view lie inside the buffer. Assumes: at most one lap is
available. -/
theorem clampedView_inBounds (hring : PowerOfTwoRing capacity mask) {pos limit bytes : ℕ}
    (hlimit : limit ≤ capacity) :
    let view := clampedView capacity mask pos limit bytes
    view.first.data + view.first.size ≤ capacity ∧
      view.second.data + view.second.size ≤ capacity := by
  have hmod := Nat.mod_lt pos hring.pos
  rcases clampedView_eq hring pos limit bytes with ⟨hview, -⟩ | hview
  · rw [hview]
    simp [RingView.empty]
  · rw [hview]
    simp only [firstSegment]
    omega

/-- The `k`-th byte of a clamped view is the cell of position `pos + k`. -/
theorem index_clampedView (hring : PowerOfTwoRing capacity mask) {pos limit bytes k : ℕ}
    (hlimit : limit ≤ capacity) (hk : k < min bytes limit) :
    (clampedView capacity mask pos limit bytes).index k = (pos + k) % capacity := by
  have hmod := Nat.mod_lt pos hring.pos
  rcases clampedView_eq hring pos limit bytes with ⟨-, hzero⟩ | hview
  · omega
  · rw [hview, ← Nat.mod_add_mod]
    change (if k < firstSegment capacity pos (min bytes limit) then pos % capacity + k
      else 0 + (k - firstSegment capacity pos (min bytes limit))) = _
    unfold firstSegment
    generalize pos % capacity = idx at hmod
    split_ifs with hfirst
    · rw [Nat.mod_eq_of_lt (by omega)]
    · have hwrap : idx + k = (k - (capacity - idx)) + capacity := by omega
      rw [hwrap, Nat.add_mod_right, Nat.mod_eq_of_lt (by omega)]
      omega

end Views

namespace ZeroCopyRing

/-- Copying from a clamped view delivers the window of the buffer at its position. -/
theorem copyFrom_clampedView (ring : ZeroCopyRing) {pos limit bytes : ℕ}
    (hring : PowerOfTwoRing ring.capacity ring.mask) (hlimit : limit ≤ ring.capacity) :
    ring.copyFrom (clampedView ring.capacity ring.mask pos limit bytes) (min bytes limit) =
      window ring.buffer ring.capacity pos (min bytes limit) := by
  rcases clampedView_eq hring pos limit bytes with ⟨hview, hzero⟩ | hview
  · simp [hview, hzero, copyFrom, RingView.empty]
  · have hn1 : (if min bytes limit < firstSegment ring.capacity pos (min bytes limit) then
        min bytes limit else firstSegment ring.capacity pos (min bytes limit)) =
        firstSegment ring.capacity pos (min bytes limit) := by
      rw [if_neg (by unfold firstSegment; omega)]
    rw [window_eq_segments (by omega), hview]
    simp only [copyFrom, hn1]
    generalize firstSegment ring.capacity pos (min bytes limit) = first
    congr 1
    · split_ifs with hfirst
      · rfl
      · rw [show first = 0 by omega]
        rfl
    · split_ifs with hsecond
      · rfl
      · rw [show min bytes limit - first = 0 by omega]
        rfl

/-- Copying into a clamped view overwrites the window of the buffer at its position. -/
theorem copyInto_clampedView (ring : ZeroCopyRing) {pos limit bytes n : ℕ} {src : List UInt8}
    (hring : PowerOfTwoRing ring.capacity ring.mask)
    (hn : n ≤ min bytes limit) (hsrc : n ≤ src.length) :
    ring.copyInto (clampedView ring.capacity ring.mask pos limit bytes) src n =
      { ring with buffer := spliceWindow ring.buffer ring.capacity pos (src.take n) } := by
  have hlength : (src.take n).length = n := by rw [List.length_take, min_eq_left hsrc]
  have hpos : 0 < ring.capacity - pos % ring.capacity :=
    Nat.sub_pos_of_lt (Nat.mod_lt pos hring.pos)
  rcases clampedView_eq hring pos limit bytes with ⟨hview, hzero⟩ | hview
  · have hn0 : n = 0 := by omega
    simp [hview, hn0, copyInto, RingView.empty]
  · have hn1 : (if n < firstSegment ring.capacity pos (min bytes limit) then n
        else firstSegment ring.capacity pos (min bytes limit)) =
        firstSegment ring.capacity pos n := by
      unfold firstSegment
      split_ifs <;> omega
    have hfirst : (src.take n).take (firstSegment ring.capacity pos n) =
        src.take (firstSegment ring.capacity pos n) := by
      rw [List.take_take, min_eq_left (by unfold firstSegment; omega)]
    have hsecond : (src.take n).drop (firstSegment ring.capacity pos n) =
        (src.drop (firstSegment ring.capacity pos n)).take
          (n - firstSegment ring.capacity pos n) := List.drop_take
    simp only [copyInto, hview, hn1, spliceWindow, hlength, hfirst, hsecond]
    congr 1
    by_cases hwrap : n > firstSegment ring.capacity pos n
    · have hspan : min bytes limit - firstSegment ring.capacity pos (min bytes limit) ≠ 0 := by
        unfold firstSegment at hwrap ⊢
        omega
      rw [if_pos ⟨hwrap, hspan⟩, if_pos (by unfold firstSegment at hwrap ⊢; omega)]
    · rw [if_neg (fun h ↦ hwrap h.1), show n - firstSegment ring.capacity pos n = 0 by omega,
        List.take_zero, splice_nil]
      split_ifs with hfront
      · rfl
      · rw [show firstSegment ring.capacity pos n = 0 by omega, List.take_zero, splice_nil]

/-! ### The invariant and the abstraction -/

/-- The invariant of the ring. -/
structure Valid (ring : ZeroCopyRing) : Prop where
  geometry : PowerOfTwoRing ring.capacity ring.mask
  writePos_lt : ring.writePos < word64
  readPos_lt : ring.readPos < word64
  size_le : ring.size ≤ ring.capacity

/-- The stored bytes of a ring, oldest first. -/
def stored (ring : ZeroCopyRing) : List UInt8 :=
  window ring.buffer ring.capacity ring.readPos ring.size

/-- The contents of the free region of a ring, in the order in which it will be filled. -/
def spare (ring : ZeroCopyRing) : List UInt8 :=
  window ring.buffer ring.capacity ring.writePos ring.freeSpace

@[simp] theorem length_stored (ring : ZeroCopyRing) : ring.stored.length = ring.size := by
  simp [stored]

@[simp] theorem length_spare (ring : ZeroCopyRing) : ring.spare.length = ring.freeSpace := by
  simp [spare]

theorem Valid.freeSpace_eq {ring : ZeroCopyRing} (hvalid : ring.Valid) :
    ring.freeSpace = ring.capacity - ring.size :=
  subMod_of_le hvalid.size_le hvalid.geometry.lt

theorem Valid.size_add_freeSpace {ring : ZeroCopyRing} (hvalid : ring.Valid) :
    ring.size + ring.freeSpace = ring.capacity := by
  rw [hvalid.freeSpace_eq, Nat.add_sub_cancel' hvalid.size_le]

theorem Valid.freeSpace_le {ring : ZeroCopyRing} (hvalid : ring.Valid) :
    ring.freeSpace ≤ ring.capacity := by
  rw [hvalid.freeSpace_eq]
  exact Nat.sub_le _ _

/-- The bounded queue that a ring represents. -/
def toQueue (ring : ZeroCopyRing) (hvalid : ring.Valid) : ByteQueue where
  capacity := ring.capacity
  stored := ring.stored
  spare := ring.spare
  fits := by rw [length_stored, length_spare, hvalid.size_add_freeSpace]

/-- The write position lies `size` bytes after the read position, modulo the capacity. -/
theorem Valid.writePos_mod {ring : ZeroCopyRing} (hvalid : ring.Valid) :
    ring.writePos % ring.capacity = (ring.readPos + ring.size) % ring.capacity := by
  have hback : addMod word64 ring.readPos ring.size = ring.writePos :=
    addMod_subMod hvalid.writePos_lt hvalid.readPos_lt
  rw [← hback, addMod, Nat.mod_mod_of_dvd _ hvalid.geometry.dvd]

@[simp] theorem capacity_commitWrite (ring : ZeroCopyRing) (bytes : ℕ) :
    (ring.commitWrite bytes).capacity = ring.capacity := by
  unfold commitWrite
  split_ifs <;> rfl

@[simp] theorem capacity_commitRead (ring : ZeroCopyRing) (bytes : ℕ) :
    (ring.commitRead bytes).capacity = ring.capacity := by
  unfold commitRead
  split_ifs <;> rfl

/-- Filling the free region changes the free region only. Assumes: the bytes fit. -/
theorem Valid.fill {ring : ZeroCopyRing} (hvalid : ring.Valid) {data : List UInt8}
    (hdata : data.length ≤ ring.freeSpace) :
    let filled := { ring with
      buffer := spliceWindow ring.buffer ring.capacity ring.writePos data }
    filled.Valid ∧ filled.stored = ring.stored ∧
      filled.spare = data ++ ring.spare.drop data.length := by
  have hsum := hvalid.size_add_freeSpace
  refine ⟨⟨hvalid.geometry, hvalid.writePos_lt, hvalid.readPos_lt, hvalid.size_le⟩, ?_, ?_⟩
  · refine window_spliceWindow_of_disjoint (by omega) fun k hk l hl hcell ↦ ?_
    have hk' : k < ring.size := hk
    rw [Nat.add_mod ring.writePos, hvalid.writePos_mod, ← Nat.add_mod, Nat.add_assoc] at hcell
    have := offset_eq_of_mod_eq (by omega) (by omega) hcell
    omega
  · change window _ ring.capacity ring.writePos ring.freeSpace = _
    rw [← Nat.add_sub_cancel' hdata, ← window_append, window_spliceWindow_self (by omega), spare,
      drop_window hdata]
    congr 1
    refine window_spliceWindow_of_disjoint (by omega) fun k hk l hl hcell ↦ ?_
    rw [Nat.add_assoc] at hcell
    have := offset_eq_of_mod_eq (by omega) (by omega) hcell
    omega

/-- `commit_write` moves the front of the free region behind the stored bytes. -/
theorem Valid.commitWrite {ring : ZeroCopyRing} (hvalid : ring.Valid) (bytes : ℕ) :
    (ring.commitWrite bytes).Valid ∧
      (ring.commitWrite bytes).stored = ring.stored ++ ring.spare.take bytes ∧
      (ring.commitWrite bytes).spare = ring.spare.drop bytes := by
  by_cases hzero : bytes = 0
  · simp [ZeroCopyRing.commitWrite, hzero, hvalid]
  have hsum := hvalid.size_add_freeSpace
  have hlt := hvalid.geometry.lt
  have hcommit : writeCommit ring.capacity ring.writePos ring.readPos bytes =
      min bytes ring.freeSpace := writeCommit_eq _ _ _ _
  generalize hcount : min bytes ring.freeSpace = count at hcommit
  have hring : ring.commitWrite bytes =
      { ring with writePos := addMod word64 ring.writePos count } := by
    rw [ZeroCopyRing.commitWrite, if_neg hzero, hcommit]
  have hsize : (ring.commitWrite bytes).size = ring.size + count := by
    rw [hring]
    exact subMod_addMod_left hvalid.writePos_lt hvalid.readPos_lt
      (show ring.size + count < word64 by omega)
  have hnext : (ring.commitWrite bytes).Valid := by
    rw [hring] at hsize ⊢
    exact ⟨hvalid.geometry, addMod_lt word64_pos _ _, hvalid.readPos_lt, by
      rw [hsize]
      change _ ≤ ring.capacity
      omega⟩
  have hfree : (ring.commitWrite bytes).freeSpace = ring.freeSpace - count := by
    rw [hnext.freeSpace_eq, hsize, capacity_commitWrite, hvalid.freeSpace_eq, Nat.sub_sub]
  refine ⟨hnext, ?_, ?_⟩
  · rw [stored, hsize]
    simp only [hring]
    rw [← window_append, stored, spare, take_window, hcount]
    exact congrArg _ (window_congr hvalid.writePos_mod.symm)
  · rw [spare, hfree]
    simp only [hring]
    have hdrop : ring.spare.drop bytes = ring.spare.drop count := by
      rcases Nat.le_total bytes ring.freeSpace with hle | hle
      · rw [show count = bytes by omega]
      · rw [List.drop_of_length_le (by rwa [length_spare]),
          List.drop_of_length_le (by rw [length_spare]; omega)]
    rw [hdrop, spare, drop_window (by omega)]
    refine window_congr ?_
    rw [addMod, Nat.mod_mod_of_dvd _ hvalid.geometry.dvd]

/-- `commit_read` moves the oldest stored bytes to the end of the free region. -/
theorem Valid.commitRead {ring : ZeroCopyRing} (hvalid : ring.Valid) (bytes : ℕ) :
    (ring.commitRead bytes).Valid ∧
      (ring.commitRead bytes).stored = ring.stored.drop bytes ∧
      (ring.commitRead bytes).spare = ring.spare ++ ring.stored.take bytes := by
  by_cases hzero : bytes = 0
  · simp [ZeroCopyRing.commitRead, hzero, hvalid]
  have hsum := hvalid.size_add_freeSpace
  have hlt := hvalid.geometry.lt
  have hcommit : readCommit ring.writePos ring.readPos bytes = min bytes ring.size :=
    readCommit_eq _ _ _
  generalize hcount : min bytes ring.size = count at hcommit
  have hring : ring.commitRead bytes =
      { ring with readPos := addMod word64 ring.readPos count } := by
    rw [ZeroCopyRing.commitRead, if_neg hzero, hcommit]
  have hsize : (ring.commitRead bytes).size = ring.size - count := by
    rw [hring]
    exact subMod_addMod_right hvalid.writePos_lt hvalid.readPos_lt
      (show count ≤ ring.size by omega)
  have hnext : (ring.commitRead bytes).Valid := by
    rw [hring] at hsize ⊢
    exact ⟨hvalid.geometry, hvalid.writePos_lt, addMod_lt word64_pos _ _, by
      rw [hsize]
      change _ ≤ ring.capacity
      omega⟩
  have hfree : (ring.commitRead bytes).freeSpace = ring.freeSpace + count := by
    rw [hnext.freeSpace_eq, hsize, capacity_commitRead]
    omega
  have hdrop : ring.stored.drop bytes = ring.stored.drop count := by
    rcases Nat.le_total bytes ring.size with hle | hle
    · rw [show count = bytes by omega]
    · rw [List.drop_of_length_le (by rwa [length_stored]),
        List.drop_of_length_le (by rw [length_stored]; omega)]
  refine ⟨hnext, ?_, ?_⟩
  · rw [stored, hsize, hdrop]
    simp only [hring]
    rw [stored, drop_window (by omega)]
    refine window_congr ?_
    rw [addMod, Nat.mod_mod_of_dvd _ hvalid.geometry.dvd]
  · rw [spare, hfree]
    simp only [hring]
    rw [← window_append, spare, stored, take_window, hcount]
    refine congrArg _ (window_congr ?_)
    -- One full lap after the read position lies the read position again.
    rw [Nat.add_mod, hvalid.writePos_mod, ← Nat.add_mod, Nat.add_assoc, hsum, Nat.add_mod_right]

/-! ### Every operation is the operation of the queue -/

/-- The operations of the ring, as a client performs them. -/
def perform (ring : ZeroCopyRing) : RingOp → ZeroCopyRing × RingResult
  | .acquireWrite bytes fill =>
    let view := ring.acquireWrite bytes
    (ring.copyInto view fill (min fill.length view.size),
      ⟨view.size, ring.copyFrom view view.size⟩)
  | .commitWrite bytes => (ring.commitWrite bytes, ⟨0, []⟩)
  | .acquireRead bytes =>
    let view := ring.acquireRead bytes
    (ring, ⟨view.size, ring.copyFrom view view.size⟩)
  | .commitRead bytes => (ring.commitRead bytes, ⟨0, []⟩)
  | .write src =>
    let (next, n) := ring.write src
    (next, ⟨n, []⟩)
  | .read bytes =>
    let (next, n, data) := ring.read bytes
    (next, ⟨n, data⟩)
  | .peek bytes =>
    let (n, data) := ring.peek bytes
    (ring, ⟨n, data⟩)

/-- Runs a list of operations, with their results. -/
def performAll (ring : ZeroCopyRing) : List RingOp → ZeroCopyRing × List RingResult
  | [] => (ring, [])
  | op :: rest =>
    let (next, result) := ring.perform op
    let (last, results) := next.performAll rest
    (last, result :: results)

/-- The refinement relation: the ring is valid and the queue is the one it represents. -/
structure Represents (ring : ZeroCopyRing) (queue : ByteQueue) : Prop where
  valid : ring.Valid
  eq : queue = ring.toQueue valid

/-- A valid ring with the capacity, the stored bytes and the free region of a queue represents
it. -/
theorem Valid.represents {ring : ZeroCopyRing} {queue : ByteQueue} (hvalid : ring.Valid)
    (hcapacity : queue.capacity = ring.capacity) (hstored : queue.stored = ring.stored)
    (hspare : queue.spare = ring.spare) : ring.Represents queue :=
  ⟨hvalid, ByteQueue.ext hcapacity hstored hspare⟩

theorem size_acquireWrite {ring : ZeroCopyRing} (hvalid : ring.Valid) (bytes : ℕ) :
    (ring.acquireWrite bytes).size = min bytes ring.freeSpace :=
  size_clampedView hvalid.geometry _ _ _

theorem size_acquireRead {ring : ZeroCopyRing} (hvalid : ring.Valid) (bytes : ℕ) :
    (ring.acquireRead bytes).size = min bytes ring.size :=
  size_clampedView hvalid.geometry _ _ _

/-- A view acquired for reading shows the oldest stored bytes. -/
theorem copyFrom_acquireRead {ring : ZeroCopyRing} (hvalid : ring.Valid) (bytes : ℕ) :
    ring.copyFrom (ring.acquireRead bytes) (ring.acquireRead bytes).size =
      ring.stored.take bytes := by
  rw [size_acquireRead hvalid, stored, take_window]
  exact copyFrom_clampedView ring hvalid.geometry hvalid.size_le

/-- A view acquired for writing shows the front of the free region. -/
theorem copyFrom_acquireWrite {ring : ZeroCopyRing} (hvalid : ring.Valid) (bytes : ℕ) :
    ring.copyFrom (ring.acquireWrite bytes) (ring.acquireWrite bytes).size =
      ring.spare.take bytes := by
  rw [size_acquireWrite hvalid, spare, take_window]
  exact copyFrom_clampedView ring hvalid.geometry hvalid.freeSpace_le

/-- Filling a view acquired for writing overwrites the front of the free region with the bytes that
fit the view. -/
theorem copyInto_acquireWrite {ring : ZeroCopyRing} (hvalid : ring.Valid) (bytes : ℕ)
    (fill : List UInt8) :
    (ring.copyInto (ring.acquireWrite bytes) fill
      (min fill.length (ring.acquireWrite bytes).size)).Represents
        ((ring.toQueue hvalid).fillSpare (fill.take (min bytes ring.freeSpace))) := by
  have hcopy := @copyInto_clampedView ring ring.writePos ring.freeSpace bytes
    (min fill.length (min bytes ring.freeSpace)) fill hvalid.geometry (min_le_right _ _)
    (min_le_left _ _)
  have htake : fill.take (min fill.length (min bytes ring.freeSpace)) =
      fill.take (min bytes ring.freeSpace) := by
    rw [Nat.min_comm, ← List.take_take, List.take_of_length_le le_rfl]
  rw [htake] at hcopy
  rw [size_acquireWrite hvalid]
  change (ring.copyInto (clampedView _ _ _ ring.freeSpace _) _ _).Represents _
  rw [hcopy]
  have hlength : (fill.take (min bytes ring.freeSpace)).length ≤ ring.freeSpace := by
    rw [List.length_take]
    omega
  obtain ⟨hfilled, hstored, hspare⟩ := hvalid.fill hlength
  refine hfilled.represents rfl hstored.symm ?_
  rw [hspare]
  change List.take ring.spare.length _ ++ _ = _
  rw [length_spare, List.take_of_length_le hlength]
  rfl

/-- `commit_write` is the queue's append. -/
theorem commitWrite_refines {ring : ZeroCopyRing} {queue : ByteQueue}
    (hrep : ring.Represents queue) (bytes : ℕ) :
    (ring.commitWrite bytes).Represents (queue.append bytes) := by
  obtain ⟨hvalid, rfl⟩ := hrep
  obtain ⟨hnext, hstored, hspare⟩ := hvalid.commitWrite bytes
  exact hnext.represents (capacity_commitWrite ring bytes).symm hstored.symm hspare.symm

/-- `commit_read` is the queue's release. -/
theorem commitRead_refines {ring : ZeroCopyRing} {queue : ByteQueue}
    (hrep : ring.Represents queue) (bytes : ℕ) :
    (ring.commitRead bytes).Represents (queue.release bytes) := by
  obtain ⟨hvalid, rfl⟩ := hrep
  obtain ⟨hnext, hstored, hspare⟩ := hvalid.commitRead bytes
  exact hnext.represents (capacity_commitRead ring bytes).symm hstored.symm hspare.symm

/-- `write` is the queue's push. -/
theorem write_refines {ring : ZeroCopyRing} {queue : ByteQueue} (hrep : ring.Represents queue)
    (src : List UInt8) : (ring.write src).1.Represents (queue.push src) ∧
      (ring.write src).2 = min src.length queue.spare.length := by
  obtain ⟨hvalid, rfl⟩ := hrep
  have hspare : (ring.toQueue hvalid).spare.length = ring.freeSpace := length_spare ring
  by_cases hempty : src.length = 0
  · have hnil : src = [] := List.length_eq_zero_iff.mp hempty
    subst hnil
    simp only [write, List.length_nil, if_true, Nat.zero_min, and_true]
    exact hvalid.represents rfl (by simp [ByteQueue.push, toQueue]) rfl
  · have hfilled := copyInto_acquireWrite hvalid src.length src
    have htake : src.take (min src.length ring.freeSpace) = src.take ring.freeSpace := by
      rw [Nat.min_comm, ← List.take_take, List.take_of_length_le le_rfl]
    have hcount : min src.length (min src.length ring.freeSpace) =
        min src.length ring.freeSpace := by omega
    rw [size_acquireWrite hvalid, hcount, htake] at hfilled
    have hcommit := commitWrite_refines hfilled (min src.length ring.freeSpace)
    rw [ByteQueue.push_eq_append_fillSpare, hspare]
    simp only [write, hempty, if_false, size_acquireWrite hvalid]
    exact ⟨hcommit, trivial⟩

/-- `read` delivers the oldest bytes and is the queue's release. -/
theorem read_refines {ring : ZeroCopyRing} {queue : ByteQueue} (hrep : ring.Represents queue)
    (bytes : ℕ) : (ring.read bytes).1.Represents (queue.release bytes) ∧
      (ring.read bytes).2 = (min bytes queue.stored.length, queue.stored.take bytes) := by
  by_cases hempty : bytes = 0
  · subst hempty
    have hsame : queue.release 0 = queue := by
      ext1 <;> simp [ByteQueue.release]
    rw [hsame]
    simpa [read] using hrep
  · have hcommit := commitRead_refines hrep (min bytes queue.stored.length)
    rw [ByteQueue.release_min] at hcommit
    obtain ⟨hvalid, rfl⟩ := hrep
    have hsize : (ring.acquireRead bytes).size =
        min bytes (ring.toQueue hvalid).stored.length := by
      rw [size_acquireRead hvalid]
      exact congrArg _ (length_stored ring).symm
    have hcopy := copyFrom_acquireRead hvalid bytes
    rw [hsize] at hcopy
    simp only [read, hempty, if_false, hsize, hcopy]
    exact ⟨hcommit, rfl⟩

/-- Writing appends the bytes that fit to the stored bytes. -/
theorem Valid.write_clamped {ring : ZeroCopyRing} (hvalid : ring.Valid) (src : List UInt8) :
    (ring.write src).1.Valid ∧ (ring.write src).1.capacity = ring.capacity ∧
      (ring.write src).1.stored = ring.stored ++ src.take ring.freeSpace ∧
      (ring.write src).2 = min src.length ring.freeSpace := by
  obtain ⟨⟨hnext, hqueue⟩, hcount⟩ := write_refines ⟨hvalid, rfl⟩ src
  have hspare : (ring.toQueue hvalid).spare.length = ring.freeSpace := length_spare ring
  have hstored : (ring.write src).1.stored = ring.stored ++ src.take ring.spare.length :=
    (congrArg ByteQueue.stored hqueue).symm
  rw [length_spare] at hstored
  rw [hspare] at hcount
  exact ⟨hnext, (congrArg ByteQueue.capacity hqueue).symm, hstored, hcount⟩

/-- Writing bytes that fit appends them to the stored bytes. -/
theorem Valid.write {ring : ZeroCopyRing} (hvalid : ring.Valid) {src : List UInt8}
    (hfits : src.length ≤ ring.freeSpace) :
    (ring.write src).1.Valid ∧ (ring.write src).1.capacity = ring.capacity ∧
      (ring.write src).1.stored = ring.stored ++ src ∧ (ring.write src).2 = src.length := by
  obtain ⟨hnext, hcapacity, hstored, hcount⟩ := hvalid.write_clamped src
  rw [List.take_of_length_le hfits] at hstored
  rw [min_eq_left hfits] at hcount
  exact ⟨hnext, hcapacity, hstored, hcount⟩

/-- Reading takes the oldest stored bytes away and delivers them. -/
theorem Valid.read {ring : ZeroCopyRing} (hvalid : ring.Valid) (bytes : ℕ) :
    (ring.read bytes).1.Valid ∧ (ring.read bytes).1.capacity = ring.capacity ∧
      (ring.read bytes).1.stored = ring.stored.drop bytes ∧
      (ring.read bytes).2 = (min bytes ring.stored.length, ring.stored.take bytes) := by
  obtain ⟨⟨hnext, hqueue⟩, hresult⟩ := read_refines ⟨hvalid, rfl⟩ bytes
  exact ⟨hnext, (congrArg ByteQueue.capacity hqueue).symm,
    (congrArg ByteQueue.stored hqueue).symm, hresult⟩

/-- `peek` delivers the bytes that `read` would deliver. -/
theorem peek_eq {ring : ZeroCopyRing} (hvalid : ring.Valid) (bytes : ℕ) :
    ring.peek bytes = (min bytes ring.size, ring.stored.take bytes) := by
  have hmin : (if bytes > usedBytes ring.writePos ring.readPos then
      usedBytes ring.writePos ring.readPos else bytes) = min bytes ring.size := by
    change _ = min bytes (usedBytes ring.writePos ring.readPos)
    split_ifs <;> omega
  rw [stored, take_window]
  by_cases hempty : bytes = 0
  · simp [peek, hempty]
  · have hfirst : (if min bytes ring.size < ring.capacity - ring.readPos % ring.capacity then
        min bytes ring.size else ring.capacity - ring.readPos % ring.capacity) =
        firstSegment ring.capacity ring.readPos (min bytes ring.size) := by
      unfold firstSegment
      split_ifs <;> omega
    simp only [peek, hempty, if_false, hmin, hvalid.geometry.and_mask, hfirst]
    split_ifs with hzero hwrap
    · simp [hzero]
    · rw [← window_eq_segments (by have := hvalid.size_le; omega)]
    · rw [window_eq_segments (by have := hvalid.size_le; omega), show min bytes ring.size -
        firstSegment ring.capacity ring.readPos (min bytes ring.size) = 0 by omega]
      rfl

/-- One operation: the ring performs the operation of the queue that it represents and returns the
same result. -/
theorem perform_refines {ring : ZeroCopyRing} {queue : ByteQueue} (hrep : ring.Represents queue)
    (op : RingOp) : (ring.perform op).1.Represents (queue.perform op).1 ∧
      (ring.perform op).2 = (queue.perform op).2 := by
  obtain ⟨hvalid, rfl⟩ := hrep
  have hspare : (ring.toQueue hvalid).spare.length = ring.freeSpace := length_spare ring
  have hstored : (ring.toQueue hvalid).stored.length = ring.size := length_stored ring
  cases op with
  | acquireWrite bytes fill =>
    simp only [perform, ByteQueue.perform, hspare]
    refine ⟨copyInto_acquireWrite hvalid bytes fill, ?_⟩
    rw [copyFrom_acquireWrite hvalid, size_acquireWrite hvalid]
    rfl
  | commitWrite bytes =>
    obtain ⟨hnext, hfront, hback⟩ := hvalid.commitWrite bytes
    exact ⟨hnext.represents (capacity_commitWrite ring bytes).symm hfront.symm hback.symm, rfl⟩
  | acquireRead bytes =>
    simp only [perform, ByteQueue.perform, hstored]
    refine ⟨⟨hvalid, rfl⟩, ?_⟩
    rw [copyFrom_acquireRead hvalid, size_acquireRead hvalid]
    rfl
  | commitRead bytes =>
    obtain ⟨hnext, hfront, hback⟩ := hvalid.commitRead bytes
    exact ⟨hnext.represents (capacity_commitRead ring bytes).symm hfront.symm hback.symm, rfl⟩
  | write src =>
    obtain ⟨hnext, hcount⟩ := write_refines ⟨hvalid, rfl⟩ src
    exact ⟨hnext, RingResult.ext hcount rfl⟩
  | read bytes =>
    obtain ⟨hnext, hresult⟩ := read_refines ⟨hvalid, rfl⟩ bytes
    exact ⟨hnext, RingResult.ext (congrArg Prod.fst hresult) (congrArg Prod.snd hresult)⟩
  | peek bytes =>
    have hpeek := peek_eq hvalid bytes
    refine ⟨⟨hvalid, rfl⟩, RingResult.ext ?_ (congrArg Prod.snd hpeek)⟩
    exact (congrArg Prod.fst hpeek).trans (congrArg (min bytes) (length_stored ring).symm)

/-- A run: the ring and the queue return the same results and stay related. -/
theorem performAll_refines {ring : ZeroCopyRing} {queue : ByteQueue}
    (hrep : ring.Represents queue) (ops : List RingOp) :
    (ring.performAll ops).1.Represents (queue.performAll ops).1 ∧
      (ring.performAll ops).2 = (queue.performAll ops).2 := by
  induction ops generalizing ring queue with
  | nil => exact ⟨hrep, rfl⟩
  | cons op rest ih =>
    obtain ⟨hstep, hresult⟩ := perform_refines hrep op
    obtain ⟨hlast, hresults⟩ := ih hstep
    exact ⟨hlast, congrArg₂ List.cons hresult hresults⟩

/-- The constructor builds the empty queue. Assumes: the argument is at most `2 ^ 63`. -/
theorem create_represents {capacityBytes : ℕ} (hcapacity : capacityBytes ≤ 2 ^ 63)
    (memory : ℕ → UInt8) :
    (create capacityBytes memory).Represents
      (.empty (nextPow2 (if capacityBytes = 0 then 4096 else capacityBytes)) memory) := by
  have hargument : (if capacityBytes = 0 then 4096 else capacityBytes) ≤ 2 ^ 63 := by
    split_ifs <;> omega
  obtain ⟨bits, hbits, hpow, -, -⟩ := nextPow2_of_le hargument
  have hgeometry : PowerOfTwoRing (create capacityBytes memory).capacity
      (create capacityBytes memory).mask := by
    refine ⟨bits, hbits, hpow, ?_⟩
    simp only [create, hpow]
    refine subMod_of_le (Nat.one_le_two_pow) ?_
    exact Nat.pow_lt_pow_right (by omega) (by omega)
  have hsize : (create capacityBytes memory).size = 0 :=
    subMod_of_le (le_refl 0) word64_pos
  have hvalid : (create capacityBytes memory).Valid :=
    ⟨hgeometry, word64_pos, word64_pos, by rw [hsize]; exact Nat.zero_le _⟩
  refine hvalid.represents rfl ?_ ?_
  · rw [stored, hsize]
    rfl
  · rw [spare, hvalid.freeSpace_eq, hsize]
    rfl

/-- The ring is a bounded byte queue over every run from its constructor: all results are the
results of the queue, the stored bytes and the free region are those of the queue, and in every
state reached the views lie inside the buffer, have the clamped size and show the front of the
stored bytes or of the free region. -/
theorem zeroCopyRing_refines_byteQueue (capacityBytes : ℕ) (hcapacity : capacityBytes ≤ 2 ^ 63)
    (memory : ℕ → UInt8) (ops : List RingOp) :
    let capacity := nextPow2 (if capacityBytes = 0 then 4096 else capacityBytes)
    let ring := ((create capacityBytes memory).performAll ops).1
    let queue := ((ByteQueue.empty capacity memory).performAll ops).1
    ((create capacityBytes memory).performAll ops).2 =
        ((ByteQueue.empty capacity memory).performAll ops).2 ∧
      ring.capacity = capacity ∧ ring.stored = queue.stored ∧ ring.spare = queue.spare ∧
      ring.size = queue.stored.length ∧ ring.freeSpace = queue.spare.length ∧
      ring.size + ring.freeSpace = ring.capacity ∧
      ∀ bytes, (∀ view ∈ [ring.acquireWrite bytes, ring.acquireRead bytes],
          view.first.data + view.first.size ≤ ring.capacity ∧
            view.second.data + view.second.size ≤ ring.capacity) ∧
        (ring.acquireWrite bytes).size = min bytes ring.freeSpace ∧
        ring.copyFrom (ring.acquireWrite bytes) (ring.acquireWrite bytes).size =
          queue.spare.take bytes ∧
        (ring.acquireRead bytes).size = min bytes ring.size ∧
        ring.copyFrom (ring.acquireRead bytes) (ring.acquireRead bytes).size =
          queue.stored.take bytes := by
  intro capacity ring queue
  obtain ⟨⟨hvalid, hqueue⟩, hresults⟩ :=
    performAll_refines (create_represents hcapacity memory) ops
  change ring.Valid at hvalid
  change queue = ring.toQueue hvalid at hqueue
  have hcap : ring.capacity = queue.capacity := by
    rw [hqueue]
    rfl
  refine ⟨hresults, hcap.trans (ByteQueue.capacity_performAll _ ops), ?_, ?_, ?_, ?_,
    hvalid.size_add_freeSpace, fun bytes ↦ ⟨?_, ?_, ?_, ?_, ?_⟩⟩
  · rw [hqueue]
    rfl
  · rw [hqueue]
    rfl
  · rw [hqueue]
    exact (length_stored ring).symm
  · rw [hqueue]
    exact (length_spare ring).symm
  · intro view hview
    simp only [List.mem_cons, List.not_mem_nil, or_false] at hview
    rcases hview with rfl | rfl
    · exact clampedView_inBounds hvalid.geometry hvalid.freeSpace_le
    · exact clampedView_inBounds hvalid.geometry hvalid.size_le
  · exact size_acquireWrite hvalid bytes
  · rw [copyFrom_acquireWrite hvalid, hqueue]
    rfl
  · exact size_acquireRead hvalid bytes
  · rw [copyFrom_acquireRead hvalid, hqueue]
    rfl

/-- The refinement at an 8-byte ring and a run that wraps: six bytes, four read, four more, all
six read through one view of two segments. -/
theorem zeroCopyRing_refines_byteQueue_wrapAround :
    ((create 8 fun _ ↦ 0).performAll [.write [1, 2, 3, 4, 5, 6], .read 4, .write [7, 8, 9, 10],
        .acquireRead 6, .commitRead 6]).2 =
      [⟨6, []⟩, ⟨4, [1, 2, 3, 4]⟩, ⟨4, []⟩, ⟨6, [5, 6, 7, 8, 9, 10]⟩, ⟨0, []⟩] := by
  rw [(zeroCopyRing_refines_byteQueue 8 (by decide) (fun _ ↦ 0) _).1]
  decide

end ZeroCopyRing

end GameEngine.Multimedia
