import GameEngine.Library.TransitionSystem
import GameEngine.Multimedia.RingRefinement

/-!
# The byte ring between one producer and one consumer

One thread calls `write`, `size` and `free_space`, another calls `read`, `peek`, `size` and
`free_space`, on one ring. A step is one position load, one byte copy or one `fetch_add`, in a
sequentially consistent order; everything in between is local to a thread and is part of the step
before it. The program counters below name what a call has already loaded. `RingState.log` and
`RingState.accepted` record what the calls have returned.

`RingState.Sound` is the two-sided invariant. The positions are the residues of the numbers of
bytes accepted and released; the accepted, unreleased bytes stand in the buffer; a producer in the
middle of a call holds a chunk that fits behind them, however old its load of the read position is;
a consumer in the middle of a call holds a prefix of the bytes that were accepted when it loaded
the write position. `step_sound` is the step lemma, and `spsc_correct` collects what follows for
every reachable state.
-/

set_option autoImplicit false
set_option relaxedAutoImplicit false

namespace GameEngine.Multimedia

open GameEngine.Library GameEngine.Library.MachineWord GameEngine.Library.CircularBuffer

/-! ### The state of the two threads -/

/-- The two queries that either thread may make. -/
inductive RingQuery
  | size
  | freeSpace
deriving DecidableEq

/-- The consumer's two copying calls. -/
inductive ReadKind
  | read
  | peek
deriving DecidableEq

/-- Where the producer is. -/
inductive ProducerPc
  /-- Between calls. -/
  | idle
  /-- In `acquire_write`, with the write position loaded. -/
  | loaded (src : List UInt8) (w : ℕ)
  /-- In `copy_into`, with `k` bytes of the view filled. -/
  | copying (src : List UInt8) (view : RingView) (k : ℕ)
  /-- In the `free_space` of `commit_write`, with the write position loaded. -/
  | committing (src : List UInt8) (n w : ℕ)
  /-- About to add `commit` to the write position and to return `n`. -/
  | adding (src : List UInt8) (n commit : ℕ)
  /-- In a query, with the write position loaded. -/
  | querying (query : RingQuery) (w : ℕ)

/-- Where the consumer is. `visible` is the number of bytes accepted when the call loaded the write
position; no step reads it. -/
inductive ConsumerPc
  /-- Between calls. -/
  | idle
  /-- In `acquire_read` or `peek`, with the read position loaded. -/
  | loaded (kind : ReadKind) (bytes r : ℕ)
  /-- In the copy out of the view, with the bytes of `dst` copied. -/
  | copying (kind : ReadKind) (bytes visible : ℕ) (view : RingView) (dst : List UInt8)
  /-- In the `size` of `commit_read`, with the write position loaded. -/
  | committing (bytes visible : ℕ) (dst : List UInt8) (w : ℕ)
  /-- About to add `commit` to the read position and to return. -/
  | adding (bytes visible : ℕ) (dst : List UInt8) (commit : ℕ)
  /-- In a query, with the write position loaded. -/
  | querying (query : RingQuery) (w : ℕ)

/-- A finished `read` or `peek`: the number of bytes asked for, the bytes returned, and the number
of bytes accepted when the call loaded the write position. -/
structure ReadReturn where
  kind : ReadKind
  count : ℕ
  bytes : List UInt8
  visible : ℕ

/-- The concatenation of the bytes returned by `read`, from a log with the newest entry first. -/
def released : List ReadReturn → List UInt8
  | [] => []
  | entry :: earlier =>
    match entry.kind with
    | .read => released earlier ++ entry.bytes
    | .peek => released earlier

/-- The ring, the two threads, and the record of what their calls have returned: the bytes accepted
by `write`, the finished `read` and `peek` calls, newest first, and every value that a `size` or
`free_space` has computed. -/
structure RingState where
  ring : ZeroCopyRing
  producer : ProducerPc
  consumer : ConsumerPc
  accepted : List UInt8
  log : List ReadReturn
  queried : List ℕ

/-- A new ring with both threads between calls. -/
def RingState.initial (capacityBytes : ℕ) (memory : ℕ → UInt8) : RingState where
  ring := .create capacityBytes memory
  producer := .idle
  consumer := .idle
  accepted := []
  log := []
  queried := []

/-! ### The steps -/

/-- What happens next: a thread starts a call, or takes the next step of the call it is in. -/
inductive RingAction
  | write (src : List UInt8)
  | producerQuery (query : RingQuery)
  | producer
  | read (kind : ReadKind) (bytes : ℕ)
  | consumerQuery (query : RingQuery)
  | consumer

/-- The value of a query from the loaded positions. -/
def queryValue (capacity w r : ℕ) : RingQuery → ℕ
  | .size => usedBytes w r
  | .freeSpace => freeBytes capacity w r

/-- The next step of the producer's call. -/
def producerStep (s : RingState) : Option RingState :=
  match s.producer with
  | .idle => none
  | .loaded src w =>
    -- `acquire_write` loads the read position and computes the view.
    let view := writeView s.ring.capacity s.ring.mask w s.ring.readPos src.length
    some { s with producer := if view.size = 0 then .idle else .copying src view 0 }
  | .copying src view k =>
    if k < view.size then
      some { s with
        ring := { s.ring with
          buffer := Function.update s.ring.buffer (view.index k) (src.getD k 0) }
        producer := .copying src view (k + 1) }
    else some { s with producer := .committing src view.size s.ring.writePos }
  | .committing src n w =>
    some { s with
      producer := .adding src n (writeCommit s.ring.capacity w s.ring.readPos n)
      queried := usedBytes w s.ring.readPos :: freeBytes s.ring.capacity w s.ring.readPos ::
        s.queried }
  | .adding src n commit =>
    some { s with
      ring := { s.ring with writePos := addMod word64 s.ring.writePos commit }
      producer := .idle
      accepted := s.accepted ++ src.take n }
  | .querying query w =>
    some { s with
      producer := .idle
      queried := queryValue s.ring.capacity w s.ring.readPos query :: s.queried }

/-- The next step of the consumer's call. -/
def consumerStep (s : RingState) : Option RingState :=
  match s.consumer with
  | .idle => none
  | .loaded kind bytes r =>
    -- `acquire_read` and `peek` load the write position and compute the view.
    let view := readView s.ring.capacity s.ring.mask s.ring.writePos r bytes
    if view.size = 0 then
      some { s with consumer := .idle, log := ⟨kind, bytes, [], s.accepted.length⟩ :: s.log }
    else some { s with consumer := .copying kind bytes s.accepted.length view [] }
  | .copying kind bytes visible view dst =>
    if dst.length < view.size then
      some { s with
        consumer := .copying kind bytes visible view
          (dst ++ [s.ring.buffer (view.index dst.length)]) }
    else
      match kind with
      | .read => some { s with consumer := .committing bytes visible dst s.ring.writePos }
      | .peek => some { s with consumer := .idle, log := ⟨.peek, bytes, dst, visible⟩ :: s.log }
  | .committing bytes visible dst w =>
    some { s with
      consumer := .adding bytes visible dst (readCommit w s.ring.readPos dst.length)
      queried := usedBytes w s.ring.readPos :: s.queried }
  | .adding bytes visible dst commit =>
    some { s with
      ring := { s.ring with readPos := addMod word64 s.ring.readPos commit }
      consumer := .idle
      log := ⟨.read, bytes, dst, visible⟩ :: s.log }
  | .querying query w =>
    some { s with
      consumer := .idle
      queried := queryValue s.ring.capacity w s.ring.readPos query :: s.queried }

/-- The steps of the two threads. A call on zero bytes returns without touching the ring. -/
def spscStep (s : RingState) : RingAction → Option RingState
  | .write src =>
    match s.producer with
    | .idle =>
      some (if src.length = 0 then s
        else { s with producer := .loaded src s.ring.writePos })
    | _ => none
  | .producerQuery query =>
    match s.producer with
    | .idle => some { s with producer := .querying query s.ring.writePos }
    | _ => none
  | .producer => producerStep s
  | .read kind bytes =>
    match s.consumer with
    | .idle =>
      some (if bytes = 0 then
          { s with log := ⟨kind, bytes, [], s.accepted.length⟩ :: s.log }
        else { s with consumer := .loaded kind bytes s.ring.readPos })
    | _ => none
  | .consumerQuery query =>
    match s.consumer with
    | .idle => some { s with consumer := .querying query s.ring.writePos }
    | _ => none
  | .consumer => consumerStep s

/-- One producer and one consumer on one ring. -/
def spscSystem : TransitionSystem RingState RingAction := ⟨spscStep⟩

/-! ### Views and sizes from stale positions -/

/-- The capacities the constructor can produce: a power of two that divides the range of the
positions, or zero when the request was above `2 ^ 63`. -/
def RingGeometry (capacity mask : ℕ) : Prop := PowerOfTwoRing capacity mask ∨ capacity = 0

section Geometry

variable {capacity mask : ℕ}

theorem RingGeometry.lt (hgeometry : RingGeometry capacity mask) : capacity < word64 := by
  rcases hgeometry with hpow | rfl
  · exact hpow.lt
  · exact word64_pos

/-- A clamped view has the clamped size, and its bytes lie at consecutive positions. The position
may have been reduced to a word. -/
theorem RingGeometry.clampedView (hgeometry : RingGeometry capacity mask) (pos bytes : ℕ)
    {limit : ℕ} (hlimit : limit ≤ capacity) :
    (clampedView capacity mask (pos % word64) limit bytes).size = min bytes limit ∧
      ∀ k < min bytes limit,
        (clampedView capacity mask (pos % word64) limit bytes).index k = (pos + k) % capacity := by
  rcases hgeometry with hpow | rfl
  · refine ⟨size_clampedView hpow _ _ _, fun k hk ↦ ?_⟩
    rw [index_clampedView hpow hlimit hk, Nat.add_mod, Nat.mod_mod_of_dvd _ hpow.dvd,
      ← Nat.add_mod]
  · have hzero : limit = 0 := Nat.le_zero.mp hlimit
    subst hzero
    refine ⟨?_, fun k hk ↦ absurd hk (by omega)⟩
    by_cases hbytes : bytes = 0 <;> simp [Multimedia.clampedView, hbytes, RingView.empty,
      RingView.size]

/-- The number of used bytes computed from the residues of two counts. -/
theorem RingGeometry.usedBytes (hgeometry : RingGeometry capacity mask) {writes reads : ℕ}
    (hle : reads ≤ writes) (hfits : writes ≤ reads + capacity) :
    usedBytes (writes % word64) (reads % word64) = writes - reads :=
  subMod_mod hle (by have := hgeometry.lt; omega)

/-- The number of free bytes computed from the residues of two counts. -/
theorem RingGeometry.freeBytes (hgeometry : RingGeometry capacity mask) {writes reads : ℕ}
    (hle : reads ≤ writes) (hfits : writes ≤ reads + capacity) :
    freeBytes capacity (writes % word64) (reads % word64) = capacity - (writes - reads) := by
  rw [Multimedia.freeBytes, hgeometry.usedBytes hle hfits]
  exact subMod_of_le (by omega) hgeometry.lt

/-- A query returns at most the capacity. -/
theorem RingGeometry.queryValue_le (hgeometry : RingGeometry capacity mask) {writes reads : ℕ}
    (hle : reads ≤ writes) (hfits : writes ≤ reads + capacity) (query : RingQuery) :
    queryValue capacity (writes % word64) (reads % word64) query ≤ capacity := by
  cases query with
  | size =>
    rw [queryValue, hgeometry.usedBytes hle hfits]
    omega
  | freeSpace =>
    rw [queryValue, hgeometry.freeBytes hle hfits]
    omega

/-- The constructor builds one of these geometries. -/
theorem ringGeometry_create {capacityBytes : ℕ} (hcapacity : capacityBytes < 2 ^ 64)
    (memory : ℕ → UInt8) : RingGeometry (ZeroCopyRing.create capacityBytes memory).capacity
      (ZeroCopyRing.create capacityBytes memory).mask := by
  by_cases hle : capacityBytes ≤ 2 ^ 63
  · exact Or.inl (ZeroCopyRing.create_represents hle memory).valid.geometry
  · refine Or.inr ?_
    have hne : capacityBytes ≠ 0 := by omega
    simp only [ZeroCopyRing.create, hne, if_false]
    exact nextPow2_of_gt (by omega) hcapacity

end Geometry

/-! ### The invariant -/

/-- The bytes that a `read` or `peek` of `count` bytes returns when it loads the write position with
`visible` bytes accepted and `start` bytes released. -/
def nextBytes (accepted : List UInt8) (start visible count : ℕ) : List UInt8 :=
  ((accepted.take visible).drop start).take count

theorem length_nextBytes {accepted : List UInt8} {start visible count : ℕ}
    (hvisible : visible ≤ accepted.length) :
    (nextBytes accepted start visible count).length = min count (visible - start) := by
  simp [nextBytes, hvisible]

theorem getElem_nextBytes {accepted : List UInt8} {start visible count k : ℕ}
    (hk : k < (nextBytes accepted start visible count).length)
    (hpos : start + k < accepted.length) :
    (nextBytes accepted start visible count)[k] = accepted[start + k] := by
  simp [nextBytes]

/-- Bytes accepted later do not change what a call returns. -/
theorem nextBytes_append {accepted : List UInt8} {start visible count : ℕ}
    (hvisible : visible ≤ accepted.length) (later : List UInt8) :
    nextBytes (accepted ++ later) start visible count = nextBytes accepted start visible count := by
  rw [nextBytes, List.take_append_of_le_length hvisible, nextBytes]

/-- Every finished call returned the bytes due to it, and the calls loaded the write position in
their order. -/
def LogSound (accepted : List UInt8) : List ReadReturn → Prop
  | [] => True
  | entry :: earlier =>
    (released earlier).length ≤ entry.visible ∧ entry.visible ≤ accepted.length ∧
      entry.bytes = nextBytes accepted (released earlier).length entry.visible entry.count ∧
      (∀ other ∈ earlier, other.visible ≤ entry.visible) ∧ LogSound accepted earlier

/-- The first `n` bytes of a chunk stand in the buffer from position `writes` on. -/
def Filled (ring : ZeroCopyRing) (writes : ℕ) (src : List UInt8) (n : ℕ) : Prop :=
  ∀ j < n, ring.buffer ((writes + j) % ring.capacity) = src.getD j 0

/-- What the producer knows in the middle of a call, with `writes` bytes accepted and `reads` bytes
released. -/
def ProducerSound (ring : ZeroCopyRing) (writes reads : ℕ) : ProducerPc → Prop
  | .idle => True
  | .loaded _ w => w = writes % word64
  | .copying src view k =>
    view.size ≤ src.length ∧ writes + view.size ≤ reads + ring.capacity ∧ k ≤ view.size ∧
      (∀ j < view.size, view.index j = (writes + j) % ring.capacity) ∧ Filled ring writes src k
  | .committing src n w =>
    w = writes % word64 ∧ n ≤ src.length ∧ writes + n ≤ reads + ring.capacity ∧
      Filled ring writes src n
  | .adding src n commit =>
    commit = n ∧ n ≤ src.length ∧ writes + n ≤ reads + ring.capacity ∧ Filled ring writes src n
  | .querying _ w => w = writes % word64

/-- What the consumer knows in the middle of a call. -/
def ConsumerSound (capacity : ℕ) (accepted : List UInt8) (log : List ReadReturn) :
    ConsumerPc → Prop
  | .idle => True
  | .loaded _ _ r => r = (released log).length % word64
  | .copying _ bytes visible view dst =>
    ((released log).length ≤ visible ∧ visible ≤ accepted.length ∧
        ∀ entry ∈ log, entry.visible ≤ visible) ∧
      view.size = (nextBytes accepted (released log).length visible bytes).length ∧
      (∀ j < view.size, view.index j = ((released log).length + j) % capacity) ∧
      dst <+: nextBytes accepted (released log).length visible bytes
  | .committing bytes visible dst w =>
    ((released log).length ≤ visible ∧ visible ≤ accepted.length ∧
        ∀ entry ∈ log, entry.visible ≤ visible) ∧
      dst = nextBytes accepted (released log).length visible bytes ∧
      ∃ writes, w = writes % word64 ∧ visible ≤ writes ∧ writes ≤ accepted.length
  | .adding bytes visible dst commit =>
    ((released log).length ≤ visible ∧ visible ≤ accepted.length ∧
        ∀ entry ∈ log, entry.visible ≤ visible) ∧
      dst = nextBytes accepted (released log).length visible bytes ∧ commit = dst.length
  | .querying _ w =>
    ∃ writes, w = writes % word64 ∧ (released log).length ≤ writes ∧ writes ≤ accepted.length

/-- The invariant of the ring between its two threads. -/
structure RingState.Sound (s : RingState) : Prop where
  geometry : RingGeometry s.ring.capacity s.ring.mask
  writePos : s.ring.writePos = s.accepted.length % word64
  readPos : s.ring.readPos = (released s.log).length % word64
  released_le : (released s.log).length ≤ s.accepted.length
  fits : s.accepted.length ≤ (released s.log).length + s.ring.capacity
  holds : ∀ p, (released s.log).length ≤ p → (hp : p < s.accepted.length) →
    s.ring.buffer (p % s.ring.capacity) = s.accepted[p]
  log : LogSound s.accepted s.log
  producer : ProducerSound s.ring s.accepted.length (released s.log).length s.producer
  consumer : ConsumerSound s.ring.capacity s.accepted s.log s.consumer
  queried : ∀ value ∈ s.queried, value ≤ s.ring.capacity

/-! ### Every step keeps the invariant -/

theorem LogSound.append {accepted : List UInt8} {log : List ReadReturn}
    (hlog : LogSound accepted log) (later : List UInt8) : LogSound (accepted ++ later) log := by
  induction log with
  | nil => trivial
  | cons entry earlier ih =>
    obtain ⟨hstart, hvisible, hbytes, horder, hearlier⟩ := hlog
    refine ⟨hstart, ?_, ?_, horder, ih hearlier⟩
    · rw [List.length_append]
      omega
    · rw [nextBytes_append hvisible, hbytes]

/-- No finished call saw more bytes than have been accepted. -/
theorem LogSound.visible_le {accepted : List UInt8} {log : List ReadReturn}
    (hlog : LogSound accepted log) : ∀ entry ∈ log, entry.visible ≤ accepted.length := by
  cases log with
  | nil => simp
  | cons newest earlier =>
    obtain ⟨-, hnewest, -, horder, -⟩ := hlog
    intro entry hentry
    rcases List.mem_cons.mp hentry with rfl | hold
    · exact hnewest
    · exact (horder entry hold).trans hnewest

/-- A later release position does not invalidate what the producer knows. -/
theorem ProducerSound.mono {ring next : ZeroCopyRing} {writes reads reads' : ℕ} {pc : ProducerPc}
    (hpc : ProducerSound ring writes reads pc) (hbuffer : next.buffer = ring.buffer)
    (hcapacity : next.capacity = ring.capacity) (hreads : reads ≤ reads') :
    ProducerSound next writes reads' pc := by
  cases pc with
  | idle => trivial
  | loaded src w => exact hpc
  | copying src view k =>
    obtain ⟨hsrc, hfits, hk, hindex, hfilled⟩ := hpc
    refine ⟨hsrc, by omega, hk, by rwa [hcapacity], ?_⟩
    rwa [Filled, hbuffer, hcapacity]
  | committing src n w =>
    obtain ⟨hw, hsrc, hfits, hfilled⟩ := hpc
    refine ⟨hw, hsrc, by omega, ?_⟩
    rwa [Filled, hbuffer, hcapacity]
  | adding src n commit =>
    obtain ⟨hcommit, hsrc, hfits, hfilled⟩ := hpc
    refine ⟨hcommit, hsrc, by omega, ?_⟩
    rwa [Filled, hbuffer, hcapacity]
  | querying query w => exact hpc

/-- Bytes accepted later do not invalidate what the consumer knows. -/
theorem ConsumerSound.append {capacity : ℕ} {accepted : List UInt8} {log : List ReadReturn}
    {pc : ConsumerPc} (hpc : ConsumerSound capacity accepted log pc) (later : List UInt8) :
    ConsumerSound capacity (accepted ++ later) log pc := by
  cases pc with
  | idle => trivial
  | loaded kind bytes r => exact hpc
  | copying kind bytes visible view dst =>
    obtain ⟨⟨hstart, hvisible, hlog⟩, hsize, hindex, hdst⟩ := hpc
    rw [← nextBytes_append hvisible later] at hsize hdst
    exact ⟨⟨hstart, by rw [List.length_append]; omega, hlog⟩, hsize, hindex, hdst⟩
  | committing bytes visible dst w =>
    obtain ⟨⟨hstart, hvisible, hlog⟩, hdst, writes, hw, hle, hwrites⟩ := hpc
    rw [← nextBytes_append hvisible later] at hdst
    exact ⟨⟨hstart, by rw [List.length_append]; omega, hlog⟩, hdst, writes, hw, hle,
      by rw [List.length_append]; omega⟩
  | adding bytes visible dst commit =>
    obtain ⟨⟨hstart, hvisible, hlog⟩, hdst, hcommit⟩ := hpc
    rw [← nextBytes_append hvisible later] at hdst
    exact ⟨⟨hstart, by rw [List.length_append]; omega, hlog⟩, hdst, hcommit⟩
  | querying query w =>
    obtain ⟨writes, hw, hle, hwrites⟩ := hpc
    exact ⟨writes, hw, hle, by rw [List.length_append]; omega⟩

/-- One step of the producer's call. -/
theorem producerStep_sound {s next : RingState} (hs : s.Sound)
    (hstep : producerStep s = some next) : next.Sound := by
  have hproducer := hs.producer
  have hfits := hs.fits
  have hle := hs.released_le
  cases hpc : s.producer with
  | idle => simp [producerStep, hpc] at hstep
  | loaded src w =>
    simp only [producerStep, hpc, Option.some.injEq] at hstep
    rw [hpc] at hproducer
    subst hstep
    have hfree := hs.geometry.freeBytes hle hfits
    rw [← hs.readPos, ← show w = s.accepted.length % word64 from hproducer] at hfree
    obtain ⟨hsize, hindex⟩ := hs.geometry.clampedView s.accepted.length src.length
      (show s.ring.capacity - (s.accepted.length - (released s.log).length) ≤ s.ring.capacity by
        omega)
    rw [← hfree, ← show w = s.accepted.length % word64 from hproducer] at hsize hindex
    refine { hs with producer := ?_ }
    dsimp only
    split_ifs with hempty
    · trivial
    · refine ⟨?_, ?_, Nat.zero_le _, fun j hj ↦ ?_, fun j hj ↦ absurd hj (Nat.not_lt_zero j)⟩
      · rw [writeView, hsize]
        exact min_le_left _ _
      · rw [writeView, hsize, hfree]
        omega
      · rw [writeView, hsize] at hj
        exact hindex j hj
  | copying src view k =>
    rw [hpc] at hproducer
    obtain ⟨hsrc, hroom, hk, hindex, hfilled⟩ := hproducer
    simp only [producerStep, hpc] at hstep
    split_ifs at hstep with hmore
    · rw [Option.some.injEq] at hstep
      subst hstep
      refine { hs with holds := fun p hreads hp ↦ ?_, producer := ?_ }
      · have hcell : p % s.ring.capacity ≠ view.index k := by
          rw [hindex k hmore]
          exact mod_ne_mod (by dsimp only at hp; omega) (by dsimp only at hreads; omega)
        dsimp only
        rw [Function.update_of_ne hcell]
        exact hs.holds p hreads hp
      · refine ⟨hsrc, hroom, hmore, hindex, fun j hj ↦ ?_⟩
        dsimp only
        rw [hindex k hmore]
        by_cases hlast : j = k
        · rw [hlast, Function.update_self]
        · have hcell : (s.accepted.length + j) % s.ring.capacity ≠
              (s.accepted.length + k) % s.ring.capacity :=
            mod_ne_mod (by omega) (by omega)
          rw [Function.update_of_ne hcell]
          exact hfilled j (by omega)
    · rw [Option.some.injEq] at hstep
      subst hstep
      have hall : k = view.size := by omega
      exact { hs with producer := ⟨hs.writePos, hsrc, hroom, hall ▸ hfilled⟩ }
  | committing src n w =>
    rw [hpc] at hproducer
    obtain ⟨hw, hsrc, hroom, hfilled⟩ := hproducer
    simp only [producerStep, hpc, Option.some.injEq] at hstep
    subst hstep
    have hused := hs.geometry.usedBytes hle hfits
    have hfree := hs.geometry.freeBytes hle hfits
    rw [← hs.readPos, ← hw] at hused hfree
    refine { hs with producer := ⟨?_, hsrc, hroom, hfilled⟩, queried := ?_ }
    · rw [writeCommit_eq, hfree]
      omega
    · intro value hvalue
      rcases List.mem_cons.mp hvalue with rfl | hvalue
      · dsimp only
        omega
      rcases List.mem_cons.mp hvalue with rfl | hvalue
      · dsimp only
        omega
      · exact hs.queried value hvalue
  | adding src n commit =>
    rw [hpc] at hproducer
    obtain ⟨rfl, hsrc, hroom, hfilled⟩ := hproducer
    simp only [producerStep, hpc, Option.some.injEq] at hstep
    subst hstep
    have hlength : (s.accepted ++ src.take commit).length = s.accepted.length + commit := by
      rw [List.length_append, List.length_take, min_eq_left hsrc]
    refine { hs with
      writePos := ?_, released_le := ?_, fits := ?_, holds := fun p hreads hp ↦ ?_,
      log := hs.log.append _, producer := trivial, consumer := hs.consumer.append _ }
    · dsimp only
      rw [hs.writePos, addMod_mod, hlength]
    · dsimp only
      omega
    · dsimp only
      omega
    · dsimp only at hreads hp ⊢
      by_cases hold : p < s.accepted.length
      · rw [List.getElem_append_left hold]
        exact hs.holds p hreads hold
      · have hbyte := hfilled (p - s.accepted.length) (by omega)
        rw [Nat.add_sub_cancel' (by omega)] at hbyte
        rw [hbyte, List.getElem_append_right (by omega), List.getElem_take,
          List.getD_eq_getElem]
  | querying query w =>
    rw [hpc] at hproducer
    simp only [producerStep, hpc, Option.some.injEq] at hstep
    subst hstep
    have hvalue := hs.geometry.queryValue_le hle hfits query
    rw [← hs.readPos, ← show w = s.accepted.length % word64 from hproducer] at hvalue
    refine { hs with producer := trivial, queried := ?_ }
    intro value hmem
    rcases List.mem_cons.mp hmem with rfl | hmem
    · exact hvalue
    · exact hs.queried value hmem

/-- A proper prefix grows by the next element of the list. -/
theorem prefix_append_getElem {α : Type*} {front list : List α} (hfront : front <+: list)
    (hlt : front.length < list.length) : front ++ [list[front.length]] <+: list := by
  obtain ⟨rest, rfl⟩ := hfront
  cases rest with
  | nil => simp at hlt
  | cons head tail => simp

/-- A consumer call that finds nothing to return ends with an empty result. -/
theorem RingState.Sound.returnEmpty {s : RingState} (hs : s.Sound) (kind : ReadKind) {bytes : ℕ}
    (hempty : nextBytes s.accepted (released s.log).length s.accepted.length bytes = []) :
    RingState.Sound { s with
      consumer := .idle
      log := ⟨kind, bytes, [], s.accepted.length⟩ :: s.log } := by
  have hreleased : released (⟨kind, bytes, [], s.accepted.length⟩ :: s.log) = released s.log := by
    cases kind with
    | read => exact List.append_nil _
    | peek => rfl
  have hlog : LogSound s.accepted (⟨kind, bytes, [], s.accepted.length⟩ :: s.log) :=
    ⟨hs.released_le, le_refl _, hempty.symm, hs.log.visible_le, hs.log⟩
  refine { hs with
    readPos := ?_, released_le := ?_, fits := ?_, holds := ?_, log := hlog, producer := ?_,
    consumer := trivial }
  · rw [hreleased]
    exact hs.readPos
  · rw [hreleased]
    exact hs.released_le
  · rw [hreleased]
    exact hs.fits
  · rw [hreleased]
    exact hs.holds
  · rw [hreleased]
    exact hs.producer

/-- One step of the consumer's call. -/
theorem consumerStep_sound {s next : RingState} (hs : s.Sound)
    (hstep : consumerStep s = some next) : next.Sound := by
  have hconsumer := hs.consumer
  have hfits := hs.fits
  have hle := hs.released_le
  cases hpc : s.consumer with
  | idle => simp [consumerStep, hpc] at hstep
  | loaded kind bytes r =>
    simp only [consumerStep, hpc] at hstep
    rw [hpc] at hconsumer
    have hr : r = (released s.log).length % word64 := hconsumer
    have hused := hs.geometry.usedBytes hle hfits
    rw [← hs.writePos, ← hr] at hused
    obtain ⟨hsize, hindex⟩ := hs.geometry.clampedView (released s.log).length bytes
      (show s.accepted.length - (released s.log).length ≤ s.ring.capacity by omega)
    rw [← hused, ← hr] at hsize hindex
    have hlength :
        (nextBytes s.accepted (released s.log).length s.accepted.length bytes).length =
          min bytes (s.accepted.length - (released s.log).length) :=
      length_nextBytes (le_refl _)
    split_ifs at hstep with hempty
    · rw [Option.some.injEq] at hstep
      subst hstep
      rw [readView, hsize, hused] at hempty
      exact hs.returnEmpty kind (by rw [← List.length_eq_zero_iff, hlength, hempty])
    · rw [Option.some.injEq] at hstep
      subst hstep
      refine { hs with consumer := ⟨⟨hle, le_refl _, hs.log.visible_le⟩, ?_, fun j hj ↦ ?_, ?_⟩ }
      · rw [readView, hsize, hlength, hused]
      · rw [readView, hsize] at hj
        exact hindex j hj
      · exact List.nil_prefix
  | copying kind bytes visible view dst =>
    rw [hpc] at hconsumer
    obtain ⟨⟨hstart, hbound, hlog⟩, hsize, hindex, hdst⟩ := hconsumer
    simp only [consumerStep, hpc] at hstep
    split_ifs at hstep with hmore
    · rw [Option.some.injEq] at hstep
      subst hstep
      refine { hs with consumer := ⟨⟨hstart, hbound, hlog⟩, hsize, hindex, ?_⟩ }
      have hnext :
          dst.length < (nextBytes s.accepted (released s.log).length visible bytes).length := by
        omega
      have hpos : (released s.log).length + dst.length < s.accepted.length := by
        rw [length_nextBytes hbound] at hnext
        omega
      have hbyte : s.ring.buffer (view.index dst.length) =
          (nextBytes s.accepted (released s.log).length visible bytes)[dst.length] := by
        rw [hindex _ hmore, hs.holds _ (by omega) hpos, getElem_nextBytes hnext hpos]
      rw [hbyte]
      exact prefix_append_getElem hdst hnext
    · have hall : dst = nextBytes s.accepted (released s.log).length visible bytes :=
        hdst.eq_of_length_le (by omega)
      cases kind with
      | read =>
        rw [Option.some.injEq] at hstep
        subst hstep
        exact { hs with
          consumer := ⟨⟨hstart, hbound, hlog⟩, hall, _, hs.writePos, hbound, le_refl _⟩ }
      | peek =>
        rw [Option.some.injEq] at hstep
        subst hstep
        exact { hs with log := ⟨hstart, hbound, hall, hlog, hs.log⟩, consumer := trivial }
  | committing bytes visible dst w =>
    rw [hpc] at hconsumer
    obtain ⟨hcall, hdst, writes, hw, hseen, hwrites⟩ := hconsumer
    obtain ⟨hstart, hbound, hlog⟩ := hcall
    simp only [consumerStep, hpc, Option.some.injEq] at hstep
    subst hstep
    have hused : usedBytes (writes % word64) ((released s.log).length % word64) =
        writes - (released s.log).length :=
      hs.geometry.usedBytes (by omega) (by omega)
    rw [← hs.readPos, ← hw] at hused
    have hlength : dst.length ≤ visible - (released s.log).length := by
      rw [hdst, length_nextBytes hbound]
      exact min_le_right _ _
    refine { hs with consumer := ⟨⟨hstart, hbound, hlog⟩, hdst, ?_⟩, queried := ?_ }
    · rw [readCommit_eq, hused]
      omega
    · intro value hvalue
      rcases List.mem_cons.mp hvalue with rfl | hvalue
      · dsimp only
        omega
      · exact hs.queried value hvalue
  | adding bytes visible dst commit =>
    rw [hpc] at hconsumer
    obtain ⟨⟨hstart, hbound, hlog⟩, hdst, rfl⟩ := hconsumer
    simp only [consumerStep, hpc, Option.some.injEq] at hstep
    subst hstep
    have hlength : dst.length ≤ visible - (released s.log).length := by
      rw [hdst, length_nextBytes hbound]
      exact min_le_right _ _
    have hreleased : (released (⟨.read, bytes, dst, visible⟩ :: s.log)).length =
        (released s.log).length + dst.length := List.length_append
    refine { hs with
      readPos := ?_, released_le := ?_, fits := ?_, holds := fun p hreads hp ↦ ?_, log := ?_,
      producer := ?_, consumer := trivial }
    · dsimp only
      rw [hs.readPos, addMod_mod, hreleased]
    · dsimp only
      omega
    · dsimp only
      omega
    · exact hs.holds p (by dsimp only at hreads; omega) hp
    · exact ⟨hstart, hbound, hdst, hlog, hs.log⟩
    · exact hs.producer.mono rfl rfl (by dsimp only; omega)
  | querying query w =>
    rw [hpc] at hconsumer
    obtain ⟨writes, hw, hstart, hwrites⟩ := hconsumer
    simp only [consumerStep, hpc, Option.some.injEq] at hstep
    subst hstep
    have hvalue := hs.geometry.queryValue_le hstart (by omega) query
    rw [← hs.readPos, ← hw] at hvalue
    refine { hs with consumer := trivial, queried := ?_ }
    intro value hmem
    rcases List.mem_cons.mp hmem with rfl | hmem
    · exact hvalue
    · exact hs.queried value hmem

/-- One step of either thread. -/
theorem step_sound {s next : RingState} {action : RingAction} (hs : s.Sound)
    (hstep : spscStep s action = some next) : next.Sound := by
  cases action with
  | write src =>
    cases hpc : s.producer with
    | idle =>
      simp only [spscStep, hpc, Option.some.injEq] at hstep
      subst hstep
      split_ifs
      · exact hs
      · exact { hs with producer := hs.writePos }
    | _ => simp [spscStep, hpc] at hstep
  | producerQuery query =>
    cases hpc : s.producer with
    | idle =>
      simp only [spscStep, hpc, Option.some.injEq] at hstep
      subst hstep
      exact { hs with producer := hs.writePos }
    | _ => simp [spscStep, hpc] at hstep
  | producer => exact producerStep_sound hs hstep
  | read kind bytes =>
    cases hpc : s.consumer with
    | idle =>
      simp only [spscStep, hpc, Option.some.injEq] at hstep
      subst hstep
      split_ifs with hzero
      · exact hs.returnEmpty kind (by simp [hzero, nextBytes])
      · exact { hs with consumer := hs.readPos }
    | _ => simp [spscStep, hpc] at hstep
  | consumerQuery query =>
    cases hpc : s.consumer with
    | idle =>
      simp only [spscStep, hpc, Option.some.injEq] at hstep
      subst hstep
      exact { hs with consumer := ⟨_, hs.writePos, hs.released_le, le_refl _⟩ }
    | _ => simp [spscStep, hpc] at hstep
  | consumer => exact consumerStep_sound hs hstep

/-- A new ring meets the invariant. Assumes: the constructor's argument is a 64-bit value. -/
theorem initial_sound {capacityBytes : ℕ} (hcapacity : capacityBytes < 2 ^ 64)
    (memory : ℕ → UInt8) : (RingState.initial capacityBytes memory).Sound where
  geometry := ringGeometry_create hcapacity memory
  writePos := rfl
  readPos := rfl
  released_le := le_refl _
  fits := Nat.zero_le _
  holds := fun _ _ hp ↦ absurd hp (Nat.not_lt_zero _)
  log := trivial
  producer := trivial
  consumer := trivial
  queried := by simp [RingState.initial]

/-! ### What the two threads observe -/

/-- Each entry of a sound log, against the entries before it. -/
theorem LogSound.entry {accepted : List UInt8} {later earlier : List ReadReturn}
    {entry : ReadReturn} (hlog : LogSound accepted (later ++ entry :: earlier)) :
    LogSound accepted (entry :: earlier) := by
  induction later with
  | nil => exact hlog
  | cons newest rest ih => exact ih hlog.2.2.2.2

/-- The released bytes are a prefix of the accepted ones. -/
theorem LogSound.released_front {accepted : List UInt8} {log : List ReadReturn}
    (hlog : LogSound accepted log) : released log <+: accepted := by
  induction log with
  | nil => exact List.nil_prefix
  | cons entry earlier ih =>
    obtain ⟨hstart, hvisible, hbytes, -, hearlier⟩ := hlog
    have hbefore := ih hearlier
    unfold released
    cases entry.kind with
    | read =>
      have hfront : released earlier = accepted.take (released earlier).length :=
        List.prefix_iff_eq_take.mp hbefore
      have htaken : (accepted.take entry.visible).take (released earlier).length =
          released earlier := by
        rw [List.take_take, min_eq_left hstart, ← hfront]
      have hsplit : released earlier ++ (accepted.take entry.visible).drop
          (released earlier).length = accepted.take entry.visible := by
        conv_lhs => rw [← htaken, List.length_take, List.length_take]
        rw [min_eq_left (by omega), List.take_append_drop]
      dsimp only
      rw [hbytes, nextBytes]
      refine List.IsPrefix.trans ?_ (List.take_prefix entry.visible accepted)
      conv_rhs => rw [← hsplit]
      exact List.prefix_append_right_inj _ |>.mpr (List.take_prefix _ _)
    | peek => exact hbefore

/-- Finished peeks do not release anything. -/
theorem released_peeks {between earlier : List ReadReturn}
    (hbetween : ∀ entry ∈ between, entry.kind = .peek) :
    released (between ++ earlier) = released earlier := by
  induction between with
  | nil => rfl
  | cons entry rest ih =>
    have hpeek := hbetween entry (by simp)
    rw [List.cons_append, released]
    simp only [hpeek]
    exact ih fun other hother ↦ hbetween other (by simp [hother])

/-- Two calls from one release position: what the one that saw less was given, cut to the other's
count, is a prefix of what the other was given. -/
theorem nextBytes_comparable (accepted : List UInt8) {start visible visible' count count' : ℕ}
    (hvisible : visible ≤ visible') :
    (nextBytes accepted start visible count).take count' <+:
      nextBytes accepted start visible' count' := by
  have hseen : accepted.take visible = (accepted.take visible').take visible := by
    rw [List.take_take, min_eq_left hvisible]
  unfold nextBytes
  rw [hseen, List.drop_take, List.take_take, List.take_take]
  exact List.take_prefix_take_left (by omega)

/-- The ring between one producer and one consumer, in every state that any interleaving of their
steps reaches: the bytes returned by `read` are a prefix of the bytes accepted by `write`; every
`read` and `peek` returned the oldest unreleased bytes that it saw; a `peek` returned what the next
`read` returns, up to the smaller count, and exactly that when nothing was accepted in between; no
byte copy of the producer hits a cell with an unreleased byte; and no `size` or `free_space`
exceeds the capacity. -/
theorem spsc_correct (capacityBytes : ℕ) (hcapacity : capacityBytes < 2 ^ 64)
    (memory : ℕ → UInt8) {s : RingState}
    (hreach : spscSystem.Reaches TransitionSystem.unguarded
      (RingState.initial capacityBytes memory) s) :
    released s.log <+: s.accepted ∧
      (∀ later entry earlier, s.log = later ++ entry :: earlier →
        entry.bytes =
          nextBytes s.accepted (released earlier).length entry.visible entry.count) ∧
      (∀ later next between peeked earlier,
        s.log = later ++ next :: (between ++ peeked :: earlier) →
        next.kind = .read → (∀ entry ∈ between, entry.kind = .peek) → peeked.kind = .peek →
          peeked.bytes.take next.count <+: next.bytes ∧
            (next.visible = peeked.visible → next.count = peeked.count →
              next.bytes = peeked.bytes)) ∧
      (∀ p, (released s.log).length ≤ p → (hp : p < s.accepted.length) →
        s.ring.buffer (p % s.ring.capacity) = s.accepted[p] ∧
          ∀ src view k, s.producer = .copying src view k → k < view.size →
            view.index k ≠ p % s.ring.capacity) ∧
      ∀ value ∈ s.queried, value ≤ s.ring.capacity := by
  have hs : s.Sound := hreach.invariant (initial_sound hcapacity memory)
    fun _ _ _ hsound _ hstep ↦ step_sound hsound hstep
  refine ⟨hs.log.released_front, ?_, ?_, ?_, hs.queried⟩
  · intro later entry earlier hlog
    exact (hlog ▸ hs.log).entry.2.2.1
  · intro later next between peeked earlier hlog _ hbetween hpeeked
    have hnext : LogSound s.accepted (next :: (between ++ peeked :: earlier)) :=
      (hlog ▸ hs.log).entry
    obtain ⟨-, -, hnextBytes, horder, hrest⟩ := hnext
    obtain ⟨-, -, hpeekBytes, -, -⟩ := hrest.entry
    have hstart : released (between ++ peeked :: earlier) = released earlier := by
      rw [released_peeks hbetween, released]
      simp only [hpeeked]
    rw [hstart] at hnextBytes
    rw [hnextBytes, hpeekBytes]
    refine ⟨nextBytes_comparable _ (horder peeked (by simp)), fun hvisible hcount ↦ ?_⟩
    rw [hvisible, hcount]
  · intro p hreads hp
    refine ⟨hs.holds p hreads hp, fun src view k hpc hk ↦ ?_⟩
    have hproducer := hs.producer
    rw [hpc] at hproducer
    obtain ⟨-, hroom, -, hindex, -⟩ := hproducer
    rw [hindex k hk]
    exact (mod_ne_mod (by omega) (by omega)).symm

/-- The theorem at a run on a two-byte ring in which the consumer's `peek` overlaps the producer's
second `write`: both the `peek` and the `read` after it return the first byte. -/
theorem spsc_correct_overlapping : ∃ s : RingState,
    s.log.map (·.bytes) = [[7], [7]] ∧ s.accepted = [7, 8] ∧ released s.log <+: s.accepted := by
  obtain ⟨s, hreach, htest⟩ := TransitionSystem.Reaches.exists_of_schedule spscSystem
    (.initial 2 fun _ ↦ 0)
    [.write [7], .producer, .producer, .producer, .producer, .producer,
      .read .peek 1, .write [8], .consumer, .producer, .consumer, .producer, .consumer, .producer,
      .producer, .producer, .read .read 1, .consumer, .consumer, .consumer, .consumer, .consumer]
    (fun s ↦ s.log.map (·.bytes) == [[7], [7]] && s.accepted == [7, 8]) (by decide)
  rw [Bool.and_eq_true, beq_iff_eq, beq_iff_eq] at htest
  exact ⟨s, htest.1, htest.2, (spsc_correct 2 (by decide) (fun _ ↦ 0) hreach).1⟩

end GameEngine.Multimedia
