import GameEngine.Multimedia.AudioPipeline
import GameEngine.Multimedia.RingConcurrency

/-!
# The audio pipeline between two threads

One thread calls `write_s16`, another calls `read_s16`, and both may call `size` and `frames`. The
ring below moves single bytes, and a call moves as many of them as it finds room for or finds stored
when it loads the position of the other thread, which may be old. `RingState.InUnits` says that the
bytes of the ring are moved in whole units, such as samples or frames of several channels: every
position that a call loads is a multiple of the unit, so that every view is.

`audio_concurrent` follows: no interleaving tears a sample or a frame.
-/

set_option autoImplicit false
set_option relaxedAutoImplicit false

namespace GameEngine.Multimedia

open GameEngine.Library GameEngine.Library.MachineWord

/-! ### Multiples of a unit -/

section Units

variable {unit : ℕ}

theorem dvd_subMod (hword : unit ∣ word64) {first second : ℕ} (hfirst : unit ∣ first)
    (hsecond : unit ∣ second) : unit ∣ subMod word64 first second := by
  have hmod : unit ∣ second % word64 := (Nat.dvd_mod_iff hword).mpr hsecond
  exact (Nat.dvd_mod_iff hword).mpr (Nat.dvd_add (Nat.dvd_sub hword hmod) hfirst)

theorem dvd_usedBytes (hword : unit ∣ word64) {w r : ℕ} (hw : unit ∣ w) (hr : unit ∣ r) :
    unit ∣ usedBytes w r := dvd_subMod hword hw hr

theorem dvd_freeBytes (hword : unit ∣ word64) {capacity w r : ℕ} (hcapacity : unit ∣ capacity)
    (hw : unit ∣ w) (hr : unit ∣ r) : unit ∣ freeBytes capacity w r :=
  dvd_subMod hword hcapacity (dvd_usedBytes hword hw hr)

theorem dvd_queryValue (hword : unit ∣ word64) {capacity w r : ℕ} (hcapacity : unit ∣ capacity)
    (hw : unit ∣ w) (hr : unit ∣ r) (query : RingQuery) :
    unit ∣ queryValue capacity w r query := by
  cases query with
  | size => exact dvd_usedBytes hword hw hr
  | freeSpace => exact dvd_freeBytes hword hcapacity hw hr

theorem dvd_min {first second : ℕ} (hfirst : unit ∣ first) (hsecond : unit ∣ second) :
    unit ∣ min first second := by
  rcases Nat.le_total first second with hle | hle
  · rwa [min_eq_left hle]
  · rwa [min_eq_right hle]

/-- The two segments have all bytes together, wherever the first one ends. -/
theorem size_segments (capacity mask pos bytes : ℕ) :
    (segments capacity mask pos bytes).size = bytes := by
  unfold segments RingView.size
  dsimp only
  split_ifs <;> dsimp only <;> omega

/-- The number of bytes of a view is clamped to a multiple. -/
theorem dvd_size_clampedView {capacity mask pos limit bytes : ℕ} (hlimit : unit ∣ limit)
    (hbytes : unit ∣ bytes) : unit ∣ (clampedView capacity mask pos limit bytes).size := by
  have hempty : unit ∣ RingView.empty.size := Nat.dvd_zero unit
  unfold clampedView
  dsimp only
  split_ifs
  · exact hempty
  · exact hempty
  · rwa [size_segments]
  · rwa [size_segments]

/-- What the producer has loaded is a multiple. -/
def ProducerInUnits (unit : ℕ) : ProducerPc → Prop
  | .idle => True
  | .loaded src w => unit ∣ src.length ∧ unit ∣ w
  | .copying _ view _ => unit ∣ view.size
  | .committing _ n w => unit ∣ n ∧ unit ∣ w
  | .adding _ n commit => unit ∣ n ∧ unit ∣ commit
  | .querying _ w => unit ∣ w

/-- What the consumer has loaded is a multiple. -/
def ConsumerInUnits (unit : ℕ) : ConsumerPc → Prop
  | .idle => True
  | .loaded _ bytes r => unit ∣ bytes ∧ unit ∣ r
  | .copying _ _ _ view dst => unit ∣ view.size ∧ dst.length ≤ view.size
  | .committing _ _ dst w => unit ∣ dst.length ∧ unit ∣ w
  | .adding _ _ dst commit => unit ∣ dst.length ∧ unit ∣ commit
  | .querying _ w => unit ∣ w

/-- The bytes of a ring are moved in whole units. -/
structure RingState.InUnits (unit : ℕ) (s : RingState) : Prop where
  capacity : unit ∣ s.ring.capacity
  writePos : unit ∣ s.ring.writePos
  readPos : unit ∣ s.ring.readPos
  producer : ProducerInUnits unit s.producer
  consumer : ConsumerInUnits unit s.consumer
  queried : ∀ value ∈ s.queried, unit ∣ value

/-- The calls that ask for whole units. -/
def WholeUnits (unit : ℕ) (_ : RingState) : RingAction → Prop
  | .write src => unit ∣ src.length
  | .read _ bytes => unit ∣ bytes
  | _ => True

/-- A step of the producer keeps whole units. -/
theorem producerStep_inUnits (hword : unit ∣ word64) {s next : RingState} (hs : s.InUnits unit)
    (hstep : producerStep s = some next) : next.InUnits unit := by
  have hproducer := hs.producer
  unfold producerStep at hstep
  cases hpc : s.producer with
  | idle => simp [hpc] at hstep
  | loaded src w =>
    rw [hpc] at hproducer
    obtain ⟨hsrc, hw⟩ := hproducer
    simp only [hpc, Option.some.injEq] at hstep
    subst hstep
    refine { hs with producer := ?_ }
    dsimp only
    split_ifs
    · trivial
    · exact dvd_size_clampedView (dvd_freeBytes hword hs.capacity hw hs.readPos) hsrc
  | copying src view k =>
    rw [hpc] at hproducer
    simp only [hpc] at hstep
    split_ifs at hstep <;> obtain rfl := Option.some.inj hstep
    · exact { hs with producer := hproducer }
    · exact { hs with producer := ⟨hproducer, hs.writePos⟩ }
  | committing src n w =>
    rw [hpc] at hproducer
    obtain ⟨hn, hw⟩ := hproducer
    simp only [hpc, Option.some.injEq] at hstep
    subst hstep
    have hfree := dvd_freeBytes hword hs.capacity hw hs.readPos
    refine { hs with producer := ⟨hn, ?_⟩, queried := ?_ }
    · rw [writeCommit_eq]
      exact dvd_min hn hfree
    · intro value hvalue
      rcases List.mem_cons.mp hvalue with rfl | hvalue
      · exact dvd_usedBytes hword hw hs.readPos
      · rcases List.mem_cons.mp hvalue with rfl | hvalue
        · exact hfree
        · exact hs.queried value hvalue
  | adding src n commit =>
    rw [hpc] at hproducer
    simp only [hpc, Option.some.injEq] at hstep
    subst hstep
    exact { hs with
      writePos := (Nat.dvd_mod_iff hword).mpr (Nat.dvd_add hs.writePos hproducer.2)
      producer := trivial }
  | querying query w =>
    rw [hpc] at hproducer
    simp only [hpc, Option.some.injEq] at hstep
    subst hstep
    refine { hs with producer := trivial, queried := fun value hvalue ↦ ?_ }
    rcases List.mem_cons.mp hvalue with rfl | hvalue
    · exact dvd_queryValue hword hs.capacity hproducer hs.readPos query
    · exact hs.queried value hvalue

/-- A step of the consumer keeps whole units. -/
theorem consumerStep_inUnits (hword : unit ∣ word64) {s next : RingState} (hs : s.InUnits unit)
    (hstep : consumerStep s = some next) : next.InUnits unit := by
  have hconsumer := hs.consumer
  unfold consumerStep at hstep
  cases hpc : s.consumer with
  | idle => simp [hpc] at hstep
  | loaded kind bytes r =>
    rw [hpc] at hconsumer
    obtain ⟨hbytes, hr⟩ := hconsumer
    simp only [hpc] at hstep
    split_ifs at hstep <;> obtain rfl := Option.some.inj hstep
    · exact { hs with consumer := trivial }
    · exact { hs with
        consumer := ⟨dvd_size_clampedView (dvd_usedBytes hword hs.writePos hr) hbytes,
          Nat.zero_le _⟩ }
  | copying kind bytes visible view dst =>
    rw [hpc] at hconsumer
    obtain ⟨hview, hle⟩ := hconsumer
    simp only [hpc] at hstep
    split_ifs at hstep with hmore
    · obtain rfl := Option.some.inj hstep
      refine { hs with consumer := ⟨hview, ?_⟩ }
      rw [List.length_append, List.length_singleton]
      exact hmore
    · have hall : dst.length = view.size := by omega
      cases kind <;> obtain rfl := Option.some.inj hstep
      · exact { hs with consumer := ⟨hall ▸ hview, hs.writePos⟩ }
      · exact { hs with consumer := trivial }
  | committing bytes visible dst w =>
    rw [hpc] at hconsumer
    obtain ⟨hdst, hw⟩ := hconsumer
    simp only [hpc, Option.some.injEq] at hstep
    subst hstep
    have hused := dvd_usedBytes hword hw hs.readPos
    refine { hs with consumer := ⟨hdst, ?_⟩, queried := fun value hvalue ↦ ?_ }
    · rw [readCommit_eq]
      exact dvd_min hdst hused
    · rcases List.mem_cons.mp hvalue with rfl | hvalue
      · exact hused
      · exact hs.queried value hvalue
  | adding bytes visible dst commit =>
    rw [hpc] at hconsumer
    simp only [hpc, Option.some.injEq] at hstep
    subst hstep
    exact { hs with
      readPos := (Nat.dvd_mod_iff hword).mpr (Nat.dvd_add hs.readPos hconsumer.2)
      consumer := trivial }
  | querying query w =>
    rw [hpc] at hconsumer
    simp only [hpc, Option.some.injEq] at hstep
    subst hstep
    refine { hs with consumer := trivial, queried := fun value hvalue ↦ ?_ }
    rcases List.mem_cons.mp hvalue with rfl | hvalue
    · exact dvd_queryValue hword hs.capacity hconsumer hs.readPos query
    · exact hs.queried value hvalue

/-- Every step keeps whole units, if the calls ask for whole units. -/
theorem step_inUnits (hword : unit ∣ word64) {s next : RingState} {action : RingAction}
    (hs : s.InUnits unit) (hwhole : WholeUnits unit s action)
    (hstep : spscStep s action = some next) : next.InUnits unit := by
  cases action with
  | write src =>
    cases hpc : s.producer with
    | idle =>
      simp only [spscStep, hpc, Option.some.injEq] at hstep
      subst hstep
      split_ifs
      · exact hs
      · exact { hs with producer := ⟨hwhole, hs.writePos⟩ }
    | _ => simp [spscStep, hpc] at hstep
  | producerQuery query =>
    cases hpc : s.producer with
    | idle =>
      simp only [spscStep, hpc, Option.some.injEq] at hstep
      subst hstep
      exact { hs with producer := hs.writePos }
    | _ => simp [spscStep, hpc] at hstep
  | producer => exact producerStep_inUnits hword hs hstep
  | read kind bytes =>
    cases hpc : s.consumer with
    | idle =>
      simp only [spscStep, hpc, Option.some.injEq] at hstep
      subst hstep
      split_ifs
      · exact { hs with consumer := trivial }
      · exact { hs with consumer := ⟨hwhole, hs.readPos⟩ }
    | _ => simp [spscStep, hpc] at hstep
  | consumerQuery query =>
    cases hpc : s.consumer with
    | idle =>
      simp only [spscStep, hpc, Option.some.injEq] at hstep
      subst hstep
      exact { hs with consumer := hs.writePos }
    | _ => simp [spscStep, hpc] at hstep
  | consumer => exact consumerStep_inUnits hword hs hstep

end Units

/-! ### The two threads -/

/-- The pipeline between two threads: the ring, the samples of a `write_s16` in progress, whether a
`read_s16` is in progress, the samples that `write_s16` has reported as written, the number of those
that `read_s16` has reported as read, and the bytes of the latter. -/
structure AudioThreads where
  ring : RingState
  writing : Option (List Int16)
  reading : Bool
  reported : List Int16
  taken : ℕ
  delivered : List UInt8

/-- A thread starts a call or takes the next step of the call it is in. The number of frames is
computed from the size. -/
inductive AudioAction
  | writeS16 (samples : List Int16)
  | writerSize
  | writer
  | readS16 (count : ℕ)
  | readerSize
  | reader

namespace AudioThreads

/-- A pipeline that has just been made. -/
def start (capacityBytes : ℕ) (memory : ℕ → UInt8) : AudioThreads where
  ring := .initial capacityBytes memory
  writing := none
  reading := false
  reported := []
  taken := 0
  delivered := []

/-- What the `write` of the ring returns when the next step of the producer ends it. -/
def written (s : RingState) : ℕ :=
  match s.producer with
  | .adding _ n _ => n
  | _ => 0

/-- What the `read` of the ring has copied when the next step of the consumer ends it. -/
def copied (s : RingState) : List UInt8 :=
  match s.consumer with
  | .adding _ _ dst _ => dst
  | _ => []

/-- The writer after a step of the ring. When the `write` has ended, `write_s16` returns half of
what it returns. -/
def endWrite (s : AudioThreads) (ring : RingState) : AudioThreads :=
  match ring.producer, s.writing with
  | .idle, some samples =>
    { s with
      ring := ring
      writing := none
      reported := s.reported ++ samples.take (written s.ring / 2) }
  | _, _ => { s with ring := ring }

/-- The reader after a step of the ring. When the `read` has ended, `read_s16` returns half of what
it returns. -/
def endRead (s : AudioThreads) (ring : RingState) : AudioThreads :=
  match ring.consumer, s.reading with
  | .idle, true =>
    let count := (copied s.ring).length / 2
    { s with
      ring := ring
      reading := false
      taken := s.taken + count
      delivered := s.delivered ++ (copied s.ring).take (count * 2) }
  | _, _ => { s with ring := ring }

/-- One step. -/
def step (s : AudioThreads) : AudioAction → Option AudioThreads
  | .writeS16 samples =>
    if s.writing.isSome then none
    else if samples.length = 0 then some s
    else
      let src := (sampleBytes samples).take (samples.length * 2 % word64)
      (spscStep s.ring (.write src)).map (endWrite { s with writing := some samples })
  | .writerSize =>
    (spscStep s.ring (.producerQuery .size)).map fun ring ↦ { s with ring := ring }
  | .writer => (spscStep s.ring .producer).map (endWrite s)
  | .readS16 count =>
    if s.reading then none
    else if count = 0 then some s
    else (spscStep s.ring (.read .read (count * 2 % word64))).map
        (endRead { s with reading := true })
  | .readerSize =>
    (spscStep s.ring (.consumerQuery .size)).map fun ring ↦ { s with ring := ring }
  | .reader => (spscStep s.ring .consumer).map (endRead s)

/-- The two threads as a transition system. -/
def system : TransitionSystem AudioThreads AudioAction := ⟨step⟩

/-- `frames`, from the size that it finds. -/
def frames (channels bytesPerSample size : ℕ) : ℕ :=
  let frameBytes := channels * bytesPerSample
  if frameBytes = 0 then 0 else size / frameBytes

/-- The calls that ask for whole frames. With one channel these are all calls. -/
def WholeFrames (channels : ℕ) (_ : AudioThreads) : AudioAction → Prop
  | .writeS16 samples => channels ∣ samples.length
  | .readS16 count => channels ∣ count
  | _ => True

/-! ### The invariant -/

/-- The producer writes the first bytes of the samples of a `write_s16`. -/
def WritesSamples : ProducerPc → Option (List Int16) → Prop
  | .loaded src _, some samples => src <+: sampleBytes samples
  | .copying src _ _, some samples => src <+: sampleBytes samples
  | .committing src _ _, some samples => src <+: sampleBytes samples
  | .adding src _ _, some samples => src <+: sampleBytes samples
  | .idle, none => True
  | .querying _ _, none => True
  | _, _ => False

/-- The consumer reads for a `read_s16`. -/
def ReadsSamples : ConsumerPc → Bool → Prop
  | .loaded kind _ _, true => kind = .read
  | .copying kind _ _ _ _, true => kind = .read
  | .committing _ _ _ _, true => True
  | .adding _ _ _ _, true => True
  | .idle, false => True
  | .querying _ _, false => True
  | _, _ => False

/-- The ring is sound and moves whole units, which are at least samples; it has accepted the samples
reported as written and released those reported as read. -/
structure Sound (unit : ℕ) (s : AudioThreads) : Prop where
  ring : s.ring.Sound
  units : s.ring.InUnits unit
  accepted : s.ring.accepted = sampleBytes s.reported
  released : s.delivered = released s.ring.log
  taken : s.taken * 2 = s.delivered.length
  reported_dvd : unit ∣ s.reported.length * 2
  taken_dvd : unit ∣ s.taken * 2
  writing : WritesSamples s.ring.producer s.writing
  reading : ReadsSamples s.ring.consumer s.reading

variable {unit : ℕ} {s : AudioThreads}

theorem endWrite_inCall {ring : RingState} (hcall : ring.producer ≠ .idle ∨ s.writing = none) :
    s.endWrite ring = { s with ring := ring } := by
  unfold endWrite
  split
  · next hidle hwriting => rcases hcall with hbusy | hnone <;> simp_all
  · rfl

theorem endWrite_idle {ring : RingState} {samples : List Int16} (hidle : ring.producer = .idle)
    (hwriting : s.writing = some samples) : s.endWrite ring =
      { s with
        ring := ring
        writing := none
        reported := s.reported ++ samples.take (written s.ring / 2) } := by
  unfold endWrite
  rw [hidle, hwriting]

theorem endRead_inCall {ring : RingState} (hcall : ring.consumer ≠ .idle ∨ s.reading = false) :
    s.endRead ring = { s with ring := ring } := by
  unfold endRead
  split
  · next hidle hreading => rcases hcall with hbusy | hnone <;> simp_all
  · rfl

theorem endRead_idle {ring : RingState} (hidle : ring.consumer = .idle)
    (hreading : s.reading = true) :
    s.endRead ring =
      { s with
        ring := ring
        reading := false
        taken := s.taken + (copied s.ring).length / 2
        delivered := s.delivered ++ (copied s.ring).take ((copied s.ring).length / 2 * 2) } := by
  unfold endRead
  rw [hidle, hreading]

/-- A step within a call. -/
theorem Sound.inCall (hs : s.Sound unit) {ring : RingState} (hring : ring.Sound)
    (hunits : ring.InUnits unit) (haccepted : ring.accepted = s.ring.accepted)
    (hlog : Multimedia.released ring.log = Multimedia.released s.ring.log)
    (hwriting : WritesSamples ring.producer s.writing)
    (hreading : ReadsSamples ring.consumer s.reading) : ({ s with ring := ring }).Sound unit :=
  { hs with
    ring := hring
    units := hunits
    accepted := haccepted.trans hs.accepted
    released := hs.released.trans hlog.symm
    writing := hwriting
    reading := hreading }

/-- The end of a `write_s16` whose `write` has accepted `n` bytes. -/
theorem Sound.endWrite (heven : 2 ∣ unit) (hs : s.Sound unit) {ring : RingState}
    (hring : ring.Sound)
    (hunits : ring.InUnits unit) (hidle : ring.producer = .idle) {samples : List Int16}
    (hwriting : s.writing = some samples) {src : List UInt8} (hsrc : src <+: sampleBytes samples)
    {n : ℕ} (hn : n ≤ src.length) (hdvd : unit ∣ n) (hwritten : written s.ring = n)
    (haccepted : ring.accepted = s.ring.accepted ++ src.take n) (hlog : ring.log = s.ring.log)
    (hconsumer : ring.consumer = s.ring.consumer) : (s.endWrite ring).Sound unit := by
  obtain ⟨count, hcount⟩ := heven.trans hdvd
  have hhalf : n / 2 = count := by omega
  have htaken : src.take n = sampleBytes (samples.take count) := by
    rw [← take_sampleBytes, Nat.mul_comm, ← hcount]
    obtain ⟨rest, hrest⟩ := hsrc
    rw [← hrest, List.take_append_of_le_length hn]
  have hlength : (samples.take count).length * 2 = n := by
    have hboth := congrArg List.length htaken
    rw [length_sampleBytes, List.length_take, min_eq_left hn] at hboth
    exact hboth.symm
  rw [endWrite_idle hidle hwriting, hwritten, hhalf]
  exact { hs with
    ring := hring
    units := hunits
    accepted := by
      rw [haccepted, htaken, hs.accepted]
      exact List.flatMap_append.symm
    released := hs.released.trans (by rw [hlog])
    reported_dvd := by
      rw [List.length_append, Nat.add_mul, hlength]
      exact Nat.dvd_add hs.reported_dvd hdvd
    writing := by rw [hidle]; trivial
    reading := by rw [hconsumer]; exact hs.reading }

/-- The end of a `read_s16` whose `read` has copied some bytes. -/
theorem Sound.endRead (heven : 2 ∣ unit) (hs : s.Sound unit) {ring : RingState} (hring : ring.Sound)
    (hunits : ring.InUnits unit) (hidle : ring.consumer = .idle) (hreading : s.reading = true)
    {dst : List UInt8} (hdvd : unit ∣ dst.length) (hcopied : copied s.ring = dst)
    (hlog : Multimedia.released ring.log = Multimedia.released s.ring.log ++ dst)
    (haccepted : ring.accepted = s.ring.accepted) (hproducer : ring.producer = s.ring.producer) :
    (s.endRead ring).Sound unit := by
  have hhalf : dst.length / 2 * 2 = dst.length := Nat.div_mul_cancel (heven.trans hdvd)
  rw [endRead_idle hidle hreading, hcopied, hhalf, List.take_length]
  exact { hs with
    ring := hring
    units := hunits
    accepted := haccepted.trans hs.accepted
    released := by rw [hlog, ← hs.released]
    taken := by rw [Nat.add_mul, hhalf, List.length_append, hs.taken]
    taken_dvd := by
      rw [Nat.add_mul, hhalf]
      exact Nat.dvd_add hs.taken_dvd hdvd
    writing := by rw [hproducer]; exact hs.writing
    reading := by rw [hidle]; trivial }

/-- The samples of the call that the producer is in. -/
theorem Sound.exists_samples (hs : s.Sound unit) (hbusy : s.ring.producer ≠ .idle)
    (hquery : ∀ query w, s.ring.producer ≠ .querying query w) :
    ∃ samples, s.writing = some samples := by
  have hwriting := hs.writing
  cases hsamples : s.writing with
  | some samples => exact ⟨samples, rfl⟩
  | none =>
    rw [hsamples] at hwriting
    cases hpc : s.ring.producer with
    | idle => exact absurd hpc hbusy
    | querying query w => exact absurd hpc (hquery query w)
    | loaded _ _ | copying _ _ _ | committing _ _ _ | adding _ _ _ =>
      rw [hpc] at hwriting
      exact hwriting.elim

/-- A step of the producer. -/
theorem Sound.writer (hword : unit ∣ word64) (heven : 2 ∣ unit) (hs : s.Sound unit)
    {ring : RingState} (hstep : producerStep s.ring = some ring) :
    (s.endWrite ring).Sound unit := by
  have hring : ring.Sound := producerStep_sound hs.ring hstep
  have hunits : ring.InUnits unit := producerStep_inUnits hword hs.units hstep
  have hproducer := hs.ring.producer
  have hmultiple := hs.units.producer
  have hwriting := hs.writing
  unfold producerStep at hstep
  cases hpc : s.ring.producer with
  | idle => simp [hpc] at hstep
  | loaded src w =>
    obtain ⟨samples, hsamples⟩ := hs.exists_samples (by simp [hpc]) (by simp [hpc])
    rw [hpc, hsamples] at hwriting
    simp only [hpc, Option.some.injEq] at hstep
    generalize writeView s.ring.ring.capacity s.ring.ring.mask w s.ring.ring.readPos src.length =
      view at hstep
    by_cases hempty : view.size = 0
    · rw [if_pos hempty] at hstep
      subst hstep
      refine hs.endWrite heven hring hunits rfl hsamples hwriting (Nat.zero_le _)
        (Nat.dvd_zero unit) (by rw [written, hpc]) ?_ rfl rfl
      rw [List.take_zero, List.append_nil]
    · rw [if_neg hempty] at hstep
      subst hstep
      rw [endWrite_inCall (.inl (by simp))]
      exact hs.inCall hring hunits rfl rfl (by rw [hsamples]; exact hwriting) hs.reading
  | copying src view k =>
    obtain ⟨samples, hsamples⟩ := hs.exists_samples (by simp [hpc]) (by simp [hpc])
    rw [hpc, hsamples] at hwriting
    simp only [hpc] at hstep
    split_ifs at hstep <;> obtain rfl := Option.some.inj hstep <;>
      rw [endWrite_inCall (.inl (by simp))] <;>
      exact hs.inCall hring hunits rfl rfl (by rw [hsamples]; exact hwriting) hs.reading
  | committing src n w =>
    obtain ⟨samples, hsamples⟩ := hs.exists_samples (by simp [hpc]) (by simp [hpc])
    rw [hpc, hsamples] at hwriting
    simp only [hpc, Option.some.injEq] at hstep
    subst hstep
    rw [endWrite_inCall (.inl (by simp))]
    exact hs.inCall hring hunits rfl rfl (by rw [hsamples]; exact hwriting) hs.reading
  | adding src n commit =>
    obtain ⟨samples, hsamples⟩ := hs.exists_samples (by simp [hpc]) (by simp [hpc])
    rw [hpc] at hproducer hmultiple
    rw [hpc, hsamples] at hwriting
    simp only [hpc, Option.some.injEq] at hstep
    subst hstep
    exact hs.endWrite heven hring hunits rfl hsamples hwriting hproducer.2.1 hmultiple.1
      (by rw [written, hpc]) rfl rfl rfl
  | querying query w =>
    have hnone : s.writing = none := by
      rw [hpc] at hwriting
      cases hsamples : s.writing with
      | none => rfl
      | some samples => rw [hsamples] at hwriting; exact hwriting.elim
    simp only [hpc, Option.some.injEq] at hstep
    subst hstep
    rw [endWrite_inCall (.inr hnone)]
    exact hs.inCall hring hunits rfl rfl (by rw [hnone]; trivial) hs.reading

/-- The consumer is in a call of `read_s16`. -/
theorem Sound.reading_eq (hs : s.Sound unit) (hbusy : s.ring.consumer ≠ .idle)
    (hquery : ∀ query w, s.ring.consumer ≠ .querying query w) : s.reading = true := by
  have hreading := hs.reading
  cases hcall : s.reading with
  | true => rfl
  | false =>
    rw [hcall] at hreading
    cases hpc : s.ring.consumer with
    | idle => exact absurd hpc hbusy
    | querying query w => exact absurd hpc (hquery query w)
    | loaded _ _ _ | copying _ _ _ _ _ | committing _ _ _ _ | adding _ _ _ _ =>
      rw [hpc] at hreading
      exact hreading.elim

/-- A step of the consumer. -/
theorem Sound.reader (hword : unit ∣ word64) (heven : 2 ∣ unit) (hs : s.Sound unit)
    {ring : RingState} (hstep : consumerStep s.ring = some ring) : (s.endRead ring).Sound unit := by
  have hring : ring.Sound := consumerStep_sound hs.ring hstep
  have hunits : ring.InUnits unit := consumerStep_inUnits hword hs.units hstep
  have hmultiple := hs.units.consumer
  have hreading := hs.reading
  unfold consumerStep at hstep
  cases hpc : s.ring.consumer with
  | idle => simp [hpc] at hstep
  | loaded kind bytes r =>
    have hcall := hs.reading_eq (by simp [hpc]) (by simp [hpc])
    rw [hpc, hcall] at hreading
    obtain rfl : kind = .read := hreading
    simp only [hpc] at hstep
    split_ifs at hstep <;> obtain rfl := Option.some.inj hstep
    · have hnone : unit ∣ ([] : List UInt8).length := Nat.dvd_zero unit
      exact hs.endRead heven hring hunits rfl hcall hnone (by rw [copied, hpc]) rfl rfl rfl
    · rw [endRead_inCall (.inl (by simp))]
      exact hs.inCall hring hunits rfl rfl hs.writing (by rw [hcall]; rfl)
  | copying kind bytes visible view dst =>
    have hcall := hs.reading_eq (by simp [hpc]) (by simp [hpc])
    rw [hpc, hcall] at hreading
    obtain rfl : kind = .read := hreading
    simp only [hpc] at hstep
    split_ifs at hstep <;> obtain rfl := Option.some.inj hstep <;>
      rw [endRead_inCall (.inl (by simp))] <;>
      exact hs.inCall hring hunits rfl rfl hs.writing (by rw [hcall]; trivial)
  | committing bytes visible dst w =>
    have hcall := hs.reading_eq (by simp [hpc]) (by simp [hpc])
    simp only [hpc, Option.some.injEq] at hstep
    subst hstep
    rw [endRead_inCall (.inl (by simp))]
    exact hs.inCall hring hunits rfl rfl hs.writing (by rw [hcall]; trivial)
  | adding bytes visible dst commit =>
    have hcall := hs.reading_eq (by simp [hpc]) (by simp [hpc])
    rw [hpc] at hmultiple
    simp only [hpc, Option.some.injEq] at hstep
    subst hstep
    exact hs.endRead heven hring hunits rfl hcall hmultiple.1 (by rw [copied, hpc]) rfl rfl rfl
  | querying query w =>
    have hnone : s.reading = false := by
      rw [hpc] at hreading
      cases hcall : s.reading with
      | false => rfl
      | true => rw [hcall] at hreading; exact hreading.elim
    simp only [hpc, Option.some.injEq] at hstep
    subst hstep
    rw [endRead_inCall (.inr hnone)]
    exact hs.inCall hring hunits rfl rfl hs.writing (by rw [hnone]; trivial)

/-- The number of bytes that a call asks for is a multiple, also where it wraps. -/
theorem dvd_wanted {channels : ℕ} (hword : channels * 2 ∣ word64) {count : ℕ}
    (hcount : channels ∣ count) : channels * 2 ∣ count * 2 % word64 :=
  (Nat.dvd_mod_iff hword).mpr (Nat.mul_dvd_mul_right hcount 2)

/-- Every step keeps the invariant, if the calls ask for whole frames. -/
theorem Sound.step {channels : ℕ} (hword : channels * 2 ∣ word64) (hs : s.Sound (channels * 2))
    {action : AudioAction} (hwhole : s.WholeFrames channels action) {next : AudioThreads}
    (hstep : s.step action = some next) : next.Sound (channels * 2) := by
  have heven : 2 ∣ channels * 2 := Nat.dvd_mul_left 2 channels
  cases action with
  | writeS16 samples =>
    obtain ⟨hfree, hstep⟩ := Option.ite_none_left_eq_some.mp hstep
    have hnone : s.writing = none := by simpa using hfree
    split_ifs at hstep with hempty
    · exact Option.some.inj hstep ▸ hs
    obtain ⟨ring, hring, rfl⟩ := Option.map_eq_some_iff.mp hstep
    have hlength : ((sampleBytes samples).take (samples.length * 2 % word64)).length =
        samples.length * 2 % word64 := by
      rw [List.length_take, length_sampleBytes, min_eq_left (Nat.mod_le _ _)]
    have hsound := step_sound hs.ring hring
    have hwanted : WholeUnits (channels * 2) s.ring
        (.write ((sampleBytes samples).take (samples.length * 2 % word64))) := by
      have hdvd := dvd_wanted hword hwhole
      rwa [← hlength] at hdvd
    have hunits := step_inUnits hword hs.units hwanted hring
    cases hpc : s.ring.producer with
    | idle =>
      simp only [spscStep, hpc, Option.some.injEq] at hring
      split_ifs at hring with hzero
      · subst hring
        rw [endWrite_idle hpc rfl, written, hpc]
        simp only [Nat.zero_div, List.take_zero, List.append_nil, ← hnone]
        exact hs
      · subst hring
        rw [endWrite_inCall (.inl (by simp))]
        exact { hs with
          ring := hsound
          units := hunits
          writing := List.take_prefix _ _ }
    | _ => simp [spscStep, hpc] at hring
  | writerSize =>
    obtain ⟨ring, hring, rfl⟩ := Option.map_eq_some_iff.mp hstep
    have hsound := step_sound hs.ring hring
    have hunits := step_inUnits hword hs.units
      (show WholeUnits (channels * 2) s.ring (.producerQuery .size) from trivial) hring
    have hwriting := hs.writing
    cases hpc : s.ring.producer with
    | idle =>
      simp only [spscStep, hpc, Option.some.injEq] at hring
      subst hring
      rw [hpc] at hwriting
      refine hs.inCall hsound hunits rfl rfl ?_ hs.reading
      cases hsamples : s.writing with
      | none => trivial
      | some samples => rw [hsamples] at hwriting; exact hwriting.elim
    | _ => simp [spscStep, hpc] at hring
  | writer =>
    obtain ⟨ring, hring, rfl⟩ := Option.map_eq_some_iff.mp hstep
    exact hs.writer hword heven hring
  | readS16 count =>
    obtain ⟨hfree, hstep⟩ := Option.ite_none_left_eq_some.mp hstep
    have hnone : s.reading = false := by simpa using hfree
    split_ifs at hstep with hempty
    · exact Option.some.inj hstep ▸ hs
    obtain ⟨ring, hring, rfl⟩ := Option.map_eq_some_iff.mp hstep
    have hsound := step_sound hs.ring hring
    have hunits := step_inUnits hword hs.units
        (show WholeUnits (channels * 2) s.ring (.read .read _)
      from dvd_wanted hword hwhole) hring
    cases hpc : s.ring.consumer with
    | idle =>
      simp only [spscStep, hpc, Option.some.injEq] at hring
      split_ifs at hring with hzero
      · subst hring
        rw [endRead_idle rfl rfl, copied, hpc]
        simp only [List.length_nil, Nat.zero_div, Nat.add_zero, List.take_nil, List.append_nil,
          ← hnone]
        refine hs.inCall hsound hunits rfl ?_ hs.writing (by rw [hnone]; trivial)
        exact List.append_nil _
      · subst hring
        rw [endRead_inCall (.inl (by simp))]
        exact { hs with
          ring := hsound
          units := hunits
          reading := rfl }
    | _ => simp [spscStep, hpc] at hring
  | readerSize =>
    obtain ⟨ring, hring, rfl⟩ := Option.map_eq_some_iff.mp hstep
    have hsound := step_sound hs.ring hring
    have hunits := step_inUnits hword hs.units
      (show WholeUnits (channels * 2) s.ring (.consumerQuery .size) from trivial) hring
    have hreading := hs.reading
    cases hpc : s.ring.consumer with
    | idle =>
      simp only [spscStep, hpc, Option.some.injEq] at hring
      subst hring
      rw [hpc] at hreading
      refine hs.inCall hsound hunits rfl rfl hs.writing ?_
      cases hcall : s.reading with
      | false => trivial
      | true => rw [hcall] at hreading; exact hreading.elim
    | _ => simp [spscStep, hpc] at hring
  | reader =>
    obtain ⟨ring, hring, rfl⟩ := Option.map_eq_some_iff.mp hstep
    exact hs.reader hword heven hring

/-- A new pipeline meets the invariant. -/
theorem start_sound {capacityBytes : ℕ} (hcapacity : capacityBytes ≤ 2 ^ 63) (memory : ℕ → UInt8)
    (hunit : unit ∣ (ZeroCopyRing.create capacityBytes memory).capacity) :
    (start capacityBytes memory).Sound unit where
  ring := initial_sound (by omega) memory
  units := {
    capacity := hunit
    writePos := Nat.dvd_zero unit
    readPos := Nat.dvd_zero unit
    producer := trivial
    consumer := trivial
    queried := by simp [start, RingState.initial] }
  accepted := rfl
  released := rfl
  taken := rfl
  reported_dvd := by rw [start, List.length_nil, Nat.zero_mul]; exact Nat.dvd_zero unit
  taken_dvd := by rw [start, Nat.zero_mul]; exact Nat.dvd_zero unit
  writing := trivial
  reading := trivial

/-- The bytes stored are those accepted and not released. -/
theorem stored_eq {s : RingState} (hs : s.Sound) :
    s.ring.stored = s.accepted.drop (Multimedia.released s.log).length := by
  have hused := hs.geometry.usedBytes hs.released_le hs.fits
  rw [← hs.writePos, ← hs.readPos] at hused
  have hsize : s.ring.size = s.accepted.length - (Multimedia.released s.log).length := hused
  refine List.ext_getElem (by rw [ZeroCopyRing.length_stored, hsize, List.length_drop]) ?_
  intro k hk _
  rw [ZeroCopyRing.length_stored, hsize] at hk
  have hcell : (s.ring.readPos + k) % s.ring.capacity =
      ((Multimedia.released s.log).length + k) % s.ring.capacity := by
    rcases hs.geometry with hpower | hzero
    · rw [hs.readPos, Nat.add_mod, Nat.mod_mod_of_dvd _ hpower.dvd, ← Nat.add_mod]
    · have hfits := hs.fits
      omega
  simp only [ZeroCopyRing.stored, CircularBuffer.getElem_window, List.getElem_drop, hcell]
  exact hs.holds _ (Nat.le_add_right _ _) (by omega)

/-- The pipeline between two threads, in every state that any interleaving of their steps reaches:
the bytes that `read_s16` has delivered are those of the first samples that `write_s16` has reported
as written, as many as `read_s16` has reported, the bytes stored are those of the others, both
counts are whole frames, and every size computed is that of the frames it is said to have. Assumes:
the calls ask for whole frames, which are all calls if there is one channel, and whole frames fill
the buffer. -/
theorem audio_concurrent {capacityBytes channels : ℕ} (hcapacity : capacityBytes ≤ 2 ^ 63)
    (memory : ℕ → UInt8)
    (hframe : channels * 2 ∣ (ZeroCopyRing.create capacityBytes memory).capacity)
    (hreach : system.Reaches (WholeFrames channels) (start capacityBytes memory) s) :
    s.delivered = sampleBytes (s.reported.take s.taken) ∧
      s.ring.ring.stored = sampleBytes (s.reported.drop s.taken) ∧ s.taken ≤ s.reported.length ∧
      channels ∣ s.reported.length ∧ channels ∣ s.taken ∧
      ∀ size ∈ s.ring.queried, frames channels 2 size * (channels * 2) = size := by
  have hpower := (ZeroCopyRing.create_represents hcapacity memory).valid.geometry
  have hword : channels * 2 ∣ word64 := hframe.trans hpower.dvd
  have hpos : 0 < channels * 2 := Nat.pos_of_dvd_of_pos hframe hpower.pos
  have hs : s.Sound (channels * 2) := hreach.invariant (start_sound hcapacity memory hframe)
    fun _ _ _ hsound hwhole hstep ↦ hsound.step hword hwhole hstep
  have hprefix := hs.ring.log.released_front
  rw [← hs.released, hs.accepted] at hprefix
  have hle := hprefix.length_le
  rw [← hs.taken, length_sampleBytes] at hle
  have hdelivered : s.delivered = sampleBytes (s.reported.take s.taken) := by
    rw [← take_sampleBytes, hs.taken]
    exact List.prefix_iff_eq_take.mp hprefix
  refine ⟨hdelivered, ?_, by omega, ?_, ?_, fun size hsize ↦ ?_⟩
  · have hparts : sampleBytes s.reported =
        s.delivered ++ sampleBytes (s.reported.drop s.taken) := by
      rw [hdelivered, sampleBytes, sampleBytes, sampleBytes, ← List.flatMap_append,
        List.take_append_drop]
    rw [stored_eq hs.ring, hs.accepted, ← hs.released, hparts, List.drop_left]
  · exact Nat.dvd_of_mul_dvd_mul_right (by decide) hs.reported_dvd
  · exact Nat.dvd_of_mul_dvd_mul_right (by decide) hs.taken_dvd
  · unfold frames
    rw [if_neg hpos.ne']
    exact Nat.div_mul_cancel (hs.units.queried size hsize)

/-- With one channel all calls ask for whole frames. -/
theorem wholeFrames_one (s : AudioThreads) (action : AudioAction) : s.WholeFrames 1 action := by
  cases action with
  | writeS16 samples => exact Nat.one_dvd _
  | readS16 count => exact Nat.one_dvd _
  | _ => trivial

/-- The theorem at a run on four bytes with one channel: the writer has three samples and finds room
for two, and the reader loads the write position before these are accepted, and again after it. -/
theorem audio_concurrent_overlapping : ∃ s : AudioThreads, s.reported = [1, -2] ∧ s.taken = 1 ∧
    s.delivered = sampleBytes [1] ∧ s.ring.ring.stored = sampleBytes [-2] := by
  obtain ⟨s, hreach, htest⟩ := TransitionSystem.Reaches.exists_of_any system
    (start 4 fun _ ↦ 9)
    ([.writeS16 [1, -2, 3], .writer, .readS16 1, .writer, .reader, .writer, .writer, .writer,
      .readS16 1, .writer, .writer, .writer] ++ List.replicate 6 .reader)
    (fun _ _ ↦ true) (fun s ↦ s.reported = [1, -2] ∧ s.taken = 1)
    (fun s action _ ↦ wholeFrames_one s action) (by decide) (by decide)
  obtain ⟨hreported, htaken⟩ := of_decide_eq_true htest
  obtain ⟨hdelivered, hstored, -⟩ := audio_concurrent (by decide) _ (by decide) hreach
  rw [hreported, htaken] at hdelivered hstored
  exact ⟨s, hreported, htaken, hdelivered, hstored⟩

end AudioThreads

end GameEngine.Multimedia
