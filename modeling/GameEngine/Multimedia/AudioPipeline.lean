import GameEngine.Library.RecordStream
import GameEngine.Library.TransitionSystem
import GameEngine.Multimedia.RingRefinement
import Mathlib.Data.List.Infix

/-!
# The audio pipeline

`AudioPipeline` of `multimedia/audio_pipeline` with the calls that copy: a byte ring that is also
written and read in samples of two bytes. `write_s16` and `read_s16` let the ring take or give as
many bytes as it can and then divide by two. `wholeSamples_iff` says when the remainder is zero: a
call that moves less than it is asked for must find an even number of bytes free or queued. In every
run whose calls all do, what the calls report as delivered, followed by what is queued, is what they
report as written, so that a caller that goes on with the first unreported sample loses and
duplicates nothing.

An empty list of samples or a count of zero also stands for a null pointer: both are refused by the
same check. The bytes of a sample lie lowest first; nothing depends on the order.
-/

set_option autoImplicit false
set_option relaxedAutoImplicit false

namespace GameEngine.Multimedia

open GameEngine.Library GameEngine.Library.MachineWord GameEngine.Library.RecordStream

/-! ### A ring of any capacity -/

namespace ZeroCopyRing

/-- A ring as the constructor leaves it for any capacity: a valid one, or one whose capacity has
wrapped to zero. -/
def Usable (ring : ZeroCopyRing) : Prop := ring.Valid ∨ ring.capacity = 0 ∧ ring.size = 0

theorem usable_create {capacityBytes : ℕ} (hcapacity : capacityBytes < word64)
    (memory : ℕ → UInt8) : (create capacityBytes memory).Usable := by
  by_cases hle : capacityBytes ≤ 2 ^ 63
  · exact .inl (create_represents hle memory).valid
  · refine .inr ⟨?_, subMod_of_le le_rfl word64_pos⟩
    rw [create, if_neg (by omega)]
    exact nextPow2_of_gt (Nat.lt_of_not_le hle) hcapacity

theorem clampedView_zero (capacity mask pos bytes : ℕ) :
    clampedView capacity mask pos 0 bytes = .empty := by
  unfold clampedView
  by_cases hzero : bytes = 0
  · rw [if_pos hzero]
  · rw [if_neg hzero]
    dsimp only
    rw [if_pos (Nat.pos_of_ne_zero hzero), if_pos rfl]

/-- A ring without capacity has no free space. -/
theorem freeSpace_of_capacity {ring : ZeroCopyRing} (hcapacity : ring.capacity = 0)
    (hsize : ring.size = 0) : ring.freeSpace = 0 := by
  unfold freeSpace freeBytes
  rw [hcapacity, show usedBytes ring.writePos ring.readPos = 0 from hsize]
  exact subMod_of_le le_rfl word64_pos

/-- Writing to a ring of any capacity. -/
theorem Usable.write {ring : ZeroCopyRing} (husable : ring.Usable) (src : List UInt8) :
    (ring.write src).1.Usable ∧
      (ring.write src).1.stored = ring.stored ++ src.take ring.freeSpace ∧
      (ring.write src).2 = min src.length ring.freeSpace := by
  rcases husable with hvalid | ⟨hcapacity, hsize⟩
  · obtain ⟨hnext, -, hstored, hcount⟩ := hvalid.write_clamped src
    exact ⟨.inl hnext, hstored, hcount⟩
  · have hfree := freeSpace_of_capacity hcapacity hsize
    have hsame : ring.write src = (ring, 0) := by
      unfold ZeroCopyRing.write acquireWrite writeView
      rw [show freeBytes ring.capacity ring.writePos ring.readPos = 0 from hfree, clampedView_zero]
      split_ifs <;> rfl
    rw [hsame, hfree]
    refine ⟨.inr ⟨hcapacity, hsize⟩, ?_, ?_⟩
    · rw [List.take_zero, List.append_nil]
    · rw [Nat.min_zero]

/-- Reading from a ring of any capacity. -/
theorem Usable.read {ring : ZeroCopyRing} (husable : ring.Usable) (bytes : ℕ) :
    (ring.read bytes).1.Usable ∧ (ring.read bytes).1.stored = ring.stored.drop bytes ∧
      (ring.read bytes).2 = (min bytes ring.stored.length, ring.stored.take bytes) := by
  rcases husable with hvalid | ⟨hcapacity, hsize⟩
  · obtain ⟨hnext, -, hstored, hresult⟩ := hvalid.read bytes
    exact ⟨.inl hnext, hstored, hresult⟩
  · have hsame : ring.read bytes = (ring, 0, []) := by
      unfold ZeroCopyRing.read acquireRead readView
      rw [show usedBytes ring.writePos ring.readPos = 0 from hsize, clampedView_zero]
      split_ifs <;> rfl
    have hempty : ring.stored = [] := List.length_eq_zero_iff.mp (by rw [length_stored, hsize])
    rw [hsame, hempty]
    refine ⟨.inr ⟨hcapacity, hsize⟩, ?_, ?_⟩
    · rw [List.drop_nil]
    · rw [List.length_nil, Nat.min_zero, List.take_nil]

end ZeroCopyRing

/-! ### The pipeline -/

/-- The bytes of samples in memory, `sizeof(std::int16_t)` each. -/
def sampleBytes (samples : List Int16) : List UInt8 :=
  samples.flatMap fun sample ↦ toBytes 2 sample.toUInt16.toNat

theorem length_sampleBytes (samples : List Int16) :
    (sampleBytes samples).length = samples.length * 2 :=
  length_flatMap_of_length (fun _ ↦ length_toBytes 2 _) samples

theorem take_sampleBytes (samples : List Int16) (count : ℕ) :
    (sampleBytes samples).take (count * 2) = sampleBytes (samples.take count) :=
  take_flatMap_of_length (fun _ ↦ length_toBytes 2 _) samples count

/-- `AudioPipeline`. -/
structure AudioPipeline where
  ring : ZeroCopyRing

namespace AudioPipeline

/-- The constructor. `memory` is what the buffer of the ring holds at first. -/
def create (capacityBytes : ℕ) (memory : ℕ → UInt8) : AudioPipeline :=
  ⟨.create capacityBytes memory⟩

/-- `size`. -/
def size (pipeline : AudioPipeline) : ℕ := pipeline.ring.size

/-- `write_bytes`. -/
def writeBytes (pipeline : AudioPipeline) (src : List UInt8) : AudioPipeline × ℕ :=
  let (ring, count) := pipeline.ring.write src
  (⟨ring⟩, count)

/-- `read_bytes`, with the bytes it copies to the destination. -/
def readBytes (pipeline : AudioPipeline) (bytes : ℕ) : AudioPipeline × ℕ × List UInt8 :=
  let (ring, count, data) := pipeline.ring.read bytes
  (⟨ring⟩, count, data)

/-- `write_s16`. -/
def writeS16 (pipeline : AudioPipeline) (samples : List Int16) : AudioPipeline × ℕ :=
  if samples.length = 0 then (pipeline, 0)
  else
    let (ring, count) := pipeline.ring.write
      ((sampleBytes samples).take (samples.length * 2 % word64))
    (⟨ring⟩, count / 2)

/-- `read_s16`, with the bytes it copies to the destination. -/
def readS16 (pipeline : AudioPipeline) (count : ℕ) : AudioPipeline × ℕ × List UInt8 :=
  if count = 0 then (pipeline, 0, [])
  else
    let (ring, bytes, data) := pipeline.ring.read (count * 2 % word64)
    (⟨ring⟩, bytes / 2, data)

end AudioPipeline

/-- A call that copies. -/
inductive AudioCall
  | writeBytes (src : List UInt8)
  | readBytes (bytes : ℕ)
  | writeS16 (samples : List Int16)
  | readS16 (count : ℕ)
deriving DecidableEq

/-- A pipeline in use: with the bytes that its calls have reported as written, those that they have
reported as delivered, and the number of samples that `write_s16` has reported. -/
structure AudioRun where
  pipeline : AudioPipeline
  reported : List UInt8
  delivered : List UInt8
  samples : ℕ

namespace AudioRun

/-- A pipeline that has just been made. -/
def start (capacityBytes : ℕ) (memory : ℕ → UInt8) : AudioRun :=
  ⟨.create capacityBytes memory, [], [], 0⟩

/-- The pipeline after a call, and the number that the call returns. -/
def outcome (run : AudioRun) : AudioCall → AudioPipeline × ℕ
  | .writeBytes src => run.pipeline.writeBytes src
  | .readBytes bytes => let (pipeline, count, _) := run.pipeline.readBytes bytes; (pipeline, count)
  | .writeS16 samples => run.pipeline.writeS16 samples
  | .readS16 count => let (pipeline, count, _) := run.pipeline.readS16 count; (pipeline, count)

/-- A call. -/
def perform (run : AudioRun) : AudioCall → AudioRun
  | .writeBytes src =>
    let (pipeline, count) := run.pipeline.writeBytes src
    { run with pipeline := pipeline, reported := run.reported ++ src.take count }
  | .readBytes bytes =>
    let (pipeline, count, data) := run.pipeline.readBytes bytes
    { run with pipeline := pipeline, delivered := run.delivered ++ data.take count }
  | .writeS16 samples =>
    let (pipeline, count) := run.pipeline.writeS16 samples
    { run with
      pipeline := pipeline
      reported := run.reported ++ sampleBytes (samples.take count)
      samples := run.samples + count }
  | .readS16 count =>
    let (pipeline, count, data) := run.pipeline.readS16 count
    { run with pipeline := pipeline, delivered := run.delivered ++ data.take (count * 2) }

/-- A pipeline in use as a transition system. -/
def audioSystem : TransitionSystem AudioRun AudioCall := ⟨fun run call ↦ some (run.perform call)⟩

/-- A call leaves as many more bytes queued as the samples that `write_s16` reports have, or
removes as many as the samples that `read_s16` reports have. -/
def MovesWholeSamples (run : AudioRun) (call : AudioCall) : Prop :=
  let next := run.outcome call
  match call with
  | .writeS16 _ => next.1.size = run.pipeline.size + 2 * next.2
  | .readS16 _ => next.1.size + 2 * next.2 = run.pipeline.size
  | _ => True

/-- A `write_s16` that asks for more bytes than are free finds an even number of bytes free, and a
`read_s16` that asks for more bytes than are queued finds an even number of bytes queued. -/
def FindsWholeSamples (run : AudioRun) : AudioCall → Prop
  | .writeS16 samples => samples.length * 2 % word64 ≤ run.pipeline.ring.freeSpace ∨
      run.pipeline.ring.freeSpace % 2 = 0
  | .readS16 count => count * 2 % word64 ≤ run.pipeline.size ∨ run.pipeline.size % 2 = 0
  | _ => True

instance (run : AudioRun) (call : AudioCall) : Decidable (run.MovesWholeSamples call) := by
  cases call <;> unfold MovesWholeSamples <;> infer_instance

instance (run : AudioRun) (call : AudioCall) : Decidable (run.FindsWholeSamples call) := by
  cases call <;> unfold FindsWholeSamples <;> infer_instance

/-- A write of a caller that goes on with the first unreported sample of a stream. -/
def Retries (stream : List Int16) (run : AudioRun) : AudioCall → Prop
  | .writeBytes _ => False
  | .writeS16 samples => samples <+: stream.drop run.samples
  | _ => True

instance (stream : List Int16) (run : AudioRun) (call : AudioCall) :
    Decidable (Retries stream run call) := by
  cases call <;> unfold Retries <;> infer_instance

/-! ### One call -/

variable {run : AudioRun}

/-- Twice a count of samples is even, also where it wraps. -/
theorem even_wanted (count : ℕ) : count * 2 % word64 % 2 = 0 := by
  rw [Nat.mod_mod_of_dvd _ (by decide), Nat.mul_mod_left]

/-- `write_s16` on a ring of any capacity. -/
theorem writeS16_spec (husable : run.pipeline.ring.Usable) (samples : List Int16) :
    let wanted := samples.length * 2 % word64
    let next := run.pipeline.writeS16 samples
    next.1.ring.Usable ∧
      next.1.ring.stored = run.pipeline.ring.stored ++
        (sampleBytes samples).take (min run.pipeline.ring.freeSpace wanted) ∧
      next.2 = min wanted run.pipeline.ring.freeSpace / 2 := by
  intro wanted next
  by_cases hempty : samples.length = 0
  · have hnil : samples = [] := List.length_eq_zero_iff.mp hempty
    have hsame : next = (run.pipeline, 0) := if_pos hempty
    have hwanted : wanted = 0 := by
      simp only [wanted, hempty, Nat.zero_mul, Nat.zero_mod]
    rw [hsame, hwanted, hnil]
    exact ⟨husable, by simp, by simp⟩
  · have hle : wanted ≤ (sampleBytes samples).length := by
      rw [length_sampleBytes]
      exact Nat.mod_le _ _
    obtain ⟨hnext, hstored, hcount⟩ := husable.write ((sampleBytes samples).take wanted)
    have heq : next = (⟨(run.pipeline.ring.write ((sampleBytes samples).take wanted)).1⟩,
        (run.pipeline.ring.write ((sampleBytes samples).take wanted)).2 / 2) := if_neg hempty
    rw [List.take_take] at hstored
    rw [List.length_take, min_eq_left hle] at hcount
    rw [heq, hcount]
    exact ⟨hnext, hstored, rfl⟩

/-- `read_s16` on a ring of any capacity. -/
theorem readS16_spec (husable : run.pipeline.ring.Usable) (count : ℕ) :
    let wanted := count * 2 % word64
    let next := run.pipeline.readS16 count
    next.1.ring.Usable ∧ next.1.ring.stored = run.pipeline.ring.stored.drop wanted ∧
      next.2 = (min wanted run.pipeline.size / 2, run.pipeline.ring.stored.take wanted) := by
  intro wanted next
  by_cases hempty : count = 0
  · have hsame : next = (run.pipeline, 0, []) := if_pos hempty
    have hwanted : wanted = 0 := by
      simp only [wanted, hempty, Nat.zero_mul, Nat.zero_mod]
    rw [hsame, hwanted]
    exact ⟨husable, by simp, by simp⟩
  · obtain ⟨hnext, hstored, hresult⟩ := husable.read wanted
    have heq : next = (⟨(run.pipeline.ring.read wanted).1⟩,
        (run.pipeline.ring.read wanted).2.1 / 2, (run.pipeline.ring.read wanted).2.2) :=
      if_neg hempty
    rw [heq, hresult, ZeroCopyRing.length_stored]
    exact ⟨hnext, hstored, rfl⟩

/-- A call moves whole samples if and only if it finds them. -/
theorem movesWholeSamples_iff (husable : run.pipeline.ring.Usable) (call : AudioCall) :
    run.MovesWholeSamples call ↔ run.FindsWholeSamples call := by
  cases call with
  | writeBytes src => exact Iff.rfl
  | readBytes bytes => exact Iff.rfl
  | writeS16 samples =>
    obtain ⟨-, hstored, hcount⟩ := writeS16_spec husable samples
    have hlength := congrArg List.length hstored
    have heven := even_wanted samples.length
    have hle := Nat.mod_le (samples.length * 2) word64
    rw [List.length_append, List.length_take, length_sampleBytes, ZeroCopyRing.length_stored,
      ZeroCopyRing.length_stored] at hlength
    unfold MovesWholeSamples FindsWholeSamples outcome AudioPipeline.size
    dsimp only
    rw [hcount, hlength]
    omega
  | readS16 count =>
    obtain ⟨-, hstored, hresult⟩ := readS16_spec husable count
    have hlength := congrArg List.length hstored
    have hcount := congrArg Prod.fst hresult
    have heven := even_wanted count
    rw [List.length_drop, ZeroCopyRing.length_stored, ZeroCopyRing.length_stored] at hlength
    unfold MovesWholeSamples FindsWholeSamples outcome
    dsimp only at hcount ⊢
    unfold AudioPipeline.size at *
    rw [hcount, hlength]
    omega

/-! ### Every run -/

/-- The ring of a run can be used, and what has been delivered, followed by what is queued, is what
has been reported as written. -/
structure Conserved (run : AudioRun) : Prop where
  usable : run.pipeline.ring.Usable
  stream_eq : run.delivered ++ run.pipeline.ring.stored = run.reported

theorem usable_perform (husable : run.pipeline.ring.Usable) (call : AudioCall) :
    (run.perform call).pipeline.ring.Usable := by
  cases call with
  | writeBytes src => exact (husable.write src).1
  | readBytes bytes => exact (husable.read bytes).1
  | writeS16 samples => exact (writeS16_spec husable samples).1
  | readS16 count => exact (readS16_spec husable count).1

/-- The samples that a `write_s16` reports are the bytes that it puts into the ring. -/
theorem take_written (husable : run.pipeline.ring.Usable) {samples : List Int16}
    (hfinds : run.FindsWholeSamples (.writeS16 samples)) :
    (run.pipeline.writeS16 samples).1.ring.stored = run.pipeline.ring.stored ++
      sampleBytes (samples.take (run.pipeline.writeS16 samples).2) := by
  obtain ⟨-, hstored, hcount⟩ := writeS16_spec husable samples
  have heven := even_wanted samples.length
  have hdouble : min run.pipeline.ring.freeSpace (samples.length * 2 % word64) =
      (run.pipeline.writeS16 samples).2 * 2 := by
    unfold FindsWholeSamples at hfinds
    rw [hcount]
    omega
  rw [hstored, hdouble, take_sampleBytes]

/-- A call that finds whole samples keeps the stream. -/
theorem Conserved.perform (hrun : run.Conserved) {call : AudioCall}
    (hfinds : run.FindsWholeSamples call) : (run.perform call).Conserved := by
  obtain ⟨husable, hstream⟩ := hrun
  refine ⟨usable_perform husable call, ?_⟩
  cases call with
  | writeBytes src =>
    obtain ⟨-, hstored, hcount⟩ := husable.write src
    change run.delivered ++ (run.pipeline.ring.write src).1.stored =
      run.reported ++ src.take (run.pipeline.ring.write src).2
    rw [hstored, hcount, ← List.append_assoc, hstream]
    congr 1
    rw [Nat.min_comm, ← List.take_take, List.take_length]
  | readBytes bytes =>
    obtain ⟨-, hstored, hresult⟩ := husable.read bytes
    change (run.delivered ++ (run.pipeline.ring.read bytes).2.2.take
      (run.pipeline.ring.read bytes).2.1) ++ (run.pipeline.ring.read bytes).1.stored = run.reported
    rw [hstored, hresult, ← List.length_take, List.take_length, List.append_assoc,
      List.take_append_drop, hstream]
  | writeS16 samples =>
    have hstored := take_written husable hfinds
    change run.delivered ++ (run.pipeline.writeS16 samples).1.ring.stored =
      run.reported ++ sampleBytes (samples.take (run.pipeline.writeS16 samples).2)
    rw [hstored, ← List.append_assoc, hstream]
  | readS16 count =>
    obtain ⟨-, hstored, hresult⟩ := readS16_spec husable count
    have heven := even_wanted count
    have hdouble : run.pipeline.ring.stored.take
        (min (min (count * 2 % word64) run.pipeline.size / 2 * 2) (count * 2 % word64)) =
          run.pipeline.ring.stored.take (count * 2 % word64) := by
      rw [List.take_eq_take_iff, ZeroCopyRing.length_stored]
      unfold FindsWholeSamples AudioPipeline.size at *
      omega
    change (run.delivered ++ (run.pipeline.readS16 count).2.2.take
      ((run.pipeline.readS16 count).2.1 * 2)) ++ (run.pipeline.readS16 count).1.ring.stored =
        run.reported
    rw [hstored, hresult, List.take_take, hdouble, List.append_assoc, List.take_append_drop,
      hstream]

/-- `write_s16` reports at most the samples it is given. -/
theorem count_writeS16_le (husable : run.pipeline.ring.Usable) (samples : List Int16) :
    (run.pipeline.writeS16 samples).2 ≤ samples.length := by
  obtain ⟨-, -, hcount⟩ := writeS16_spec husable samples
  have hle := Nat.mod_le (samples.length * 2) word64
  rw [hcount]
  omega

/-- A call of a caller that goes on with the first unreported sample of a stream. -/
theorem Retries.perform {stream : List Int16} {call : AudioCall}
    (hretries : Retries stream run call) (husable : run.pipeline.ring.Usable)
    (hreported : run.reported = sampleBytes (stream.take run.samples)) :
    (run.perform call).reported = sampleBytes (stream.take (run.perform call).samples) := by
  cases call with
  | writeBytes src => exact hretries.elim
  | readBytes bytes => exact hreported
  | readS16 count => exact hreported
  | writeS16 samples =>
    have hle := count_writeS16_le husable samples
    obtain ⟨rest, hrest⟩ := hretries
    have htaken : samples.take (run.pipeline.writeS16 samples).2 =
        (stream.drop run.samples).take (run.pipeline.writeS16 samples).2 := by
      rw [← hrest, List.take_append_of_le_length hle]
    change run.reported ++ sampleBytes (samples.take (run.pipeline.writeS16 samples).2) =
      sampleBytes (stream.take (run.samples + (run.pipeline.writeS16 samples).2))
    rw [hreported, htaken, List.take_add, sampleBytes, sampleBytes, sampleBytes,
      List.flatMap_append]

theorem conserved_start {capacityBytes : ℕ} (hcapacity : capacityBytes < word64)
    (memory : ℕ → UInt8) : (start capacityBytes memory).Conserved := by
  refine ⟨ZeroCopyRing.usable_create hcapacity memory, ?_⟩
  have hsize : (ZeroCopyRing.create capacityBytes memory).size = 0 :=
    subMod_of_le le_rfl word64_pos
  exact List.length_eq_zero_iff.mp ((ZeroCopyRing.length_stored _).trans hsize)

/-- For a pipeline of any capacity: in every run, a call leaves or removes as many bytes as the
samples it reports have if and only if it finds whole samples. In every run whose calls all find
whole samples, what has been reported as delivered, followed by what is queued, is what has been
reported as written. If the writes of such a run go on with the first unreported sample of a stream,
these are the first samples of the stream, as many as have been reported. -/
theorem wholeSamples_iff {capacityBytes : ℕ} (hcapacity : capacityBytes < word64)
    (memory : ℕ → UInt8) :
    (∀ run, audioSystem.Reaches TransitionSystem.unguarded (start capacityBytes memory) run →
      ∀ call, run.MovesWholeSamples call ↔ run.FindsWholeSamples call) ∧
    (∀ run, audioSystem.Reaches FindsWholeSamples (start capacityBytes memory) run →
      run.delivered ++ run.pipeline.ring.stored = run.reported) ∧
    ∀ stream run, audioSystem.Reaches
        (fun run call ↦ run.FindsWholeSamples call ∧ Retries stream run call)
        (start capacityBytes memory) run →
      run.delivered ++ run.pipeline.ring.stored = sampleBytes (stream.take run.samples) := by
  have hstart := conserved_start hcapacity memory
  refine ⟨fun run hreach call ↦ ?_, fun run hreach ↦ ?_, fun stream run hreach ↦ ?_⟩
  · have husable : run.pipeline.ring.Usable :=
      hreach.invariant hstart.usable
        fun _ call _ hstate _ hstep ↦ Option.some.inj hstep ▸ usable_perform hstate call
    exact movesWholeSamples_iff husable call
  · have hrun : run.Conserved := hreach.invariant hstart
      fun _ _ _ hstate hfinds hstep ↦ Option.some.inj hstep ▸ hstate.perform hfinds
    exact hrun.stream_eq
  · have hrun : run.Conserved ∧ run.reported = sampleBytes (stream.take run.samples) := by
      refine hreach.invariant ⟨hstart, rfl⟩ ?_
      rintro state call next ⟨hstate, hreported⟩ ⟨hfinds, hretries⟩ hstep
      obtain rfl := Option.some.inj hstep
      exact ⟨hstate.perform hfinds, hretries.perform hstate.usable hreported⟩
    rw [hrun.1.stream_eq, hrun.2]

/-- The theorem at a pipeline of four bytes that a caller fills with a stream of three samples: the
first write takes two of them, the second finds no room, and after a read the third write takes the
rest. -/
theorem wholeSamples_retried : ∃ run : AudioRun, run.samples = 3 ∧
    run.delivered ++ run.pipeline.ring.stored = sampleBytes [1, 2, 3] := by
  obtain ⟨run, hreach, hsamples⟩ := TransitionSystem.Reaches.exists_of_any audioSystem
    (start 4 fun _ ↦ 0)
    [.writeS16 [1, 2, 3], .writeS16 [3], .readBytes 3, .writeS16 [3], .readS16 1]
    (fun run call ↦ run.FindsWholeSamples call ∧ Retries [1, 2, 3] run call)
    (fun run ↦ run.samples = 3) (fun _ _ h ↦ of_decide_eq_true h) (by decide) (by decide)
  have hcount : run.samples = 3 := of_decide_eq_true hsamples
  refine ⟨run, hcount, ?_⟩
  have hstream := (wholeSamples_iff (by decide) _).2.2 _ run hreach
  rwa [hcount] at hstream

/-- A pipeline of four bytes with one byte queued: a write of two samples leaves three more bytes
queued and returns one, and when the caller goes on with the second sample, its first byte is queued
twice. -/
theorem half_sample_queued_twice : ∃ run last : AudioRun,
    audioSystem.Reaches TransitionSystem.unguarded (start 4 fun _ ↦ 0) run ∧
      (run.outcome (.writeS16 [0x0201, 0x0403])).2 = 1 ∧
      ¬ run.MovesWholeSamples (.writeS16 [0x0201, 0x0403]) ∧
      audioSystem.Reaches TransitionSystem.unguarded
        (run.perform (.writeS16 [0x0201, 0x0403])) last ∧
      last.delivered ++ last.pipeline.ring.stored = [9, 1, 2, 3, 3, 4] := by
  obtain ⟨run, hrun, htest⟩ := TransitionSystem.Reaches.exists_of_schedule audioSystem
    (start 4 fun _ ↦ 0) [.writeBytes [9]]
    (fun run ↦ (run.outcome (.writeS16 [0x0201, 0x0403])).2 = 1 ∧
      ¬ run.MovesWholeSamples (.writeS16 [0x0201, 0x0403]) ∧
      ((audioSystem.execute (run.perform (.writeS16 [0x0201, 0x0403]))
        [.readBytes 4, .writeS16 [0x0403]]).any fun last ↦
          last.delivered ++ last.pipeline.ring.stored = [9, 1, 2, 3, 3, 4]) = true) (by decide)
  obtain ⟨hcount, hmoves, hany⟩ := of_decide_eq_true htest
  obtain ⟨last, hlast, hstream⟩ :=
    TransitionSystem.Reaches.exists_of_schedule audioSystem _ _ _ hany
  exact ⟨run, last, hrun, hcount, hmoves, hlast, of_decide_eq_true hstream⟩

end AudioRun

end GameEngine.Multimedia
