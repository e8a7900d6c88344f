import GameEngine.Library.MachineWord
import GameEngine.Library.TransitionSystem

/-!
# Recording and flushing metrics

`MetricsCollector` of `telemetry/metrics_collector` is a fixed vector of samples of which the first
`count` are queued, and `NetworkTelemetry::flush_to` copies queued samples into a buffer and empties
the collector. A `double` is given by its bits, a C string by its bytes, of which those before the
first zero count.

`flushTo` clears the collector also when the buffer has room for only some of the samples.
`conserved_iff` says exactly which runs lose nothing: those in which every `flush_to` copies all
queued samples or none. `conserved_fails` is two records and a flush into room for one sample.
-/

set_option autoImplicit false
set_option relaxedAutoImplicit false

namespace GameEngine.Telemetry

open GameEngine.Library
open MachineWord

/-! ### Samples -/

/-- The characters of a C string: the bytes before the first zero. -/
def cString (bytes : List UInt8) : List UInt8 := bytes.takeWhile fun byte ↦ byte ≠ 0

/-- The loop that copies a name into the cells of an array and ends it with a zero. The cells behind
the zero stay as they are. -/
def copyName : List UInt8 → List UInt8 → List UInt8
  | [], _ => []
  | [_], _ => [0]
  | _ :: next :: cells, [] => 0 :: next :: cells
  | _ :: next :: cells, byte :: rest =>
    if byte = 0 then 0 :: next :: cells else byte :: copyName (next :: cells) rest

theorem length_copyName (cells name : List UInt8) :
    (copyName cells name).length = cells.length := by
  induction cells, name using copyName.induct with
  | case1 name => rfl
  | case2 cell name => rfl
  | case3 cell next cells => rfl
  | case4 cell next cells rest => simp [copyName]
  | case5 cell next cells byte rest hbyte ih => simp [copyName, hbyte, ih]

/-- The array holds as much of the name as there is room for before the zero. -/
theorem cString_copyName {cells : List UInt8} (hcells : cells ≠ []) (name : List UInt8) :
    cString (copyName cells name) = (cString name).take (cells.length - 1) := by
  induction cells, name using copyName.induct with
  | case1 name => contradiction
  | case2 cell name => simp [copyName, cString]
  | case3 cell next cells => simp [copyName, cString]
  | case4 cell next cells rest => simp [copyName, cString]
  | case5 cell next cells byte rest hbyte ih =>
    have hrest := ih (by simp)
    simp only [cString, copyName, hbyte, if_false] at hrest ⊢
    simpa [hbyte] using hrest

/-- `sizeof(MetricSample::name)`. -/
def nameBytes : ℕ := 32

/-- `sizeof(MetricSample)`: the name, the value and the timestamp. -/
def sampleBytes : ℕ := nameBytes + 8 + 8

/-- `MetricSample`. -/
structure MetricSample where
  name : List UInt8
  value : UInt64
  timestampUs : UInt64
  length_name : name.length = nameBytes

/-- What a sample says: its name as a C string, its value and its timestamp. -/
structure Metric where
  name : List UInt8
  value : UInt64
  timestampUs : UInt64
deriving DecidableEq

/-- What is read from a sample. -/
def MetricSample.metric (sample : MetricSample) : Metric :=
  ⟨cString sample.name, sample.value, sample.timestampUs⟩

/-- A sample over which a metric is written. A null name is the empty name. -/
def MetricSample.write (sample : MetricSample) (name : Option (List UInt8))
    (value timestampUs : UInt64) : MetricSample where
  name := copyName sample.name (name.getD [])
  value := value
  timestampUs := timestampUs
  length_name := (length_copyName _ _).trans sample.length_name

/-- The metric that a call of `record` reports: its name is cut to the room in a sample. -/
def reported (name : Option (List UInt8)) (value timestampUs : UInt64) : Metric :=
  ⟨(cString (name.getD [])).take (nameBytes - 1), value, timestampUs⟩

theorem MetricSample.metric_write (sample : MetricSample) (name : Option (List UInt8))
    (value timestampUs : UInt64) :
    (sample.write name value timestampUs).metric = reported name value timestampUs := by
  have hcells : sample.name ≠ [] := by
    intro hnil
    have hlength := sample.length_name
    rw [hnil] at hlength
    exact absurd hlength (by decide)
  simp only [metric, write, reported, cString_copyName hcells, sample.length_name]

/-! ### The collector -/

/-- The samples of a new collector. -/
def MetricSample.zero : MetricSample := ⟨List.replicate nameBytes 0, 0, 0, List.length_replicate⟩

/-- `MetricsCollector`. The vector of samples is in memory, so its size in bytes is a word. -/
structure MetricsCollector where
  slots : List MetricSample
  count : ℕ
  count_le : count ≤ slots.length
  slots_fit : slots.length * sampleBytes < word64

namespace MetricsCollector

/-- A new collector, for which there must be memory. A capacity of zero is taken as one. -/
def new (capacity : ℕ) (hfits : max capacity 1 * sampleBytes < word64) : MetricsCollector where
  slots := List.replicate (max capacity 1) .zero
  count := 0
  count_le := Nat.zero_le _
  slots_fit := by rwa [List.length_replicate]

/-- The number of samples that can be queued. -/
def capacity (collector : MetricsCollector) : ℕ := collector.slots.length

/-- The samples that are queued. -/
def queued (collector : MetricsCollector) : List MetricSample :=
  collector.slots.take collector.count

/-- Queues a sample, unless the collector is full. -/
def record (collector : MetricsCollector) (name : Option (List UInt8))
    (value timestampUs : UInt64) : MetricsCollector × Bool :=
  if hroom : collector.count < collector.slots.length then
    ({ slots := collector.slots.modify collector.count (·.write name value timestampUs)
       count := collector.count + 1
       count_le := by rwa [List.length_modify]
       slots_fit := by rw [List.length_modify]; exact collector.slots_fit }, true)
  else (collector, false)

/-- Forgets the queued samples. -/
def clear (collector : MetricsCollector) : MetricsCollector :=
  { collector with count := 0, count_le := Nat.zero_le _ }

theorem length_queued (collector : MetricsCollector) :
    collector.queued.length = collector.count := by
  rw [queued, List.length_take, Nat.min_eq_left collector.count_le]

@[simp] theorem queued_clear (collector : MetricsCollector) : collector.clear.queued = [] := rfl

/-- A record that is accepted queues the reported metric behind the others. -/
theorem queued_record {collector : MetricsCollector} {name : Option (List UInt8)}
    {value timestampUs : UInt64} (haccepted : (collector.record name value timestampUs).2 = true) :
    (collector.record name value timestampUs).1.queued.map MetricSample.metric =
      collector.queued.map MetricSample.metric ++ [reported name value timestampUs] := by
  unfold record at haccepted ⊢
  split_ifs at haccepted ⊢ with hroom
  have hsample := List.getElem_modify (f := (·.write name value timestampUs))
    (i := collector.count) (l := collector.slots) (j := collector.count)
    (h := by rwa [List.length_modify])
  simp only [if_true] at hsample
  simp only [queued]
  rw [List.take_succ_eq_append_getElem (by rwa [List.length_modify]), hsample,
    List.take_modify, List.modify_eq_self (by simp), List.map_append, List.map_singleton,
    MetricSample.metric_write]

/-- A record is refused only by a full collector, which it leaves as it is. -/
theorem record_refused {collector : MetricsCollector} {name : Option (List UInt8)}
    {value timestampUs : UInt64} (hrefused : (collector.record name value timestampUs).2 = false) :
    collector.queued.length = collector.capacity ∧
      (collector.record name value timestampUs).1 = collector := by
  unfold record at hrefused ⊢
  split_ifs at hrefused ⊢ with hroom
  have hle := collector.count_le
  exact ⟨by rw [length_queued, capacity]; omega, rfl⟩

end MetricsCollector

/-! ### Flushing -/

/-- Copies the queued samples, as many as fit, into a buffer of a number of bytes, which may be a
null pointer. Returns the collector, the samples copied and their number. -/
def flushTo (collector : MetricsCollector) (dst : Option ℕ) :
    MetricsCollector × List MetricSample × ℕ :=
  match dst with
  | none => (collector, [], 0)
  | some dstBytes =>
    if collector.count = 0 then (collector, [], 0)
    else
      let bytes := collector.count * sampleBytes % word64
      let n := if bytes < dstBytes then bytes else dstBytes
      let count := n / sampleBytes
      if count = 0 then (collector, [], 0)
      else (collector.clear, collector.slots.take count, count)

/-- A call of `flush_to` that copies all queued samples or none: nothing is queued, the buffer is
null or smaller than one sample, or there is room for every queued sample. -/
def isLossless (collector : MetricsCollector) (dst : Option ℕ) : Bool :=
  dst.all fun dstBytes ↦ collector.count = 0 ∨ dstBytes < sampleBytes ∨
    collector.count * sampleBytes ≤ dstBytes

/-- The number of bytes queued is a word. -/
theorem queuedBytes_mod (collector : MetricsCollector) :
    collector.count * sampleBytes % word64 = collector.count * sampleBytes :=
  Nat.mod_eq_of_lt
    (lt_of_le_of_lt (Nat.mul_le_mul_right _ collector.count_le) collector.slots_fit)

/-- What `flush_to` copies, followed by what it leaves queued, are the samples that were queued, if
it is lossless. -/
theorem flushTo_append_queued {collector : MetricsCollector} {dst : Option ℕ}
    (hlossless : isLossless collector dst = true) :
    (flushTo collector dst).2.1 ++ (flushTo collector dst).1.queued = collector.queued := by
  match dst with
  | none => rfl
  | some dstBytes =>
    simp only [isLossless, Option.all_some, decide_eq_true_eq] at hlossless
    simp only [flushTo, queuedBytes_mod]
    split_ifs with hnone hsmall hcount hcount
    · rfl
    · rfl
    · -- All queued bytes fit.
      rw [MetricsCollector.queued_clear, List.append_nil, Nat.mul_div_cancel _ (by decide)]
      rfl
    · rfl
    · -- The buffer is the smaller one, so it has exactly the size of what is queued.
      have hsize : dstBytes = collector.count * sampleBytes := by
        simp only [sampleBytes, nameBytes] at *
        omega
      rw [MetricsCollector.queued_clear, List.append_nil, hsize,
        Nat.mul_div_cancel _ (by decide)]
      rfl

/-- A call that is not lossless drops at least one queued sample. -/
theorem length_flushTo_lt {collector : MetricsCollector} {dst : Option ℕ}
    (hlossless : isLossless collector dst = false) :
    (flushTo collector dst).2.1.length + (flushTo collector dst).1.queued.length <
      collector.queued.length := by
  match dst with
  | none => simp [isLossless] at hlossless
  | some dstBytes =>
    simp only [isLossless, Option.all_some, decide_eq_false_iff_not, not_or, not_lt, not_le]
      at hlossless
    obtain ⟨hcount, hroom, hshort⟩ := hlossless
    have hle := collector.count_le
    have hpos : dstBytes / sampleBytes ≠ 0 := by
      simp only [sampleBytes, nameBytes] at *
      omega
    have hdropped : dstBytes / sampleBytes < collector.count := by
      simp only [sampleBytes, nameBytes] at *
      omega
    have hflush : flushTo collector (some dstBytes) = (collector.clear,
        collector.slots.take (dstBytes / sampleBytes), dstBytes / sampleBytes) := by
      simp [flushTo, queuedBytes_mod, hcount, Nat.not_lt.mpr hshort.le, hpos]
    rw [hflush, MetricsCollector.queued_clear, List.length_take, List.length_nil,
      MetricsCollector.length_queued]
    omega

/-- `flush_to` never copies more than is queued. -/
theorem length_flushTo_le (collector : MetricsCollector) (dst : Option ℕ) :
    (flushTo collector dst).2.1.length + (flushTo collector dst).1.queued.length ≤
      collector.queued.length := by
  cases hlossless : isLossless collector dst with
  | false => exact (length_flushTo_lt hlossless).le
  | true =>
    rw [← List.length_append, flushTo_append_queued hlossless]

/-! ### Runs -/

/-- A call. -/
inductive TelemetryCall
  | record (name : Option (List UInt8)) (value timestampUs : UInt64)
  | flushTo (dst : Option ℕ)

/-- The collector with the record of a run: the metrics of the calls of `record` that returned true,
and the samples that `flush_to` copied out, oldest first. -/
structure TelemetryRun where
  collector : MetricsCollector
  accepted : List Metric
  delivered : List MetricSample

namespace TelemetryRun

/-- A new collector. -/
def initial (capacity : ℕ) (hfits : max capacity 1 * sampleBytes < word64) : TelemetryRun :=
  ⟨.new capacity hfits, [], []⟩

/-- One call. -/
def step (run : TelemetryRun) : TelemetryCall → Option TelemetryRun
  | .record name value timestampUs =>
    let result := run.collector.record name value timestampUs
    some { run with
      collector := result.1
      accepted :=
        if result.2 then run.accepted ++ [reported name value timestampUs] else run.accepted }
  | .flushTo dst =>
    let result := flushTo run.collector dst
    some { run with collector := result.1, delivered := run.delivered ++ result.2.1 }

/-- The telemetry as a transition system. -/
def system : TransitionSystem TelemetryRun TelemetryCall where
  step := step

/-- What was copied out and what is still queued, oldest first. -/
def kept (run : TelemetryRun) : List Metric :=
  (run.delivered ++ run.collector.queued).map MetricSample.metric

/-- Nothing is lost and nothing is there twice. -/
def Conserved (run : TelemetryRun) : Prop := run.kept = run.accepted

/-- Every call of `flush_to` is lossless. -/
def losslessCall (run : TelemetryRun) : TelemetryCall → Bool
  | .record _ _ _ => true
  | .flushTo dst => isLossless run.collector dst

/-- A lossless call keeps the conservation. -/
theorem Conserved.step {run next : TelemetryRun} {call : TelemetryCall}
    (hconserved : run.Conserved) (hcall : run.losslessCall call = true)
    (hstep : run.step call = some next) : next.Conserved := by
  unfold Conserved kept at hconserved ⊢
  cases call with
  | record name value timestampUs =>
    simp only [TelemetryRun.step, Option.some.injEq] at hstep
    subst hstep
    simp only [List.map_append] at hconserved ⊢
    split_ifs with haccepted
    · rw [MetricsCollector.queued_record haccepted, ← List.append_assoc, hconserved]
    · rw [(MetricsCollector.record_refused (Bool.eq_false_iff.mpr haccepted)).2, hconserved]
  | flushTo dst =>
    simp only [TelemetryRun.step, Option.some.injEq] at hstep
    subst hstep
    rw [List.append_assoc, flushTo_append_queued hcall, hconserved]

/-- No call makes up for what is missing. -/
theorem length_step {run next : TelemetryRun} {call : TelemetryCall}
    (hstep : run.step call = some next) :
    next.kept.length + run.accepted.length ≤ next.accepted.length + run.kept.length := by
  cases call with
  | record name value timestampUs =>
    simp only [TelemetryRun.step, Option.some.injEq] at hstep
    subst hstep
    split_ifs with haccepted
    · have hlength := congrArg List.length (MetricsCollector.queued_record haccepted)
      simp only [List.length_map, List.length_append, List.length_singleton] at hlength
      simp only [kept, List.length_map, List.length_append, List.length_singleton]
      omega
    · rw [(MetricsCollector.record_refused (Bool.eq_false_iff.mpr haccepted)).2]
      simp only [kept, List.length_map, List.length_append]
      omega
  | flushTo dst =>
    simp only [TelemetryRun.step, Option.some.injEq] at hstep
    subst hstep
    have hle := length_flushTo_le run.collector dst
    simp only [kept, List.length_map, List.length_append]
    omega

/-- No call changes the capacity. -/
theorem capacity_step {run next : TelemetryRun} {call : TelemetryCall}
    (hstep : run.step call = some next) : next.collector.capacity = run.collector.capacity := by
  cases call with
  | record name value timestampUs =>
    simp only [TelemetryRun.step, Option.some.injEq] at hstep
    subst hstep
    simp only [MetricsCollector.record, MetricsCollector.capacity]
    split_ifs
    · exact List.length_modify ..
    · rfl
  | flushTo dst =>
    simp only [TelemetryRun.step, Option.some.injEq] at hstep
    subst hstep
    simp only [Telemetry.flushTo]
    split
    · rfl
    · split_ifs <;> rfl

/-- A call that is not lossless loses something. -/
theorem Conserved.short {run next : TelemetryRun} {call : TelemetryCall}
    (hconserved : run.Conserved) (hcall : run.losslessCall call = false)
    (hstep : run.step call = some next) : next.kept.length < next.accepted.length := by
  cases call with
  | record name value timestampUs => simp [losslessCall] at hcall
  | flushTo dst =>
    simp only [TelemetryRun.step, Option.some.injEq] at hstep
    subst hstep
    have hlt := length_flushTo_lt hcall
    have hlength := congrArg List.length hconserved
    simp only [kept, List.length_map, List.length_append] at hlength ⊢
    omega

/-- What a run has lost stays lost. -/
theorem short_of_execute {start run : TelemetryRun} {calls : List TelemetryCall}
    (hshort : start.kept.length < start.accepted.length)
    (hexecute : system.execute start calls = some run) :
    run.kept.length < run.accepted.length := by
  induction calls generalizing start with
  | nil =>
    simp only [TransitionSystem.execute, Option.some.injEq] at hexecute
    exact hexecute ▸ hshort
  | cons call rest ih =>
    simp only [TransitionSystem.execute, Option.bind_eq_some_iff] at hexecute
    obtain ⟨next, hstep, hrest⟩ := hexecute
    have hlength := length_step hstep
    exact ih (by omega) hrest

/-- From a state in which nothing has been lost, a run loses nothing if and only if all of its calls
are lossless. -/
theorem Conserved.execute_iff {start run : TelemetryRun} {calls : List TelemetryCall}
    (hconserved : start.Conserved) (hexecute : system.execute start calls = some run) :
    run.Conserved ↔ system.allowed losslessCall start calls = true := by
  induction calls generalizing start with
  | nil =>
    simp only [TransitionSystem.execute, Option.some.injEq] at hexecute
    subst hexecute
    simpa [TransitionSystem.allowed] using hconserved
  | cons call rest ih =>
    simp only [TransitionSystem.execute, Option.bind_eq_some_iff] at hexecute
    obtain ⟨next, hstep, hrest⟩ := hexecute
    simp only [TransitionSystem.allowed, hstep, Option.any_some, Bool.and_eq_true]
    cases hcall : start.losslessCall call with
    | true => simpa using ih (hconserved.step hcall hstep) hrest
    | false =>
      have hshort := short_of_execute (hconserved.short hcall hstep) hrest
      refine ⟨fun hfinal ↦ ?_, fun hfalse ↦ absurd hfalse.1 (by simp)⟩
      exact absurd (congrArg List.length hfinal) hshort.ne

end TelemetryRun

open TelemetryRun

/-- The name `a` is queued, then the name `b`, and a buffer with room for one sample is filled: the
sample `b` is neither copied out nor still queued. -/
theorem conserved_fails : ∃ run : TelemetryRun,
    TelemetryRun.system.execute (.initial 2 (by decide))
      [.record (some [97]) 0 1, .record (some [98]) 0 2, .flushTo (some sampleBytes)] = some run ∧
    run.accepted = [⟨[97], 0, 1⟩, ⟨[98], 0, 2⟩] ∧ run.kept = [⟨[97], 0, 1⟩] ∧ ¬ run.Conserved := by
  refine ⟨_, rfl, by decide, by decide, ?_⟩
  unfold Conserved
  decide

/-- After every sequence of calls on a collector of every capacity, the metrics copied out and those
still queued are, in order, the metrics whose `record` returned true if and only if every `flush_to`
found nothing queued, a buffer that is null or smaller than one sample, or a buffer with room for
all queued samples. A `record` is refused only when exactly as many samples are queued as the
collector has room for, and then changes nothing. -/
theorem conserved_iff {capacity : ℕ} {hfits : max capacity 1 * sampleBytes < word64}
    {calls : List TelemetryCall} {run : TelemetryRun}
    (hexecute : TelemetryRun.system.execute (.initial capacity hfits) calls = some run) :
    (run.Conserved ↔
      TelemetryRun.system.allowed losslessCall (.initial capacity hfits) calls = true) ∧
    ∀ name value timestampUs, (run.collector.record name value timestampUs).2 = false →
      run.collector.queued.length = max capacity 1 ∧
        (run.collector.record name value timestampUs).1 = run.collector := by
  have hinitial : (initial capacity hfits).Conserved := rfl
  have hcapacity : run.collector.capacity = max capacity 1 := by
    refine (TransitionSystem.Reaches.ofSchedule hexecute).invariant List.length_replicate ?_
    exact fun state call next h _ hstep ↦ (capacity_step hstep).trans h
  refine ⟨hinitial.execute_iff hexecute, fun name value timestampUs hrefused ↦ ?_⟩
  obtain ⟨hfull, hsame⟩ := MetricsCollector.record_refused hrefused
  exact ⟨hfull.trans hcapacity, hsame⟩

/-- The theorem at a run in which a buffer too small for one sample is filled, then one with room
for more than the two samples queued, and a third metric is queued. -/
theorem conserved_iff_flushed : ∃ run : TelemetryRun, run.Conserved ∧
    run.accepted = [⟨[97], 0, 1⟩, ⟨[98], 0, 2⟩, ⟨[], 7, 3⟩] ∧ run.delivered.length = 2 := by
  have hrun : TelemetryRun.system.execute (.initial 2 (by decide))
      [.record (some [97]) 0 1, .flushTo (some 47), .record (some [98, 0, 99]) 0 2,
        .flushTo (some 100), .flushTo none, .record none 7 3] = some _ := rfl
  exact ⟨_, (conserved_iff hrun).1.mpr (by decide), by decide, by decide⟩

end GameEngine.Telemetry
