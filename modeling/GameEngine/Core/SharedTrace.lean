import GameEngine.Core.SharedProfiler
import GameEngine.Core.TraceDocument

/-!
# The trace of concurrent calls

`SharedProfiler.sequential` records what the log of a run lists, one event after the other, as if
the calls had not overlapped, with the numbers that the run has given to the threads. When all calls
have returned, both profilers write the same trace (`trace_linearizable`): nothing of the
interleaving is left in it but the order of the log. So a reader finds the events of the log in the
trace (`shared_trace_document`).

`Lists` says that a profiler has the events of a log, and `chromeTrace_congr` that these, the
numbers of the threads and the samples of the cache determine the trace.
-/

set_option autoImplicit false
set_option relaxedAutoImplicit false

namespace GameEngine.Core

open GameEngine.Library GameEngine.Library.MachineWord GameEngine.Library.Json

/-! ### Profilers with the same events -/

namespace Profiler

variable {Thread : Type} {p q : Profiler Thread} {log : List (Thread × EventRecord)}

/-- A profiler has the events of a log: the first ones in its table, and the number of the others.
-/
structure Lists (p : Profiler Thread) (log : List (Thread × EventRecord)) : Prop where
  write_eq : p.write.toNat = log.length
  shows : ∀ slot thread record, slot < kCapacity.toNat → log[slot]? = some (thread, record) →
    ∀ field, p.Shows slot thread record field
  dropped_eq : p.dropped.toNat = log.length - kCapacity.toNat

/-- The threads that a profiler has numbered have the same numbers in another one. -/
def Numbers (p q : Profiler Thread) : Prop :=
  ∀ thread id, p.threadIds thread = some id → q.threadIds thread = some id

theorem Lists.eventCount_eq (hlists : p.Lists log) :
    p.eventCount = min log.length kCapacity.toNat := by
  have hlt : p.write < kCapacity ↔ log.length < kCapacity.toNat := by
    rw [← hlists.write_eq, UInt64.lt_iff_toNat_lt]
  unfold eventCount
  split_ifs with hroom
  · rw [hlt] at hroom
    rw [hlists.write_eq, min_eq_left hroom.le]
  · rw [hlt] at hroom
    rw [min_eq_right (not_lt.mp hroom)]

/-- The events in a slot of two profilers show the same. -/
theorem Lists.event_eq (hp : p.Lists log) (hq : q.Lists log) (hnumbers : p.Numbers q) {slot : ℕ}
    (hslot : slot < min log.length kCapacity.toNat) :
    (p.events slot).line = (q.events slot).line ∧ (p.events slot).tid = (q.events slot).tid ∧
      (p.events slot).tsUs = (q.events slot).tsUs := by
  obtain ⟨hlength, hroom⟩ := lt_min_iff.mp hslot
  have hentry := List.getElem?_eq_getElem hlength
  have hshows := hp.shows slot _ _ hroom hentry
  have hshows' := hq.shows slot _ _ hroom hentry
  have hname := (hshows .name).trans (hshows' .name).symm
  have hcategory := (hshows .category).trans (hshows' .category).symm
  have hphase : (p.events slot).phase = (q.events slot).phase :=
    (hshows .phase).trans (hshows' .phase).symm
  have htsUs : (p.events slot).tsUs = (q.events slot).tsUs :=
    (hshows .tsUs).trans (hshows' .tsUs).symm
  have hdurUs : (p.events slot).durUs = (q.events slot).durUs :=
    (hshows .durUs).trans (hshows' .durUs).symm
  have hcounter : (p.events slot).counter = (q.events slot).counter :=
    (hshows .counter).trans (hshows' .counter).symm
  have htid : (p.events slot).tid = (q.events slot).tid :=
    Option.some.inj ((hnumbers _ _ (hshows .tid)).symm.trans (hshows' .tid))
  refine ⟨?_, htid, htsUs⟩
  simp only [Event.line, hname, hcategory, hphase, htsUs, hdurUs, htid, hcounter]

/-- The events, the numbers of the threads and the samples of the cache determine the trace. -/
theorem chromeTrace_congr (hp : p.Lists log) (hq : q.Lists log) (hnumbers : p.Numbers q)
    (hhits : p.cacheHits = q.cacheHits) (hmisses : p.cacheMisses = q.cacheMisses) (nowUs : UInt64) :
    p.chromeTrace nowUs = q.chromeTrace nowUs := by
  have hcount : p.eventCount = q.eventCount := hp.eventCount_eq.trans hq.eventCount_eq.symm
  have hevents : ∀ slot < q.eventCount, (p.events slot).line = (q.events slot).line ∧
      (p.events slot).tid = (q.events slot).tid ∧ (p.events slot).tsUs = (q.events slot).tsUs :=
    fun slot hslot ↦ hp.event_eq hq hnumbers (hq.eventCount_eq ▸ hslot)
  have hlines : p.recordedEvents.map Event.line = q.recordedEvents.map Event.line := by
    rw [recordedEvents, recordedEvents, hcount, List.map_map, List.map_map]
    exact List.map_congr_left fun slot hslot ↦ (hevents slot (List.mem_range.mp hslot)).1
  have htids : p.recordedEvents.map Event.tid = q.recordedEvents.map Event.tid := by
    rw [recordedEvents, recordedEvents, hcount, List.map_map, List.map_map]
    exact List.map_congr_left fun slot hslot ↦ (hevents slot (List.mem_range.mp hslot)).2.1
  have hend : p.endTs nowUs = q.endTs nowUs := by
    unfold endTs
    rw [hcount]
    split_ifs with hzero
    · rfl
    · exact (hevents _ (by omega)).2.2
  have hdropped : p.dropped = q.dropped :=
    UInt64.toNat_inj.mp (hp.dropped_eq.trans hq.dropped_eq.symm)
  rw [chromeTrace_eq, chromeTrace_eq, traceLines, traceLines, threadIdsShown, threadIdsShown,
    hlines, htids, hend, hhits, hmisses, hdropped]

/-- What all events of the table have, in terms of the log. -/
theorem Lists.forall_recordedEvents_iff (hlists : p.Lists log) {property : Event → Prop}
    (recorded : EventRecord → Prop)
    (hsame : ∀ slot thread record, (∀ field, p.Shows slot thread record field) →
      (property (p.events slot) ↔ recorded record)) :
    (∀ e ∈ p.recordedEvents, property e) ↔
      ∀ entry ∈ log.take kCapacity.toNat, recorded entry.2 := by
  simp only [recordedEvents, List.forall_mem_map, List.mem_range, hlists.eventCount_eq]
  constructor
  · intro hall entry hentry
    obtain ⟨slot, hslot, rfl⟩ := List.mem_take_iff_getElem.mp hentry
    obtain ⟨hroom, hlength⟩ := lt_min_iff.mp hslot
    exact (hsame slot _ _ (hlists.shows slot _ _ hroom (List.getElem?_eq_getElem hlength))).mp
      (hall slot (lt_min hlength hroom))
  · intro hall slot hslot
    obtain ⟨hlength, hroom⟩ := lt_min_iff.mp hslot
    exact (hsame slot _ _ (hlists.shows slot _ _ hroom (List.getElem?_eq_getElem hlength))).mpr
      (hall _ (List.mem_take_iff_getElem.mpr ⟨slot, lt_min hroom hlength, rfl⟩))

/-! ### One event after the other -/

variable [DecidableEq Thread]

/-- Records an entry of a log. -/
def recordEntry (p : Profiler Thread) (entry : Thread × EventRecord) : Profiler Thread :=
  p.record entry.1 entry.2.name entry.2.category entry.2.phase entry.2.tsUs entry.2.durUs
    entry.2.counter

/-- A recorded event shows what was recorded. -/
theorem shows_store (p : Profiler Thread) (slot : ℕ) (thread : Thread) (record : EventRecord)
    (field : EventField) : (p.store slot thread record.name record.category record.phase record.tsUs
      record.durUs record.counter).Shows slot thread record field := by
  unfold Shows store
  dsimp only
  rw [Function.update_self]
  cases field with
  | name => exact cString_copyCstr (p.events slot).length_name record.name
  | category => exact cString_copyCstr (p.events slot).length_category record.category
  | tid => exact (p.threadIds_threadId thread).1
  | _ => rfl

/-- An entry is recorded. -/
theorem Lists.recordEntry (hlists : p.Lists log) (entry : Thread × EventRecord)
    (hroom : log.length + 1 < word64) :
    (p.recordEntry entry).Lists (log ++ [entry]) ∧ p.Numbers (p.recordEntry entry) ∧
      (p.recordEntry entry).cacheHits = p.cacheHits ∧
      (p.recordEntry entry).cacheMisses = p.cacheMisses := by
  obtain ⟨thread, record⟩ := entry
  obtain ⟨hwrite, hshows, hdropped⟩ := hlists
  rw [word64] at hroom
  have hnext : (p.write + 1).toNat = (log ++ [(thread, record)]).length := by
    rw [UInt64.toNat_add, UInt64.toNat_one, hwrite, List.length_append, List.length_singleton,
      Nat.mod_eq_of_lt hroom]
  have hcapacity : kCapacity ≤ p.write ↔ kCapacity.toNat ≤ log.length := by
    rw [← hwrite, UInt64.le_iff_toNat_le]
  have hold : ∀ slot other written, slot < log.length →
      (log ++ [(thread, record)])[slot]? = some (other, written) →
        log[slot]? = some (other, written) := by
    intro slot other written hslot hentry
    rwa [List.getElem?_append_left hslot] at hentry
  have hlast : ∀ slot other written, ¬ slot < log.length →
      (log ++ [(thread, record)])[slot]? = some (other, written) →
        slot = log.length ∧ other = thread ∧ written = record := by
    intro slot other written hslot hentry
    obtain ⟨hlt, -⟩ := List.getElem?_eq_some_iff.mp hentry
    rw [List.length_append, List.length_singleton] at hlt
    obtain rfl : slot = log.length := by omega
    rw [List.getElem?_concat_length, Option.some.injEq, Prod.mk.injEq] at hentry
    exact ⟨rfl, hentry.1.symm, hentry.2.symm⟩
  by_cases hfull : kCapacity ≤ p.write
  · have hrecord : p.recordEntry (thread, record) =
        { p with write := p.write + 1, dropped := p.dropped + 1 } := if_pos hfull
    rw [hcapacity] at hfull
    have hcapacityLt : 0 < kCapacity.toNat := by decide
    rw [hrecord]
    refine ⟨⟨hnext, fun slot other written hslot hentry ↦ ?_, ?_⟩, fun _ _ hid ↦ hid, rfl, rfl⟩
    · exact fun field ↦ (hshows slot other written hslot
        (hold slot other written (hslot.trans_le hfull) hentry) field).congr rfl fun _ hid ↦ hid
    · change (p.dropped + 1).toNat = _
      rw [UInt64.toNat_add, UInt64.toNat_one, hdropped, List.length_append, List.length_singleton,
        Nat.mod_eq_of_lt (by omega)]
      omega
  · have hrecord : p.recordEntry (thread, record) = store { p with write := p.write + 1 }
        p.write.toNat thread record.name record.category record.phase record.tsUs record.durUs
          record.counter := if_neg hfull
    rw [hcapacity] at hfull
    have hsame : ∀ {r : Profiler Thread}, r = store { p with write := p.write + 1 } p.write.toNat
        thread record.name record.category record.phase record.tsUs record.durUs record.counter →
          r.write = p.write + 1 ∧ r.dropped = p.dropped ∧ r.cacheHits = p.cacheHits ∧
            r.cacheMisses = p.cacheMisses := by
      rintro r rfl
      simp only [store, threadId]
      cases p.threadIds thread <;> exact ⟨rfl, rfl, rfl, rfl⟩
    obtain ⟨hsameWrite, hsameDropped, hsameHits, hsameMisses⟩ := hsame rfl
    have hnumbers : p.Numbers (store { p with write := p.write + 1 } p.write.toNat thread
        record.name record.category record.phase record.tsUs record.durUs record.counter) :=
      fun other id hid ↦ (threadIds_threadId { p with write := p.write + 1 } thread).2 other id hid
    rw [hrecord]
    refine ⟨⟨?_, fun slot other written hslot hentry field ↦ ?_, ?_⟩, hnumbers, hsameHits,
      hsameMisses⟩
    · rw [hsameWrite]
      exact hnext
    · by_cases hlt : slot < log.length
      · refine (hshows slot other written hslot (hold slot other written hlt hentry) field).congr
          (Function.update_of_ne ?_ _ _) (hnumbers other)
        rw [hwrite]
        exact hlt.ne
      · obtain ⟨rfl, rfl, rfl⟩ := hlast slot other written hlt hentry
        rw [← hwrite]
        exact shows_store _ _ _ _ _
    · rw [hsameDropped, hdropped, List.length_append, List.length_singleton]
      omega

/-- The entries of a log are recorded one after the other. -/
theorem Lists.foldl (hlists : p.Lists []) (log : List (Thread × EventRecord))
    (hroom : log.length < word64) :
    (log.foldl Profiler.recordEntry p).Lists log ∧
      p.Numbers (log.foldl Profiler.recordEntry p) ∧
      (log.foldl Profiler.recordEntry p).cacheHits = p.cacheHits ∧
      (log.foldl Profiler.recordEntry p).cacheMisses = p.cacheMisses := by
  induction log using List.reverseRecOn with
  | nil => exact ⟨hlists, fun _ _ hid ↦ hid, rfl, rfl⟩
  | append_singleton log entry ih =>
    rw [List.length_append, List.length_singleton] at hroom
    obtain ⟨hbefore, hnumbers, hhits, hmisses⟩ := ih (by omega)
    obtain ⟨hafter, hnumbers', hhits', hmisses'⟩ := hbefore.recordEntry entry hroom
    rw [List.foldl_concat]
    exact ⟨hafter, fun thread id hid ↦ hnumbers' thread id (hnumbers thread id hid),
      hhits'.trans hhits, hmisses'.trans hmisses⟩

end Profiler

/-! ### What a run leaves -/

/-- The bytes of the name and of the category of a record are ASCII. -/
def EventRecord.IsAscii (record : EventRecord) : Prop :=
  IsAsciiText (Telemetry.cString (record.name.getD [])) ∧
    IsAsciiText (Telemetry.cString (record.category.getD []))

/-- What an event keeps of a name and of a category may stand in a trace. -/
def EventRecord.IsReadable (record : EventRecord) : Prop :=
  Escapable ((Telemetry.cString (record.name.getD [])).take (Profiler.nameBytes - 1)) ∧
    Escapable ((Telemetry.cString (record.category.getD [])).take (Profiler.categoryBytes - 1))

instance (record : EventRecord) : Decidable record.IsReadable := inferInstanceAs (Decidable (_ ∧ _))

instance (record : EventRecord) : Decidable record.IsAscii := inferInstanceAs (Decidable (_ ∧ _))

namespace SharedProfiler

variable {Thread : Type} [DecidableEq Thread] {s : SharedProfiler Thread}

/-- A profiler without events that has the numbers of the threads and the samples of a run. -/
def unrecorded (s : SharedProfiler Thread) : Profiler Thread :=
  { (Profiler.new : Profiler Thread) with
    cacheHits := .ofNat (s.samples.count true)
    cacheMisses := .ofNat (s.samples.count false)
    nextThreadId := s.profiler.nextThreadId
    threadIds := s.profiler.threadIds }

/-- What a run has recorded, recorded one event after the other. -/
def sequential (s : SharedProfiler Thread) : Profiler Thread :=
  s.log.foldl Profiler.recordEntry s.unrecorded

variable [Fintype Thread]

/-- When all calls have returned, the profiler has the events of the log. -/
theorem lists_log (hthreads : Fintype.card Thread + 1 < word32)
    (hreach : system.Reaches Permitted new s) (hquiet : ∀ thread, s.calls thread = none) :
    s.profiler.Lists s.log ∧ s.sequential.Lists s.log ∧ s.profiler.Numbers s.sequential ∧
      s.profiler.cacheHits = s.sequential.cacheHits ∧
      s.profiler.cacheMisses = s.sequential.cacheMisses := by
  obtain ⟨hconsistent, hcounted, -⟩ := invariant hthreads hreach
  have hroom : s.log.length < word64 := by
    rw [← hconsistent.write_eq]
    exact s.profiler.write.toNat_lt
  have hstart : s.unrecorded.Lists [] := ⟨rfl, fun _ _ _ _ hentry ↦ (by cases hentry),
    (Nat.zero_sub _).symm⟩
  obtain ⟨hlists, hnumbers, hhits, hmisses⟩ := hstart.foldl s.log hroom
  refine ⟨⟨hconsistent.write_eq, fun slot thread record hslot hentry ↦ ?_, ?_⟩, hlists, hnumbers,
    hcounted.hits_eq.trans hhits.symm, hcounted.misses_eq.trans hmisses.symm⟩
  · rcases hconsistent.whole slot thread record hslot hentry with hall | ⟨field, hcall⟩
    · exact hall
    · rw [hquiet thread] at hcall
      cases hcall
  · have hnone : s.dropping = ∅ := Finset.filter_false_of_mem fun thread _ ↦ by
      rw [hquiet thread]
      simp
    have hdropped := hcounted.dropped_eq
    rwa [hnone, Finset.card_empty, Nat.add_zero] at hdropped

/-- When all calls have returned, the trace is the one of the same events recorded one after the
other, in the order of the log, whatever the order of the steps was. Assumes: fewer than `2 ^ 32`
numbers of threads. -/
theorem trace_linearizable (hthreads : Fintype.card Thread + 1 < word32)
    (hreach : system.Reaches Permitted new s) (hquiet : ∀ thread, s.calls thread = none)
    (nowUs : UInt64) : s.profiler.chromeTrace nowUs = s.sequential.chromeTrace nowUs := by
  obtain ⟨hp, hq, hnumbers, hhits, hmisses⟩ := lists_log hthreads hreach hquiet
  exact Profiler.chromeTrace_congr hp hq hnumbers hhits hmisses nowUs

/-- The steps of two threads that record at the same time, a span and a counter. -/
def overlapping : List (SharedAction Bool) :=
  [.call (.recordSpan false (some (ascii "a")) (some (ascii "cpu")) 3 7),
    .call (.recordAllocator true (some (ascii "b")) 64 5)] ++
  (List.replicate 7 [.advance true, .advance false]).flatten

theorem reaches_overlapping : ∃ s : SharedProfiler Bool, system.Reaches Permitted new s ∧
    s.log.map Prod.fst = [false, true] ∧ (∀ thread, s.calls thread = none) ∧
      ∀ entry ∈ s.log, entry.2.IsAscii := by
  obtain ⟨s, hreach, hs⟩ := TransitionSystem.Reaches.exists_of_any system new overlapping permits
    (fun s ↦ s.log.map Prod.fst = [false, true] ∧ (∀ thread, s.calls thread = none) ∧
      ∀ entry ∈ s.log, entry.2.IsAscii)
    (fun _ _ ↦ permitted_of_permits) (by decide +kernel) (by decide +kernel)
  exact ⟨s, hreach, of_decide_eq_true hs⟩

/-- The theorem at two threads that record at the same time. -/
theorem trace_linearizable_overlapping : ∃ s : SharedProfiler Bool,
    s.log.map Prod.fst = [false, true] ∧
      s.profiler.chromeTrace 9 = s.sequential.chromeTrace 9 := by
  obtain ⟨s, hreach, hlog, hquiet, -⟩ := reaches_overlapping
  exact ⟨s, hlog, trace_linearizable (by decide) hreach hquiet 9⟩

/-- When all calls have returned, a reader finds in the trace of ASCII texts what the log lists, one
event after the other, if all its kept texts may stand in a trace, and else no document. -/
theorem shared_trace_document (hthreads : Fintype.card Thread + 1 < word32)
    (hreach : system.Reaches Permitted new s) (hquiet : ∀ thread, s.calls thread = none)
    (hascii : ∀ entry ∈ s.log, entry.2.IsAscii) (nowUs : UInt64) :
    readDocument (codes (s.profiler.chromeTrace nowUs)) =
      if ∀ entry ∈ s.log.take Profiler.kCapacity.toNat, entry.2.IsReadable
      then some (s.sequential.traceValue nowUs) else none := by
  obtain ⟨hp, hq, hnumbers, hhits, hmisses⟩ := lists_log hthreads hreach hquiet
  have hevents := (invariant hthreads hreach).1.events
  rw [Profiler.chromeTrace_congr hp hq hnumbers hhits hmisses,
    Profiler.readDocument_chromeTrace nowUs ?_]
  · refine if_congr (hq.forall_recordedEvents_iff EventRecord.IsReadable
      fun slot thread record hshows ↦ ?_) rfl rfl
    rw [Profiler.Event.IsReadable, show Telemetry.cString _ = _ from hshows .name,
      show Telemetry.cString _ = _ from hshows .category]
    rfl
  · refine (hq.forall_recordedEvents_iff (fun record ↦ record.IsEvent ∧
      IsAsciiText ((Telemetry.cString (record.name.getD [])).take (Profiler.nameBytes - 1)) ∧
        IsAsciiText ((Telemetry.cString (record.category.getD [])).take
          (Profiler.categoryBytes - 1))) fun slot thread record hshows ↦ ?_).mpr ?_
    · rw [Profiler.Event.IsAscii, show Telemetry.cString _ = _ from hshows .name,
        show Telemetry.cString _ = _ from hshows .category, Profiler.Event.IsRecorded,
        show Profiler.Event.phase _ = _ from hshows .phase]
      rfl
    · intro entry hentry
      have hmem := List.mem_of_mem_take hentry
      obtain ⟨hname, hcategory⟩ := hascii entry hmem
      exact ⟨hevents entry hmem, fun byte hbyte ↦ hname byte (List.mem_of_mem_take hbyte),
        fun byte hbyte ↦ hcategory byte (List.mem_of_mem_take hbyte)⟩

/-- The theorem at two threads that record at the same time. -/
theorem shared_trace_document_overlapping : ∃ s : SharedProfiler Bool,
    s.log.map Prod.fst = [false, true] ∧
      readDocument (codes (s.profiler.chromeTrace 9)) =
        if ∀ entry ∈ s.log.take Profiler.kCapacity.toNat, entry.2.IsReadable
        then some (s.sequential.traceValue 9) else none := by
  obtain ⟨s, hreach, hlog, hquiet, hascii⟩ := reaches_overlapping
  exact ⟨s, hlog, shared_trace_document (by decide) hreach hquiet hascii 9⟩

end SharedProfiler

end GameEngine.Core
