import GameEngine.Core.Profiler
import GameEngine.Library.CallTable
import GameEngine.Library.MachineWord
import GameEngine.Library.Placement
import GameEngine.Library.TransitionSystem
import Mathlib.Data.Fintype.Card

/-!
# The profiler under concurrent calls

The client and the workers record into one profiler. Its counters are atomic, but the table of
events is not: `record_span` and `record_allocator` take a slot with one `fetch_add` of `write_` and
then write the fields of the event one after the other, while other threads are half way through
theirs.

`SharedProfiler` is the profiler with the calls in progress, and `SharedProfiler.step` one atomic
step. `log` lists what has been recorded since the last `reset`, in the order of the `fetch_add`s.
`Consistent` is the invariant of the table: a slot is written by the call that took it only, and an
event whose call is over has all fields of its record. `recording_correct` says what holds in every
state of every run.

What the clock says is an argument of the call that reads it. `reset` is called when no other call
is in progress, and fewer than `2 ^ 64` events are recorded between two resets.
-/

set_option autoImplicit false
set_option relaxedAutoImplicit false

namespace GameEngine.Core

open GameEngine.Library MachineWord

/-! ### Steps -/

/-- What `record_span` and `record_allocator` write to an event. -/
structure EventRecord where
  name : Option Text
  category : Option Text
  phase : UInt8
  tsUs : UInt64
  durUs : UInt64
  counter : UInt64
deriving DecidableEq

/-- The fields of an event, in the order in which they are written. -/
inductive EventField
  | name
  | category
  | phase
  | tsUs
  | durUs
  | tid
  | counter
deriving DecidableEq

/-- The field that is written after a field. -/
def EventField.next : EventField → Option EventField
  | .name => some .category
  | .category => some .phase
  | .phase => some .tsUs
  | .tsUs => some .durUs
  | .durUs => some .tid
  | .tid => some .counter
  | .counter => none

namespace Profiler

variable {Thread : Type}

/-- Writes a field of an event. -/
def Event.setField (e : Event) (record : EventRecord) (tid : UInt32) : EventField → Event
  | .name => { e with
      name := copyCstr e.name record.name
      length_name := (length_copyCstr _ _).trans e.length_name }
  | .category => { e with
      category := copyCstr e.category record.category
      length_category := (length_copyCstr _ _).trans e.length_category }
  | .phase => { e with phase := record.phase }
  | .tsUs => { e with tsUs := record.tsUs }
  | .durUs => { e with durUs := record.durUs }
  | .tid => { e with tid := tid }
  | .counter => { e with counter := record.counter }

variable [DecidableEq Thread]

/-- The number of the thread, if it is what a field is to have. -/
def numberFor (p : Profiler Thread) (thread : Thread) : EventField → UInt32 × Profiler Thread
  | .tid => p.threadId thread
  | _ => (0, p)

/-- Writes a field of the event in a slot. -/
def writeField (p : Profiler Thread) (slot : ℕ) (thread : Thread) (record : EventRecord)
    (field : EventField) : Profiler Thread :=
  let numbered := p.numberFor thread field
  { numbered.2 with
    events := Function.update p.events slot ((p.events slot).setField record numbered.1 field) }

end Profiler

/-- What a call in progress does next: it counts a dropped event, writes a field, stores the length
of the frame that it ends, or takes a slot for the span of that frame. -/
inductive SharedCall
  | dropping
  | writing (slot : ℕ) (record : EventRecord) (field : EventField)
  | framing (startUs nowUs : UInt64)
  | claiming (startUs nowUs : UInt64)
deriving DecidableEq

/-- The profiler, the calls in progress, what has been recorded since the last `reset`, in the order
in which it took its slots, and the samples of the cache. -/
structure SharedProfiler (Thread : Type) where
  profiler : Profiler Thread
  calls : CallTable Thread SharedCall
  log : List (Thread × EventRecord)
  samples : List Bool

/-- A thread starts a call, with its first step, or does the next step of the call that it is in. -/
inductive SharedAction (Thread : Type)
  | call (call : ProfilerCall Thread)
  | advance (thread : Thread)

namespace SharedProfiler

variable {Thread : Type}

/-- A new profiler. -/
def new : SharedProfiler Thread where
  profiler := .new
  calls := CallTable.idle
  log := []
  samples := []

variable [DecidableEq Thread]

/-- The `fetch_add` of `write_`. -/
def claim (s : SharedProfiler Thread) (thread : Thread) (record : EventRecord) :
    SharedProfiler Thread where
  profiler := { s.profiler with write := s.profiler.write + 1 }
  calls := Function.update s.calls thread (some
    (if Profiler.kCapacity ≤ s.profiler.write then .dropping
    else .writing s.profiler.write.toNat record .name))
  log := s.log ++ [(thread, record)]
  samples := s.samples

/-- The record of the span of a frame. -/
def frameRecord (startUs nowUs : UInt64) : EventRecord where
  name := some (ascii "frame")
  category := some (ascii "cpu")
  phase := Profiler.spanPhase
  tsUs := startUs
  durUs := Profiler.duration startUs nowUs
  counter := 0

/-- The next step of a call. -/
def advance (s : SharedProfiler Thread) (thread : Thread) : SharedCall → SharedProfiler Thread
  | .dropping => { s with
      profiler := { s.profiler with dropped := s.profiler.dropped + 1 }
      calls := Function.update s.calls thread none }
  | .writing slot record field => { s with
      profiler := s.profiler.writeField slot thread record field
      calls := Function.update s.calls thread (field.next.map (.writing slot record)) }
  | .framing startUs nowUs => { s with
      profiler := { s.profiler with lastFrameUs := Profiler.duration startUs nowUs }
      calls := Function.update s.calls thread (some (.claiming startUs nowUs)) }
  | .claiming startUs nowUs => s.claim thread (frameRecord startUs nowUs)

/-- One step. -/
def step (s : SharedProfiler Thread) : SharedAction Thread → Option (SharedProfiler Thread)
  | .call (.recordSpan thread name category startUs endUs) =>
    if s.calls thread = none then
      some (s.claim thread
        ⟨name, category, Profiler.spanPhase, startUs, Profiler.duration startUs endUs, 0⟩)
    else none
  | .call (.recordAllocator thread name bytes nowUs) =>
    if s.calls thread = none then
      some (s.claim thread
        ⟨name, some (ascii "memory"), Profiler.counterPhase, nowUs, 0, bytes⟩)
    else none
  | .call (.recordCacheSample hit) =>
    some { s with
      profiler := s.profiler.recordCacheSample hit
      samples := s.samples ++ [hit] }
  | .call (.beginFrame nowUs) => some { s with profiler := s.profiler.beginFrame nowUs }
  | .call (.endFrame thread nowUs) =>
    if s.calls thread = none then
      some { s with
        calls := Function.update s.calls thread (some (.framing s.profiler.frameStartUs nowUs)) }
    else none
  | .call .reset => some { s with profiler := s.profiler.reset, log := [], samples := [] }
  | .advance thread => (s.calls thread).map (s.advance thread)

/-- The steps of the threads, in any order. -/
def system : TransitionSystem (SharedProfiler Thread) (SharedAction Thread) := ⟨step⟩

/-- `reset` is called between other calls, and the counter of the events does not wrap. -/
def Permitted (s : SharedProfiler Thread) (action : SharedAction Thread) : Prop :=
  (action = .call .reset → ∀ thread, s.calls thread = none) ∧ s.log.length + 1 < word64

end SharedProfiler

/-! ### Events half way through -/

/-- The number of fields that are written before a field. -/
def EventField.position : EventField → ℕ
  | .name => 0
  | .category => 1
  | .phase => 2
  | .tsUs => 3
  | .durUs => 4
  | .tid => 5
  | .counter => 6

theorem EventField.position_next {field next : EventField} (hnext : field.next = some next) :
    next.position = field.position + 1 := by
  cases field <;> cases hnext <;> rfl

theorem EventField.position_le (field : EventField) : field.position ≤ 6 := by
  cases field <;> decide

theorem EventField.position_of_next_eq_none {field : EventField} (hnext : field.next = none) :
    field.position = 6 := by
  cases field <;> first | rfl | cases hnext

theorem EventField.position_injective : Function.Injective EventField.position := by
  intro first second hposition
  cases first <;> cases second <;> first | rfl | cases hposition

namespace Profiler

variable {Thread : Type}

/-- A field of an event has what a thread records. A text is cut to its array. -/
def Shows (p : Profiler Thread) (slot : ℕ) (thread : Thread) (record : EventRecord) :
    EventField → Prop
  | .name => Telemetry.cString (p.events slot).name =
      (Telemetry.cString (record.name.getD [])).take (nameBytes - 1)
  | .category => Telemetry.cString (p.events slot).category =
      (Telemetry.cString (record.category.getD [])).take (categoryBytes - 1)
  | .phase => (p.events slot).phase = record.phase
  | .tsUs => (p.events slot).tsUs = record.tsUs
  | .durUs => (p.events slot).durUs = record.durUs
  | .tid => p.threadIds thread = some (p.events slot).tid
  | .counter => (p.events slot).counter = record.counter

/-- What a field has depends on the event and on the number of the thread only. -/
theorem Shows.congr {p p' : Profiler Thread} {slot : ℕ} {thread : Thread} {record : EventRecord}
    {field : EventField} (hshows : p.Shows slot thread record field)
    (hevents : p'.events slot = p.events slot)
    (hids : ∀ id, p.threadIds thread = some id → p'.threadIds thread = some id) :
    p'.Shows slot thread record field := by
  unfold Shows at hshows ⊢
  rw [hevents]
  cases field with
  | tid => exact hids _ hshows
  | _ => exact hshows

variable [DecidableEq Thread]

/-- `thread_id` gives the thread its number, and all others keep theirs. -/
theorem threadIds_threadId (p : Profiler Thread) (thread : Thread) :
    (p.threadId thread).2.threadIds thread = some (p.threadId thread).1 ∧
      ∀ other id, p.threadIds other = some id →
        (p.threadId thread).2.threadIds other = some id := by
  unfold threadId
  cases hthread : p.threadIds thread with
  | some id => exact ⟨hthread, fun other id' hother ↦ hother⟩
  | none =>
    refine ⟨Function.update_self .., fun other id hother ↦ ?_⟩
    have hne : other ≠ thread := by
      rintro rfl
      rw [hthread] at hother
      cases hother
    exact (Function.update_of_ne hne _ _).trans hother

/-- A written field has what the thread records. -/
theorem shows_writeField (p : Profiler Thread) (slot : ℕ) (thread : Thread) (record : EventRecord)
    (field : EventField) :
    (p.writeField slot thread record field).Shows slot thread record field := by
  unfold Shows writeField
  dsimp only
  rw [Function.update_self]
  cases field with
  | name => exact cString_copyCstr (p.events slot).length_name record.name
  | category => exact cString_copyCstr (p.events slot).length_category record.category
  | tid => exact (p.threadIds_threadId thread).1
  | _ => rfl

theorem threadIds_writeField {p : Profiler Thread} {other : Thread} {id : UInt32}
    (hid : p.threadIds other = some id) (slot : ℕ) (thread : Thread) (record : EventRecord)
    (field : EventField) : (p.writeField slot thread record field).threadIds other = some id := by
  cases field with
  | tid => exact (p.threadIds_threadId thread).2 other id hid
  | _ => exact hid

/-- The other fields of the event keep what they have. -/
theorem Shows.writeField {p : Profiler Thread} {slot : ℕ} {thread : Thread} {record : EventRecord}
    {field : EventField} (hshows : p.Shows slot thread record field) {other : EventField}
    (hother : other ≠ field) :
    (p.writeField slot thread record other).Shows slot thread record field := by
  have hids := fun id (hid : p.threadIds thread = some id) ↦
    threadIds_writeField hid slot thread record other
  unfold Shows at hshows ⊢
  have hevent : (p.writeField slot thread record other).events slot =
      (p.events slot).setField record (p.numberFor thread other).1 other := Function.update_self ..
  rw [hevent]
  cases field with
  | tid =>
    rw [hids _ hshows]
    cases other <;> first | rfl | exact absurd rfl hother
  | _ => cases other <;> first | exact hshows | exact absurd rfl hother

/-- The events in the other slots keep what they have. -/
theorem Shows.writeField_of_ne {p : Profiler Thread} {slot : ℕ} {thread : Thread}
    {record : EventRecord} {field : EventField} (hshows : p.Shows slot thread record field)
    {other : ℕ} (hother : slot ≠ other)
    (writer : Thread) (written : EventRecord) (next : EventField) :
    (p.writeField other writer written next).Shows slot thread record field :=
  hshows.congr (Function.update_of_ne hother _ _)
    fun _ hid ↦ threadIds_writeField hid other writer written next

end Profiler

/-! ### What a step does -/

/-- A record of a span or of a counter. -/
def EventRecord.IsEvent (record : EventRecord) : Prop :=
  record.phase = Profiler.spanPhase ∨ record.phase = Profiler.counterPhase

namespace SharedProfiler

variable {Thread : Type} [DecidableEq Thread] {s s' : SharedProfiler Thread}

/-- A call that holds no slot and has no event to count. -/
def IsFree : Option SharedCall → Prop
  | none | some (.framing _ _) | some (.claiming _ _) => True
  | some .dropping | some (.writing _ _ _) => False

/-- What a step can do: take a slot, write a field, count a dropped event, go on with the end of a
frame, begin a frame, count a sample, or reset the profiler between all calls. -/
inductive Moves (s : SharedProfiler Thread) : SharedProfiler Thread → Prop
  | claim {thread : Thread} {record : EventRecord} (hfree : IsFree (s.calls thread))
    (hevent : record.IsEvent) (hroom : s.log.length + 1 < word64) : Moves s (s.claim thread record)
  | write {thread : Thread} {slot : ℕ} {record : EventRecord} {field : EventField}
    (hcall : s.calls thread = some (.writing slot record field)) :
    Moves s (s.advance thread (.writing slot record field))
  | drop {thread : Thread} (hcall : s.calls thread = some .dropping) :
    Moves s (s.advance thread .dropping)
  | frame {thread : Thread} (hfree : IsFree (s.calls thread)) (next : SharedCall)
    (hnext : IsFree (some next)) (lastUs : UInt64) :
    Moves s { s with
      profiler := { s.profiler with lastFrameUs := lastUs }
      calls := Function.update s.calls thread (some next) }
  | begin (nowUs : UInt64) : Moves s { s with profiler := s.profiler.beginFrame nowUs }
  | sample (hit : Bool) : Moves s { s with
      profiler := s.profiler.recordCacheSample hit
      samples := s.samples ++ [hit] }
  | reset (hquiet : ∀ thread, s.calls thread = none) :
    Moves s { s with profiler := s.profiler.reset, log := [], samples := [] }

/-- Every permitted step is one of these. -/
theorem moves_of_step {action : SharedAction Thread} (hpermitted : s.Permitted action)
    (hstep : s.step action = some s') : s.Moves s' := by
  obtain ⟨hquiet, hroom⟩ := hpermitted
  cases action with
  | advance thread =>
    obtain ⟨call, hcall, rfl⟩ := Option.map_eq_some_iff.mp hstep
    cases call with
    | dropping => exact .drop hcall
    | writing slot record field => exact .write hcall
    | framing startUs nowUs =>
      exact .frame (by rw [hcall]; trivial) (.claiming startUs nowUs) trivial _
    | claiming startUs nowUs => exact .claim (by rw [hcall]; trivial) (.inl rfl) hroom
  | call call =>
    cases call with
    | recordSpan thread name category startUs endUs =>
      obtain ⟨hcall, hnext⟩ := Option.ite_none_right_eq_some.mp hstep
      exact Option.some.inj hnext ▸ .claim (by rw [hcall]; trivial) (.inl rfl) hroom
    | recordAllocator thread name bytes nowUs =>
      obtain ⟨hcall, hnext⟩ := Option.ite_none_right_eq_some.mp hstep
      exact Option.some.inj hnext ▸ .claim (by rw [hcall]; trivial) (.inr rfl) hroom
    | recordCacheSample hit => exact Option.some.inj hstep ▸ .sample hit
    | beginFrame nowUs => exact Option.some.inj hstep ▸ .begin nowUs
    | endFrame thread nowUs =>
      obtain ⟨hcall, hnext⟩ := Option.ite_none_right_eq_some.mp hstep
      exact Option.some.inj hnext ▸
        .frame (by rw [hcall]; trivial) (.framing s.profiler.frameStartUs nowUs) trivial
          s.profiler.lastFrameUs
    | reset => exact Option.some.inj hstep ▸ .reset (hquiet rfl)

/-! ### The events of the table -/

/-- A call that is about to write a field has taken its slot, and has written the fields before. -/
def Placed (s : SharedProfiler Thread) (thread : Thread) : SharedCall → Prop
  | .writing slot record field => slot < Profiler.kCapacity.toNat ∧
      s.log[slot]? = some (thread, record) ∧
        ∀ earlier : EventField, earlier.position < field.position →
          s.profiler.Shows slot thread record earlier
  | _ => True

/-- The invariant of the table: every recorded event that has got a slot either has all its fields,
or its thread is about to write one. -/
structure Consistent (s : SharedProfiler Thread) : Prop where
  write_eq : s.profiler.write.toNat = s.log.length
  placed : s.calls.Forall s.Placed
  whole : ∀ slot thread record, slot < Profiler.kCapacity.toNat →
    s.log[slot]? = some (thread, record) →
      (∀ field, s.profiler.Shows slot thread record field) ∨
        ∃ field, s.calls thread = some (.writing slot record field)
  events : ∀ entry ∈ s.log, entry.2.IsEvent

omit [DecidableEq Thread] in
theorem consistent_new : (new : SharedProfiler Thread).Consistent where
  write_eq := rfl
  placed := CallTable.forall_idle _
  whole := fun _ _ _ _ hentry ↦ by cases hentry
  events := fun _ hentry ↦ by cases hentry

omit [DecidableEq Thread] in
theorem IsFree.placed {call : SharedCall} (hfree : IsFree (some call)) (s : SharedProfiler Thread)
    (thread : Thread) : s.Placed thread call := by
  cases call with
  | dropping => exact hfree.elim
  | writing slot record field => exact hfree.elim
  | framing startUs nowUs => trivial
  | claiming startUs nowUs => trivial

omit [DecidableEq Thread] in
/-- Where a call stands depends on the log and on the event in its slot only. -/
theorem Placed.congr {thread : Thread} {call : SharedCall} (hplaced : s.Placed thread call)
    (hlog : s.log <+: s'.log)
    (hshows : ∀ slot record field, call = .writing slot record field → ∀ earlier,
      s.profiler.Shows slot thread record earlier → s'.profiler.Shows slot thread record earlier) :
    s'.Placed thread call := by
  cases call with
  | writing slot record field =>
    obtain ⟨hslot, hentry, hwritten⟩ := hplaced
    obtain ⟨rest, hrest⟩ := hlog
    refine ⟨hslot, ?_, fun earlier hearlier ↦ hshows _ _ _ rfl earlier (hwritten earlier hearlier)⟩
    rw [← hrest, List.getElem?_append_left (List.getElem?_eq_some_iff.mp hentry).1]
    exact hentry
  | _ => trivial

/-- A slot is taken. -/
theorem Consistent.claim (hconsistent : s.Consistent) {thread : Thread} {record : EventRecord}
    (hfree : IsFree (s.calls thread)) (hevent : record.IsEvent)
    (hroom : s.log.length + 1 < word64) : (s.claim thread record).Consistent := by
  obtain ⟨hwrite, hplaced, hwhole, hevents⟩ := hconsistent
  have hlog : s.log <+: (s.claim thread record).log := List.prefix_append _ _
  have hcapacity : Profiler.kCapacity ≤ s.profiler.write ↔
      Profiler.kCapacity.toNat ≤ s.log.length := by rw [← hwrite, UInt64.le_iff_toNat_le]
  refine ⟨?_, ?_, ?_, ?_⟩
  · rw [word64] at hroom
    change (s.profiler.write + 1).toNat = (s.log ++ [(thread, record)]).length
    rw [UInt64.toNat_add, UInt64.toNat_one, hwrite, List.length_append, List.length_singleton,
      Nat.mod_eq_of_lt hroom]
  · refine CallTable.Forall.update (fun other call hother hcall ↦ ?_) fun call hcall ↦ ?_
    · exact (hplaced other call hcall).congr hlog fun _ _ _ _ _ hshows ↦ hshows
    · split_ifs at hcall with hfull
      · obtain rfl := Option.some.inj hcall
        trivial
      · obtain rfl := Option.some.inj hcall
        rw [hcapacity] at hfull
        refine ⟨by omega, ?_, fun earlier hearlier ↦ absurd hearlier (Nat.not_lt_zero _)⟩
        rw [hwrite]
        exact List.getElem?_concat_length
  · intro slot other written hslot hentry
    change (s.log ++ [(thread, record)])[slot]? = _ at hentry
    rcases Nat.lt_trichotomy slot s.log.length with hlt | rfl | hgt
    · rw [List.getElem?_append_left hlt] at hentry
      refine (hwhole slot other written hslot hentry).imp_right ?_
      rintro ⟨field, hcall⟩
      refine ⟨field, ?_⟩
      have hne : other ≠ thread := by
        rintro rfl
        rw [hcall] at hfree
        exact hfree
      exact (Function.update_of_ne hne _ _).trans hcall
    · rw [List.getElem?_concat_length] at hentry
      obtain ⟨rfl, rfl⟩ := Prod.mk.inj (Option.some.inj hentry)
      refine .inr ⟨.name, (Function.update_self ..).trans ?_⟩
      rw [if_neg (by rw [hcapacity]; omega), hwrite]
    · rw [List.getElem?_eq_none (by simp; omega)] at hentry
      cases hentry
  · intro entry hentry
    rcases List.mem_append.mp hentry with hold | hnew
    · exact hevents entry hold
    · rw [List.mem_singleton.mp hnew]
      exact hevent

/-- A field is written. -/
theorem Consistent.write (hconsistent : s.Consistent) {thread : Thread} {slot : ℕ}
    {record : EventRecord} {field : EventField}
    (hcall : s.calls thread = some (.writing slot record field)) :
    (s.advance thread (.writing slot record field)).Consistent := by
  obtain ⟨hwrite, hplaced, hwhole, hevents⟩ := hconsistent
  obtain ⟨hslot, hentry, hwritten⟩ := hplaced thread _ hcall
  -- Only the thread that has taken the slot writes to it.
  have hother : ∀ other slot' record', s.log[slot']? = some (other, record') → other ≠ thread →
      slot' ≠ slot := by
    rintro other slot' record' hentry' hne rfl
    rw [hentry, Option.some.injEq, Prod.mk.injEq] at hentry'
    exact hne hentry'.1.symm
  have hshown : ∀ earlier : EventField, earlier.position ≤ field.position →
      (s.profiler.writeField slot thread record field).Shows slot thread record earlier := by
    intro earlier hearlier
    rcases hearlier.lt_or_eq with hlt | heq
    · exact (hwritten earlier hlt).writeField fun hsame ↦ absurd (hsame ▸ hlt) (lt_irrefl _)
    · obtain rfl := EventField.position_injective heq
      exact s.profiler.shows_writeField slot thread record earlier
  refine ⟨?_, ?_, ?_, hevents⟩
  · have hsame : (s.profiler.writeField slot thread record field).write = s.profiler.write := by
      cases field with
      | tid =>
        change (s.profiler.threadId thread).2.write = s.profiler.write
        unfold Profiler.threadId
        cases s.profiler.threadIds thread <;> rfl
      | _ => rfl
    exact (congrArg UInt64.toNat hsame).trans hwrite
  · refine CallTable.Forall.update (fun other call hne hcall' ↦ ?_) fun call hnext ↦ ?_
    · refine (hplaced other call hcall').congr List.prefix_rfl ?_
      rintro slot' record' field' rfl earlier hshows
      exact hshows.writeField_of_ne
        (hother other slot' record' (hplaced other _ hcall').2.1 hne) _ _ _
    · obtain ⟨next, hfield, rfl⟩ := Option.map_eq_some_iff.mp hnext
      refine ⟨hslot, hentry, fun earlier hearlier ↦ hshown earlier ?_⟩
      rw [EventField.position_next hfield] at hearlier
      omega
  · intro slot' other record' hslot' hentry'
    change s.log[slot']? = _ at hentry'
    by_cases hsame : slot' = slot
    · subst hsame
      rw [hentry, Option.some.injEq, Prod.mk.injEq] at hentry'
      obtain ⟨rfl, rfl⟩ := hentry'
      cases hfield : field.next with
      | none =>
        refine .inl fun earlier ↦ hshown earlier ?_
        rw [EventField.position_of_next_eq_none hfield]
        exact earlier.position_le
      | some next =>
        refine .inr ⟨next, (Function.update_self ..).trans ?_⟩
        rw [hfield]
        rfl
    · rcases hwhole slot' other record' hslot' hentry' with hshows | ⟨field', hcall'⟩
      · exact .inl fun earlier ↦ (hshows earlier).writeField_of_ne hsame _ _ _
      · have hne : other ≠ thread := by
          rintro rfl
          rw [hcall, Option.some.injEq, SharedCall.writing.injEq] at hcall'
          exact hsame hcall'.1.symm
        exact .inr ⟨field', (Function.update_of_ne hne _ _).trans hcall'⟩

/-- A step that leaves the table and the log as they are, of a call that holds no slot. -/
theorem Consistent.keep (hconsistent : s.Consistent) {thread : Thread} {next : Option SharedCall}
    (hfree : ∀ slot record field, s.calls thread ≠ some (.writing slot record field))
    (hnext : ∀ call, next = some call → IsFree (some call))
    (hcalls : s'.calls = Function.update s.calls thread next) (hlog : s'.log = s.log)
    (hwrite : s'.profiler.write = s.profiler.write)
    (hevents : s'.profiler.events = s.profiler.events)
    (hids : s'.profiler.threadIds = s.profiler.threadIds) : s'.Consistent := by
  have hshows : ∀ {slot other record field}, s.profiler.Shows slot other record field →
      s'.profiler.Shows slot other record field := fun hshows ↦
    hshows.congr (congrFun hevents _) fun _ hid ↦ by rw [hids]; exact hid
  refine ⟨by rw [hwrite, hlog]; exact hconsistent.write_eq, ?_, ?_, hlog ▸ hconsistent.events⟩
  · rw [hcalls]
    refine CallTable.Forall.update (fun other call _ hcall ↦ ?_) fun call hcall ↦ ?_
    · exact (hconsistent.placed other call hcall).congr (hlog ▸ List.prefix_rfl)
        fun _ _ _ _ _ ↦ hshows
    · exact (hnext call hcall).placed s' thread
  · intro slot other record hslot hentry
    rw [hlog] at hentry
    rcases hconsistent.whole slot other record hslot hentry with hall | ⟨field, hcall⟩
    · exact .inl fun field ↦ hshows (hall field)
    · have hne : other ≠ thread := by
        rintro rfl
        exact hfree slot record field hcall
      exact .inr ⟨field, by rw [hcalls, Function.update_of_ne hne]; exact hcall⟩

omit [DecidableEq Thread] in
/-- A reset, between all calls. -/
theorem consistent_reset (hquiet : ∀ thread, s.calls thread = none) :
    Consistent { s with profiler := s.profiler.reset, log := [], samples := [] } where
  write_eq := rfl
  placed := fun thread call hcall ↦ by
    rw [hquiet thread] at hcall
    cases hcall
  whole := fun _ _ _ _ hentry ↦ by cases hentry
  events := fun _ hentry ↦ by cases hentry

omit [DecidableEq Thread] in
theorem IsFree.ne_writing {call : Option SharedCall} (hfree : IsFree call) (slot : ℕ)
    (record : EventRecord) (field : EventField) : call ≠ some (.writing slot record field) := by
  rintro rfl
  exact hfree

/-- Every step keeps the invariant. -/
theorem Consistent.moves (hconsistent : s.Consistent) (hmoves : s.Moves s') : s'.Consistent := by
  cases hmoves with
  | claim hfree hevent hroom => exact hconsistent.claim hfree hevent hroom
  | write hcall => exact hconsistent.write hcall
  | drop hcall =>
    exact hconsistent.keep (fun _ _ _ h ↦ by rw [hcall] at h; cases h) (fun _ h ↦ by cases h)
      rfl rfl rfl rfl rfl
  | frame hfree next hnext lastUs =>
    exact hconsistent.keep hfree.ne_writing (fun call hcall ↦ hcall ▸ hnext) rfl rfl rfl rfl rfl
  | begin nowUs =>
    exact ⟨hconsistent.write_eq, hconsistent.placed, hconsistent.whole, hconsistent.events⟩
  | sample hit =>
    cases hit <;>
      exact ⟨hconsistent.write_eq, hconsistent.placed, hconsistent.whole, hconsistent.events⟩
  | reset hquiet => exact consistent_reset hquiet

/-! ### Counts and thread numbers -/

variable [Fintype Thread]

/-- The calls that have yet to count the event that they have dropped. -/
def dropping (s : SharedProfiler Thread) : Finset Thread :=
  Finset.univ.filter fun thread ↦ s.calls thread = some .dropping

/-- The counters have what the log and the samples say. -/
structure Counted (s : SharedProfiler Thread) : Prop where
  dropped_eq : s.profiler.dropped.toNat + s.dropping.card =
    s.log.length - Profiler.kCapacity.toNat
  hits_eq : s.profiler.cacheHits = .ofNat (s.samples.count true)
  misses_eq : s.profiler.cacheMisses = .ofNat (s.samples.count false)

/-- What a thread does changes how many calls have to count an event by its own call. -/
theorem card_dropping (t : SharedProfiler Thread) {thread : Thread} {next : Option SharedCall}
    (hcalls : t.calls = Function.update s.calls thread next) :
    t.dropping.card + (if s.calls thread = some .dropping then 1 else 0) =
      s.dropping.card + if next = some .dropping then 1 else 0 := by
  unfold dropping
  rw [hcalls]
  exact card_filter_update s.calls (· = some .dropping) (Finset.mem_univ thread) next

omit [DecidableEq Thread] [Fintype Thread] in
theorem IsFree.ne_dropping {call : Option SharedCall} (hfree : IsFree call) :
    call ≠ some .dropping := by
  rintro rfl
  exact hfree

omit [DecidableEq Thread] in
theorem counted_new : (new : SharedProfiler Thread).Counted := by
  refine ⟨?_, rfl, rfl⟩
  change 0 + (Finset.univ.filter fun thread ↦ (none : Option SharedCall) = some .dropping).card = _
  simp [new]

/-- Every step keeps the counters. -/
theorem Counted.moves (hcounted : s.Counted) (hconsistent : s.Consistent) (hmoves : s.Moves s') :
    s'.Counted := by
  obtain ⟨hdropped, hhits, hmisses⟩ := hcounted
  have hwrite := hconsistent.write_eq
  cases hmoves with
  | claim hfree hevent hroom =>
    rename_i thread record
    refine ⟨?_, hhits, hmisses⟩
    have hcard := card_dropping (s.claim thread record) rfl
    have hcapacity : Profiler.kCapacity ≤ s.profiler.write ↔
        Profiler.kCapacity.toNat ≤ s.log.length := by rw [← hwrite, UInt64.le_iff_toNat_le]
    rw [if_neg hfree.ne_dropping] at hcard
    change s.profiler.dropped.toNat + _ = (s.log ++ [(thread, record)]).length - _
    rw [List.length_append, List.length_singleton]
    by_cases hfull : Profiler.kCapacity ≤ s.profiler.write
    · rw [if_pos hfull, if_pos rfl] at hcard
      rw [hcapacity] at hfull
      omega
    · rw [if_neg hfull, if_neg (by simp)] at hcard
      rw [hcapacity] at hfull
      omega
  | write hcall =>
    rename_i thread slot record field
    have hcard := card_dropping (s.advance thread (.writing slot record field)) rfl
    rw [if_neg (by rw [hcall]; simp), if_neg (by cases field <;> simp [EventField.next])] at hcard
    have hsame : ∀ {p : Profiler Thread}, p = s.profiler.writeField slot thread record field →
        p.dropped = s.profiler.dropped ∧ p.cacheHits = s.profiler.cacheHits ∧
          p.cacheMisses = s.profiler.cacheMisses := by
      rintro p rfl
      cases field with
      | tid =>
        simp only [Profiler.writeField, Profiler.numberFor, Profiler.threadId]
        cases s.profiler.threadIds thread <;> exact ⟨rfl, rfl, rfl⟩
      | _ => exact ⟨rfl, rfl, rfl⟩
    obtain ⟨hsame, hsameHits, hsameMisses⟩ := hsame rfl
    refine ⟨?_, hsameHits.trans hhits, hsameMisses.trans hmisses⟩
    change (s.profiler.writeField slot thread record field).dropped.toNat + _ = s.log.length - _
    rw [hsame]
    omega
  | drop hcall =>
    rename_i thread
    have hcard := card_dropping (s.advance thread .dropping) rfl
    rw [if_pos hcall, if_neg (by simp)] at hcard
    refine ⟨?_, hhits, hmisses⟩
    have hfits : s.profiler.dropped.toNat + 1 < 2 ^ 64 := by
      have hlt := s.profiler.write.toNat_lt
      omega
    change (s.profiler.dropped + 1).toNat + _ = s.log.length - _
    rw [UInt64.toNat_add, UInt64.toNat_one, Nat.mod_eq_of_lt hfits]
    omega
  | frame hfree next hnext lastUs =>
    rename_i thread
    refine ⟨?_, hhits, hmisses⟩
    have hcard := card_dropping { s with
      profiler := { s.profiler with lastFrameUs := lastUs }
      calls := Function.update s.calls thread (some next) } rfl
    rw [if_neg hfree.ne_dropping, if_neg hnext.ne_dropping] at hcard
    change s.profiler.dropped.toNat + _ = s.log.length - _
    omega
  | begin nowUs => exact ⟨hdropped, hhits, hmisses⟩
  | sample hit =>
    cases hit with
    | true =>
      refine ⟨hdropped, ?_, ?_⟩
      · change s.profiler.cacheHits + 1 = _
        simp [hhits]
      · change s.profiler.cacheMisses = _
        simp [hmisses]
    | false =>
      refine ⟨hdropped, ?_, ?_⟩
      · change s.profiler.cacheHits = _
        simp [hhits]
      · change s.profiler.cacheMisses + 1 = _
        simp [hmisses]
  | reset hquiet =>
    refine ⟨?_, rfl, rfl⟩
    change 0 + (Finset.univ.filter fun thread ↦ s.calls thread = some .dropping).card = _
    simp [hquiet]

end SharedProfiler

namespace Profiler

variable {Thread : Type} {p p' : Profiler Thread} [Fintype Thread]

/-- Threads have different numbers. -/
structure Numbered (p : Profiler Thread) : Prop where
  next_eq : p.nextThreadId.toNat = 1 + (Finset.univ.filter fun t ↦ (p.threadIds t).isSome).card
  lt : ∀ thread id, p.threadIds thread = some id → id.toNat < p.nextThreadId.toNat
  distinct : ∀ first second id, p.threadIds first = some id → p.threadIds second = some id →
    first = second

theorem Numbered.congr (hnumbered : p.Numbered) (hnext : p'.nextThreadId = p.nextThreadId)
    (hids : p'.threadIds = p.threadIds) : p'.Numbered := by
  refine ⟨?_, ?_, ?_⟩
  · rw [hnext, hids]
    exact hnumbered.next_eq
  · rw [hnext, hids]
    exact hnumbered.lt
  · rw [hids]
    exact hnumbered.distinct

theorem numbered_new : (new : Profiler Thread).Numbered where
  next_eq := by simp [new]
  lt := fun _ _ hid ↦ by cases hid
  distinct := fun _ _ _ hid ↦ by cases hid

variable [DecidableEq Thread]

/-- `thread_id` gives a new number to a thread that has none. Assumes: the threads have fewer than
`2 ^ 32` numbers. -/
theorem Numbered.threadId (hnumbered : p.Numbered) (hthreads : Fintype.card Thread + 1 < word32)
    (thread : Thread) : (p.threadId thread).2.Numbered := by
  obtain ⟨hnext, hlt, hdistinct⟩ := hnumbered
  unfold Profiler.threadId
  cases hthread : p.threadIds thread with
  | some id => exact ⟨hnext, hlt, hdistinct⟩
  | none =>
    have hcard := card_filter_update p.threadIds (fun id ↦ id.isSome) (Finset.mem_univ thread)
      (some p.nextThreadId)
    rw [hthread, if_neg (by simp), if_pos (by simp)] at hcard
    have hfits : p.nextThreadId.toNat + 1 < 2 ^ 32 := by
      have hle := Finset.card_filter_le Finset.univ fun other ↦
        (Function.update p.threadIds thread (some p.nextThreadId) other).isSome
      rw [Finset.card_univ] at hle
      rw [word32] at hthreads
      omega
    have hsucc : (p.nextThreadId + 1).toNat = p.nextThreadId.toNat + 1 := by
      rw [UInt32.toNat_add, UInt32.toNat_one, Nat.mod_eq_of_lt hfits]
    -- The new number is larger than those that have been given.
    have hfresh : ∀ other, p.threadIds other ≠ some p.nextThreadId := fun other hother ↦
      absurd (hlt other _ hother) (lt_irrefl _)
    refine ⟨?_, fun other id hid ↦ ?_, fun first second id hfirst hsecond ↦ ?_⟩
    · dsimp only
      rw [hsucc]
      omega
    · dsimp only at hid ⊢
      rw [hsucc]
      by_cases hother : other = thread
      · rw [hother, Function.update_self, Option.some.injEq] at hid
        rw [← hid]
        exact Nat.lt_succ_self _
      · rw [Function.update_of_ne hother] at hid
        exact (hlt other id hid).trans (Nat.lt_succ_self _)
    · dsimp only at hfirst hsecond
      by_cases hone : first = thread <;> by_cases htwo : second = thread
      · rw [hone, htwo]
      · rw [hone, Function.update_self] at hfirst
        rw [Function.update_of_ne htwo, ← hfirst] at hsecond
        exact absurd hsecond (hfresh second)
      · rw [htwo, Function.update_self] at hsecond
        rw [Function.update_of_ne hone, ← hsecond] at hfirst
        exact absurd hfirst (hfresh first)
      · rw [Function.update_of_ne hone] at hfirst
        rw [Function.update_of_ne htwo] at hsecond
        exact hdistinct first second id hfirst hsecond

end Profiler

namespace SharedProfiler

variable {Thread : Type} [DecidableEq Thread] [Fintype Thread] {s s' : SharedProfiler Thread}

/-- Every step keeps the numbers of the threads apart. -/
theorem Moves.numbered (hmoves : s.Moves s') (hnumbered : s.profiler.Numbered)
    (hthreads : Fintype.card Thread + 1 < word32) : s'.profiler.Numbered := by
  cases hmoves with
  | write hcall =>
    rename_i thread slot record field
    cases field with
    | tid => exact (hnumbered.threadId hthreads thread).congr rfl rfl
    | _ => exact hnumbered.congr rfl rfl
  | sample hit => cases hit <;> exact hnumbered.congr rfl rfl
  | _ => exact hnumbered.congr rfl rfl

/-! ### Every run -/

/-- What the profiler guarantees at any time: the recorded events have taken the slots in the order
of the log, no slot is written by two calls, an event that no call is writing has all that was
recorded, with the number of its thread, threads have different numbers, and the counters say how
many events have been dropped and how many samples have been hits and misses. -/
structure Correct (s : SharedProfiler Thread) : Prop where
  write_eq : s.profiler.write.toNat = s.log.length
  exclusive : ∀ first second slot record record' field field',
    s.calls first = some (.writing slot record field) →
      s.calls second = some (.writing slot record' field') → first = second
  whole : ∀ slot thread record, slot < Profiler.kCapacity.toNat →
    s.log[slot]? = some (thread, record) →
      (∀ field, s.calls thread ≠ some (.writing slot record field)) →
        ∀ field, s.profiler.Shows slot thread record field
  distinct : ∀ first second id, s.profiler.threadIds first = some id →
    s.profiler.threadIds second = some id → first = second
  counted : s.Counted

/-- The invariant of a run. -/
theorem invariant (hthreads : Fintype.card Thread + 1 < word32)
    (hreach : system.Reaches Permitted new s) :
    s.Consistent ∧ s.Counted ∧ s.profiler.Numbered := by
  refine hreach.invariant ⟨consistent_new, counted_new, Profiler.numbered_new⟩ ?_
  rintro s action next ⟨hconsistent, hcounted, hnumbered⟩ hpermitted hnext
  have hmoves := moves_of_step hpermitted hnext
  exact ⟨hconsistent.moves hmoves, hcounted.moves hconsistent hmoves,
    hmoves.numbered hnumbered hthreads⟩

/-- The profiler does what is expected in every state of every run. Assumes: fewer than `2 ^ 32`
numbers of threads. -/
theorem recording_correct (hthreads : Fintype.card Thread + 1 < word32)
    (hreach : system.Reaches Permitted new s) : s.Correct := by
  obtain ⟨hconsistent, hcounted, hnumbered⟩ := invariant hthreads hreach
  refine ⟨hconsistent.write_eq, ?_, ?_, hnumbered.distinct, hcounted⟩
  · intro first second slot record record' field field' hfirst hsecond
    have hentry := (hconsistent.placed first _ hfirst).2.1
    rw [(hconsistent.placed second _ hsecond).2.1, Option.some.injEq, Prod.mk.injEq] at hentry
    exact hentry.1.symm
  · intro slot thread record hslot hentry hover
    rcases hconsistent.whole slot thread record hslot hentry with hall | ⟨field, hcall⟩
    · exact hall
    · exact absurd hcall (hover field)

/-- What a schedule has to meet to be permitted. -/
def permits (s : SharedProfiler Thread) : SharedAction Thread → Bool
  | .call .reset => false
  | _ => s.log.length + 1 < word64

omit [DecidableEq Thread] [Fintype Thread] in
theorem permitted_of_permits {action : SharedAction Thread} (hpermits : s.permits action = true) :
    s.Permitted action := by
  unfold permits at hpermits
  split at hpermits
  · cases hpermits
  · next hreset => exact ⟨fun h ↦ absurd h hreset, of_decide_eq_true hpermits⟩

/-- The theorem at two threads whose calls overlap: both have taken a slot, and the first has
written all its fields while the second has written one. -/
theorem recording_correct_overlapping : ∃ s : SharedProfiler Bool,
    s.log.map Prod.fst = [false, true] ∧ s.calls false = none ∧ (s.calls true).isSome ∧
      s.Correct := by
  obtain ⟨s, hreach, hs⟩ := TransitionSystem.Reaches.exists_of_any system new
    ([.call (.recordSpan false (some (ascii "a")) (some (ascii "cpu")) 3 7),
      .call (.recordAllocator true (some (ascii "b")) 64 5), .advance true] ++
        List.replicate 7 (.advance false)) permits
    (fun s ↦ s.log.map Prod.fst = [false, true] ∧ s.calls false = none ∧ (s.calls true).isSome)
    (fun _ _ ↦ permitted_of_permits) (by decide +kernel) (by decide +kernel)
  obtain ⟨hlog, hfirst, hsecond⟩ := of_decide_eq_true hs
  exact ⟨s, hlog, hfirst, hsecond, recording_correct (by decide) hreach⟩

end SharedProfiler

end GameEngine.Core
