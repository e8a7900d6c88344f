import GameEngine.Core.PropertyParsing
import GameEngine.Telemetry.NetworkTelemetry

/-!
# The profiler

`Profiler` records spans and allocator counters in a table of events and writes them as a Chrome
trace. `write` counts all events; one that finds the table full is dropped. The names and categories
of an event are cut to the arrays of the event when it is recorded, and escaped when the trace is
written. What the clock says is an argument of the calls that read it. A name is the bytes from its
pointer on, or nothing if the pointer is null.

`Profiler.run` is what a sequence of calls does, and `Profiler.chromeTrace` the text that
`export_chrome_trace` writes.
-/

set_option autoImplicit false
set_option relaxedAutoImplicit false

namespace GameEngine.Core

open GameEngine.Library

/-- The bytes of an ASCII string. -/
def ascii (string : String) : Text := bytesOf string.toList

/-! ### Texts -/

/-- `copy_cstr`. -/
def copyCstr (dst : Text) : Option Text → Text
  | none => dst.set 0 0
  | some src => Telemetry.copyName dst src

/-- `json_escape`. -/
def jsonEscape (s : Text) : Text :=
  s.flatMap fun c ↦
    if c = 92 then [92, 92]
    else if c = 34 then [92, 34]
    else if c = 10 then [92, 110]
    else [c]

@[simp]
theorem length_copyCstr (dst : Text) (src : Option Text) :
    (copyCstr dst src).length = dst.length := by
  cases src with
  | none => exact List.length_set
  | some src => exact Telemetry.length_copyName dst src

/-- An array holds as much of a text as there is room for before the zero. -/
theorem cString_copyCstr {dst : Text} {room : ℕ} (hdst : dst.length = room + 1)
    (src : Option Text) :
    Telemetry.cString (copyCstr dst src) = (Telemetry.cString (src.getD [])).take room := by
  have hcells : dst ≠ [] := List.ne_nil_of_length_eq_add_one hdst
  cases src with
  | none =>
    obtain ⟨cell, cells, rfl⟩ := List.exists_cons_of_ne_nil hcells
    simp [copyCstr, Telemetry.cString]
  | some src =>
    have hcopy := Telemetry.cString_copyName hcells src
    rwa [hdst, Nat.add_sub_cancel] at hcopy

namespace Profiler

/-! ### Events -/

/-- `sizeof(Event::name)`. -/
def nameBytes : ℕ := 48

/-- `sizeof(Event::category)`. -/
def categoryBytes : ℕ := 16

/-- The phase of a span, the letter X. -/
def spanPhase : UInt8 := 88

/-- The phase of a counter, the letter C. -/
def counterPhase : UInt8 := 67

/-- `Event`. -/
structure Event where
  name : Text
  category : Text
  phase : UInt8
  tsUs : UInt64
  durUs : UInt64
  tid : UInt32
  counter : UInt64
  length_name : name.length = nameBytes
  length_category : category.length = categoryBytes

/-- An event all of whose bytes are zero. -/
def Event.zero : Event where
  name := List.replicate nameBytes 0
  category := List.replicate categoryBytes 0
  phase := 0
  tsUs := 0
  durUs := 0
  tid := 0
  counter := 0
  length_name := List.length_replicate
  length_category := List.length_replicate

/-- Writes a name and a category over those of an event. -/
def Event.setTexts (e : Event) (name category : Option Text) : Event :=
  { e with
    name := copyCstr e.name name
    category := copyCstr e.category category
    length_name := (length_copyCstr _ _).trans e.length_name
    length_category := (length_copyCstr _ _).trans e.length_category }

end Profiler

/-! ### Recording -/

/-- `Profiler`, with the numbers that `thread_id` has given to threads. -/
structure Profiler (Thread : Type) where
  events : ℕ → Profiler.Event
  write : UInt64
  dropped : UInt64
  cacheHits : UInt64
  cacheMisses : UInt64
  frameStartUs : UInt64
  lastFrameUs : UInt64
  nextThreadId : UInt32
  threadIds : Thread → Option UInt32

namespace Profiler

variable {Thread : Type}

/-- The number of events in the table. -/
def kCapacity : UInt64 := 8192

/-- A new profiler. -/
def new : Profiler Thread where
  events := fun _ ↦ .zero
  write := 0
  dropped := 0
  cacheHits := 0
  cacheMisses := 0
  frameStartUs := 0
  lastFrameUs := 0
  nextThreadId := 1
  threadIds := fun _ ↦ none

/-- The length of a span. -/
def duration (startUs endUs : UInt64) : UInt64 := if startUs ≤ endUs then endUs - startUs else 0

/-- `event_count`. -/
def eventCount (p : Profiler Thread) : ℕ :=
  if p.write < kCapacity then p.write.toNat else kCapacity.toNat

/-- `record_cache_sample`. -/
def recordCacheSample (p : Profiler Thread) (hit : Bool) : Profiler Thread :=
  if hit then { p with cacheHits := p.cacheHits + 1 }
  else { p with cacheMisses := p.cacheMisses + 1 }

/-- `begin_frame`. -/
def beginFrame (p : Profiler Thread) (nowUs : UInt64) : Profiler Thread :=
  { p with frameStartUs := nowUs }

/-- `reset`. -/
def reset (p : Profiler Thread) : Profiler Thread :=
  { p with write := 0, dropped := 0, cacheHits := 0, cacheMisses := 0, lastFrameUs := 0 }

variable [DecidableEq Thread]

/-- `thread_id`, which numbers a thread when it asks for the first time. -/
def threadId (p : Profiler Thread) (thread : Thread) : UInt32 × Profiler Thread :=
  match p.threadIds thread with
  | some id => (id, p)
  | none =>
    (p.nextThreadId,
      { p with
        nextThreadId := p.nextThreadId + 1
        threadIds := Function.update p.threadIds thread (some p.nextThreadId) })

/-- Writes an event to a slot of the table. -/
def store (p : Profiler Thread) (slot : ℕ) (thread : Thread) (name category : Option Text)
    (phase : UInt8) (tsUs durUs counter : UInt64) : Profiler Thread :=
  let numbered := p.threadId thread
  let e := (p.events slot).setTexts name category
  { numbered.2 with
    events := Function.update p.events slot
      { e with
        phase := phase, tsUs := tsUs, durUs := durUs, tid := numbered.1, counter := counter } }

/-- What `record_span` and `record_allocator` do: an event takes the next slot, or is dropped. -/
def record (p : Profiler Thread) (thread : Thread) (name category : Option Text) (phase : UInt8)
    (tsUs durUs counter : UInt64) : Profiler Thread :=
  let slot := p.write
  let p := { p with write := p.write + 1 }
  if kCapacity ≤ slot then { p with dropped := p.dropped + 1 }
  else p.store slot.toNat thread name category phase tsUs durUs counter

/-- `record_span`. -/
def recordSpan (p : Profiler Thread) (thread : Thread) (name category : Option Text)
    (startUs endUs : UInt64) : Profiler Thread :=
  p.record thread name category spanPhase startUs (duration startUs endUs) 0

/-- `record_allocator`. -/
def recordAllocator (p : Profiler Thread) (thread : Thread) (name : Option Text)
    (bytes nowUs : UInt64) : Profiler Thread :=
  p.record thread name (some (ascii "memory")) counterPhase nowUs 0 bytes

/-- `end_frame`. -/
def endFrame (p : Profiler Thread) (thread : Thread) (nowUs : UInt64) : Profiler Thread :=
  { p with lastFrameUs := duration p.frameStartUs nowUs }.recordSpan thread (some (ascii "frame"))
    (some (ascii "cpu")) p.frameStartUs nowUs

end Profiler

/-! ### The trace -/

namespace Profiler

variable {Thread : Type}

/-- Appends the next element of an array; `first` says that there is none yet. -/
def emit (out : Text × Bool) (line : Text) : Text × Bool :=
  ((if out.2 then out.1 else out.1 ++ ascii ",\n") ++ line, false)

/-- The line of an event. -/
def Event.line (e : Event) : Text :=
  ascii "    \x7b\"name\":\"" ++ jsonEscape (Telemetry.cString e.name) ++
    ascii "\",\"cat\":\"" ++ jsonEscape (Telemetry.cString e.category) ++
    ascii "\",\"ph\":\"" ++ [e.phase] ++ ascii "\",\"ts\":" ++ natText e.tsUs.toNat ++
    ascii ",\"pid\":1,\"tid\":" ++ natText e.tid.toNat ++
    (if e.phase = spanPhase then ascii ",\"dur\":" ++ natText e.durUs.toNat
    else ascii ",\"args\":\x7b\"bytes\":" ++ natText e.counter.toNat ++ ascii ",\"value\":" ++
      natText e.counter.toNat ++ ascii "\x7d") ++ ascii "\x7d"

/-- The line that names a thread. -/
def threadLine (tid : UInt32) : Text :=
  ascii "    \x7b\"name\":\"thread_name\",\"ph\":\"M\",\"pid\":1,\"tid\":" ++
    natText tid.toNat ++ ascii ",\"args\":\x7b\"name\":\"worker-" ++ natText tid.toNat ++
    ascii "\"\x7d\x7d"

/-- The line of a counter of the profiler itself. -/
def counterLine (name category : Text) (endTs value : UInt64) : Text :=
  ascii "    \x7b\"name\":\"" ++ name ++ ascii "\",\"cat\":\"" ++ category ++
    ascii "\",\"ph\":\"C\",\"ts\":" ++ natText endTs.toNat ++
    ascii ",\"pid\":1,\"tid\":1,\"args\":\x7b\"value\":" ++ natText value.toNat ++ ascii "\x7d\x7d"

/-- `remember_tid`. -/
def rememberTid (tids : List UInt32) (tid : UInt32) : List UInt32 :=
  if tid ∈ tids then tids else if tids.length < 64 then tids ++ [tid] else tids

/-- The text that `export_chrome_trace` writes. -/
def chromeTrace (p : Profiler Thread) (nowUs : UInt64) : Text :=
  let count := p.eventCount
  let events := (List.range count).map p.events
  let tids := (events.map Event.tid).foldl rememberTid []
  let endTs := if count = 0 then nowUs else (p.events (count - 1)).tsUs
  let out := (ascii "\x7b\n  \"displayTimeUnit\": \"us\",\n  \"traceEvents\": [\n", true)
  let out := emit out
    (ascii "    \x7b\"name\":\"process_name\",\"ph\":\"M\",\"pid\":1," ++
      ascii "\"args\":\x7b\"name\":\"eoc\"\x7d\x7d")
  let out := emit out
    (ascii "    \x7b\"name\":\"process_labels\",\"ph\":\"M\",\"pid\":1," ++
      ascii "\"args\":\x7b\"labels\":\"engineoptimizationcore\"\x7d\x7d")
  let out := (tids.map threadLine).foldl emit out
  let out := (events.map Event.line).foldl emit out
  let out := emit out (counterLine (ascii "cache_hits") (ascii "cache") endTs p.cacheHits)
  let out := emit out (counterLine (ascii "cache_misses") (ascii "cache") endTs p.cacheMisses)
  let out := emit out (counterLine (ascii "trace_dropped") (ascii "profiler") endTs p.dropped)
  out.1 ++ ascii "\n  ]\n\x7d\n"

/-- `export_chrome_trace`: what is written to the file, if it can be opened, and whether all went
well. `written` says that the file takes the text. -/
def exportChromeTrace (p : Profiler Thread) (path : Option Text) (opened written : Bool)
    (nowUs : UInt64) : Option Text × Bool :=
  if path.isNone then (none, false)
  else if opened then (some (p.chromeTrace nowUs), written)
  else (none, false)

end Profiler

/-! ### Calls -/

/-- The calls, with the thread that makes them and what the clock says where they read it. -/
inductive ProfilerCall (Thread : Type)
  | recordSpan (thread : Thread) (name category : Option Text) (startUs endUs : UInt64)
  | recordAllocator (thread : Thread) (name : Option Text) (bytes nowUs : UInt64)
  | recordCacheSample (hit : Bool)
  | beginFrame (nowUs : UInt64)
  | endFrame (thread : Thread) (nowUs : UInt64)
  | reset

namespace Profiler

variable {Thread : Type} [DecidableEq Thread]

/-- One call. -/
def call (p : Profiler Thread) : ProfilerCall Thread → Profiler Thread
  | .recordSpan thread name category startUs endUs =>
    p.recordSpan thread name category startUs endUs
  | .recordAllocator thread name bytes nowUs => p.recordAllocator thread name bytes nowUs
  | .recordCacheSample hit => p.recordCacheSample hit
  | .beginFrame nowUs => p.beginFrame nowUs
  | .endFrame thread nowUs => p.endFrame thread nowUs
  | .reset => p.reset

/-- A new profiler after some calls. -/
def run (calls : List (ProfilerCall Thread)) : Profiler Thread := calls.foldl call new

end Profiler

end GameEngine.Core
