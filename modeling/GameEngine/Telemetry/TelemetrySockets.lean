import GameEngine.Telemetry.NetworkTelemetry

/-!
# Telemetry objects and their sockets

`NetworkTelemetry` with its socket, several objects in one process. A descriptor is a number that
the system gives out again after it has been closed, so an object that keeps a number too long, or
closes it twice, would use or close a file of someone else. `TelemetryProcess` has the table of
descriptors, the objects, and what the rest of the process has open.

`Channels` says what the objects are for, without descriptors: a channel has a queue of metrics, and
it may have a socket of its own with a port. `telemetry_correct` says that in every run the objects
do what the channels do, that the files of the rest of the process stay open, that every socket an
object opens is closed exactly once, and what has become of every metric that was accepted.

What `::socket` and `::sendto` return are arguments of the actions.
-/

set_option autoImplicit false
set_option relaxedAutoImplicit false

namespace GameEngine.Telemetry

open GameEngine.Library
open MachineWord

/-! ### The object -/

/-- `NetworkTelemetry`. Without a socket its descriptor is negative. -/
structure NetworkTelemetry where
  collector : MetricsCollector
  fd : ℤ
  port : UInt16

namespace NetworkTelemetry

/-- The constructor. -/
def new (capacity : ℕ) (hfits : max capacity 1 * sampleBytes < word64) : NetworkTelemetry :=
  ⟨.new capacity hfits, -1, 0⟩

/-- `record`. -/
def record (telemetry : NetworkTelemetry) (name : Option (List UInt8))
    (value timestampUs : UInt64) :
    NetworkTelemetry × Bool :=
  let (collector, accepted) := telemetry.collector.record name value timestampUs
  ({ telemetry with collector := collector }, accepted)

/-- `close_socket`, with the descriptor that it passes to `::close`. -/
def closeSocket (telemetry : NetworkTelemetry) : NetworkTelemetry × Option ℤ :=
  ({ telemetry with fd := -1, port := 0 }, if telemetry.fd ≥ 0 then some telemetry.fd else none)

/-- `bind_loopback`, when `::socket` returns `fd`, with the descriptor that it passes to
`::close`. -/
def bindLoopback (telemetry : NetworkTelemetry) (port : UInt16) (fd : ℤ) :
    NetworkTelemetry × Option ℤ × Bool :=
  let (closed, descriptor) := telemetry.closeSocket
  if fd < 0 then (closed, descriptor, false)
  else ({ closed with fd := fd, port := port }, descriptor, true)

/-- `flush_to`. -/
def flushTo (telemetry : NetworkTelemetry) (dst : Option ℕ) :
    NetworkTelemetry × List MetricSample × ℕ :=
  let (collector, samples, count) := Telemetry.flushTo telemetry.collector dst
  ({ telemetry with collector := collector }, samples, count)

/-- The arguments of `::sendto`: the descriptor, the number of bytes and the port. -/
structure Datagram where
  fd : ℤ
  bytes : ℕ
  port : UInt16

/-- `flush_udp`, when `::sendto` returns `sent`, with the arguments of that call. -/
def flushUdp (telemetry : NetworkTelemetry) (sent : ℤ) : NetworkTelemetry × Option Datagram × ℕ :=
  let count := telemetry.collector.count
  let cleared := { telemetry with collector := telemetry.collector.clear }
  if count = 0 then (telemetry, none, 0)
  else if telemetry.fd < 0 then (cleared, none, count)
  else
    (cleared, some ⟨telemetry.fd, count * sampleBytes % word64, telemetry.port⟩,
      if sent ≤ 0 then 0 else sent.toNat / sampleBytes)

end NetworkTelemetry

/-! ### Several objects in a process -/

/-- What becomes of metrics that leave a queue. -/
inductive Fate
  /-- `flush_to` has copied them. -/
  | copied
  /-- `flush_to` has found no room for them. -/
  | overlooked
  /-- `flush_udp` has passed them to a file, which has sent them to a port or not. -/
  | sent (file : Option ℕ) (port : UInt16) (succeeded : Bool)
  /-- `flush_udp` has found no socket. -/
  | dropped
  /-- The collector has been cleared or the object destroyed. -/
  | discarded
deriving DecidableEq

/-- What the objects do to files and metrics. -/
inductive SocketEvent
  | opened (key file : ℕ)
  /-- A call of `::close`, with the file behind the descriptor, if it is open. -/
  | closed (key : ℕ) (file : Option ℕ)
  | accepted (key : ℕ) (metric : Metric)
  | removed (key : ℕ) (fate : Fate) (metrics : List Metric)
  /-- What `flush_to` or `flush_udp` has returned. -/
  | flushed (key count : ℕ)
deriving DecidableEq

/-- A call on the object with a key, or a step of the rest of the process. -/
inductive SocketAction
  | construct (key capacity : ℕ) (hfits : max capacity 1 * sampleBytes < word64)
  | record (key : ℕ) (name : Option (List UInt8)) (value timestampUs : UInt64)
  | bindLoopback (key : ℕ) (port : UInt16) (fd : ℤ)
  | closeSocket (key : ℕ)
  | flushTo (key : ℕ) (dst : Option ℕ)
  | flushUdp (key : ℕ) (sent : ℤ)
  /-- `collector().clear()`. -/
  | clear (key : ℕ)
  | destroy (key : ℕ)
  | openFile (fd : ℤ)
  | closeFile (fd : ℤ)

/-- The objects that are alive, the open file behind each descriptor, the files that the rest of the
process has open, the number of files opened so far, and what has happened, oldest first. -/
structure TelemetryProcess where
  objects : ℕ → Option NetworkTelemetry
  descriptors : ℤ → Option ℕ
  others : ℤ → Option ℕ
  files : ℕ
  trace : List SocketEvent

namespace TelemetryProcess

/-- A process without open files. -/
def initial : TelemetryProcess := ⟨fun _ ↦ none, fun _ ↦ none, fun _ ↦ none, 0, []⟩

/-- The object with a key after a call, with what has happened. -/
def set (s : TelemetryProcess) (key : ℕ) (telemetry : NetworkTelemetry)
    (events : List SocketEvent) : TelemetryProcess :=
  { s with objects := Function.update s.objects key (some telemetry), trace := s.trace ++ events }

/-- `::close`, called by an object, unless there is no descriptor. -/
def close (s : TelemetryProcess) (key : ℕ) : Option ℤ → TelemetryProcess
  | none => s
  | some fd =>
    { s with
      descriptors := Function.update s.descriptors fd none
      trace := s.trace ++ [.closed key (s.descriptors fd)] }

/-- `::socket`, called by an object. A negative result is a failure. -/
def openSocket (s : TelemetryProcess) (key : ℕ) (fd : ℤ) : TelemetryProcess :=
  if fd < 0 then s
  else
    { s with
      descriptors := Function.update s.descriptors fd (some s.files)
      files := s.files + 1
      trace := s.trace ++ [.opened key s.files] }

/-- What the queue of a collector says. -/
def metrics (collector : MetricsCollector) : List Metric := collector.queued.map MetricSample.metric

/-- One step. -/
def step (s : TelemetryProcess) : SocketAction → Option TelemetryProcess
  | .construct key capacity hfits =>
    if (s.objects key).isSome then none else some (s.set key (.new capacity hfits) [])
  | .record key name value timestampUs =>
    (s.objects key).map fun telemetry ↦
      let (next, accepted) := telemetry.record name value timestampUs
      s.set key next (if accepted then [.accepted key (reported name value timestampUs)] else [])
  | .bindLoopback key port fd =>
    (s.objects key).map fun telemetry ↦
      let (next, descriptor, _) := telemetry.bindLoopback port fd
      ((s.close key descriptor).openSocket key fd).set key next []
  | .closeSocket key =>
    (s.objects key).map fun telemetry ↦
      let (next, descriptor) := telemetry.closeSocket
      (s.close key descriptor).set key next []
  | .flushTo key dst =>
    (s.objects key).map fun telemetry ↦
      let (next, samples, count) := telemetry.flushTo dst
      s.set key next
        ((if count = 0 then []
          else [.removed key .copied (samples.map MetricSample.metric),
            .removed key .overlooked ((metrics telemetry.collector).drop count)]) ++
          [.flushed key count])
  | .flushUdp key sent =>
    (s.objects key).map fun telemetry ↦
      let (next, datagram, count) := telemetry.flushUdp sent
      let event := match datagram with
        | none => .removed key .dropped (metrics telemetry.collector)
        | some datagram =>
          .removed key (.sent (s.descriptors datagram.fd) datagram.port (0 < sent))
            ((telemetry.collector.slots.take (datagram.bytes / sampleBytes)).map
              MetricSample.metric)
      s.set key next [event, .flushed key count]
  | .clear key =>
    (s.objects key).map fun telemetry ↦
      s.set key { telemetry with collector := telemetry.collector.clear }
        [.removed key .discarded (metrics telemetry.collector)]
  | .destroy key =>
    (s.objects key).map fun telemetry ↦
      let (_, descriptor) := telemetry.closeSocket
      let closed := s.close key descriptor
      { closed with
        objects := Function.update closed.objects key none
        trace := closed.trace ++ [.removed key .discarded (metrics telemetry.collector)] }
  | .openFile fd =>
    some { s with
      descriptors := Function.update s.descriptors fd (some s.files)
      others := Function.update s.others fd (some s.files)
      files := s.files + 1 }
  | .closeFile fd =>
    if s.others fd = none then none
    else some { s with
      descriptors := Function.update s.descriptors fd none
      others := Function.update s.others fd none }

/-- The process as a transition system. -/
def system : TransitionSystem TelemetryProcess SocketAction := ⟨step⟩

/-- What the system can answer: `::socket` fails or returns a descriptor that is not open, which may
be the one that was just closed, and `::sendto` fails or sends all bytes. -/
def Answered (s : TelemetryProcess) : SocketAction → Prop
  | .bindLoopback key _ fd => ∀ telemetry ∈ s.objects key, fd < 0 ∨ fd = telemetry.fd ∨
      s.descriptors fd = none
  | .flushUdp key sent => ∀ telemetry ∈ s.objects key, sent < 0 ∨
      sent = telemetry.collector.count * sampleBytes
  | .openFile fd => 0 ≤ fd ∧ s.descriptors fd = none
  | _ => True

end TelemetryProcess

/-! ### Channels -/

/-- What an object is for: the queued metrics, the number that can be queued, and the file and port
of its socket, if it has one. -/
structure Channel where
  queue : List Metric
  room : ℕ
  socket : Option (ℕ × UInt16)

/-- The channels, the number of files opened so far, and what has happened. -/
structure Channels where
  channels : ℕ → Option Channel
  files : ℕ
  trace : List SocketEvent

namespace Channels

/-- No channel and no file. -/
def initial : Channels := ⟨fun _ ↦ none, 0, []⟩

/-- The channel with a key after a call, with what has happened. -/
def set (a : Channels) (key : ℕ) (channel : Option Channel) (events : List SocketEvent) :
    Channels :=
  { a with channels := Function.update a.channels key channel, trace := a.trace ++ events }

/-- Closes the socket of a channel. -/
def shut (a : Channels) (key : ℕ) (channel : Channel) : Channels :=
  a.set key (some { channel with socket := none })
    (channel.socket.toList.map fun socket ↦ .closed key (some socket.1))

/-- Opens a socket for a channel, unless the system fails. -/
def bind (a : Channels) (key : ℕ) (channel : Channel) (port : UInt16) (fd : ℤ) : Channels :=
  if fd < 0 then a
  else { a.set key (some { channel with socket := some (a.files, port) }) [.opened key a.files] with
    files := a.files + 1 }

/-- The fate of a queue that `flush_udp` empties, and what it returns. -/
def flushFate (channel : Channel) (sent : ℤ) : Fate × ℕ :=
  match channel.socket with
  | none => (.dropped, channel.queue.length)
  | some (file, port) =>
    if channel.queue.length = 0 then (.dropped, 0)
    else (.sent (some file) port (0 < sent), if 0 < sent then channel.queue.length else 0)

/-- One step. -/
def step (a : Channels) : SocketAction → Option Channels
  | .construct key capacity _ =>
    if (a.channels key).isSome then none else some (a.set key (some ⟨[], max capacity 1, none⟩) [])
  | .record key name value timestampUs =>
    (a.channels key).map fun channel ↦
      let metric := reported name value timestampUs
      if channel.queue.length < channel.room then
        a.set key (some { channel with queue := channel.queue ++ [metric] }) [.accepted key metric]
      else a.set key (some channel) []
  | .bindLoopback key port fd =>
    (a.channels key).map fun channel ↦
      (a.shut key channel).bind key { channel with socket := none } port fd
  | .closeSocket key => (a.channels key).map fun channel ↦ a.shut key channel
  | .flushTo key dst =>
    (a.channels key).map fun channel ↦
      let count := min channel.queue.length (dst.getD 0 / sampleBytes)
      if count = 0 then a.set key (some channel) [.flushed key 0]
      else a.set key (some { channel with queue := [] })
        [.removed key .copied (channel.queue.take count),
          .removed key .overlooked (channel.queue.drop count), .flushed key count]
  | .flushUdp key sent =>
    (a.channels key).map fun channel ↦
      a.set key (some { channel with queue := [] })
        [.removed key (flushFate channel sent).1 channel.queue,
          .flushed key (flushFate channel sent).2]
  | .clear key =>
    (a.channels key).map fun channel ↦
      a.set key (some { channel with queue := [] }) [.removed key .discarded channel.queue]
  | .destroy key =>
    (a.channels key).map fun channel ↦
      (a.shut key channel).set key none [.removed key .discarded channel.queue]
  | .openFile _ => some { a with files := a.files + 1 }
  | .closeFile _ => some a

/-- The channels as a transition system. -/
def system : TransitionSystem Channels SocketAction := ⟨step⟩

end Channels

/-! ### The objects do what the channels do -/

/-- An object shows a channel. -/
structure Shows (descriptors : ℤ → Option ℕ) (telemetry : NetworkTelemetry) (channel : Channel) :
    Prop where
  queue : TelemetryProcess.metrics telemetry.collector = channel.queue
  room : telemetry.collector.capacity = channel.room
  socket : (if telemetry.fd < 0 then none
    else some (descriptors telemetry.fd, telemetry.port)) = channel.socket.map (Prod.map some id)

theorem Shows.length_queue {descriptors : ℤ → Option ℕ} {telemetry : NetworkTelemetry}
    {channel : Channel} (hshows : Shows descriptors telemetry channel) :
    channel.queue.length = telemetry.collector.count := by
  rw [← hshows.queue, TelemetryProcess.metrics, List.length_map, MetricsCollector.length_queued]

/-- The objects show the channels, and no descriptor of an object is used by another object or by
the rest of the process. -/
structure Represents (s : TelemetryProcess) (a : Channels) : Prop where
  objects : ∀ key, Option.Rel (Shows s.descriptors) (s.objects key) (a.channels key)
  files : s.files = a.files
  trace : s.trace = a.trace
  others : ∀ fd file, s.others fd = some file → s.descriptors fd = some file
  foreign : ∀ key, ∀ telemetry ∈ s.objects key, s.others telemetry.fd = none
  separate : ∀ key, ∀ telemetry ∈ s.objects key, 0 ≤ telemetry.fd →
    ∀ other ≠ key, ∀ telemetry' ∈ s.objects other, telemetry'.fd ≠ telemetry.fd
  positive : ∀ fd < 0, s.others fd = none

/-- `flush_to` in numbers of samples. -/
theorem flushTo_eq (collector : MetricsCollector) (dst : Option ℕ) :
    Telemetry.flushTo collector dst =
      if min collector.count (dst.getD 0 / sampleBytes) = 0 then (collector, [], 0)
      else (collector.clear, collector.queued.take (min collector.count (dst.getD 0 / sampleBytes)),
        min collector.count (dst.getD 0 / sampleBytes)) := by
  match dst with
  | none => simp [Telemetry.flushTo]
  | some dstBytes =>
    have hcount : (if collector.count * sampleBytes < dstBytes then collector.count * sampleBytes
        else dstBytes) / sampleBytes = min collector.count (dstBytes / sampleBytes) := by
      have hone : collector.count * sampleBytes / sampleBytes = collector.count :=
        Nat.mul_div_cancel _ (by decide)
      split_ifs with hless
      · have hle := Nat.div_le_div_right (c := sampleBytes) hless.le
        rw [hone] at hle ⊢
        exact (min_eq_left hle).symm
      · have hle := Nat.div_le_div_right (c := sampleBytes) (not_lt.mp hless)
        rw [hone] at hle
        exact (min_eq_right hle).symm
    simp only [Telemetry.flushTo, queuedBytes_mod, hcount, Option.getD_some]
    by_cases hzero : collector.count = 0
    · rw [if_pos hzero, hzero, Nat.zero_min, if_pos rfl]
    · rw [if_neg hzero, MetricsCollector.queued, List.take_take,
        min_eq_left (Nat.min_le_left _ _)]

namespace Represents

open TelemetryProcess NetworkTelemetry

variable {s : TelemetryProcess} {a : Channels}

/-- The channel of an object. -/
theorem exists_channel (hrep : Represents s a) {key : ℕ} {telemetry : NetworkTelemetry}
    (htelemetry : s.objects key = some telemetry) :
    ∃ channel, a.channels key = some channel ∧ Shows s.descriptors telemetry channel := by
  have hrel := hrep.objects key
  rw [htelemetry] at hrel
  cases hchannel : a.channels key with
  | none => rw [hchannel] at hrel; cases hrel
  | some channel =>
    rw [hchannel] at hrel
    cases hrel with
    | some hshows => exact ⟨channel, rfl, hshows⟩

theorem isSome_eq (hrep : Represents s a) (key : ℕ) :
    (a.channels key).isSome = (s.objects key).isSome := by
  cases htelemetry : s.objects key with
  | none =>
    have hrel := hrep.objects key
    rw [htelemetry] at hrel
    cases hchannel : a.channels key with
    | none => rfl
    | some channel => rw [hchannel] at hrel; cases hrel
  | some telemetry =>
    obtain ⟨channel, hchannel, -⟩ := hrep.exists_channel htelemetry
    rw [hchannel]
    rfl

/-- An object shows its channel as long as its descriptor does not change. -/
theorem rel_of_kept (hrep : Represents s a) {descriptors : ℤ → Option ℕ} {key : ℕ}
    (hkept : ∀ telemetry ∈ s.objects key, 0 ≤ telemetry.fd →
      descriptors telemetry.fd = s.descriptors telemetry.fd) :
    Option.Rel (Shows descriptors) (s.objects key) (a.channels key) := by
  cases htelemetry : s.objects key with
  | none =>
    have hchannel := hrep.isSome_eq key
    rw [htelemetry, Option.isSome_none, Option.isSome_eq_false_iff, Option.isNone_iff_eq_none]
      at hchannel
    rw [hchannel]
    exact .none
  | some telemetry =>
    obtain ⟨channel, hchannel, hshows⟩ := hrep.exists_channel htelemetry
    rw [hchannel]
    refine .some ⟨hshows.queue, hshows.room, ?_⟩
    rw [← hshows.socket]
    by_cases hfd : telemetry.fd < 0
    · rw [if_pos hfd, if_pos hfd]
    · rw [if_neg hfd, if_neg hfd, hkept telemetry htelemetry (not_lt.mp hfd)]

/-- A call on one object that leaves what the others and the rest of the process use. -/
theorem replace (hrep : Represents s a) {s' : TelemetryProcess} {a' : Channels} {key : ℕ}
    {object : Option NetworkTelemetry} {channel : Option Channel}
    (hobjects : s'.objects = Function.update s.objects key object)
    (hchannels : a'.channels = Function.update a.channels key channel)
    (hshows : Option.Rel (Shows s'.descriptors) object channel)
    (hfiles : s'.files = a'.files) (htrace : s'.trace = a'.trace) (hothers : s'.others = s.others)
    (hkept : ∀ fd, (∃ other ≠ key, ∃ telemetry ∈ s.objects other, telemetry.fd = fd ∧ 0 ≤ fd) ∨
      s.others fd ≠ none → s'.descriptors fd = s.descriptors fd)
    (hforeign : ∀ telemetry ∈ object, 0 ≤ telemetry.fd → s.others telemetry.fd = none ∧
      ∀ other ≠ key, ∀ telemetry' ∈ s.objects other, telemetry'.fd ≠ telemetry.fd) :
    Represents s' a' where
  objects := by
    intro other
    rw [hobjects, hchannels]
    by_cases hother : other = key
    · subst hother
      rwa [Function.update_self, Function.update_self]
    · rw [Function.update_of_ne hother, Function.update_of_ne hother]
      exact hrep.rel_of_kept fun telemetry htelemetry hpos ↦
        hkept _ (.inl ⟨other, hother, telemetry, htelemetry, rfl, hpos⟩)
  files := hfiles
  trace := htrace
  others := by
    intro fd file hfile
    rw [hothers] at hfile
    rw [hkept fd (.inr (by simp [hfile]))]
    exact hrep.others fd file hfile
  foreign := by
    intro other telemetry htelemetry
    rw [hothers]
    rw [hobjects] at htelemetry
    by_cases hother : other = key
    · subst hother
      rw [Function.update_self] at htelemetry
      by_cases hfd : telemetry.fd < 0
      · exact hrep.positive _ hfd
      · exact (hforeign telemetry htelemetry (not_lt.mp hfd)).1
    · rw [Function.update_of_ne hother] at htelemetry
      exact hrep.foreign other telemetry htelemetry
  separate := by
    intro first telemetry htelemetry hfd second hne telemetry' htelemetry'
    rw [hobjects] at htelemetry htelemetry'
    by_cases hfirst : first = key
    · subst hfirst
      rw [Function.update_self] at htelemetry
      rw [Function.update_of_ne hne] at htelemetry'
      exact (hforeign telemetry htelemetry hfd).2 second hne telemetry' htelemetry'
    · rw [Function.update_of_ne hfirst] at htelemetry
      by_cases hsecond : second = key
      · subst hsecond
        rw [Function.update_self] at htelemetry'
        intro heq
        exact (hforeign telemetry' htelemetry' (heq ▸ hfd)).2 first hfirst telemetry htelemetry
          heq.symm
      · rw [Function.update_of_ne hsecond] at htelemetry'
        exact hrep.separate first telemetry htelemetry hfd second hne telemetry' htelemetry'
  positive := fun fd hfd ↦ hothers ▸ hrep.positive fd hfd

section Call

variable {key : ℕ} {telemetry : NetworkTelemetry} {channel : Channel}

/-- A descriptor of an object is of no one else. -/
theorem alone (hrep : Represents s a) (htelemetry : s.objects key = some telemetry) {fd : ℤ}
    (hfd : (∃ other ≠ key, ∃ telemetry ∈ s.objects other, telemetry.fd = fd ∧ 0 ≤ fd) ∨
      s.others fd ≠ none) : fd ≠ telemetry.fd := by
  rintro rfl
  rcases hfd with ⟨other, hother, telemetry', htelemetry', heq, hpos⟩ | hused
  · exact hrep.separate key telemetry htelemetry hpos other hother telemetry' htelemetry' heq
  · exact hused (hrep.foreign key telemetry htelemetry)

/-- A call that only changes what is queued. -/
theorem collect (hrep : Represents s a) (htelemetry : s.objects key = some telemetry)
    (hchannel : a.channels key = some channel) {collector : MetricsCollector} {queue : List Metric}
    (hqueue : metrics collector = queue)
    (hcapacity : collector.capacity = telemetry.collector.capacity) (events : List SocketEvent) :
    Represents (s.set key { telemetry with collector := collector } events)
      (a.set key (some { channel with queue := queue }) events) := by
  obtain ⟨_, hchannel', hshows⟩ := hrep.exists_channel htelemetry
  obtain rfl := Option.some.inj (hchannel.symm.trans hchannel')
  refine hrep.replace rfl rfl (.some ⟨hqueue, hcapacity.trans hshows.room, hshows.socket⟩)
    hrep.files (congrArg (· ++ events) hrep.trace) rfl (fun _ _ ↦ rfl)
      fun telemetry' htelemetry' ↦ ?_
  obtain rfl := Option.some.inj htelemetry'
  exact fun hfd ↦ ⟨hrep.foreign key telemetry htelemetry,
    hrep.separate key telemetry htelemetry hfd⟩

/-- A call that empties the queue. -/
theorem empty (hrep : Represents s a) (htelemetry : s.objects key = some telemetry)
    (hchannel : a.channels key = some channel) (events : List SocketEvent) :
    Represents (s.set key { telemetry with collector := telemetry.collector.clear } events)
      (a.set key (some { channel with queue := [] }) events) :=
  have hqueue : metrics telemetry.collector.clear = [] := rfl
  hrep.collect htelemetry hchannel hqueue rfl events

/-- An object closes the file of its own socket. -/
theorem shut (hrep : Represents s a) (htelemetry : s.objects key = some telemetry)
    (hshows : Shows s.descriptors telemetry channel) :
    Represents ((s.close key telemetry.closeSocket.2).set key telemetry.closeSocket.1 [])
      (a.shut key channel) := by
  have hsocket := hshows.socket
  by_cases hfd : telemetry.fd < 0
  · rw [if_pos hfd, eq_comm, Option.map_eq_none_iff] at hsocket
    have hclose : telemetry.closeSocket.2 = none := if_neg (by omega)
    rw [hclose]
    refine hrep.replace rfl rfl (.some ⟨hshows.queue, hshows.room, rfl⟩) hrep.files ?_ rfl
      (fun _ _ ↦ rfl) fun telemetry' htelemetry' hpos ↦ ?_
    · simp [TelemetryProcess.set, TelemetryProcess.close, Channels.set, Channels.shut, hsocket,
        hrep.trace]
    · obtain rfl := Option.some.inj htelemetry'
      exact absurd hpos (by simp [closeSocket])
  · rw [if_neg hfd] at hsocket
    obtain ⟨⟨file, port⟩, hchannel, hfile⟩ := Option.map_eq_some_iff.mp hsocket.symm
    have hclose : telemetry.closeSocket.2 = some telemetry.fd := if_pos (by omega)
    rw [hclose]
    refine hrep.replace rfl rfl (.some ⟨hshows.queue, hshows.room, rfl⟩) hrep.files ?_ rfl
      (fun fd hfd ↦ Function.update_of_ne (hrep.alone htelemetry hfd) ..)
      fun telemetry' htelemetry' hpos ↦ ?_
    · have hdescriptor : some file = s.descriptors telemetry.fd := congrArg Prod.fst hfile
      simp [TelemetryProcess.set, TelemetryProcess.close, Channels.set, Channels.shut, hchannel,
        hdescriptor, hrep.trace]
    · obtain rfl := Option.some.inj htelemetry'
      exact absurd hpos (by simp [closeSocket])

/-- An object without a socket gets one. -/
theorem bind (hrep : Represents s a)
    (hshows : Shows s.descriptors telemetry channel) {fd : ℤ} (hfd : 0 ≤ fd)
    (hfree : s.descriptors fd = none) (port : UInt16) :
    Represents ((s.openSocket key fd).set key { telemetry with fd := fd, port := port } [])
      (a.bind key channel port fd) := by
  have hclosed : ∀ other, (∃ key' ≠ key, ∃ telemetry ∈ s.objects key', telemetry.fd = other ∧
      0 ≤ other) ∨ s.others other ≠ none → other ≠ fd := by
    rintro other (⟨key', -, telemetry', htelemetry', rfl, hpos⟩ | hused) rfl
    · obtain ⟨channel', -, hshows'⟩ := hrep.exists_channel htelemetry'
      have hsocket := hshows'.socket
      rw [if_neg (not_lt.mpr hpos), hfree] at hsocket
      obtain ⟨socket, -, hfile⟩ := Option.map_eq_some_iff.mp hsocket.symm
      cases congrArg Prod.fst hfile
    · obtain ⟨file, hfile⟩ := Option.ne_none_iff_exists'.mp hused
      exact absurd (hrep.others other file hfile) (by simp [hfree])
  have hopen : s.openSocket key fd = { s with
      descriptors := Function.update s.descriptors fd (some s.files)
      files := s.files + 1
      trace := s.trace ++ [.opened key s.files] } := if_neg (not_lt.mpr hfd)
  rw [hopen, Channels.bind, if_neg (not_lt.mpr hfd)]
  refine hrep.replace rfl rfl (.some ⟨hshows.queue, hshows.room, ?_⟩) ?_ ?_ rfl
    (fun other hother ↦ Function.update_of_ne (hclosed other hother) ..)
    fun telemetry' htelemetry' _ ↦ ?_
  · simp [TelemetryProcess.set, not_lt.mpr hfd, hrep.files]
  · simp [TelemetryProcess.set, hrep.files]
  · simp [TelemetryProcess.set, Channels.set, hrep.files, hrep.trace]
  · obtain rfl := Option.some.inj htelemetry'
    refine ⟨?_, fun other hother telemetry' htelemetry' heq ↦ ?_⟩
    · by_contra hused
      exact hclosed fd (.inr hused) rfl
    · exact hclosed fd (.inl ⟨other, hother, telemetry', htelemetry', heq, hfd⟩) rfl

/-- `record`, on the channel. -/
theorem record (hrep : Represents s a) (htelemetry : s.objects key = some telemetry)
    (hchannel : a.channels key = some channel) (hshows : Shows s.descriptors telemetry channel)
    (name : Option (List UInt8)) (value timestampUs : UInt64) :
    Represents
      (s.set key (telemetry.record name value timestampUs).1
        (if (telemetry.record name value timestampUs).2 then
          [.accepted key (reported name value timestampUs)] else []))
      (if channel.queue.length < channel.room then
        a.set key (some { channel with
          queue := channel.queue ++ [reported name value timestampUs] })
          [.accepted key (reported name value timestampUs)]
      else a.set key (some channel) []) := by
  have hlength := hshows.length_queue
  have hrecord : telemetry.record name value timestampUs =
      ({ telemetry with collector := (telemetry.collector.record name value timestampUs).1 },
        (telemetry.collector.record name value timestampUs).2) := rfl
  by_cases haccepted : (telemetry.collector.record name value timestampUs).2 = true
  · have hroom : telemetry.collector.count < telemetry.collector.slots.length := by
      by_contra hfull
      simp [MetricsCollector.record, hfull] at haccepted
    have hqueue : channel.queue.length < channel.room := by rwa [hlength, ← hshows.room]
    rw [hrecord, haccepted, if_pos rfl, if_pos hqueue]
    refine hrep.collect htelemetry hchannel ?_ ?_ [.accepted key (reported name value timestampUs)]
    · rw [metrics, MetricsCollector.queued_record haccepted, ← hshows.queue, metrics]
    · simp [MetricsCollector.record, hroom, MetricsCollector.capacity]
  · have hrefused := Bool.eq_false_iff.mpr haccepted
    obtain ⟨hfull, hsame⟩ := MetricsCollector.record_refused hrefused
    rw [MetricsCollector.length_queued, hshows.room, ← hlength] at hfull
    rw [hrecord, hrefused, hsame, if_neg Bool.false_ne_true, if_neg (by omega)]
    exact hrep.collect htelemetry hchannel hshows.queue rfl []

/-- `flush_to`, on the channel. -/
theorem flushTo (hrep : Represents s a) (htelemetry : s.objects key = some telemetry)
    (hchannel : a.channels key = some channel) (hshows : Shows s.descriptors telemetry channel)
    (dst : Option ℕ) :
    Represents
      (s.set key (telemetry.flushTo dst).1
        ((if (telemetry.flushTo dst).2.2 = 0 then []
          else [.removed key .copied ((telemetry.flushTo dst).2.1.map MetricSample.metric),
            .removed key .overlooked
              ((metrics telemetry.collector).drop (telemetry.flushTo dst).2.2)]) ++
          [.flushed key (telemetry.flushTo dst).2.2]))
      (if min channel.queue.length (dst.getD 0 / sampleBytes) = 0 then
        a.set key (some channel) [.flushed key 0]
      else a.set key (some { channel with queue := [] })
        [.removed key .copied
            (channel.queue.take (min channel.queue.length (dst.getD 0 / sampleBytes))),
          .removed key .overlooked
            (channel.queue.drop (min channel.queue.length (dst.getD 0 / sampleBytes))),
          .flushed key (min channel.queue.length (dst.getD 0 / sampleBytes))]) := by
  rw [hshows.length_queue]
  generalize hcount : min telemetry.collector.count (dst.getD 0 / sampleBytes) = count
  simp only [NetworkTelemetry.flushTo, flushTo_eq, hcount]
  by_cases hzero : count = 0
  · rw [if_pos hzero, if_pos hzero]
    exact hrep.collect htelemetry hchannel hshows.queue rfl [.flushed key 0]
  · rw [if_neg hzero, if_neg hzero]
    simp only [if_neg hzero, List.map_take]
    rw [← metrics, hshows.queue]
    exact hrep.empty htelemetry hchannel _

/-- `flush_udp`, on the channel. -/
theorem flushUdp (hrep : Represents s a) (htelemetry : s.objects key = some telemetry)
    (hchannel : a.channels key = some channel) (hshows : Shows s.descriptors telemetry channel)
    {sent : ℤ} (hsent : sent < 0 ∨ sent = telemetry.collector.count * sampleBytes) :
    Represents
      (s.set key (telemetry.flushUdp sent).1
        [match (telemetry.flushUdp sent).2.1 with
        | none => .removed key .dropped (metrics telemetry.collector)
        | some datagram =>
          .removed key (.sent (s.descriptors datagram.fd) datagram.port (0 < sent))
            ((telemetry.collector.slots.take (datagram.bytes / sampleBytes)).map
              MetricSample.metric),
          .flushed key (telemetry.flushUdp sent).2.2])
      (a.set key (some { channel with queue := [] })
        [.removed key (Channels.flushFate channel sent).1 channel.queue,
          .flushed key (Channels.flushFate channel sent).2]) := by
  have hlength := hshows.length_queue
  have hsocket := hshows.socket
  rw [hshows.queue]
  simp only [NetworkTelemetry.flushUdp, queuedBytes_mod]
  by_cases hzero : telemetry.collector.count = 0
  · have hnil : channel.queue = [] := List.length_eq_zero_iff.mp (hlength.trans hzero)
    have hqueue : metrics telemetry.collector = [] := hshows.queue.trans hnil
    have hfate : Channels.flushFate channel sent = (.dropped, 0) := by
      unfold Channels.flushFate
      cases channel.socket <;> simp [hnil]
    rw [if_pos hzero, hfate]
    exact hrep.collect htelemetry hchannel hqueue rfl _
  rw [if_neg hzero]
  by_cases hfd : telemetry.fd < 0
  · rw [if_pos hfd, eq_comm, Option.map_eq_none_iff] at hsocket
    have hfate : Channels.flushFate channel sent = (.dropped, telemetry.collector.count) := by
      rw [Channels.flushFate, hsocket, hlength]
    rw [if_pos hfd, hfate]
    exact hrep.empty htelemetry hchannel _
  · rw [if_neg hfd] at hsocket
    obtain ⟨⟨file, port⟩, hport, hfile⟩ := Option.map_eq_some_iff.mp hsocket.symm
    obtain ⟨hdescriptor, rfl⟩ := Prod.mk.inj hfile
    have hfate : Channels.flushFate channel sent = (.sent (some file) telemetry.port (0 < sent),
        if 0 < sent then telemetry.collector.count else 0) := by
      rw [Channels.flushFate, hport, hlength]
      exact if_neg hzero
    have hcount : (if sent ≤ 0 then 0 else sent.toNat / sampleBytes) =
        if 0 < sent then telemetry.collector.count else 0 := by
      rcases hsent with hfailed | rfl
      · rw [if_pos hfailed.le, if_neg hfailed.le.not_gt]
      · have hpos : (0 : ℤ) < telemetry.collector.count * sampleBytes := by
          exact_mod_cast Nat.mul_pos (Nat.pos_of_ne_zero hzero) (by decide)
        rw [if_neg hpos.not_ge, if_pos hpos, ← Nat.cast_mul, Int.toNat_natCast,
          Nat.mul_div_cancel _ (by decide)]
    have hgiven : (telemetry.collector.slots.take
        (telemetry.collector.count * sampleBytes / sampleBytes)).map MetricSample.metric =
          channel.queue := by
      rw [Nat.mul_div_cancel _ (by decide)]
      exact hshows.queue
    rw [if_neg hfd, hfate, hcount]
    dsimp only
    rw [← hdescriptor, hgiven]
    exact hrep.empty htelemetry hchannel _

/-- `bind_loopback`, on the channel. -/
theorem bindLoopback (hrep : Represents s a) (htelemetry : s.objects key = some telemetry)
    (hshows : Shows s.descriptors telemetry channel) {fd : ℤ}
    (hfd : fd < 0 ∨ fd = telemetry.fd ∨ s.descriptors fd = none) (port : UInt16) :
    Represents
      (((s.close key (telemetry.bindLoopback port fd).2.1).openSocket key fd).set key
        (telemetry.bindLoopback port fd).1 [])
      ((a.shut key channel).bind key { channel with socket := none } port fd) := by
  have hshut := hrep.shut htelemetry hshows
  by_cases hfailed : fd < 0
  · have hbind : telemetry.bindLoopback port fd =
        (telemetry.closeSocket.1, telemetry.closeSocket.2, false) := if_pos hfailed
    rw [hbind, Channels.bind, if_pos hfailed, TelemetryProcess.openSocket, if_pos hfailed]
    exact hshut
  · have hbind : telemetry.bindLoopback port fd =
        ({ telemetry.closeSocket.1 with fd := fd, port := port }, telemetry.closeSocket.2, true) :=
      if_neg hfailed
    have hfree : (s.close key telemetry.closeSocket.2).descriptors fd = none := by
      unfold NetworkTelemetry.closeSocket
      dsimp only
      rcases hfd with hneg | rfl | hfree
      · exact absurd hneg hfailed
      · rw [if_pos (not_lt.mp hfailed)]
        exact Function.update_self ..
      · split_ifs with hopen
        · by_cases heq : fd = telemetry.fd
          · rw [heq]
            exact Function.update_self ..
          · exact (Function.update_of_ne heq ..).trans hfree
        · exact hfree
    have hclosed : Shows (s.close key telemetry.closeSocket.2).descriptors telemetry.closeSocket.1
        { channel with socket := none } := ⟨hshows.queue, hshows.room, rfl⟩
    have hopen : Represents
        ((((s.close key telemetry.closeSocket.2).set key telemetry.closeSocket.1 []).openSocket key
          fd).set key { telemetry.closeSocket.1 with fd := fd, port := port } [])
        ((a.shut key channel).bind key { channel with socket := none } port fd) :=
      hshut.bind hclosed (not_lt.mp hfailed) hfree port
    rw [hbind]
    simp only [TelemetryProcess.openSocket, if_neg hfailed, TelemetryProcess.set, List.append_nil,
      Function.update_idem] at hopen ⊢
    exact hopen

/-- The destructor, on the channel. -/
theorem destroy (hrep : Represents s a) (htelemetry : s.objects key = some telemetry)
    (hshows : Shows s.descriptors telemetry channel) :
    Represents
      { s.close key telemetry.closeSocket.2 with
        objects := Function.update (s.close key telemetry.closeSocket.2).objects key none
        trace := (s.close key telemetry.closeSocket.2).trace ++
          [.removed key .discarded (metrics telemetry.collector)] }
      ((a.shut key channel).set key none [.removed key .discarded channel.queue]) := by
  have hshut := hrep.shut htelemetry hshows
  refine hshut.replace ?_ rfl .none hshut.files ?_ rfl (fun _ _ ↦ rfl)
    (fun telemetry' htelemetry' ↦ by cases htelemetry')
  · exact (Function.update_idem ..).symm
  · have htrace := hshut.trace
    simp only [TelemetryProcess.set, List.append_nil] at htrace
    rw [htrace, hshows.queue]
    rfl

end Call

/-- The rest of the process changes descriptors that no object uses. -/
theorem frame (hrep : Represents s a) {s' : TelemetryProcess} {a' : Channels}
    (hobjects : s'.objects = s.objects) (hchannels : a'.channels = a.channels)
    (hfiles : s'.files = a'.files) (htrace : s'.trace = a'.trace)
    (hothers : ∀ fd file, s'.others fd = some file → s'.descriptors fd = some file)
    (hpositive : ∀ fd < 0, s'.others fd = none)
    (hkept : ∀ key, ∀ telemetry ∈ s.objects key, 0 ≤ telemetry.fd →
      s'.descriptors telemetry.fd = s.descriptors telemetry.fd ∧ s'.others telemetry.fd = none) :
    Represents s' a' where
  objects := by
    intro key
    rw [hobjects, hchannels]
    exact hrep.rel_of_kept fun telemetry htelemetry hpos ↦ (hkept key telemetry htelemetry hpos).1
  files := hfiles
  trace := htrace
  others := hothers
  foreign := by
    intro key telemetry htelemetry
    rw [hobjects] at htelemetry
    by_cases hfd : telemetry.fd < 0
    · exact hpositive _ hfd
    · exact (hkept key telemetry htelemetry (not_lt.mp hfd)).2
  separate := by
    rw [hobjects]
    exact hrep.separate
  positive := hpositive

/-- The file behind the descriptor of an object is open. -/
theorem exists_file (hrep : Represents s a) {key : ℕ} {telemetry : NetworkTelemetry}
    (htelemetry : s.objects key = some telemetry) (hfd : 0 ≤ telemetry.fd) :
    ∃ file, s.descriptors telemetry.fd = some file := by
  obtain ⟨channel, -, hshows⟩ := hrep.exists_channel htelemetry
  have hsocket := hshows.socket
  rw [if_neg (not_lt.mpr hfd)] at hsocket
  obtain ⟨⟨file, port⟩, -, hfile⟩ := Option.map_eq_some_iff.mp hsocket.symm
  exact ⟨file, (congrArg Prod.fst hfile).symm⟩

/-- The rest of the process opens a file. -/
theorem openFile (hrep : Represents s a) {fd : ℤ} (hfd : 0 ≤ fd) (hfree : s.descriptors fd = none) :
    Represents
      { s with
        descriptors := Function.update s.descriptors fd (some s.files)
        others := Function.update s.others fd (some s.files)
        files := s.files + 1 }
      { a with files := a.files + 1 } := by
  refine hrep.frame rfl rfl (congrArg (· + 1) hrep.files) hrep.trace (fun other file hfile ↦ ?_)
    (fun other hother ↦ ?_) fun key telemetry htelemetry hpos ↦ ?_
  · by_cases heq : other = fd
    · subst heq
      dsimp only at hfile ⊢
      rwa [Function.update_self] at hfile ⊢
    · dsimp only at hfile ⊢
      rw [Function.update_of_ne heq] at hfile ⊢
      exact hrep.others other file hfile
  · exact (Function.update_of_ne (by omega) ..).trans (hrep.positive other hother)
  · have hne : telemetry.fd ≠ fd := by
      obtain ⟨file, hfile⟩ := hrep.exists_file htelemetry hpos
      rintro rfl
      rw [hfree] at hfile
      cases hfile
    exact ⟨Function.update_of_ne hne .., (Function.update_of_ne hne ..).trans
      (hrep.foreign key telemetry htelemetry)⟩

/-- The rest of the process closes a file. -/
theorem closeFile (hrep : Represents s a) {fd : ℤ} (hused : s.others fd ≠ none) :
    Represents
      { s with
        descriptors := Function.update s.descriptors fd none
        others := Function.update s.others fd none } a := by
  refine hrep.frame rfl rfl hrep.files hrep.trace (fun other file hfile ↦ ?_)
    (fun other hother ↦ ?_) fun key telemetry htelemetry hpos ↦ ?_
  · by_cases heq : other = fd
    · subst heq
      dsimp only at hfile
      rw [Function.update_self] at hfile
      cases hfile
    · dsimp only at hfile ⊢
      rw [Function.update_of_ne heq] at hfile ⊢
      exact hrep.others other file hfile
  · by_cases heq : other = fd
    · subst heq
      exact Function.update_self ..
    · exact (Function.update_of_ne heq ..).trans (hrep.positive other hother)
  · have hne : telemetry.fd ≠ fd := (hrep.alone htelemetry (.inr hused)).symm
    exact ⟨Function.update_of_ne hne .., (Function.update_of_ne hne ..).trans
      (hrep.foreign key telemetry htelemetry)⟩

/-- A call on an object, as a call on its channel. -/
theorem of_object (hrep : Represents s a) {key : ℕ} {call : NetworkTelemetry → TelemetryProcess}
    {spec : Channel → Channels} {s' : TelemetryProcess} (hstep : (s.objects key).map call = some s')
    (hcall : ∀ telemetry channel, s.objects key = some telemetry → a.channels key = some channel →
      Shows s.descriptors telemetry channel → Represents (call telemetry) (spec channel)) :
    ∃ a', (a.channels key).map spec = some a' ∧ Represents s' a' := by
  obtain ⟨telemetry, htelemetry, rfl⟩ := Option.map_eq_some_iff.mp hstep
  obtain ⟨channel, hchannel, hshows⟩ := hrep.exists_channel htelemetry
  exact ⟨_, Option.map_eq_some_iff.mpr ⟨channel, hchannel, rfl⟩,
    hcall telemetry channel htelemetry hchannel hshows⟩

/-- Every step of the process is a step of the channels. -/
theorem step (hrep : Represents s a) {action : SocketAction} {s' : TelemetryProcess}
    (hanswered : s.Answered action) (hstep : s.step action = some s') :
    ∃ a', a.step action = some a' ∧ Represents s' a' := by
  cases action with
  | construct key capacity hfits =>
    obtain ⟨hnone, hnext⟩ := Option.ite_none_left_eq_some.mp hstep
    obtain rfl := Option.some.inj hnext
    refine ⟨_, if_neg (by rwa [hrep.isSome_eq]), ?_⟩
    refine hrep.replace rfl rfl (.some ⟨rfl, List.length_replicate, rfl⟩) hrep.files
      (congrArg (· ++ []) hrep.trace) rfl (fun _ _ ↦ rfl) fun telemetry' htelemetry' hpos ↦ ?_
    obtain rfl := Option.some.inj htelemetry'
    exact absurd hpos (by simp [NetworkTelemetry.new])
  | record key name value timestampUs =>
    exact hrep.of_object hstep fun telemetry channel htelemetry hchannel hshows ↦
      hrep.record htelemetry hchannel hshows name value timestampUs
  | bindLoopback key port fd =>
    refine hrep.of_object hstep fun telemetry channel htelemetry _ hshows ↦ ?_
    exact hrep.bindLoopback htelemetry hshows (hanswered telemetry htelemetry) port
  | closeSocket key =>
    exact hrep.of_object hstep fun telemetry channel htelemetry _ hshows ↦
      hrep.shut htelemetry hshows
  | flushTo key dst =>
    exact hrep.of_object hstep fun telemetry channel htelemetry hchannel hshows ↦
      hrep.flushTo htelemetry hchannel hshows dst
  | flushUdp key sent =>
    refine hrep.of_object hstep fun telemetry channel htelemetry hchannel hshows ↦ ?_
    exact hrep.flushUdp htelemetry hchannel hshows (hanswered telemetry htelemetry)
  | clear key =>
    refine hrep.of_object hstep fun telemetry channel htelemetry hchannel hshows ↦ ?_
    rw [hshows.queue]
    exact hrep.empty htelemetry hchannel _
  | destroy key =>
    exact hrep.of_object hstep fun telemetry channel htelemetry _ hshows ↦
      hrep.destroy htelemetry hshows
  | openFile fd =>
    obtain ⟨hfd, hfree⟩ := hanswered
    exact ⟨_, rfl, Option.some.inj hstep ▸ hrep.openFile hfd hfree⟩
  | closeFile fd =>
    obtain ⟨hused, hnext⟩ := Option.ite_none_left_eq_some.mp hstep
    exact ⟨_, rfl, Option.some.inj hnext ▸ hrep.closeFile hused⟩

end Represents

/-! ### What has become of sockets and metrics -/

/-- The key of the object that an event is about. -/
def SocketEvent.key : SocketEvent → ℕ
  | .opened key _ | .closed key _ | .accepted key _ | .removed key _ _ | .flushed key _ => key

/-- The events about one object. -/
def ofKey (key : ℕ) (trace : List SocketEvent) : List SocketEvent :=
  trace.filter fun event ↦ event.key = key

/-- The files opened. -/
def openedFiles (trace : List SocketEvent) : List ℕ :=
  trace.filterMap fun event ↦ match event with
    | .opened _ file => some file
    | _ => none

/-- The files closed. -/
def closedFiles (trace : List SocketEvent) : List (Option ℕ) :=
  trace.filterMap fun event ↦ match event with
    | .closed _ file => some file
    | _ => none

/-- The metrics accepted. -/
def acceptedMetrics (trace : List SocketEvent) : List Metric :=
  trace.filterMap fun event ↦ match event with
    | .accepted _ metric => some metric
    | _ => none

/-- The metrics that have left the queue. -/
def removedMetrics (trace : List SocketEvent) : List Metric :=
  trace.flatMap fun event ↦ match event with
    | .removed _ _ metrics => metrics
    | _ => []

/-- The sum of what the calls of `flush_to` and `flush_udp` have returned. -/
def returnedSum (trace : List SocketEvent) : ℕ :=
  (trace.map fun event ↦ match event with
    | .flushed _ count => count
    | _ => 0).sum

/-- The metrics that these calls count: those copied, those sent, and those dropped without a
socket. -/
def Fate.isCounted : Fate → Bool
  | .copied | .sent _ _ true | .dropped => true
  | _ => false

/-- The number of metrics that are counted. -/
def countedMetrics (trace : List SocketEvent) : ℕ :=
  (trace.map fun event ↦ match event with
    | .removed _ fate metrics => if fate.isCounted then metrics.length else 0
    | _ => 0).sum

/-- The file of the socket of a channel. -/
def heldFile (channel : Option Channel) : List (Option ℕ) :=
  (channel.bind Channel.socket).toList.map fun socket ↦ some socket.1

/-- The queue of a channel. -/
def queueOf (channel : Option Channel) : List Metric := channel.elim [] Channel.queue

/-- Every file opened has been closed, in order, but for that of the socket; every metric accepted
has left the queue, in order, but for those in the queue; the calls return what they count. -/
structure Balanced (events : List SocketEvent) (channel : Option Channel) : Prop where
  sockets : (openedFiles events).map some = closedFiles events ++ heldFile channel
  metrics : acceptedMetrics events = removedMetrics events ++ queueOf channel
  counts : returnedSum events = countedMetrics events

theorem Balanced.append {events later : List SocketEvent} {channel next : Option Channel}
    (hbalanced : Balanced events channel)
    (hsockets : heldFile channel ++ (openedFiles later).map some =
        closedFiles later ++ heldFile next)
    (hmetrics : queueOf channel ++ acceptedMetrics later = removedMetrics later ++ queueOf next)
    (hcounts : returnedSum later = countedMetrics later) : Balanced (events ++ later) next where
  sockets := by
    have hopened : openedFiles (events ++ later) = openedFiles events ++ openedFiles later :=
      List.filterMap_append
    have hclosed : closedFiles (events ++ later) = closedFiles events ++ closedFiles later :=
      List.filterMap_append
    rw [hopened, hclosed, List.map_append, hbalanced.sockets, List.append_assoc, hsockets,
      List.append_assoc]
  metrics := by
    have haccepted : acceptedMetrics (events ++ later) =
        acceptedMetrics events ++ acceptedMetrics later :=
      List.filterMap_append
    have hremoved : removedMetrics (events ++ later) =
        removedMetrics events ++ removedMetrics later :=
      List.flatMap_append
    rw [haccepted, hremoved, hbalanced.metrics, List.append_assoc, hmetrics, List.append_assoc]
  counts := by
    have hcounts' := hbalanced.counts
    simp only [returnedSum, countedMetrics, List.map_append, List.sum_append] at hcounts hcounts' ⊢
    rw [hcounts, hcounts']

/-- What `flush_udp` returns. -/
theorem flushFate_snd (channel : Channel) (sent : ℤ) : (Channels.flushFate channel sent).2 =
    if (Channels.flushFate channel sent).1.isCounted then channel.queue.length else 0 := by
  unfold Channels.flushFate
  rcases channel.socket with _ | ⟨file, port⟩
  · rfl
  · by_cases hempty : channel.queue.length = 0
    · simp [hempty, Fate.isCounted]
    · by_cases hsent : 0 < sent <;> simp [hempty, hsent, Fate.isCounted]

/-- Every channel is balanced, and no file is opened twice. -/
structure Accounted (a : Channels) : Prop where
  balanced : ∀ key, Balanced (ofKey key a.trace) (a.channels key)
  increasing : (openedFiles a.trace).Pairwise (· < ·)
  bounded : ∀ file ∈ openedFiles a.trace, file < a.files

namespace Accounted

variable {a : Channels}

-- What a call adds to the accounts is computed from its events.
attribute [local simp] heldFile queueOf openedFiles closedFiles acceptedMetrics removedMetrics
  returnedSum countedMetrics SocketEvent.key

/-- A call on one channel. -/
theorem set (haccounted : Accounted a) {key : ℕ} {channel : Option Channel}
    {events : List SocketEvent} {files : ℕ} (hown : ∀ event ∈ events, event.key = key)
    (hsockets : heldFile (a.channels key) ++ (openedFiles events).map some =
      closedFiles events ++ heldFile channel)
    (hmetrics : queueOf (a.channels key) ++ acceptedMetrics events =
        removedMetrics events ++ queueOf channel)
    (hcounts : returnedSum events = countedMetrics events)
    (hfresh : openedFiles events = [] ∧ files = a.files ∨
      openedFiles events = [a.files] ∧ files = a.files + 1) :
    Accounted { a.set key channel events with files := files } where
  balanced := by
    intro other
    have htrace : ofKey other (a.trace ++ events) = ofKey other a.trace ++ ofKey other events :=
      List.filter_append ..
    simp only [Channels.set, htrace]
    by_cases hother : other = key
    · subst hother
      have hall : ofKey other events = events :=
        List.filter_eq_self.mpr fun event hevent ↦ decide_eq_true (hown event hevent)
      rw [Function.update_self, hall]
      exact (haccounted.balanced other).append hsockets hmetrics hcounts
    · have hnone : ofKey other events = [] := List.filter_eq_nil_iff.mpr fun event hevent ↦ by
        rw [hown event hevent]
        simpa using Ne.symm hother
      rw [Function.update_of_ne hother, hnone, List.append_nil]
      exact haccounted.balanced other
  increasing := by
    have hopened : openedFiles (a.trace ++ events) = openedFiles a.trace ++ openedFiles events :=
      List.filterMap_append
    simp only [Channels.set, hopened]
    rcases hfresh with ⟨hnone, -⟩ | ⟨hone, -⟩
    · rw [hnone, List.append_nil]
      exact haccounted.increasing
    · rw [hone]
      refine List.pairwise_append.mpr ⟨haccounted.increasing, List.pairwise_singleton .., ?_⟩
      intro file hfile other hother
      rw [List.mem_singleton.mp hother]
      exact haccounted.bounded file hfile
  bounded := by
    have hopened : openedFiles (a.trace ++ events) = openedFiles a.trace ++ openedFiles events :=
      List.filterMap_append
    simp only [Channels.set, hopened]
    intro file hfile
    rcases hfresh with ⟨hnone, rfl⟩ | ⟨hone, rfl⟩
    · rw [hnone, List.append_nil] at hfile
      exact haccounted.bounded file hfile
    · rw [hone, List.mem_append, List.mem_singleton] at hfile
      rcases hfile with hold | rfl
      · exact (haccounted.bounded file hold).trans (Nat.lt_succ_self _)
      · exact Nat.lt_succ_self _

theorem initial : Accounted Channels.initial where
  balanced := fun _ ↦ ⟨rfl, rfl, rfl⟩
  increasing := List.Pairwise.nil
  bounded := fun _ hfile ↦ absurd hfile List.not_mem_nil

/-- A call on one channel in which no file is opened. -/
theorem setOnly (haccounted : Accounted a) {key : ℕ} {channel : Option Channel}
    {events : List SocketEvent} (hown : ∀ event ∈ events, event.key = key)
    (hopened : openedFiles events = [])
    (hsockets : heldFile (a.channels key) = closedFiles events ++ heldFile channel)
    (hmetrics : queueOf (a.channels key) ++ acceptedMetrics events =
      removedMetrics events ++ queueOf channel)
    (hcounts : returnedSum events = countedMetrics events) :
    Accounted (a.set key channel events) :=
  haccounted.set hown (by rw [hopened, List.map_nil, List.append_nil, hsockets]) hmetrics hcounts
    (.inl ⟨hopened, rfl⟩)

section Call

variable {key : ℕ} {channel : Channel}

theorem shut (haccounted : Accounted a) (hchannel : a.channels key = some channel) :
    Accounted (a.shut key channel) := by
  cases hsocket : channel.socket with
  | none =>
    refine haccounted.setOnly ?_ ?_ ?_ ?_ ?_ <;>
      simp [hsocket, hchannel]
  | some socket =>
    refine haccounted.setOnly ?_ ?_ ?_ ?_ ?_ <;>
      simp [hsocket, hchannel]

theorem bind (haccounted : Accounted a) (hchannel : a.channels key = some channel)
    (hsocket : channel.socket = none) (port : UInt16) (fd : ℤ) :
    Accounted (a.bind key channel port fd) := by
  unfold Channels.bind
  split_ifs
  · exact haccounted
  · refine haccounted.set ?_ ?_ ?_ ?_ (.inr ⟨rfl, rfl⟩) <;>
      simp [hsocket, hchannel]

/-- A call that empties the queue in one piece. -/
theorem remove (haccounted : Accounted a) (hchannel : a.channels key = some channel) {fate : Fate}
    {events : List SocketEvent} (hevents : events = [] ∧ fate.isCounted = false ∨
      events = [.flushed key (if fate.isCounted then channel.queue.length else 0)]) :
    Accounted (a.set key (some { channel with queue := [] })
      (.removed key fate channel.queue :: events)) := by
  rcases hevents with ⟨rfl, hfate⟩ | rfl <;> refine haccounted.setOnly ?_ ?_ ?_ ?_ ?_ <;>
    simp [*]

end Call

/-- Every step keeps the accounts. -/
theorem step (haccounted : Accounted a) {action : SocketAction} {a' : Channels}
    (hstep : a.step action = some a') : Accounted a' := by
  cases action with
  | construct key capacity hfits =>
    obtain ⟨hnone, hnext⟩ := Option.ite_none_left_eq_some.mp hstep
    obtain rfl := Option.some.inj hnext
    have hchannel : a.channels key = none := by simpa using hnone
    refine haccounted.setOnly ?_ ?_ ?_ ?_ ?_ <;>
      simp [hchannel]
  | record key name value timestampUs =>
    obtain ⟨channel, hchannel, rfl⟩ := Option.map_eq_some_iff.mp hstep
    dsimp only
    split_ifs <;> refine haccounted.setOnly ?_ ?_ ?_ ?_ ?_ <;>
      simp [hchannel]
  | bindLoopback key port fd =>
    obtain ⟨channel, hchannel, rfl⟩ := Option.map_eq_some_iff.mp hstep
    exact (haccounted.shut hchannel).bind (Function.update_self ..) rfl port fd
  | closeSocket key =>
    obtain ⟨channel, hchannel, rfl⟩ := Option.map_eq_some_iff.mp hstep
    exact haccounted.shut hchannel
  | flushTo key dst =>
    obtain ⟨channel, hchannel, rfl⟩ := Option.map_eq_some_iff.mp hstep
    dsimp only
    split_ifs <;> refine haccounted.setOnly ?_ ?_ ?_ ?_ ?_ <;>
      simp [hchannel, Fate.isCounted]
  | flushUdp key sent =>
    obtain ⟨channel, hchannel, rfl⟩ := Option.map_eq_some_iff.mp hstep
    exact haccounted.remove hchannel (.inr (by rw [flushFate_snd]))
  | clear key =>
    obtain ⟨channel, hchannel, rfl⟩ := Option.map_eq_some_iff.mp hstep
    exact haccounted.remove hchannel (.inl ⟨rfl, rfl⟩)
  | destroy key =>
    obtain ⟨channel, hchannel, rfl⟩ := Option.map_eq_some_iff.mp hstep
    have hshut : (a.shut key channel).channels key = some { channel with socket := none } :=
      Function.update_self ..
    refine (haccounted.shut hchannel).setOnly ?_ ?_ ?_ ?_ ?_ <;>
      simp [hshut, Fate.isCounted]
  | openFile fd =>
    obtain rfl := Option.some.inj hstep
    exact ⟨haccounted.balanced, haccounted.increasing,
      fun file hfile ↦ (haccounted.bounded file hfile).trans (Nat.lt_succ_self _)⟩
  | closeFile fd =>
    obtain rfl := Option.some.inj hstep
    exact haccounted

end Accounted

/-! ### Every run -/

theorem represents_initial : Represents .initial .initial where
  objects := fun _ ↦ .none
  files := rfl
  trace := rfl
  others := fun _ _ h ↦ by cases h
  foreign := fun _ _ h ↦ by cases h
  separate := fun _ _ h ↦ by cases h
  positive := fun _ _ ↦ rfl

/-- In every run of telemetry objects in a process that opens and closes files of its own, the
objects do what channels do that have sockets of their own, and the files of the rest of the process
stay open. No file is opened twice, each socket of an object is closed exactly once, in order and by
that object, but for the one in use, every metric accepted has left the queue exactly once, in
order, but for those queued, and the calls return the number of metrics that they have copied, sent,
or dropped for want of a socket. Assumes: `::socket` fails or returns a descriptor that is not open,
and `::sendto` fails or sends all bytes. -/
theorem telemetry_correct {s : TelemetryProcess}
    (hreach : TelemetryProcess.system.Reaches TelemetryProcess.Answered .initial s) :
    ∃ a, Channels.system.Reaches TransitionSystem.unguarded .initial a ∧ Represents s a ∧
      (openedFiles s.trace).Pairwise (· < ·) ∧
      ∀ key, Balanced (ofKey key s.trace) (a.channels key) := by
  suffices hinv : ∃ a, Channels.system.Reaches TransitionSystem.unguarded .initial a ∧
      Represents s a ∧ Accounted a by
    obtain ⟨a, hchannels, hrep, haccounted⟩ := hinv
    rw [hrep.trace]
    exact ⟨a, hchannels, hrep, haccounted.increasing, haccounted.balanced⟩
  refine hreach.invariant ⟨_, .refl, represents_initial, .initial⟩ ?_
  rintro state action next ⟨a, hchannels, hrep, haccounted⟩ hanswered hstep
  obtain ⟨a', hstep', hrep'⟩ := hrep.step hanswered hstep
  exact ⟨a', hchannels.tail trivial hstep', hrep', haccounted.step hstep'⟩

/-- A guard that can be computed. -/
def answeredCheck (s : TelemetryProcess) : SocketAction → Bool
  | .bindLoopback _ _ fd => s.descriptors fd = none
  | .flushUdp key sent =>
    (s.objects key).all fun telemetry ↦ sent = telemetry.collector.count * sampleBytes
  | .openFile fd => 0 ≤ fd ∧ s.descriptors fd = none
  | _ => true

theorem answered_of_check (s : TelemetryProcess) (action : SocketAction)
    (hcheck : answeredCheck s action = true) : s.Answered action := by
  cases action with
  | bindLoopback key port fd => exact fun _ _ ↦ .inr (.inr (of_decide_eq_true hcheck))
  | flushUdp key sent =>
    exact fun telemetry htelemetry ↦ .inr (of_decide_eq_true
      ((Option.all_eq_true _ _).mp hcheck telemetry htelemetry))
  | openFile fd =>
    have hfree : 0 ≤ fd ∧ s.descriptors fd = none := of_decide_eq_true hcheck
    exact hfree
  | _ => trivial

/-- The theorem at a run in which the rest of the process gets the descriptor that an object has
closed, before that object is flushed and destroyed. -/
theorem telemetry_correct_reused : ∃ s a, Represents s a ∧
    (∀ key, Balanced (ofKey key s.trace) (a.channels key)) ∧ s.descriptors 3 = some 2 ∧
      s.trace = [.opened 0 0, .opened 1 1, .accepted 0 ⟨[97], 5, 1⟩, .closed 0 (some 0),
        .accepted 1 ⟨[98], 6, 2⟩, .removed 0 .dropped [⟨[97], 5, 1⟩], .flushed 0 1,
        .removed 1 (.sent (some 1) 9001 true) [⟨[98], 6, 2⟩], .flushed 1 1, .closed 1 (some 1),
        .removed 1 .discarded [], .removed 0 .discarded []] := by
  obtain ⟨s, hreach, htest⟩ := TransitionSystem.Reaches.exists_of_any TelemetryProcess.system
    .initial
    [.construct 0 4 (by decide), .construct 1 4 (by decide), .bindLoopback 0 9000 3,
      .bindLoopback 1 9001 4, .record 0 (some [97]) 5 1, .closeSocket 0, .openFile 3,
      .record 1 (some [98]) 6 2, .flushUdp 0 48, .flushUdp 1 48, .destroy 1, .destroy 0]
    answeredCheck
    (fun s ↦ s.descriptors 3 = some 2 ∧ s.trace = [.opened 0 0, .opened 1 1,
      .accepted 0 ⟨[97], 5, 1⟩, .closed 0 (some 0), .accepted 1 ⟨[98], 6, 2⟩,
      .removed 0 .dropped [⟨[97], 5, 1⟩], .flushed 0 1,
      .removed 1 (.sent (some 1) 9001 true) [⟨[98], 6, 2⟩], .flushed 1 1, .closed 1 (some 1),
      .removed 1 .discarded [], .removed 0 .discarded []])
    answered_of_check (by decide) (by decide)
  obtain ⟨hfile, htrace⟩ := of_decide_eq_true htest
  obtain ⟨a, -, hrep, -, hbalanced⟩ := telemetry_correct hreach
  exact ⟨s, a, hrep, hbalanced, hfile, htrace⟩

end GameEngine.Telemetry
