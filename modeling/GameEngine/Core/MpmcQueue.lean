import GameEngine.Library.CallTable
import GameEngine.Library.CircularBuffer
import GameEngine.Library.MachineWord
import GameEngine.Library.TicketRing
import GameEngine.Library.TransitionSystem
import Mathlib.Data.List.Nodup
import Mathlib.Data.List.Range

/-!
# The overflow inbox of the task graph

`MpmcQueue` is the bounded queue of `task_graph.cpp`: a ring of slots, each with a sequence number
and an item, and two counters. A successful compare-exchange on `tail_` gives a producer its ticket,
one on `head_` gives a consumer its ticket. A call is a sequence of atomic steps; `QueueCall` says
how far it has come and `queueCallStep` takes its next step. A weak compare-exchange may fail
although the counter is as expected.

`QueueLog` records the tickets as the steps hand them out, publish them and release them. In
`QueueState.Sound` the sequence number of a slot is that of its current ticket, plus one once the
ticket is published: it says who may touch the item. `QueueState.Sound.step` is the step lemma.
-/

set_option autoImplicit false
set_option relaxedAutoImplicit false

namespace GameEngine.Core

open GameEngine.Library GameEngine.Library.MachineWord GameEngine.Library.CircularBuffer
open GameEngine.Library.TicketRing

/-! ### The queue and its calls -/

/-- The number of slots. -/
def kQueueCap : ℕ := 4096

/-- The queue. Slots are given by index; an item is a node pointer, `none` being null. -/
structure MpmcQueue (Node : Type) where
  seq : ℕ → ℕ
  item : ℕ → Option Node
  head : ℕ
  tail : ℕ

/-- A new queue. -/
def MpmcQueue.empty {Node : Type} : MpmcQueue Node := ⟨id, fun _ ↦ none, 0, 0⟩

/-- The slot of a position: the position masked by `kQueueCap - 1`. -/
def slotOf (pos : ℕ) : ℕ := pos % kQueueCap

/-- The cast of a 64-bit word to `intptr_t`. -/
def toIntptr (word : ℕ) : ℤ := if word < 2 ^ 63 then word else word - 2 ^ 64

/-- The signed difference `dif` of a sequence number and a position. -/
def slotDifference (seq pos : ℕ) : ℤ := toIntptr seq - toIntptr pos

/-- How far a call has come, with the values in its local variables. -/
inductive QueueCall (Node : Type)
  /-- `enqueue` has loaded `tail_`. -/
  | enqueueLoaded (node : Node) (pos : ℕ)
  /-- `enqueue` has found the slot free and is about to compare-exchange `tail_`. -/
  | enqueueClaiming (node : Node) (pos : ℕ)
  /-- `enqueue` has found its position stale and is about to load `tail_` again. -/
  | enqueueStale (node : Node)
  /-- `enqueue` has its ticket and is about to write the item. -/
  | enqueueWriting (node : Node) (pos : ℕ)
  /-- `enqueue` has written the item and is about to store the sequence number. -/
  | enqueuePublishing (node : Node) (pos : ℕ)
  /-- `dequeue` has loaded `head_`. -/
  | dequeueLoaded (pos : ℕ)
  /-- `dequeue` has found the slot full and is about to compare-exchange `head_`. -/
  | dequeueClaiming (pos : ℕ)
  /-- `dequeue` has found its position stale and is about to load `head_` again. -/
  | dequeueStale
  /-- `dequeue` has its ticket and is about to read the item. -/
  | dequeueReading (pos : ℕ)
  /-- `dequeue` has read the item and is about to store the sequence number. -/
  | dequeueReleasing (pos : ℕ) (node : Option Node)

/-- What a call returns. -/
inductive QueueResult (Node : Type)
  | enqueued (accepted : Bool)
  | dequeued (node : Option Node)
deriving DecidableEq

/-- What a step of a call did that the log records. -/
inductive QueueEvent (Node : Type)
  | tailClaimed (pos : ℕ) (node : Node)
  | itemWritten (pos : ℕ)
  | published (pos : ℕ)
  | foundFull
  | headClaimed (pos : ℕ)
  | released (pos : ℕ) (node : Option Node)
  | foundEmpty

variable {Thread Node : Type}

/-- What the call returns with an event, if it returns. -/
def QueueEvent.result : QueueEvent Node → Option (QueueResult Node)
  | .published _ => some (.enqueued true)
  | .foundFull => some (.enqueued false)
  | .released _ node => some (.dequeued node)
  | .foundEmpty => some (.dequeued none)
  | _ => none

/-- The next atomic step of a call, with the local computation after it: the queue, the call unless
it returns, and what the log records. `spurious` makes a compare-exchange fail. -/
def queueCallStep (queue : MpmcQueue Node) (spurious : Bool) :
    QueueCall Node → MpmcQueue Node × Option (QueueCall Node) × Option (QueueEvent Node)
  | .enqueueLoaded node pos =>
    if slotDifference (queue.seq (slotOf pos)) pos = 0 then
      (queue, some (.enqueueClaiming node pos), none)
    else if slotDifference (queue.seq (slotOf pos)) pos < 0 then
      (queue, none, some .foundFull)
    else (queue, some (.enqueueStale node), none)
  | .enqueueClaiming node pos =>
    if queue.tail = pos ∧ spurious = false then
      ({ queue with tail := addMod word64 pos 1 }, some (.enqueueWriting node pos),
        some (.tailClaimed pos node))
    else (queue, some (.enqueueLoaded node queue.tail), none)
  | .enqueueStale node => (queue, some (.enqueueLoaded node queue.tail), none)
  | .enqueueWriting node pos =>
    ({ queue with item := Function.update queue.item (slotOf pos) (some node) },
      some (.enqueuePublishing node pos), some (.itemWritten pos))
  | .enqueuePublishing _ pos =>
    ({ queue with seq := Function.update queue.seq (slotOf pos) (addMod word64 pos 1) }, none,
      some (.published pos))
  | .dequeueLoaded pos =>
    if slotDifference (queue.seq (slotOf pos)) (addMod word64 pos 1) = 0 then
      (queue, some (.dequeueClaiming pos), none)
    else if slotDifference (queue.seq (slotOf pos)) (addMod word64 pos 1) < 0 then
      (queue, none, some .foundEmpty)
    else (queue, some .dequeueStale, none)
  | .dequeueClaiming pos =>
    if queue.head = pos ∧ spurious = false then
      ({ queue with head := addMod word64 pos 1 }, some (.dequeueReading pos),
        some (.headClaimed pos))
    else (queue, some (.dequeueLoaded queue.head), none)
  | .dequeueStale => (queue, some (.dequeueLoaded queue.head), none)
  | .dequeueReading pos =>
    (queue, some (.dequeueReleasing pos (queue.item (slotOf pos))), none)
  | .dequeueReleasing pos node =>
    ({ queue with seq := Function.update queue.seq (slotOf pos) (addMod word64 pos kQueueCap) },
      none, some (.released pos node))

/-! ### Calls of several threads -/

/-- The record of a run. -/
structure QueueLog (Node : Type) where
  /-- The tail tickets with their nodes, in the order in which they were given. -/
  entered : List (ℕ × Node)
  /-- The ticket that last wrote the item of a slot. -/
  writer : ℕ → Option ℕ
  /-- The tickets whose `enqueue` has returned true. -/
  published : List ℕ
  /-- The head tickets, in the order in which they were given. -/
  claimed : List ℕ
  /-- The head tickets whose `dequeue` has returned, with the nodes returned. -/
  returned : List (ℕ × Option Node)

/-- An empty record. -/
def QueueLog.empty : QueueLog Node := ⟨[], fun _ ↦ none, [], [], []⟩

/-- The log after an event. -/
def QueueLog.record (log : QueueLog Node) : QueueEvent Node → QueueLog Node
  | .tailClaimed pos node => { log with entered := log.entered ++ [(pos, node)] }
  | .itemWritten pos => { log with writer := Function.update log.writer (slotOf pos) (some pos) }
  | .published pos => { log with published := pos :: log.published }
  | .headClaimed pos => { log with claimed := log.claimed ++ [pos] }
  | .released pos node => { log with returned := (pos, node) :: log.returned }
  | .foundFull => log
  | .foundEmpty => log

/-- The queue with the calls in progress on it and the record of the run. -/
structure QueueState (Thread Node : Type) where
  queue : MpmcQueue Node
  calls : CallTable Thread (QueueCall Node)
  log : QueueLog Node
  /-- What the calls have returned, newest first. -/
  results : List (Thread × QueueResult Node)

/-- A new queue with no call in progress. -/
def QueueState.initial : QueueState Thread Node := ⟨.empty, .idle, .empty, []⟩

/-- A thread starts a call, which includes its first load, or takes the next step of its call. -/
inductive QueueAction (Thread Node : Type)
  | enqueue (thread : Thread) (node : Node)
  | dequeue (thread : Thread)
  | advance (thread : Thread) (spurious : Bool)

/-- The state after the start of a call. -/
def QueueState.start [DecidableEq Thread] (s : QueueState Thread Node) (thread : Thread)
    (call : QueueCall Node) : QueueState Thread Node :=
  { s with calls := Function.update s.calls thread (some call) }

/-- The state after the next step of a thread's call. -/
def QueueState.advance [DecidableEq Thread] (s : QueueState Thread Node) (thread : Thread)
    (spurious : Bool) (call : QueueCall Node) : QueueState Thread Node :=
  match queueCallStep s.queue spurious call with
  | (queue, next, event) =>
    { queue
      calls := Function.update s.calls thread next
      log := event.elim s.log s.log.record
      results := ((event.bind QueueEvent.result).map (thread, ·)).toList ++ s.results }

/-- One step on the queue. A thread is in at most one call. -/
def queueStep [DecidableEq Thread] (s : QueueState Thread Node) :
    QueueAction Thread Node → Option (QueueState Thread Node)
  | .enqueue thread node =>
    if (s.calls thread).isSome then none
    else some (s.start thread (.enqueueLoaded node s.queue.tail))
  | .dequeue thread =>
    if (s.calls thread).isSome then none
    else some (s.start thread (.dequeueLoaded s.queue.head))
  | .advance thread spurious => (s.calls thread).map (s.advance thread spurious)

/-- The queue as a transition system. -/
def queueSystem [DecidableEq Thread] :
    TransitionSystem (QueueState Thread Node) (QueueAction Thread Node) where
  step := queueStep

/-- Fewer than 2^63 operations have taken a ticket. An operation takes at most one. -/
def fewTickets (s : QueueState Thread Node) (_ : QueueAction Thread Node) : Prop :=
  s.log.entered.length + s.log.claimed.length < 2 ^ 63

/-- The items between `head_` and `tail_`. -/
def MpmcQueue.contents (queue : MpmcQueue Node) : List (Option Node) :=
  window queue.item kQueueCap queue.head (subMod word64 queue.tail queue.head)

/-! ### The invariant -/

/-- A head ticket whose `dequeue` has returned. -/
def QueueLog.Released (log : QueueLog Node) (ticket : ℕ) : Prop :=
  ticket ∈ log.returned.map Prod.fst

/-- The tail ticket a call holds: it has taken it and not yet published it. -/
def QueueCall.tailTicket : QueueCall Node → Option ℕ
  | .enqueueWriting _ pos => some pos
  | .enqueuePublishing _ pos => some pos
  | _ => none

/-- The head ticket a call holds: it has taken it and not yet released it. -/
def QueueCall.headTicket : QueueCall Node → Option ℕ
  | .dequeueReading pos => some pos
  | .dequeueReleasing pos _ => some pos
  | _ => none

/-- The tickets are given out in order and used in order, and no operation is given out twice. -/
structure QueueLog.Ordered (log : QueueLog Node) : Prop where
  entered : log.entered.map Prod.fst = List.range log.entered.length
  claimed : log.claimed = List.range log.claimed.length
  published_lt : ∀ ticket ∈ log.published, ticket < log.entered.length
  claimed_published : ∀ ticket < log.claimed.length, ticket ∈ log.published
  released_lt : ∀ ticket, log.Released ticket → ticket < log.claimed.length
  admitted : ∀ ticket < log.entered.length, Admitted kQueueCap log.Released ticket
  published_nodup : log.published.Nodup
  returned_nodup : (log.returned.map Prod.fst).Nodup
  few : log.entered.length + log.claimed.length ≤ 2 ^ 63

/-- A slot holds the node of a ticket, and that ticket wrote it last. -/
def Holds (queue : MpmcQueue Node) (log : QueueLog Node) (ticket : ℕ) (node : Node) : Prop :=
  queue.item (slotOf ticket) = some node ∧ log.writer (slotOf ticket) = some ticket

/-- What the counters and the slots say about the tickets. -/
structure SlotsSound (queue : MpmcQueue Node) (log : QueueLog Node) : Prop where
  tail : queue.tail = log.entered.length
  head : queue.head = log.claimed.length
  seq_free : ∀ ticket, Current kQueueCap log.Released ticket → ticket ∉ log.published →
    queue.seq (slotOf ticket) = ticket
  seq_full : ∀ ticket, Current kQueueCap log.Released ticket → ticket ∈ log.published →
    queue.seq (slotOf ticket) = ticket + 1
  item : ∀ ticket node, Current kQueueCap log.Released ticket → ticket ∈ log.published →
    (ticket, node) ∈ log.entered → Holds queue log ticket node
  returned : ∀ ticket node, (ticket, node) ∈ log.returned →
    ∃ entered, (ticket, entered) ∈ log.entered ∧ node = some entered

/-- What a call in progress knows. -/
def CallSound (queue : MpmcQueue Node) (log : QueueLog Node) : QueueCall Node → Prop
  | .enqueueLoaded _ pos => pos ≤ log.entered.length
  | .enqueueClaiming _ pos => Admitted kQueueCap log.Released pos
  | .enqueueWriting node pos => (pos, node) ∈ log.entered
  | .enqueuePublishing node pos => (pos, node) ∈ log.entered ∧ Holds queue log pos node
  | .dequeueLoaded pos => pos ≤ log.claimed.length
  | .dequeueClaiming pos => pos ∈ log.published
  | .dequeueReleasing pos node => ∃ entered, (pos, entered) ∈ log.entered ∧ node = some entered
  | _ => True

/-- The invariant of the queue. A ticket that is given out and not yet published, or not yet
released, is held by exactly one thread. -/
structure QueueState.Sound (s : QueueState Thread Node) : Prop where
  ordered : s.log.Ordered
  slots : SlotsSound s.queue s.log
  calls : s.calls.Forall fun _ ↦ CallSound s.queue s.log
  tailHeld : s.calls.HeldOnce QueueCall.tailTicket fun ticket ↦
    ticket < s.log.entered.length ∧ ticket ∉ s.log.published
  headHeld : s.calls.HeldOnce QueueCall.headTicket fun ticket ↦
    ticket < s.log.claimed.length ∧ ¬ s.log.Released ticket

/-! ### Tickets and slots -/

namespace QueueLog.Ordered

variable {log : QueueLog Node}

theorem claimed_le (hlog : log.Ordered) : log.claimed.length ≤ log.entered.length := by
  by_contra hlt
  have := hlog.published_lt _ (hlog.claimed_published log.entered.length (by omega))
  omega

/-- Only admitted tickets are released. -/
theorem admitted_of_released (hlog : log.Ordered) {ticket : ℕ} (hreleased : log.Released ticket) :
    Admitted kQueueCap log.Released ticket :=
  hlog.admitted ticket (lt_of_lt_of_le (hlog.released_lt ticket hreleased) hlog.claimed_le)

theorem lt_of_admitted (hlog : log.Ordered) {ticket : ℕ}
    (hadmitted : Admitted kQueueCap log.Released ticket) :
    ticket < log.claimed.length + kQueueCap := by
  rcases hadmitted with hfirst | hreleased
  · omega
  · have := hlog.released_lt _ hreleased
    omega

/-- At most `kQueueCap` tail tickets are ahead of the head tickets. -/
theorem entered_le (hlog : log.Ordered) :
    log.entered.length ≤ log.claimed.length + kQueueCap := by
  rcases Nat.eq_zero_or_pos log.entered.length with hzero | hpos
  · omega
  · have := hlog.lt_of_admitted (hlog.admitted (log.entered.length - 1) (by omega))
    omega

/-- The counters stay far below the range of a signed 64-bit word. -/
theorem entered_lt (hlog : log.Ordered) : log.entered.length + kQueueCap < 2 ^ 63 := by
  have hentered := hlog.entered_le
  have hfew := hlog.few
  unfold kQueueCap at *
  omega

/-- A ticket taken and not yet published is the current one of its slot. -/
theorem current_of_entered (hlog : log.Ordered) {ticket : ℕ} (hlt : ticket < log.entered.length)
    (hnot : ticket ∉ log.published) : Current kQueueCap log.Released ticket :=
  ⟨fun hreleased ↦ hnot (hlog.claimed_published ticket (hlog.released_lt ticket hreleased)),
    hlog.admitted ticket hlt⟩

/-- A ticket published and not yet released is the current one of its slot. -/
theorem current_of_published (hlog : log.Ordered) {ticket : ℕ} (hpublished : ticket ∈ log.published)
    (hnot : ¬ log.Released ticket) : Current kQueueCap log.Released ticket :=
  ⟨hnot, hlog.admitted ticket (hlog.published_lt ticket hpublished)⟩

theorem eq_of_slot (hlog : log.Ordered) {first second : ℕ}
    (hfirst : Current kQueueCap log.Released first)
    (hsecond : Current kQueueCap log.Released second) (hslot : slotOf first = slotOf second) :
    first = second :=
  Current.unique (fun _ ↦ hlog.admitted_of_released) hfirst hsecond hslot

/-- Every slot has a current ticket. -/
theorem exists_current (hlog : log.Ordered) (pos : ℕ) :
    ∃ ticket, slotOf ticket = slotOf pos ∧ Current kQueueCap log.Released ticket := by
  have hnot : ¬ log.Released (pos + kQueueCap * log.claimed.length) := by
    intro hreleased
    have := hlog.released_lt _ hreleased
    unfold kQueueCap at this
    omega
  obtain ⟨ticket, -, hslot, hcurrent⟩ :=
    TicketRing.exists_current (show 0 < kQueueCap by decide) hnot
  exact ⟨ticket, by rw [slotOf, hslot, Nat.add_mul_mod_self_left]; rfl, hcurrent⟩

/-- A ticket is given out with one node. -/
theorem node_unique (hlog : log.Ordered) {ticket : ℕ} {first second : Node}
    (hfirst : (ticket, first) ∈ log.entered) (hsecond : (ticket, second) ∈ log.entered) :
    first = second := by
  have hnodup : (log.entered.map Prod.fst).Nodup := hlog.entered ▸ List.nodup_range
  exact congrArg Prod.snd (List.inj_on_of_nodup_map hnodup hfirst hsecond rfl)

theorem lt_of_mem (hlog : log.Ordered) {ticket : ℕ} {node : Node}
    (hmem : (ticket, node) ∈ log.entered) : ticket < log.entered.length := by
  have hfst : ticket ∈ log.entered.map Prod.fst := List.mem_map_of_mem hmem
  rwa [hlog.entered, List.mem_range] at hfst

/-- The node of a ticket stands at the ticket's place. -/
theorem getElem?_eq (hlog : log.Ordered) {ticket : ℕ} {node : Node}
    (hmem : (ticket, node) ∈ log.entered) : log.entered[ticket]? = some (ticket, node) := by
  obtain ⟨place, hplace⟩ := List.mem_iff_getElem?.mp hmem
  have hfst : (log.entered.map Prod.fst)[place]? = some ticket := by
    rw [List.getElem?_map, hplace]
    rfl
  rw [hlog.entered, List.getElem?_eq_some_iff] at hfst
  obtain ⟨_, hrange⟩ := hfst
  rw [List.getElem_range] at hrange
  exact hrange ▸ hplace

theorem exists_node (hlog : log.Ordered) {ticket : ℕ} (hlt : ticket < log.entered.length) :
    ∃ node, (ticket, node) ∈ log.entered := by
  have hfst : ticket ∈ log.entered.map Prod.fst := by
    rw [hlog.entered, List.mem_range]
    exact hlt
  obtain ⟨⟨_, node⟩, hmem, rfl⟩ := List.mem_map.mp hfst
  exact ⟨node, hmem⟩

end QueueLog.Ordered

/-- Small sequence numbers and positions are compared as they are. -/
theorem slotDifference_eq {seq pos : ℕ} (hseq : seq < 2 ^ 63) (hpos : pos < 2 ^ 63) :
    slotDifference seq pos = (seq : ℤ) - pos := by
  rw [slotDifference, toIntptr, toIntptr, if_pos hseq, if_pos hpos]

/-- Positions of one slot are equal or at least a lap apart. -/
theorem slot_trichotomy {first second : ℕ} (hslot : slotOf first = slotOf second) :
    first = second ∨ first + kQueueCap ≤ second ∨ second + kQueueCap ≤ first := by
  rcases Nat.lt_trichotomy first second with hlt | rfl | hlt
  · exact .inr (.inl (lap_le hlt hslot))
  · exact .inl rfl
  · exact .inr (.inr (lap_le hlt hslot.symm))

/-- The sequence number of a slot, by its current ticket. -/
theorem SlotsSound.exists_seq {queue : MpmcQueue Node} {log : QueueLog Node}
    (hslots : SlotsSound queue log) (hlog : log.Ordered) (pos : ℕ) :
    ∃ ticket, slotOf ticket = slotOf pos ∧ Current kQueueCap log.Released ticket ∧
      (ticket ∉ log.published ∧ queue.seq (slotOf pos) = ticket ∨
        ticket ∈ log.published ∧ queue.seq (slotOf pos) = ticket + 1) ∧
      queue.seq (slotOf pos) < 2 ^ 63 := by
  obtain ⟨ticket, hslot, hcurrent⟩ := hlog.exists_current pos
  have hlt := hlog.lt_of_admitted hcurrent.2
  have hentered := hlog.entered_lt
  have hle := hlog.claimed_le
  rw [← hslot]
  by_cases hpublished : ticket ∈ log.published
  · have hseq := hslots.seq_full ticket hcurrent hpublished
    exact ⟨ticket, rfl, hcurrent, .inr ⟨hpublished, hseq⟩, by omega⟩
  · have hseq := hslots.seq_free ticket hcurrent hpublished
    exact ⟨ticket, rfl, hcurrent, .inl ⟨hpublished, hseq⟩, by omega⟩

/-- A producer finds its slot free only if its position is admitted. -/
theorem SlotsSound.admitted_of_free {queue : MpmcQueue Node} {log : QueueLog Node}
    (hslots : SlotsSound queue log) (hlog : log.Ordered) {pos : ℕ}
    (hpos : pos ≤ log.entered.length)
    (hfree : slotDifference (queue.seq (slotOf pos)) pos = 0) :
    Admitted kQueueCap log.Released pos := by
  obtain ⟨ticket, hslot, hcurrent, hseq, hlt⟩ := hslots.exists_seq hlog pos
  have hentered := hlog.entered_lt
  rw [slotDifference_eq hlt (by omega)] at hfree
  have hcap : 1 < kQueueCap := by decide
  have heq : ticket = pos := by
    rcases slot_trichotomy hslot with heq | hlap | hlap <;> omega
  exact heq ▸ hcurrent.2

/-- A producer finds its slot full only if the ticket one lap before has not been released. -/
theorem SlotsSound.not_released_of_full {queue : MpmcQueue Node} {log : QueueLog Node}
    (hslots : SlotsSound queue log) (hlog : log.Ordered) {pos : ℕ}
    (hpos : pos ≤ log.entered.length)
    (hfull : slotDifference (queue.seq (slotOf pos)) pos < 0) :
    kQueueCap ≤ pos ∧ ¬ log.Released (pos - kQueueCap) := by
  obtain ⟨ticket, hslot, hcurrent, hseq, hlt⟩ := hslots.exists_seq hlog pos
  have hentered := hlog.entered_lt
  rw [slotDifference_eq hlt (by omega)] at hfull
  have hlap : ticket + kQueueCap ≤ pos := by
    rcases slot_trichotomy hslot with heq | hlap | hlap <;> omega
  refine ⟨by omega, fun hreleased ↦ hcurrent.1 ?_⟩
  rcases Nat.lt_or_ge ticket (pos - kQueueCap) with hless | hge
  · exact released_of_lt (fun _ ↦ hlog.admitted_of_released) hreleased hless
      (hslot.trans (sub_mod_cell (by omega)).symm)
  · have heq : ticket = pos - kQueueCap := by omega
    rwa [heq]

/-- A consumer finds its slot full only if its position is published. -/
theorem SlotsSound.published_of_full {queue : MpmcQueue Node} {log : QueueLog Node}
    (hslots : SlotsSound queue log) (hlog : log.Ordered) {pos : ℕ}
    (hpos : pos ≤ log.claimed.length)
    (hfull : slotDifference (queue.seq (slotOf pos)) (addMod word64 pos 1) = 0) :
    pos ∈ log.published := by
  obtain ⟨ticket, hslot, hcurrent, hseq, hlt⟩ := hslots.exists_seq hlog pos
  have hentered := hlog.entered_lt
  have hle := hlog.claimed_le
  have hcap : 1 < kQueueCap := by decide
  rw [addMod, Nat.mod_eq_of_lt (by unfold word64; omega),
    slotDifference_eq hlt (by omega)] at hfull
  rcases hseq with ⟨-, hseq⟩ | ⟨hpublished, hseq⟩
  · rcases slot_trichotomy hslot with heq | hlap | hlap <;> omega
  · obtain rfl : ticket = pos := by omega
    exact hpublished

/-! ### What the steps keep -/

/-- A log grows along a run. -/
structure QueueLog.Extends (log next : QueueLog Node) : Prop where
  entered : ∀ entry ∈ log.entered, entry ∈ next.entered
  entered_le : log.entered.length ≤ next.entered.length
  published : ∀ ticket ∈ log.published, ticket ∈ next.published
  claimed_le : log.claimed.length ≤ next.claimed.length
  released : ∀ ticket, log.Released ticket → next.Released ticket

theorem QueueLog.record_extends (log : QueueLog Node) (event : QueueEvent Node) :
    log.Extends (log.record event) := by
  cases event <;> constructor <;> simp_all [QueueLog.record, QueueLog.Released]

theorem QueueLog.Extends.admitted {log next : QueueLog Node} (hextends : log.Extends next)
    {ticket : ℕ} (hadmitted : Admitted kQueueCap log.Released ticket) :
    Admitted kQueueCap next.Released ticket :=
  hadmitted.imp_right (hextends.released _)

/-- What a call knows survives a step of another thread. Assumes: a written item that is not yet
published stays. -/
theorem CallSound.mono {queue next : MpmcQueue Node} {log log' : QueueLog Node}
    {call : QueueCall Node} (hcall : CallSound queue log call) (hextends : log.Extends log')
    (hholds : ∀ node pos, call = .enqueuePublishing node pos → Holds queue log pos node →
      Holds next log' pos node) : CallSound next log' call := by
  cases call with
  | enqueueLoaded node pos => exact le_trans hcall hextends.entered_le
  | enqueueClaiming node pos => exact hextends.admitted hcall
  | enqueueWriting node pos => exact hextends.entered _ hcall
  | enqueuePublishing node pos => exact ⟨hextends.entered _ hcall.1, hholds node pos rfl hcall.2⟩
  | dequeueLoaded pos => exact le_trans hcall hextends.claimed_le
  | dequeueClaiming pos => exact hextends.published _ hcall
  | dequeueReleasing pos node =>
    obtain ⟨entered, hmem, hnode⟩ := hcall
    exact ⟨entered, hextends.entered _ hmem, hnode⟩
  | enqueueStale _ => trivial
  | dequeueStale => trivial
  | dequeueReading _ => trivial

/-! #### The log -/

namespace QueueLog.Ordered

variable {log : QueueLog Node}

/-- The next tail ticket is given out. -/
theorem tailClaimed (hlog : log.Ordered) (node : Node)
    (hadmitted : Admitted kQueueCap log.Released log.entered.length)
    (hfew : log.entered.length + log.claimed.length < 2 ^ 63) :
    (log.record (.tailClaimed log.entered.length node)).Ordered where
  entered := by simp [QueueLog.record, hlog.entered, List.range_succ]
  claimed := hlog.claimed
  published_lt ticket hticket := by
    have hlt := hlog.published_lt ticket hticket
    simp only [QueueLog.record, List.length_append]
    omega
  claimed_published := hlog.claimed_published
  released_lt := hlog.released_lt
  admitted ticket hticket := by
    simp only [QueueLog.record, List.length_append, List.length_singleton] at hticket
    rcases Nat.lt_or_ge ticket log.entered.length with hless | hge
    · exact hlog.admitted ticket hless
    · obtain rfl : ticket = log.entered.length := by omega
      exact hadmitted
  published_nodup := hlog.published_nodup
  returned_nodup := hlog.returned_nodup
  few := by
    simp only [QueueLog.record, List.length_append, List.length_singleton]
    omega

/-- A tail ticket given out is published. -/
theorem publish (hlog : log.Ordered) {pos : ℕ} (hlt : pos < log.entered.length)
    (hnot : pos ∉ log.published) : (log.record (.published pos)).Ordered where
  entered := hlog.entered
  claimed := hlog.claimed
  published_lt ticket hticket := by
    rcases List.mem_cons.mp hticket with rfl | hold
    · exact hlt
    · exact hlog.published_lt ticket hold
  claimed_published ticket hticket := List.mem_cons_of_mem _ (hlog.claimed_published ticket hticket)
  released_lt := hlog.released_lt
  admitted := hlog.admitted
  published_nodup := List.nodup_cons.mpr ⟨hnot, hlog.published_nodup⟩
  returned_nodup := hlog.returned_nodup
  few := hlog.few

/-- The next head ticket is given out. -/
theorem headClaimed (hlog : log.Ordered) (hpublished : log.claimed.length ∈ log.published)
    (hfew : log.entered.length + log.claimed.length < 2 ^ 63) :
    (log.record (.headClaimed log.claimed.length)).Ordered where
  entered := hlog.entered
  claimed := by
    simp only [QueueLog.record, List.length_append, List.length_singleton, List.range_succ]
    rw [← hlog.claimed]
  published_lt := hlog.published_lt
  claimed_published ticket hticket := by
    simp only [QueueLog.record, List.length_append, List.length_singleton] at hticket
    rcases Nat.lt_or_ge ticket log.claimed.length with hless | hge
    · exact hlog.claimed_published ticket hless
    · obtain rfl : ticket = log.claimed.length := by omega
      exact hpublished
  released_lt ticket hreleased := by
    have hlt := hlog.released_lt ticket hreleased
    simp only [QueueLog.record, List.length_append]
    omega
  admitted := hlog.admitted
  published_nodup := hlog.published_nodup
  returned_nodup := hlog.returned_nodup
  few := by
    simp only [QueueLog.record, List.length_append, List.length_singleton]
    omega

/-- A head ticket given out is released. -/
theorem release (hlog : log.Ordered) {pos : ℕ} {node : Option Node}
    (hlt : pos < log.claimed.length) (hnot : ¬ log.Released pos) :
    (log.record (.released pos node)).Ordered where
  entered := hlog.entered
  claimed := hlog.claimed
  published_lt := hlog.published_lt
  claimed_published := hlog.claimed_published
  released_lt ticket hreleased := by
    rcases List.mem_cons.mp hreleased with rfl | hold
    · exact hlt
    · exact hlog.released_lt ticket hold
  admitted ticket hticket :=
    (log.record_extends (.released pos node)).admitted (hlog.admitted ticket hticket)
  published_nodup := hlog.published_nodup
  returned_nodup := List.nodup_cons.mpr ⟨hnot, hlog.returned_nodup⟩
  few := hlog.few

end QueueLog.Ordered

/-! #### The slots -/

namespace SlotsSound

variable {queue : MpmcQueue Node} {log : QueueLog Node}

theorem tailClaimed (hslots : SlotsSound queue log) (hlog : log.Ordered) (node : Node) :
    SlotsSound { queue with tail := addMod word64 log.entered.length 1 }
      (log.record (.tailClaimed log.entered.length node)) where
  tail := by
    have hlt := hlog.entered_lt
    simp only [QueueLog.record, List.length_append, List.length_singleton]
    exact Nat.mod_eq_of_lt (by unfold word64; omega)
  head := hslots.head
  seq_free := hslots.seq_free
  seq_full := hslots.seq_full
  item ticket node' hcurrent hpublished hmem := by
    refine hslots.item ticket node' hcurrent hpublished ?_
    rcases List.mem_append.mp hmem with hold | hnew
    · exact hold
    · have hlt := hlog.published_lt ticket hpublished
      simp only [List.mem_singleton, Prod.mk.injEq] at hnew
      omega
  returned ticket node' hmem := by
    obtain ⟨entered, hentered, hnode⟩ := hslots.returned ticket node' hmem
    exact ⟨entered, List.mem_append_left _ hentered, hnode⟩

theorem itemWritten (hslots : SlotsSound queue log) (hlog : log.Ordered) {pos : ℕ} (node : Node)
    (hlt : pos < log.entered.length) (hnot : pos ∉ log.published) :
    SlotsSound { queue with item := Function.update queue.item (slotOf pos) (some node) }
      (log.record (.itemWritten pos)) where
  tail := hslots.tail
  head := hslots.head
  seq_free := hslots.seq_free
  seq_full := hslots.seq_full
  item ticket node' hcurrent hpublished hmem := by
    have hslot : slotOf ticket ≠ slotOf pos := by
      intro hslot
      have heq := hlog.eq_of_slot hcurrent (hlog.current_of_entered hlt hnot) hslot
      exact hnot (heq ▸ hpublished)
    obtain ⟨hitem, hwriter⟩ := hslots.item ticket node' hcurrent hpublished hmem
    constructor
    · rw [← hitem]
      exact Function.update_of_ne hslot _ _
    · rw [← hwriter]
      exact Function.update_of_ne hslot _ _
  returned := hslots.returned

theorem publish (hslots : SlotsSound queue log) (hlog : log.Ordered) {pos : ℕ} {node : Node}
    (hmem : (pos, node) ∈ log.entered) (hnot : pos ∉ log.published)
    (hholds : Holds queue log pos node) :
    SlotsSound { queue with seq := Function.update queue.seq (slotOf pos) (addMod word64 pos 1) }
      (log.record (.published pos)) where
  tail := hslots.tail
  head := hslots.head
  seq_free ticket hcurrent hfree := by
    have hlt := hlog.lt_of_mem hmem
    obtain ⟨hne, hfree⟩ := not_or.mp (mt List.mem_cons.mpr hfree)
    have hslot : slotOf ticket ≠ slotOf pos := fun hslot ↦
      hne (hlog.eq_of_slot hcurrent (hlog.current_of_entered hlt hnot) hslot)
    exact (Function.update_of_ne hslot _ _).trans (hslots.seq_free ticket hcurrent hfree)
  seq_full ticket hcurrent hfull := by
    have hlt := hlog.lt_of_mem hmem
    have hentered := hlog.entered_lt
    by_cases heq : ticket = pos
    · subst heq
      exact (Function.update_self _ _ _).trans (Nat.mod_eq_of_lt (by unfold word64; omega))
    · have hslot : slotOf ticket ≠ slotOf pos := fun hslot ↦
        heq (hlog.eq_of_slot hcurrent (hlog.current_of_entered hlt hnot) hslot)
      have hold := (List.mem_cons.mp hfull).resolve_left heq
      exact (Function.update_of_ne hslot _ _).trans (hslots.seq_full ticket hcurrent hold)
  item ticket node' hcurrent hpublished hmem' := by
    rcases List.mem_cons.mp hpublished with rfl | hold
    · obtain rfl := hlog.node_unique hmem hmem'
      exact hholds
    · exact hslots.item ticket node' hcurrent hold hmem'
  returned := hslots.returned

theorem headClaimed (hslots : SlotsSound queue log) (hlog : log.Ordered) :
    SlotsSound { queue with head := addMod word64 log.claimed.length 1 }
      (log.record (.headClaimed log.claimed.length)) where
  tail := hslots.tail
  head := by
    have hlt := hlog.entered_lt
    have hle := hlog.claimed_le
    simp only [QueueLog.record, List.length_append, List.length_singleton]
    exact Nat.mod_eq_of_lt (by unfold word64; omega)
  seq_free := hslots.seq_free
  seq_full := hslots.seq_full
  item := hslots.item
  returned := hslots.returned

theorem release (hslots : SlotsSound queue log) (hlog : log.Ordered) {pos : ℕ} {node : Node}
    (hlt : pos < log.claimed.length) (hnot : ¬ log.Released pos)
    (hmem : (pos, node) ∈ log.entered) :
    SlotsSound
      { queue with seq := Function.update queue.seq (slotOf pos) (addMod word64 pos kQueueCap) }
      (log.record (.released pos (some node))) := by
  have hpublished := hlog.claimed_published pos hlt
  have hcurrent := hlog.current_of_published hpublished hnot
  have hcases : ∀ ticket,
      Current kQueueCap (log.record (.released pos (some node))).Released ticket →
        Current kQueueCap log.Released ticket ∧ slotOf ticket ≠ slotOf pos ∨
          ticket = pos + kQueueCap := by
    intro ticket hticket
    refine Current.of_release (fun _ ↦ hlog.admitted_of_released) hcurrent ?_
    simpa [Current, Admitted, QueueLog.Released, QueueLog.record] using hticket
  -- The ticket that the release admits is not published: it would have been admitted before.
  have hnext : pos + kQueueCap ∉ log.published := by
    intro hmem
    rcases hlog.admitted _ (hlog.published_lt _ hmem) with hfirst | hreleased
    · omega
    · rw [Nat.add_sub_cancel] at hreleased
      exact hnot hreleased
  constructor
  · exact hslots.tail
  · exact hslots.head
  · intro ticket hticket hfree
    rcases hcases ticket hticket with ⟨hold, hslot⟩ | rfl
    · exact (Function.update_of_ne hslot _ _).trans (hslots.seq_free ticket hold hfree)
    · have hentered := hlog.entered_lt
      have hle := hlog.claimed_le
      have hslot : slotOf (pos + kQueueCap) = slotOf pos := Nat.add_mod_right _ _
      rw [hslot]
      exact (Function.update_self _ _ _).trans (Nat.mod_eq_of_lt (by unfold word64; omega))
  · intro ticket hticket hfull
    rcases hcases ticket hticket with ⟨hold, hslot⟩ | rfl
    · exact (Function.update_of_ne hslot _ _).trans (hslots.seq_full ticket hold hfull)
    · exact absurd hfull hnext
  · intro ticket node' hticket hpublished' hmem'
    rcases hcases ticket hticket with ⟨hold, -⟩ | rfl
    · exact hslots.item ticket node' hold hpublished' hmem'
    · exact absurd hpublished' hnext
  · intro ticket node' hmem'
    rcases List.mem_cons.mp hmem' with heq | hold
    · cases heq
      exact ⟨node, hmem, rfl⟩
    · exact hslots.returned ticket node' hold

end SlotsSound

/-! #### The calls -/

/-- A new queue meets the invariant. -/
theorem queueInitial_sound : (QueueState.initial : QueueState Thread Node).Sound where
  ordered := by constructor <;> simp [QueueState.initial, QueueLog.empty, QueueLog.Released]
  slots := by
    refine ⟨rfl, rfl, fun ticket hcurrent _ ↦ ?_, fun ticket _ hmem ↦ ?_, fun ticket _ _ hmem ↦ ?_,
      fun ticket _ hmem ↦ ?_⟩
    · rcases hcurrent.2 with hlt | hreleased
      · exact Nat.mod_eq_of_lt hlt
      · simp [QueueState.initial, QueueLog.empty, QueueLog.Released] at hreleased
    · simp [QueueState.initial, QueueLog.empty] at hmem
    · simp [QueueState.initial, QueueLog.empty] at hmem
    · simp [QueueState.initial, QueueLog.empty] at hmem
  calls := CallTable.forall_idle _
  tailHeld := by simpa [QueueState.initial, QueueLog.empty] using CallTable.heldOnce_idle _
  headHeld := by simpa [QueueState.initial, QueueLog.empty] using CallTable.heldOnce_idle _

namespace QueueState.Sound

variable {s : QueueState Thread Node} {thread : Thread} {call : QueueCall Node}

/-- What another thread's call knows survives a step that leaves the items alone. -/
theorem others (hs : s.Sound) (event : QueueEvent Node) {next : MpmcQueue Node}
    (hitem : next.item = s.queue.item) (hwriter : (s.log.record event).writer = s.log.writer)
    {other : Thread} {after : QueueCall Node} (hafter : s.calls other = some after) :
    CallSound next (s.log.record event) after := by
  refine (hs.calls other after hafter).mono (s.log.record_extends event) fun _ pos _ hholds ↦ ?_
  rwa [Holds, hitem, hwriter]

/-- What a consumer with a ticket finds in its slot: the node of its ticket. -/
theorem holds_of_reading (hs : s.Sound) {pos : ℕ}
    (hcall : s.calls thread = some (.dequeueReading pos)) :
    pos ∈ s.log.published ∧
      ∃ node, (pos, node) ∈ s.log.entered ∧ Holds s.queue s.log pos node := by
  obtain ⟨hlt, hnot⟩ := hs.headHeld.owed hcall rfl
  have hpublished := hs.ordered.claimed_published pos hlt
  obtain ⟨node, hmem⟩ := hs.ordered.exists_node (hs.ordered.published_lt pos hpublished)
  exact ⟨hpublished, node, hmem,
    hs.slots.item pos node (hs.ordered.current_of_published hpublished hnot) hpublished hmem⟩

variable [DecidableEq Thread]

/-- A step that changes only the thread's call and takes or gives up no ticket. -/
theorem goto (hs : s.Sound) {next : Option (QueueCall Node)}
    (results : List (Thread × QueueResult Node))
    (hnext : ∀ after, next = some after → CallSound s.queue s.log after)
    (htail : next.bind QueueCall.tailTicket = (s.calls thread).bind QueueCall.tailTicket)
    (hhead : next.bind QueueCall.headTicket = (s.calls thread).bind QueueCall.headTicket) :
    QueueState.Sound
      { s with calls := Function.update s.calls thread next, results := results } where
  ordered := hs.ordered
  slots := hs.slots
  calls := CallTable.Forall.update (fun other after _ hafter ↦ hs.calls other after hafter) hnext
  tailHeld := hs.tailHeld.keep htail
  headHeld := hs.headHeld.keep hhead

/-- A producer takes the next tail ticket. -/
theorem claimTail (hs : s.Sound) {node : Node} {pos : ℕ}
    (hcall : s.calls thread = some (.enqueueClaiming node pos)) (htail : s.queue.tail = pos)
    (hfew : s.log.entered.length + s.log.claimed.length < 2 ^ 63)
    (results : List (Thread × QueueResult Node)) :
    QueueState.Sound
      { queue := { s.queue with tail := addMod word64 pos 1 }
        calls := Function.update s.calls thread (some (.enqueueWriting node pos))
        log := s.log.record (.tailClaimed pos node)
        results := results } := by
  obtain rfl : pos = s.log.entered.length := by rw [← htail, hs.slots.tail]
  have hadmitted : Admitted kQueueCap s.log.Released s.log.entered.length := hs.calls thread _ hcall
  have hlength : (s.log.record (.tailClaimed s.log.entered.length node)).entered.length =
      s.log.entered.length + 1 := by simp [QueueLog.record]
  refine ⟨hs.ordered.tailClaimed node hadmitted hfew, hs.slots.tailClaimed hs.ordered node,
    CallTable.Forall.update (fun other after _ ↦ hs.others (.tailClaimed _ node) rfl rfl) ?_, ?_,
    hs.headHeld.keep (by rw [hcall]; rfl)⟩
  · rintro after ⟨⟩
    exact List.mem_append_right _ (List.mem_singleton_self _)
  · refine hs.tailHeld.take (by rw [hcall]; rfl) rfl (fun howed ↦ by omega) fun ticket ↦ ?_
    have hpublished := hs.ordered.published_lt ticket
    dsimp only
    rw [hlength]
    constructor
    · rintro ⟨hticket, hnot⟩
      rcases Nat.lt_or_ge ticket s.log.entered.length with hless | hge
      · exact .inl ⟨hless, hnot⟩
      · exact .inr (by omega)
    · rintro (⟨hticket, hnot⟩ | rfl)
      · exact ⟨by omega, hnot⟩
      · exact ⟨by omega, fun hmem ↦ absurd (hpublished hmem) (by omega)⟩

/-- A producer with a ticket writes its item. -/
theorem writeItem (hs : s.Sound) {node : Node} {pos : ℕ}
    (hcall : s.calls thread = some (.enqueueWriting node pos))
    (results : List (Thread × QueueResult Node)) :
    QueueState.Sound
      { queue := { s.queue with item := Function.update s.queue.item (slotOf pos) (some node) }
        calls := Function.update s.calls thread (some (.enqueuePublishing node pos))
        log := s.log.record (.itemWritten pos)
        results := results } := by
  obtain ⟨hlt, hnot⟩ := hs.tailHeld.owed hcall rfl
  refine ⟨{ hs.ordered with }, hs.slots.itemWritten hs.ordered node hlt hnot,
    CallTable.Forall.update (fun other after hother hafter ↦ ?_) ?_,
    hs.tailHeld.keep (by rw [hcall]; rfl), hs.headHeld.keep (by rw [hcall]; rfl)⟩
  · refine (hs.calls other after hafter).mono (s.log.record_extends (.itemWritten pos)) ?_
    rintro node' pos' rfl ⟨hitem, hwriter⟩
    -- The other producer's ticket is current too, so its slot is another one.
    obtain ⟨hlt', hnot'⟩ := hs.tailHeld.owed hafter rfl
    have hslot : slotOf pos' ≠ slotOf pos := by
      intro hslot
      obtain rfl := hs.ordered.eq_of_slot (hs.ordered.current_of_entered hlt' hnot')
        (hs.ordered.current_of_entered hlt hnot) hslot
      exact hother (hs.tailHeld.eq_of_key hafter hcall rfl rfl)
    exact ⟨(Function.update_of_ne hslot _ _).trans hitem,
      (Function.update_of_ne hslot _ _).trans hwriter⟩
  · rintro after ⟨⟩
    exact ⟨hs.calls thread _ hcall, Function.update_self _ _ _, Function.update_self _ _ _⟩

/-- A producer publishes its ticket. -/
theorem publish (hs : s.Sound) {node : Node} {pos : ℕ}
    (hcall : s.calls thread = some (.enqueuePublishing node pos))
    (results : List (Thread × QueueResult Node)) :
    QueueState.Sound
      { queue := { s.queue with
          seq := Function.update s.queue.seq (slotOf pos) (addMod word64 pos 1) }
        calls := Function.update s.calls thread none
        log := s.log.record (.published pos)
        results := results } := by
  obtain ⟨hlt, hnot⟩ := hs.tailHeld.owed hcall rfl
  obtain ⟨hmem, hholds⟩ := hs.calls thread _ hcall
  refine ⟨hs.ordered.publish hlt hnot, hs.slots.publish hs.ordered hmem hnot hholds,
    CallTable.Forall.update (fun other after _ ↦ hs.others (.published pos) rfl rfl)
      (by rintro after ⟨⟩), ?_, hs.headHeld.keep (by rw [hcall]; rfl)⟩
  refine hs.tailHeld.giveUp (by rw [hcall]; rfl) rfl fun ticket ↦ ?_
  simp only [QueueLog.record, List.mem_cons, not_or]
  tauto

/-- A consumer takes the next head ticket. -/
theorem claimHead (hs : s.Sound) {pos : ℕ} (hcall : s.calls thread = some (.dequeueClaiming pos))
    (hhead : s.queue.head = pos) (hfew : s.log.entered.length + s.log.claimed.length < 2 ^ 63)
    (results : List (Thread × QueueResult Node)) :
    QueueState.Sound
      { queue := { s.queue with head := addMod word64 pos 1 }
        calls := Function.update s.calls thread (some (.dequeueReading pos))
        log := s.log.record (.headClaimed pos)
        results := results } := by
  obtain rfl : pos = s.log.claimed.length := by rw [← hhead, hs.slots.head]
  have hpublished : s.log.claimed.length ∈ s.log.published := hs.calls thread _ hcall
  have hlength : (s.log.record (.headClaimed s.log.claimed.length)).claimed.length =
      s.log.claimed.length + 1 := by simp [QueueLog.record]
  refine ⟨hs.ordered.headClaimed hpublished hfew, hs.slots.headClaimed hs.ordered,
    CallTable.Forall.update (fun other after _ ↦ hs.others (.headClaimed _) rfl rfl)
      (by rintro after ⟨⟩; trivial), hs.tailHeld.keep (by rw [hcall]; rfl), ?_⟩
  refine hs.headHeld.take (by rw [hcall]; rfl) rfl (fun howed ↦ by omega) fun ticket ↦ ?_
  have hreleased := hs.ordered.released_lt ticket
  dsimp only
  rw [hlength]
  constructor
  · rintro ⟨hticket, hnot⟩
    rcases Nat.lt_or_ge ticket s.log.claimed.length with hless | hge
    · exact .inl ⟨hless, hnot⟩
    · exact .inr (by omega)
  · rintro (⟨hticket, hnot⟩ | rfl)
    · exact ⟨by omega, hnot⟩
    · exact ⟨by omega, fun hmem ↦ absurd (hreleased hmem) (by omega)⟩

/-- A consumer releases its ticket. -/
theorem release (hs : s.Sound) {pos : ℕ} {node : Option Node}
    (hcall : s.calls thread = some (.dequeueReleasing pos node))
    (results : List (Thread × QueueResult Node)) :
    QueueState.Sound
      { queue := { s.queue with
          seq := Function.update s.queue.seq (slotOf pos) (addMod word64 pos kQueueCap) }
        calls := Function.update s.calls thread none
        log := s.log.record (.released pos node)
        results := results } := by
  obtain ⟨hlt, hnot⟩ := hs.headHeld.owed hcall rfl
  obtain ⟨entered, hmem, rfl⟩ := hs.calls thread _ hcall
  refine ⟨hs.ordered.release hlt hnot, hs.slots.release hs.ordered hlt hnot hmem,
    CallTable.Forall.update (fun other after _ ↦ hs.others (.released pos (some entered)) rfl rfl)
      (by rintro after ⟨⟩), hs.tailHeld.keep (by rw [hcall]; rfl), ?_⟩
  refine hs.headHeld.giveUp (by rw [hcall]; rfl) rfl fun ticket ↦ ?_
  simp only [QueueLog.record, QueueLog.Released, List.map_cons, List.mem_cons, not_or]
  tauto

/-- What the next step of a call keeps. Assumes: few tickets have been taken. -/
theorem advance (hs : s.Sound) (hcall : s.calls thread = some call) (spurious : Bool)
    (hfew : s.log.entered.length + s.log.claimed.length < 2 ^ 63) :
    (s.advance thread spurious call).Sound := by
  have hknows : CallSound s.queue s.log call := hs.calls thread call hcall
  have hlog := hs.ordered
  cases call with
  | enqueueLoaded node pos =>
    simp only [QueueState.advance, queueCallStep]
    split_ifs with hfree hfull
    · refine hs.goto _ ?_ (by rw [hcall]; rfl) (by rw [hcall]; rfl)
      rintro after ⟨⟩
      exact hs.slots.admitted_of_free hlog hknows hfree
    · exact hs.goto _ (by rintro after ⟨⟩) (by rw [hcall]; rfl) (by rw [hcall]; rfl)
    · exact hs.goto _ (by rintro after ⟨⟩; trivial) (by rw [hcall]; rfl) (by rw [hcall]; rfl)
  | enqueueClaiming node pos =>
    simp only [QueueState.advance, queueCallStep]
    split_ifs with hwon
    · exact hs.claimTail hcall hwon.1 hfew _
    · refine hs.goto _ ?_ (by rw [hcall]; rfl) (by rw [hcall]; rfl)
      rintro after ⟨⟩
      exact hs.slots.tail.le
  | enqueueStale node =>
    refine hs.goto _ ?_ (by rw [hcall]; rfl) (by rw [hcall]; rfl)
    rintro after ⟨⟩
    exact hs.slots.tail.le
  | enqueueWriting node pos => exact hs.writeItem hcall _
  | enqueuePublishing node pos => exact hs.publish hcall _
  | dequeueLoaded pos =>
    simp only [QueueState.advance, queueCallStep]
    split_ifs with hfull hempty
    · refine hs.goto _ ?_ (by rw [hcall]; rfl) (by rw [hcall]; rfl)
      rintro after ⟨⟩
      exact hs.slots.published_of_full hlog hknows hfull
    · exact hs.goto _ (by rintro after ⟨⟩) (by rw [hcall]; rfl) (by rw [hcall]; rfl)
    · exact hs.goto _ (by rintro after ⟨⟩; trivial) (by rw [hcall]; rfl) (by rw [hcall]; rfl)
  | dequeueClaiming pos =>
    simp only [QueueState.advance, queueCallStep]
    split_ifs with hwon
    · exact hs.claimHead hcall hwon.1 hfew _
    · refine hs.goto _ ?_ (by rw [hcall]; rfl) (by rw [hcall]; rfl)
      rintro after ⟨⟩
      exact hs.slots.head.le
  | dequeueStale =>
    refine hs.goto _ ?_ (by rw [hcall]; rfl) (by rw [hcall]; rfl)
    rintro after ⟨⟩
    exact hs.slots.head.le
  | dequeueReading pos =>
    refine hs.goto _ ?_ (by rw [hcall]; rfl) (by rw [hcall]; rfl)
    rintro after ⟨⟩
    obtain ⟨-, node, hmem, hitem, -⟩ := hs.holds_of_reading hcall
    exact ⟨node, hmem, hitem⟩
  | dequeueReleasing pos node => exact hs.release hcall _

/-- The step lemma. -/
theorem step (hs : s.Sound) {action : QueueAction Thread Node} {next : QueueState Thread Node}
    (hguard : fewTickets s action) (hstep : queueStep s action = some next) : next.Sound := by
  cases action with
  | enqueue thread node =>
    simp only [queueStep, Option.ite_none_left_eq_some, Option.some.injEq] at hstep
    obtain ⟨hidle, rfl⟩ := hstep
    rw [Bool.not_eq_true, Option.isSome_eq_false_iff, Option.isNone_iff_eq_none] at hidle
    refine hs.goto s.results ?_ (by rw [hidle]; rfl) (by rw [hidle]; rfl)
    rintro after ⟨⟩
    exact hs.slots.tail.le
  | dequeue thread =>
    simp only [queueStep, Option.ite_none_left_eq_some, Option.some.injEq] at hstep
    obtain ⟨hidle, rfl⟩ := hstep
    rw [Bool.not_eq_true, Option.isSome_eq_false_iff, Option.isNone_iff_eq_none] at hidle
    refine hs.goto s.results ?_ (by rw [hidle]; rfl) (by rw [hidle]; rfl)
    rintro after ⟨⟩
    exact hs.slots.head.le
  | advance thread spurious =>
    simp only [queueStep, Option.map_eq_some_iff] at hstep
    obtain ⟨call, hcall, rfl⟩ := hstep
    exact hs.advance hcall spurious hguard

end QueueState.Sound

/-- Every state that a run with few tickets reaches meets the invariant. -/
theorem queueReaches_sound [DecidableEq Thread] {s : QueueState Thread Node}
    (hreach : queueSystem.Reaches fewTickets .initial s) : s.Sound :=
  hreach.invariant queueInitial_sound fun _ _ _ hs hguard hstep ↦ hs.step hguard hstep

end GameEngine.Core
