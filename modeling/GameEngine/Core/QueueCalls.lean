import GameEngine.Library.CallHistory
import GameEngine.Core.MpmcQueue
import GameEngine.Core.ChaseLevDeque

/-!
# Calls of the queues that do not overlap

A call of a deque or of the inbox is a sequence of atomic accesses. Here the calls run one after the
other, each to its end. Then a deque is a list of at most `kDequeCap` nodes that its owner extends
and shortens at one end and that thieves shorten at the other (`deque_calls`), and the inbox is a
first-in first-out list of at most `kQueueCap` nodes (`inbox_calls`). These are the lists that the
worker pool of `Scheduler` keeps.
-/

set_option autoImplicit false
set_option relaxedAutoImplicit false

namespace GameEngine.Core

open GameEngine.Library GameEngine.Library.CircularBuffer
open MachineWord CallHistory

variable {Node : Type}

/-! ### A deque -/

/-- A call of a deque. -/
inductive DequeOperation (Node : Type)
  | push (node : Node)
  | pop
  | steal

/-- What a call of a deque returns. -/
inductive DequeResult (Node : Type)
  | pushed (accepted : Bool)
  | taken (node : Option Node)
deriving DecidableEq

/-- What a step of a call returns, if the call does not go on. -/
def CallOutcome.result : CallOutcome Node → Option (DequeResult Node)
  | .running _ => none
  | .pushReturned _ accepted => some (.pushed accepted)
  | .takeReturned node => some (.taken node)

/-- Takes at most `steps` steps of a call, with no step of another call in between. -/
def ChaseLevDeque.finish :
    ℕ → ChaseLevDeque Node → DequeCall Node → Option (ChaseLevDeque Node × DequeResult Node)
  | 0, _, _ => none
  | steps + 1, deque, call =>
    match (callStep deque call).2 with
    | .running after => finish steps (callStep deque call).1 after
    | outcome => outcome.result.map fun result ↦ ((callStep deque call).1, result)

/-- Runs a call, which is over after at most five steps. -/
def ChaseLevDeque.run (deque : ChaseLevDeque Node) :
    DequeOperation Node → Option (ChaseLevDeque Node × DequeResult Node)
  | .push node => deque.finish 5 (.pushLoaded node deque.bottom)
  | .pop => deque.finish 5 (.popLoaded (deque.bottom - 1))
  | .steal => deque.finish 5 (.stealLoaded deque.top)

/-- What a call does to the list of nodes, oldest first. -/
def dequeSpec (nodes : List Node) : DequeOperation Node → List Node × DequeResult Node
  | .push node =>
    if nodes.length < kDequeCap then (nodes ++ [node], .pushed true) else (nodes, .pushed false)
  | .pop => (nodes.dropLast, .taken nodes.getLast?)
  | .steal => (nodes.tail, .taken nodes.head?)

namespace ChaseLevDeque

/-- A deque between two calls stores a list of nodes. -/
structure Stores (deque : ChaseLevDeque Node) (nodes : List Node) : Prop where
  top_nonneg : 0 ≤ deque.top
  bottom_eq : deque.bottom = deque.top + nodes.length
  length_le : nodes.length ≤ kDequeCap
  stored_eq : deque.stored = nodes.map some

variable {deque : ChaseLevDeque Node} {nodes : List Node}

/-- A push stores the node unless the deque is full. -/
theorem Stores.push (hstores : deque.Stores nodes) (node : Node) :
    ∃ next, deque.run (.push node) = some (next, (dequeSpec nodes (.push node)).2) ∧
      next.Stores (dequeSpec nodes (.push node)).1 := by
  obtain ⟨htop, hbottom, hlength, hstored⟩ := hstores
  by_cases hroom : nodes.length < kDequeCap
  · have hnot : ¬ deque.bottom - deque.top ≥ kDequeCap := by omega
    refine ⟨{ deque with
      buffer := Function.update deque.buffer (cellOf deque.bottom) (some node)
      bottom := deque.bottom + 1 }, ?_, ?_⟩
    · simp [run, finish, callStep, hnot, dequeSpec, hroom, CallOutcome.result]
    · rw [dequeSpec, if_pos hroom]
      refine ⟨htop, ?_, ?_, ?_⟩
      · simp [hbottom, Int.add_assoc]
      · rw [List.length_append]
        exact hroom
      · have hkept := storedUpTo_update htop (by omega : deque.bottom < deque.top + kDequeCap)
          (some node)
        have hle : deque.top ≤ deque.bottom := by omega
        have hadded := @storedUpTo_succ _ { deque with
          buffer := Function.update deque.buffer (cellOf deque.bottom) (some node) } _ htop hle
        rw [hkept] at hadded
        dsimp only at hadded
        rw [Function.update_self] at hadded
        rw [List.map_append, ← hstored]
        exact hadded
  · have hfull : deque.bottom - deque.top ≥ kDequeCap := by omega
    refine ⟨deque, ?_, ?_⟩
    · simp [run, finish, callStep, hfull, dequeSpec, hroom, CallOutcome.result]
    · rw [dequeSpec, if_neg hroom]
      exact ⟨htop, hbottom, hlength, hstored⟩

/-- A pop takes the newest node. -/
theorem Stores.pop (hstores : deque.Stores nodes) :
    ∃ next, deque.run .pop = some (next, .taken nodes.getLast?) ∧ next.Stores nodes.dropLast := by
  obtain ⟨htop, hbottom, hlength, hstored⟩ := hstores
  rcases List.eq_nil_or_concat nodes with rfl | ⟨older, newest, rfl⟩
  · have hempty : deque.bottom - 1 < deque.top := by simp at hbottom; omega
    refine ⟨{ deque with bottom := deque.top }, ?_, ?_⟩
    · simp [run, finish, callStep, hempty, CallOutcome.result]
    · exact ⟨htop, by simp, by simp, storedUpTo_top _⟩
  · rw [List.concat_eq_append] at *
    rw [List.length_append, List.length_singleton] at hbottom hlength
    push_cast at hbottom
    -- The stored nodes are the older ones and the newest.
    have hsplit := storedUpTo_succ htop (show deque.top ≤ deque.bottom - 1 by omega)
    rw [sub_add_cancel] at hsplit
    rw [stored, hsplit, List.map_append, List.map_singleton] at hstored
    obtain ⟨holder, hnewest⟩ := List.append_inj' hstored rfl
    rw [List.cons.injEq] at hnewest
    by_cases hlast : deque.top = deque.bottom - 1
    · -- The newest node is the only one, and the compare-exchange takes it.
      have hnil : older = [] := List.length_eq_zero_iff.mp (by omega)
      subst hnil
      refine ⟨{ deque with top := deque.top + 1, bottom := deque.top + 1 }, ?_, ?_⟩
      · rw [← hlast] at hnewest
        simp [run, finish, callStep, ← hlast, hnewest.1, CallOutcome.result]
      · exact ⟨by dsimp only; omega, by simp, by simp, storedUpTo_top _⟩
    · have hnotEmpty : ¬ deque.top > deque.bottom - 1 := by omega
      refine ⟨{ deque with bottom := deque.bottom - 1 }, ?_, ?_⟩
      · simp [run, finish, callStep, hlast, hnotEmpty, hnewest.1, CallOutcome.result]
      · rw [List.dropLast_concat]
        exact ⟨htop, by dsimp only; omega, by omega, holder⟩

/-- A steal takes the oldest node. -/
theorem Stores.steal (hstores : deque.Stores nodes) :
    ∃ next, deque.run .steal = some (next, .taken nodes.head?) ∧ next.Stores nodes.tail := by
  obtain ⟨htop, hbottom, hlength, hstored⟩ := hstores
  cases nodes with
  | nil =>
    have hempty : deque.top ≥ deque.bottom := by simp at hbottom; omega
    exact ⟨deque, by simp [run, finish, callStep, hempty, CallOutcome.result], htop, hbottom,
      hlength, hstored⟩
  | cons oldest newer =>
    rw [List.length_cons] at hbottom hlength
    push_cast at hbottom
    have hnotEmpty : ¬ deque.top ≥ deque.bottom := by omega
    have hsplit := storedUpTo_eq_cons htop (show deque.top < deque.bottom by omega)
    rw [stored, hsplit, List.map_cons, List.cons.injEq] at hstored
    refine ⟨{ deque with top := deque.top + 1 }, ?_, ?_⟩
    · simp [run, finish, callStep, hnotEmpty, hstored.1, CallOutcome.result]
    · exact ⟨by dsimp only; omega, by dsimp only [List.tail_cons]; omega, by simp; omega, hstored.2⟩

end ChaseLevDeque

/-- Any sequence of calls on a new deque that do not overlap returns what the calls on a list of at
most `kDequeCap` nodes return: `push` appends the node, `pop` takes the last one and `steal` the
first. -/
theorem deque_calls (calls : List (DequeOperation Node)) :
    ∃ last : ChaseLevDeque Node, perform ChaseLevDeque.run ChaseLevDeque.empty calls =
        some (last, (performSpec dequeSpec [] calls).2) ∧
      last.Stores (performSpec dequeSpec [] calls).1 := by
  refine results_eq (fun _ (deque : ChaseLevDeque Node) nodes ↦ deque.Stores nodes) calls.length
    (fun made _ deque nodes call hstores ↦ ?_) calls 0 ChaseLevDeque.empty []
    (by omega) ⟨le_rfl, rfl, Nat.zero_le _, rfl⟩
  cases call with
  | push node => exact hstores.push node
  | pop => exact hstores.pop
  | steal => exact hstores.steal

/-! ### The inbox -/

/-- A call of the inbox. -/
inductive InboxOperation (Node : Type)
  | enqueue (node : Node)
  | dequeue

/-- Takes at most `steps` steps of a call, with no step of another call in between. No
compare-exchange fails: a failed one would only take the call back to an earlier step. -/
def MpmcQueue.finish :
    ℕ → MpmcQueue Node → QueueCall Node → Option (MpmcQueue Node × QueueResult Node)
  | 0, _, _ => none
  | steps + 1, queue, call =>
    match queueCallStep queue false call with
    | (next, some after, _) => finish steps next after
    | (next, none, event) => (event.bind QueueEvent.result).map fun result ↦ (next, result)

/-- Runs a call, which is over after at most four steps. -/
def MpmcQueue.run (queue : MpmcQueue Node) :
    InboxOperation Node → Option (MpmcQueue Node × QueueResult Node)
  | .enqueue node => queue.finish 4 (.enqueueLoaded node queue.tail)
  | .dequeue => queue.finish 4 (.dequeueLoaded queue.head)

/-- What a call does to the list of nodes, oldest first. -/
def inboxSpec (nodes : List Node) : InboxOperation Node → List Node × QueueResult Node
  | .enqueue node =>
    if nodes.length < kQueueCap then (nodes ++ [node], .enqueued true) else (nodes, .enqueued false)
  | .dequeue => (nodes.tail, .dequeued nodes.head?)

namespace MpmcQueue

/-- The inbox between two calls, of which `made` have been made, stores a list of nodes: the slots
from `head` on hold the nodes, with the sequence numbers after their tickets, and each slot from
`tail` up to a lap after `head` has the number of the ticket it is free for. -/
structure Stores (made : ℕ) (queue : MpmcQueue Node) (nodes : List Node) : Prop where
  tail_eq : queue.tail = queue.head + nodes.length
  tail_le : queue.tail ≤ made
  length_le : nodes.length ≤ kQueueCap
  full : ∀ k (hk : k < nodes.length), queue.seq (slotOf (queue.head + k)) = queue.head + k + 1 ∧
    queue.item (slotOf (queue.head + k)) = some nodes[k]
  free : ∀ pos, queue.tail ≤ pos → pos < queue.head + kQueueCap → queue.seq (slotOf pos) = pos

variable {queue : MpmcQueue Node} {nodes : List Node} {made : ℕ}

theorem addMod_word64 {pos count : ℕ} (hpos : pos < 2 ^ 62) (hcount : count ≤ kQueueCap) :
    addMod word64 pos count = pos + count :=
  Nat.mod_eq_of_lt (by unfold word64 kQueueCap at *; omega)

/-- The tickets that a slot is used for are a multiple of `kQueueCap` apart. -/
theorem slotOf_ne {first second : ℕ} (hlt : first < second) (hlap : second < first + kQueueCap) :
    slotOf first ≠ slotOf second := mod_ne_mod hlt hlap

/-- An enqueue stores the node behind the others unless the queue is full. -/
theorem Stores.enqueue (hstores : queue.Stores made nodes) (hmade : made < 2 ^ 62) (node : Node) :
    ∃ next, queue.run (.enqueue node) = some (next, (inboxSpec nodes (.enqueue node)).2) ∧
      next.Stores (made + 1) (inboxSpec nodes (.enqueue node)).1 := by
  obtain ⟨htail, hle, hlength, hfull, hfree⟩ := hstores
  by_cases hroom : nodes.length < kQueueCap
  · have hseq := hfree queue.tail le_rfl (by omega)
    have hnext : addMod word64 queue.tail 1 = queue.tail + 1 :=
      addMod_word64 (by omega) (by decide)
    refine ⟨{ queue with
      tail := queue.tail + 1
      item := Function.update queue.item (slotOf queue.tail) (some node)
      seq := Function.update queue.seq (slotOf queue.tail) (queue.tail + 1) }, ?_, ?_⟩
    · simp [run, finish, queueCallStep, slotDifference, hseq, hnext, inboxSpec, hroom,
        QueueEvent.result]
    · rw [inboxSpec, if_pos hroom]
      refine ⟨by simp [htail, Nat.add_assoc], by dsimp only; omega,
        by rw [List.length_append]; exact hroom, fun k hk ↦ ?_,
        fun pos hpos hlap ↦ ?_⟩
      · dsimp only
        rw [List.length_append, List.length_singleton, Nat.lt_succ_iff_lt_or_eq] at hk
        rcases hk with hold | rfl
        · have hne : slotOf (queue.head + k) ≠ slotOf queue.tail := slotOf_ne (by omega) (by omega)
          rw [Function.update_of_ne hne, Function.update_of_ne hne, List.getElem_append_left hold]
          exact hfull k hold
        · rw [← htail, Function.update_self, Function.update_self]
          exact ⟨rfl, by simp⟩
      · dsimp only at hpos hlap ⊢
        rw [Function.update_of_ne (slotOf_ne (by omega) (by omega)).symm]
        exact hfree pos (by omega) hlap
  · have hcap : nodes.length = kQueueCap := by omega
    have hhead := (hfull 0 (by rw [hcap]; decide)).1
    have hslot : slotOf queue.tail = slotOf (queue.head + 0) := by
      rw [htail, hcap, slotOf, Nat.add_mod_right, slotOf, Nat.add_zero]
    have hdifference : slotDifference (queue.seq (slotOf queue.tail)) queue.tail < 0 := by
      rw [hslot, hhead, slotDifference_eq (by omega) (by omega)]
      unfold kQueueCap at hcap
      omega
    refine ⟨queue, ?_, ?_⟩
    · simp [run, finish, queueCallStep, hdifference.ne, hdifference, inboxSpec, hroom,
        QueueEvent.result]
    · rw [inboxSpec, if_neg hroom]
      exact ⟨htail, by omega, hlength, hfull, hfree⟩

/-- A dequeue takes the first node. -/
theorem Stores.dequeue (hstores : queue.Stores made nodes) (hmade : made < 2 ^ 62) :
    ∃ next, queue.run .dequeue = some (next, .dequeued nodes.head?) ∧
      next.Stores (made + 1) nodes.tail := by
  obtain ⟨htail, hle, hlength, hfull, hfree⟩ := hstores
  have hnext : addMod word64 queue.head 1 = queue.head + 1 := addMod_word64 (by omega) (by decide)
  cases nodes with
  | nil =>
    have hseq := hfree queue.head htail.le (by unfold kQueueCap; omega)
    have hdifference :
        slotDifference (queue.seq (slotOf queue.head)) (addMod word64 queue.head 1) < 0 := by
      rw [hseq, hnext, slotDifference_eq (by omega) (by omega)]
      omega
    refine ⟨queue, ?_, htail, by omega, hlength, hfull, hfree⟩
    simp [run, finish, queueCallStep, hdifference.ne, hdifference, QueueEvent.result]
  | cons first rest =>
    rw [List.length_cons] at htail hlength
    obtain ⟨hseq, hitem⟩ := hfull 0 (Nat.succ_pos _)
    rw [Nat.add_zero] at hseq hitem
    have hlap : addMod word64 queue.head kQueueCap = queue.head + kQueueCap :=
      addMod_word64 (by omega) le_rfl
    refine ⟨{ queue with
      head := queue.head + 1
      seq := Function.update queue.seq (slotOf queue.head) (queue.head + kQueueCap) }, ?_, ?_⟩
    · simp [run, finish, queueCallStep, slotDifference, hseq, hitem, hnext, hlap,
        QueueEvent.result]
    · refine ⟨by dsimp only [List.tail_cons]; omega, by dsimp only; omega,
        by dsimp only [List.tail_cons]; omega, fun k hk ↦ ?_, fun pos hpos hbefore ↦ ?_⟩
      · dsimp only [List.tail_cons] at hk ⊢
        have hkept := hfull (k + 1) (by rw [List.length_cons]; omega)
        have hne : slotOf (queue.head + 1 + k) ≠ slotOf queue.head :=
          (slotOf_ne (by omega) (by omega)).symm
        rw [show queue.head + (k + 1) = queue.head + 1 + k by omega] at hkept
        rw [Function.update_of_ne hne]
        exact hkept
      · dsimp only at hpos hbefore ⊢
        by_cases hlast : pos = queue.head + kQueueCap
        · subst hlast
          rw [show slotOf (queue.head + kQueueCap) = slotOf queue.head from Nat.add_mod_right _ _,
            Function.update_self]
        · rw [Function.update_of_ne (slotOf_ne (by omega) (by omega)).symm]
          exact hfree pos hpos (by omega)

end MpmcQueue

/-- Any sequence of fewer than `2 ^ 62` calls on a new inbox that do not overlap returns what the
calls on a list of at most `kQueueCap` nodes return: `enqueue` appends the node and `dequeue` takes
the first one. -/
theorem inbox_calls (calls : List (InboxOperation Node)) (hcalls : calls.length < 2 ^ 62) :
    ∃ last : MpmcQueue Node, perform MpmcQueue.run MpmcQueue.empty calls =
        some (last, (performSpec inboxSpec [] calls).2) ∧
      last.Stores calls.length (performSpec inboxSpec [] calls).1 := by
  have hresults := results_eq
    (fun made (queue : MpmcQueue Node) nodes ↦ queue.Stores made nodes) calls.length
    (fun made hmade queue nodes call hstores ↦ by
      cases call with
      | enqueue node => exact hstores.enqueue (by omega) node
      | dequeue => exact hstores.dequeue (by omega)) calls 0 MpmcQueue.empty [] (by omega)
    ⟨rfl, le_rfl, Nat.zero_le _, fun k hk ↦ absurd hk (Nat.not_lt_zero k),
      fun pos _ hpos ↦ Nat.mod_eq_of_lt (by simpa [MpmcQueue.empty] using hpos)⟩
  rwa [Nat.zero_add] at hresults

/-- The theorem at four calls, the last of which finds the inbox empty. -/
theorem inbox_calls_two : ∃ last : MpmcQueue ℕ,
    perform MpmcQueue.run MpmcQueue.empty
        [.enqueue 7, .enqueue 8, .dequeue, .dequeue, .dequeue] =
      some (last, [.enqueued true, .enqueued true, .dequeued (some 7), .dequeued (some 8),
        .dequeued none]) ∧ last.Stores 5 [] :=
  inbox_calls [.enqueue 7, .enqueue 8, .dequeue, .dequeue, .dequeue] (by decide)

end GameEngine.Core
