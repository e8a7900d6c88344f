import GameEngine.Core.MpmcQueue
import Mathlib.Data.List.Perm.Basic

/-!
# What the overflow inbox delivers

`mpmcQueue_delivers` collects what holds in every state that a run of the inbox reaches, as long as
the run has taken fewer than 2^63 tickets. Once no call is in progress, the queue holds the nodes of
the tickets between the counters; a call that then runs alone returns, and `SoloDequeue` and
`SoloEnqueue` follow it to its result.
-/

set_option autoImplicit false
set_option relaxedAutoImplicit false

namespace GameEngine.Core

open GameEngine.Library GameEngine.Library.MachineWord GameEngine.Library.CircularBuffer
open GameEngine.Library.TicketRing

variable {Thread Node : Type}

/-! ### With no call in progress -/

namespace QueueState.Sound

variable {s : QueueState Thread Node}

/-- The number of items between the counters. -/
theorem length_contents (hs : s.Sound) :
    s.queue.contents.length = s.log.entered.length - s.log.claimed.length := by
  have hentered := hs.ordered.entered_lt
  have hle := hs.ordered.claimed_le
  rw [MpmcQueue.contents, length_window, hs.slots.tail, hs.slots.head,
    subMod_of_le hle (by unfold word64; omega)]

theorem published_of_idle (hs : s.Sound) (hidle : ∀ thread, s.calls thread = none) {ticket : ℕ}
    (hlt : ticket < s.log.entered.length) : ticket ∈ s.log.published := by
  by_contra hnot
  obtain ⟨thread, hthread⟩ := (hs.tailHeld.owed_iff ticket).mp ⟨hlt, hnot⟩
  rw [hidle thread] at hthread
  contradiction

theorem released_of_idle (hs : s.Sound) (hidle : ∀ thread, s.calls thread = none) {ticket : ℕ}
    (hlt : ticket < s.log.claimed.length) : s.log.Released ticket := by
  by_contra hnot
  obtain ⟨thread, hthread⟩ := (hs.headHeld.owed_iff ticket).mp ⟨hlt, hnot⟩
  rw [hidle thread] at hthread
  contradiction

/-- Every tail ticket has been published, once. -/
theorem published_perm (hs : s.Sound) (hidle : ∀ thread, s.calls thread = none) :
    s.log.published.Perm (List.range s.log.entered.length) := by
  rw [List.perm_ext_iff_of_nodup hs.ordered.published_nodup List.nodup_range]
  intro ticket
  rw [List.mem_range]
  exact ⟨hs.ordered.published_lt ticket, hs.published_of_idle hidle⟩

/-- Every head ticket has been released, once. -/
theorem returned_perm (hs : s.Sound) (hidle : ∀ thread, s.calls thread = none) :
    (s.log.returned.map Prod.fst).Perm (List.range s.log.claimed.length) := by
  rw [List.perm_ext_iff_of_nodup hs.ordered.returned_nodup List.nodup_range]
  intro ticket
  rw [List.mem_range]
  exact ⟨hs.ordered.released_lt ticket, hs.released_of_idle hidle⟩

/-- The queue holds the nodes that have entered and not left, in the order of their tickets. -/
theorem contents_eq (hs : s.Sound) (hidle : ∀ thread, s.calls thread = none) :
    s.queue.contents = (s.log.entered.drop s.log.claimed.length).map fun entry ↦ some entry.2 := by
  apply List.ext_getElem
  · rw [hs.length_contents, List.length_map, List.length_drop]
  · intro k hk hk'
    rw [List.length_map, List.length_drop] at hk'
    have hticket : s.log.claimed.length + k < s.log.entered.length := by omega
    have hpublished := hs.published_of_idle hidle hticket
    have hnot : ¬ s.log.Released (s.log.claimed.length + k) := fun hreleased ↦ by
      have := hs.ordered.released_lt _ hreleased
      omega
    obtain ⟨node, hmem⟩ := hs.ordered.exists_node hticket
    obtain ⟨hitem, -⟩ := hs.slots.item _ node
      (hs.ordered.current_of_published hpublished hnot) hpublished hmem
    have hentry : s.log.entered[s.log.claimed.length + k] = (s.log.claimed.length + k, node) :=
      (List.getElem?_eq_some_iff.mp (hs.ordered.getElem?_eq hmem)).2
    simp only [MpmcQueue.contents, getElem_window, List.getElem_map, List.getElem_drop]
    rw [hs.slots.head, hentry]
    exact hitem

end QueueState.Sound

/-! ### A call that runs alone -/

/-- Only the given thread takes steps, and it starts no new call. -/
def alone (thread : Thread) (_ : QueueState Thread Node) (action : QueueAction Thread Node) :
    Prop :=
  ∃ spurious, action = .advance thread spurious

/-- An upper bound on the steps that a call takes when it runs alone and no compare-exchange
fails. -/
def QueueCall.remaining : QueueCall Node → ℕ
  | .enqueueStale _ => 5
  | .enqueueLoaded _ _ => 4
  | .enqueueClaiming _ _ => 3
  | .enqueueWriting _ _ => 2
  | .enqueuePublishing _ _ => 1
  | .dequeueStale => 5
  | .dequeueLoaded _ => 4
  | .dequeueClaiming _ => 3
  | .dequeueReading _ => 2
  | .dequeueReleasing _ _ => 1

/-- Where a `dequeue` is that runs alone from the queue of `s`, and what it returns at the end. -/
def SoloDequeue (s : QueueState Thread Node) (thread : Thread) (now : QueueState Thread Node) :
    Prop :=
  match now.calls thread with
  | some (.dequeueLoaded pos) =>
    now.queue = s.queue ∧ now.results = s.results ∧ pos = s.queue.head
  | some (.dequeueClaiming pos) =>
    now.queue = s.queue ∧ now.results = s.results ∧ pos = s.queue.head ∧ s.queue.contents ≠ []
  | some (.dequeueReading pos) =>
    now.queue.item = s.queue.item ∧ now.results = s.results ∧ pos = s.queue.head ∧
      s.queue.contents ≠ []
  | some (.dequeueReleasing _ node) =>
    now.results = s.results ∧ node ≠ none ∧ s.queue.contents ≠ []
  | none => ∃ node, now.results = (thread, .dequeued node) :: s.results ∧
      (node = none ↔ s.queue.contents = [])
  | _ => False

/-- Where an `enqueue` is that runs alone from the queue of `s`, and what it returns at the end. -/
def SoloEnqueue (s : QueueState Thread Node) (thread : Thread) (now : QueueState Thread Node) :
    Prop :=
  match now.calls thread with
  | some (.enqueueLoaded _ pos) =>
    now.queue = s.queue ∧ now.results = s.results ∧ pos = s.queue.tail
  | some (.enqueueClaiming _ pos) =>
    now.queue = s.queue ∧ now.results = s.results ∧ pos = s.queue.tail ∧
      s.queue.contents.length ≠ kQueueCap
  | some (.enqueueWriting _ _) => now.results = s.results ∧ s.queue.contents.length ≠ kQueueCap
  | some (.enqueuePublishing _ _) => now.results = s.results ∧ s.queue.contents.length ≠ kQueueCap
  | none => ∃ accepted, now.results = (thread, .enqueued accepted) :: s.results ∧
      (accepted = false ↔ s.queue.contents.length = kQueueCap)
  | _ => False

namespace QueueState.Sound

variable {s : QueueState Thread Node}

/-- With no call in progress, a consumer finds the slot at `head_` full and with an item if the
queue holds an item, and otherwise not yet published. -/
theorem head_of_idle (hs : s.Sound) (hidle : ∀ thread, s.calls thread = none) :
    (s.queue.contents ≠ [] →
      slotDifference (s.queue.seq (slotOf s.queue.head)) (addMod word64 s.queue.head 1) = 0 ∧
        s.queue.item (slotOf s.queue.head) ≠ none) ∧
    (s.queue.contents = [] →
      slotDifference (s.queue.seq (slotOf s.queue.head)) (addMod word64 s.queue.head 1) < 0) := by
  have hentered := hs.ordered.entered_lt
  have hle := hs.ordered.claimed_le
  have hlength := hs.length_contents
  have hcap : 1 < kQueueCap := by decide
  have hnot : ¬ s.log.Released s.log.claimed.length := fun hreleased ↦ by
    have := hs.ordered.released_lt _ hreleased
    omega
  have hadmitted : Admitted kQueueCap s.log.Released s.log.claimed.length := by
    rcases Nat.lt_or_ge s.log.claimed.length kQueueCap with hlt | hge
    · exact .inl hlt
    · exact .inr (hs.released_of_idle hidle (by omega))
  rw [hs.slots.head, addMod, Nat.mod_eq_of_lt (by unfold word64; omega)]
  constructor
  · intro hsome
    have hpos := List.length_pos_iff.mpr hsome
    have hpublished := hs.published_of_idle hidle (show s.log.claimed.length < _ by omega)
    obtain ⟨node, hmem⟩ := hs.ordered.exists_node (hs.ordered.published_lt _ hpublished)
    rw [hs.slots.seq_full _ ⟨hnot, hadmitted⟩ hpublished,
      slotDifference_eq (by omega) (by omega), sub_self]
    obtain ⟨hitem, -⟩ := hs.slots.item _ node ⟨hnot, hadmitted⟩ hpublished hmem
    exact ⟨rfl, by simp [hitem]⟩
  · intro hnone
    have hzero := List.length_eq_zero_iff.mpr hnone
    have hfree : s.log.claimed.length ∉ s.log.published := fun hpublished ↦ by
      have := hs.ordered.published_lt _ hpublished
      omega
    rw [hs.slots.seq_free _ ⟨hnot, hadmitted⟩ hfree, slotDifference_eq (by omega) (by omega)]
    omega

/-- With no call in progress, a producer finds the slot at `tail_` full if the queue holds
`kQueueCap` items, and free otherwise. -/
theorem tail_of_idle (hs : s.Sound) (hidle : ∀ thread, s.calls thread = none) :
    (s.queue.contents.length ≠ kQueueCap →
      slotDifference (s.queue.seq (slotOf s.queue.tail)) s.queue.tail = 0) ∧
    (s.queue.contents.length = kQueueCap →
      slotDifference (s.queue.seq (slotOf s.queue.tail)) s.queue.tail < 0) := by
  have hentered := hs.ordered.entered_lt
  have hle := hs.ordered.claimed_le
  have hlap := hs.ordered.entered_le
  have hcap : 1 < kQueueCap := by decide
  rw [hs.length_contents, hs.slots.tail]
  constructor
  · intro hroom
    have hnot : ¬ s.log.Released s.log.entered.length := fun hreleased ↦ by
      have := hs.ordered.released_lt _ hreleased
      omega
    have hadmitted : Admitted kQueueCap s.log.Released s.log.entered.length := by
      rcases Nat.lt_or_ge s.log.entered.length kQueueCap with hlt | hge
      · exact .inl hlt
      · exact .inr (hs.released_of_idle hidle (by omega))
    have hfree : s.log.entered.length ∉ s.log.published := fun hpublished ↦ by
      have := hs.ordered.published_lt _ hpublished
      omega
    rw [hs.slots.seq_free _ ⟨hnot, hadmitted⟩ hfree, slotDifference_eq (by omega) (by omega),
      sub_self]
  · intro hfull
    have hoccupied : s.log.claimed.length < s.log.entered.length := by omega
    have hpublished := hs.published_of_idle hidle hoccupied
    have hnot : ¬ s.log.Released s.log.claimed.length := fun hreleased ↦ by
      have := hs.ordered.released_lt _ hreleased
      omega
    have hseq := hs.slots.seq_full _ (hs.ordered.current_of_published hpublished hnot) hpublished
    have hslot : slotOf s.log.entered.length = slotOf s.log.claimed.length := by
      rw [show s.log.entered.length = s.log.claimed.length + kQueueCap by omega]
      exact Nat.add_mod_right _ _
    rw [hslot, hseq, slotDifference_eq (by omega) (by omega)]
    omega

end QueueState.Sound

/-- The step with which `enqueue` returns false. -/
theorem full_of_rejected {queue : MpmcQueue Node} {spurious : Bool} {call : QueueCall Node}
    (hrejected :
      (queueCallStep queue spurious call).2.2.bind QueueEvent.result = some (.enqueued false)) :
    ∃ node pos, call = .enqueueLoaded node pos ∧
      slotDifference (queue.seq (slotOf pos)) pos < 0 := by
  cases call with
  | enqueueLoaded node pos =>
    simp only [queueCallStep] at hrejected
    split_ifs at hrejected with hfree hfull
    · simp at hrejected
    · exact ⟨node, pos, rfl, hfull⟩
    · simp at hrejected
  | enqueueClaiming | dequeueLoaded | dequeueClaiming =>
    simp only [queueCallStep] at hrejected
    split_ifs at hrejected <;> simp [QueueEvent.result] at hrejected
  | _ => simp [queueCallStep, QueueEvent.result] at hrejected

variable [DecidableEq Thread]

/-- A `dequeue` that runs alone stays on its way. -/
theorem SoloDequeue.step {s now next : QueueState Thread Node} {thread : Thread} {spurious : Bool}
    (hs : s.Sound) (hidle : ∀ thread, s.calls thread = none) (hsolo : SoloDequeue s thread now)
    (hstep : queueStep now (.advance thread spurious) = some next) :
    SoloDequeue s thread next := by
  obtain ⟨hfull, hempty⟩ := hs.head_of_idle hidle
  simp only [queueStep, Option.map_eq_some_iff] at hstep
  obtain ⟨call, hcall, rfl⟩ := hstep
  unfold SoloDequeue at hsolo
  rw [hcall] at hsolo
  cases call with
  | dequeueLoaded pos =>
    obtain ⟨hqueue, hresults, rfl⟩ := hsolo
    by_cases hnone : s.queue.contents = []
    · have hlt := hempty hnone
      simp only [QueueState.advance, queueCallStep, hqueue, hlt.ne, hlt, if_true, if_false]
      simp only [SoloDequeue, Function.update_self]
      exact ⟨none, by simp [QueueEvent.result, hresults], by simp [hnone]⟩
    · have hzero := (hfull hnone).1
      simp only [QueueState.advance, queueCallStep, hqueue, hzero, if_true]
      simp only [SoloDequeue, Function.update_self]
      exact ⟨trivial, by simpa using hresults, trivial, hnone⟩
  | dequeueClaiming pos =>
    obtain ⟨hqueue, hresults, rfl, hsome⟩ := hsolo
    simp only [QueueState.advance, queueCallStep]
    split_ifs
    · simp only [SoloDequeue, Function.update_self, hqueue]
      exact ⟨trivial, by simpa [QueueEvent.result] using hresults, trivial, hsome⟩
    · simp only [SoloDequeue, Function.update_self, hqueue]
      exact ⟨trivial, by simpa using hresults, trivial⟩
  | dequeueReading pos =>
    obtain ⟨hitem, hresults, rfl, hsome⟩ := hsolo
    simp only [QueueState.advance, queueCallStep, SoloDequeue, Function.update_self, hitem]
    exact ⟨by simpa using hresults, (hfull hsome).2, hsome⟩
  | dequeueReleasing pos node =>
    obtain ⟨hresults, hnode, hsome⟩ := hsolo
    simp only [QueueState.advance, queueCallStep, SoloDequeue, Function.update_self]
    exact ⟨node, by simp [QueueEvent.result, hresults], by simp [hnode, hsome]⟩
  | _ => exact hsolo.elim

/-- An `enqueue` that runs alone stays on its way. -/
theorem SoloEnqueue.step {s now next : QueueState Thread Node} {thread : Thread} {spurious : Bool}
    (hs : s.Sound) (hidle : ∀ thread, s.calls thread = none) (hsolo : SoloEnqueue s thread now)
    (hstep : queueStep now (.advance thread spurious) = some next) :
    SoloEnqueue s thread next := by
  obtain ⟨hfree, hfull⟩ := hs.tail_of_idle hidle
  simp only [queueStep, Option.map_eq_some_iff] at hstep
  obtain ⟨call, hcall, rfl⟩ := hstep
  unfold SoloEnqueue at hsolo
  rw [hcall] at hsolo
  cases call with
  | enqueueLoaded node pos =>
    obtain ⟨hqueue, hresults, rfl⟩ := hsolo
    by_cases hlength : s.queue.contents.length = kQueueCap
    · have hlt := hfull hlength
      simp only [QueueState.advance, queueCallStep, hqueue, hlt.ne, hlt, if_true, if_false]
      simp only [SoloEnqueue, Function.update_self]
      exact ⟨false, by simp [QueueEvent.result, hresults], by simp [hlength]⟩
    · have hzero := hfree hlength
      simp only [QueueState.advance, queueCallStep, hqueue, hzero, if_true]
      simp only [SoloEnqueue, Function.update_self]
      exact ⟨trivial, by simpa using hresults, trivial, hlength⟩
  | enqueueClaiming node pos =>
    obtain ⟨hqueue, hresults, rfl, hroom⟩ := hsolo
    simp only [QueueState.advance, queueCallStep]
    split_ifs
    · simp only [SoloEnqueue, Function.update_self]
      exact ⟨by simpa [QueueEvent.result] using hresults, hroom⟩
    · simp only [SoloEnqueue, Function.update_self, hqueue]
      exact ⟨trivial, by simpa using hresults, trivial⟩
  | enqueueWriting node pos =>
    obtain ⟨hresults, hroom⟩ := hsolo
    simp only [QueueState.advance, queueCallStep, SoloEnqueue, Function.update_self]
    exact ⟨by simpa [QueueEvent.result] using hresults, hroom⟩
  | enqueuePublishing node pos =>
    obtain ⟨hresults, hroom⟩ := hsolo
    simp only [QueueState.advance, queueCallStep, SoloEnqueue, Function.update_self]
    exact ⟨true, by simp [QueueEvent.result, hresults], by simp [hroom]⟩
  | _ => exact hsolo.elim

/-- A call that runs alone returns. Assumes: its way is kept by the steps, and on it every step that
is not spurious brings the end nearer. -/
theorem returns_alone {way : QueueState Thread Node → Prop} {thread : Thread}
    (hkept : ∀ now next spurious, way now →
      queueStep now (.advance thread spurious) = some next → way next)
    (hnearer : ∀ now call, way now → now.calls thread = some call → ∀ after,
      (queueCallStep now.queue false call).2.1 = some after → after.remaining < call.remaining)
    {now : QueueState Thread Node} (hway : way now) :
    ∃ last, queueSystem.Reaches (alone thread) now last ∧ last.calls thread = none := by
  have hbound : ∀ bound now, way now →
      (∀ call, now.calls thread = some call → call.remaining < bound) →
      ∃ last, queueSystem.Reaches (alone thread) now last ∧ last.calls thread = none := by
    intro bound
    induction bound with
    | zero =>
      intro now _ hless
      refine ⟨now, .refl, ?_⟩
      cases hcall : now.calls thread with
      | none => rfl
      | some call => exact absurd (hless call hcall) (Nat.not_lt_zero _)
    | succ bound ih =>
      intro now hway hless
      cases hcall : now.calls thread with
      | none => exact ⟨now, .refl, hcall⟩
      | some call =>
        have hstep : queueStep now (.advance thread false) = some (now.advance thread false call) :=
          by rw [queueStep, hcall, Option.map_some]
        have hafter : ∀ after, (now.advance thread false call).calls thread = some after →
            after.remaining < bound := by
          intro after hafter
          simp only [QueueState.advance, Function.update_self] at hafter
          exact lt_of_lt_of_le (hnearer now call hway hcall after hafter)
            (Nat.lt_succ_iff.mp (hless call hcall))
        obtain ⟨last, hreach, hlast⟩ := ih _ (hkept now _ false hway hstep) hafter
        exact ⟨last, (TransitionSystem.Reaches.refl.tail ⟨false, rfl⟩ hstep).trans hreach, hlast⟩
  refine hbound 6 now hway fun call _ ↦ ?_
  cases call <;> simp [QueueCall.remaining]

/-- A `dequeue` that runs alone on a queue with no call in progress returns, and it returns null if
and only if the queue holds no node. -/
theorem dequeue_alone {s : QueueState Thread Node} (hs : s.Sound)
    (hidle : ∀ thread, s.calls thread = none) (thread : Thread) :
    (∃ last, queueSystem.Reaches (alone thread) (s.start thread (.dequeueLoaded s.queue.head))
      last ∧ last.calls thread = none) ∧
    ∀ last, queueSystem.Reaches (alone thread) (s.start thread (.dequeueLoaded s.queue.head)) last →
      last.calls thread = none →
      ∃ node, last.results = (thread, .dequeued node) :: s.results ∧
        (node = none ↔ s.queue.contents = []) := by
  have hstart : SoloDequeue s thread (s.start thread (.dequeueLoaded s.queue.head)) := by
    simp [SoloDequeue, QueueState.start]
  constructor
  · refine returns_alone (fun _ _ _ hway hstep ↦ SoloDequeue.step hs hidle hway hstep) ?_ hstart
    intro now call hway hcall after hafter
    obtain ⟨hfull, hempty⟩ := hs.head_of_idle hidle
    unfold SoloDequeue at hway
    rw [hcall] at hway
    cases call with
    | dequeueLoaded pos =>
      obtain ⟨hqueue, -, rfl⟩ := hway
      rw [hqueue] at hafter
      by_cases hnone : s.queue.contents = []
      · have hlt := hempty hnone
        simp [queueCallStep, hlt.ne, hlt] at hafter
      · simp only [queueCallStep, (hfull hnone).1, if_true, Option.some.injEq] at hafter
        subst hafter
        simp [QueueCall.remaining]
    | dequeueClaiming pos =>
      obtain ⟨hqueue, -, rfl, -⟩ := hway
      simp only [queueCallStep, hqueue, and_self, if_true, Option.some.injEq] at hafter
      subst hafter
      simp [QueueCall.remaining]
    | dequeueReading pos =>
      cases hafter
      simp [QueueCall.remaining]
    | dequeueReleasing pos node => cases hafter
    | _ => exact hway.elim
  · intro last hreach hlast
    have hsolo : SoloDequeue s thread last := by
      refine hreach.invariant hstart ?_
      rintro now _ next hway ⟨spurious, rfl⟩ hstep
      exact SoloDequeue.step hs hidle hway hstep
    unfold SoloDequeue at hsolo
    rwa [hlast] at hsolo

/-- An `enqueue` that runs alone on a queue with no call in progress returns, and it returns false
if and only if the queue holds `kQueueCap` nodes. -/
theorem enqueue_alone {s : QueueState Thread Node} (hs : s.Sound)
    (hidle : ∀ thread, s.calls thread = none) (thread : Thread) (node : Node) :
    (∃ last, queueSystem.Reaches (alone thread)
        (s.start thread (.enqueueLoaded node s.queue.tail)) last ∧ last.calls thread = none) ∧
    ∀ last, queueSystem.Reaches (alone thread)
        (s.start thread (.enqueueLoaded node s.queue.tail)) last →
      last.calls thread = none →
      ∃ accepted, last.results = (thread, .enqueued accepted) :: s.results ∧
        (accepted = false ↔ s.queue.contents.length = kQueueCap) := by
  have hstart : SoloEnqueue s thread (s.start thread (.enqueueLoaded node s.queue.tail)) := by
    simp [SoloEnqueue, QueueState.start]
  constructor
  · refine returns_alone (fun _ _ _ hway hstep ↦ SoloEnqueue.step hs hidle hway hstep) ?_ hstart
    intro now call hway hcall after hafter
    obtain ⟨hfree, hfull⟩ := hs.tail_of_idle hidle
    unfold SoloEnqueue at hway
    rw [hcall] at hway
    cases call with
    | enqueueLoaded node pos =>
      obtain ⟨hqueue, -, rfl⟩ := hway
      rw [hqueue] at hafter
      by_cases hlength : s.queue.contents.length = kQueueCap
      · have hlt := hfull hlength
        simp [queueCallStep, hlt.ne, hlt] at hafter
      · simp only [queueCallStep, hfree hlength, if_true, Option.some.injEq] at hafter
        subst hafter
        simp [QueueCall.remaining]
    | enqueueClaiming node pos =>
      obtain ⟨hqueue, -, rfl, -⟩ := hway
      simp only [queueCallStep, hqueue, and_self, if_true, Option.some.injEq] at hafter
      subst hafter
      simp [QueueCall.remaining]
    | enqueueWriting node pos =>
      cases hafter
      simp [QueueCall.remaining]
    | enqueuePublishing node pos => cases hafter
    | _ => exact hway.elim
  · intro last hreach hlast
    have hsolo : SoloEnqueue s thread last := by
      refine hreach.invariant hstart ?_
      rintro now _ next hway ⟨spurious, rfl⟩ hstep
      exact SoloEnqueue.step hs hidle hway hstep
    unfold SoloEnqueue at hsolo
    rwa [hlast] at hsolo

/-! ### Every reachable state -/

/-- What the inbox delivers, in every state that a run with few tickets reaches.

The tickets are given out in order, at the tail with a node and at the head to a consumer; a
consumer returns the node of its ticket, and no ticket is returned twice. A consumer about to read
an item finds the item that the producer of its ticket wrote, which is published and not yet
overwritten. A producer that is about to return false has found that the ticket `kQueueCap`
positions earlier has not been released.

With no call in progress, every ticket taken has been published or released, the queue holds the
nodes that have entered and not left, which are at most `kQueueCap`, and a call that then runs alone
returns: a `dequeue` null if and only if the queue holds no node, an `enqueue` false if and only if
it holds `kQueueCap` nodes. -/
theorem mpmcQueue_delivers {s : QueueState Thread Node}
    (hreach : queueSystem.Reaches fewTickets .initial s) :
    (s.log.entered.map Prod.fst = List.range s.log.entered.length ∧
      s.log.claimed = List.range s.log.claimed.length) ∧
    ((s.log.returned.map Prod.fst).Nodup ∧
      ∀ ticket node, (ticket, node) ∈ s.log.returned →
        ticket ∈ s.log.claimed ∧ ticket ∈ s.log.published ∧
          ∃ entered, (ticket, entered) ∈ s.log.entered ∧ node = some entered) ∧
    (∀ thread pos, s.calls thread = some (.dequeueReading pos) →
      pos ∈ s.log.published ∧ s.log.writer (slotOf pos) = some pos ∧
        ∃ entered, (pos, entered) ∈ s.log.entered ∧ s.queue.item (slotOf pos) = some entered) ∧
    (∀ thread call spurious, s.calls thread = some call →
      (queueCallStep s.queue spurious call).2.2.bind QueueEvent.result = some (.enqueued false) →
      ∃ node pos, call = .enqueueLoaded node pos ∧ kQueueCap ≤ pos ∧
        pos - kQueueCap ∉ s.log.returned.map Prod.fst) ∧
    ((∀ thread, s.calls thread = none) →
      s.log.published.Perm (List.range s.log.entered.length) ∧
      (s.log.returned.map Prod.fst).Perm (List.range s.log.claimed.length) ∧
      s.queue.contents =
        (s.log.entered.drop s.log.claimed.length).map (fun entry ↦ some entry.2) ∧
      s.queue.contents.length ≤ kQueueCap ∧
      (∀ thread,
        (∃ last, queueSystem.Reaches (alone thread)
          (s.start thread (.dequeueLoaded s.queue.head)) last ∧ last.calls thread = none) ∧
        ∀ last, queueSystem.Reaches (alone thread)
            (s.start thread (.dequeueLoaded s.queue.head)) last →
          last.calls thread = none →
          ∃ node, last.results = (thread, .dequeued node) :: s.results ∧
            (node = none ↔ s.queue.contents = [])) ∧
      ∀ thread node,
        (∃ last, queueSystem.Reaches (alone thread)
          (s.start thread (.enqueueLoaded node s.queue.tail)) last ∧ last.calls thread = none) ∧
        ∀ last, queueSystem.Reaches (alone thread)
            (s.start thread (.enqueueLoaded node s.queue.tail)) last →
          last.calls thread = none →
          ∃ accepted, last.results = (thread, .enqueued accepted) :: s.results ∧
            (accepted = false ↔ s.queue.contents.length = kQueueCap)) := by
  have hs := queueReaches_sound hreach
  refine ⟨⟨hs.ordered.entered, hs.ordered.claimed⟩, ⟨hs.ordered.returned_nodup, ?_⟩, ?_, ?_, ?_⟩
  · intro ticket node hmem
    have hlt := hs.ordered.released_lt ticket (List.mem_map_of_mem hmem)
    refine ⟨?_, hs.ordered.claimed_published ticket hlt, hs.slots.returned ticket node hmem⟩
    rw [hs.ordered.claimed, List.mem_range]
    exact hlt
  · intro thread pos hcall
    obtain ⟨hpublished, node, hmem, hitem, hwriter⟩ := hs.holds_of_reading hcall
    exact ⟨hpublished, hwriter, node, hmem, hitem⟩
  · intro thread call spurious hcall hevent
    obtain ⟨node, pos, rfl, hfull⟩ := full_of_rejected hevent
    exact ⟨node, pos, rfl, hs.slots.not_released_of_full hs.ordered (hs.calls thread _ hcall) hfull⟩
  · intro hidle
    refine ⟨hs.published_perm hidle, hs.returned_perm hidle, hs.contents_eq hidle, ?_,
      dequeue_alone hs hidle, enqueue_alone hs hidle⟩
    have hlap := hs.ordered.entered_le
    rw [hs.length_contents]
    omega

/-- The theorem at a run in which a `dequeue` overlaps two calls of `enqueue`: the first producer
has its ticket but has not published it when the second one publishes, and the consumer, which then
finds the queue empty, gets the first node once it is published. -/
theorem mpmcQueue_delivers_overlapping : ∃ s : QueueState (Fin 3) ℕ,
    s.results = [(2, .dequeued (some 10)), (0, .enqueued true), (2, .dequeued none),
      (1, .enqueued true)] ∧
    (s.log.returned.map Prod.fst).Nodup := by
  obtain ⟨s, hreach, htest⟩ := TransitionSystem.Reaches.exists_of_any queueSystem
    (.initial : QueueState (Fin 3) ℕ)
    [.enqueue 0 10, .advance 0 false, .advance 0 false, .enqueue 1 11, .advance 1 false,
      .advance 1 true, .advance 1 false, .advance 1 false, .advance 1 false, .advance 1 false,
      .dequeue 2, .advance 2 false, .advance 0 false, .advance 0 false, .dequeue 2,
      .advance 2 false, .advance 2 false, .advance 2 false, .advance 2 false]
    (fun s _ ↦ s.log.entered.length + s.log.claimed.length < 2 ^ 63)
    (fun s ↦ s.results = [(2, .dequeued (some 10)), (0, .enqueued true), (2, .dequeued none),
      (1, .enqueued true)])
    (fun _ _ hguard ↦ of_decide_eq_true hguard) (by decide) (by decide)
  exact ⟨s, of_decide_eq_true htest, (mpmcQueue_delivers hreach).2.1.1⟩

end GameEngine.Core
