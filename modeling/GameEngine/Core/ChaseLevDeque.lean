import GameEngine.Library.TransitionSystem
import GameEngine.Library.CallTable
import GameEngine.Library.CircularBuffer
import Mathlib.Data.List.Perm.Subperm
import Mathlib.Data.Fintype.Basic

/-!
# The work-stealing deque of a worker

`ChaseLevDeque` is the deque of `task_graph.cpp`: a circular buffer of node pointers between the
counters `top` and `bottom`. A call of `push`, `pop` or `steal` is a sequence of atomic loads,
stores and compare-exchanges; `DequeCall` says how far a call has come and what it has loaded, and
`callStep` takes its next step. `DequeState` is one deque with the calls of any number of threads
in progress on it, and with the record of the pushes that returned true and of the nodes handed
out.

`DequeState.Sound` is the invariant of the runs in which pushes and pops do not overlap and no pop
loses the race for the last node (`exclusiveOwner`). During such a run the stored nodes are those
from `top` up to `logicalBottom`, which is `bottom` except in the middle of a pop; `Accounts` says
that the nodes pushed are the nodes handed out, the stored ones and the one in the hand of a pop.
`step_sound` is the step lemma.

The 64-bit counters are integers: one would have to push 2^63 times to leave their range.
-/

set_option autoImplicit false
set_option relaxedAutoImplicit false

namespace GameEngine.Core

open GameEngine.Library GameEngine.Library.CircularBuffer

/-! ### The deque and its calls -/

/-- The number of cells of a deque. -/
def kDequeCap : ℕ := 1024

/-- The deque of a worker. A cell holds a node pointer, `none` being the null pointer. -/
structure ChaseLevDeque (Node : Type) where
  /-- The cells, by index. -/
  buffer : ℕ → Option Node
  /-- The position of the oldest stored node. -/
  top : ℤ
  /-- The position after the newest stored node. -/
  bottom : ℤ

/-- A new deque. -/
def ChaseLevDeque.empty {Node : Type} : ChaseLevDeque Node := ⟨fun _ ↦ none, 0, 0⟩

/-- The cell of a position: the position masked by `kDequeCap - 1`. -/
def cellOf (position : ℤ) : ℕ := (position % (kDequeCap : ℤ)).toNat

/-- How far a call has come, with the values in its local variables. -/
inductive DequeCall (Node : Type)
  /-- `push` has loaded `bottom`. -/
  | pushLoaded (node : Node) (b : ℤ)
  /-- `push` has found room. -/
  | pushChecked (node : Node) (b : ℤ)
  /-- `push` has stored the node. -/
  | pushWritten (node : Node) (b : ℤ)
  /-- `pop` has loaded `bottom`, and `b` is the position before it. -/
  | popLoaded (b : ℤ)
  /-- `pop` has stored `b` to `bottom`. -/
  | popLowered (b : ℤ)
  /-- `pop` has found the deque empty. -/
  | popEmpty (t : ℤ)
  /-- `pop` has loaded `top` and is about to load the node. -/
  | popReading (b t : ℤ)
  /-- `pop` has loaded the last node and is about to compare-exchange `top`. -/
  | popRacing (t : ℤ) (node : Option Node)
  /-- `pop` is past the compare-exchange, with `t` as it left it. -/
  | popFinishing (t : ℤ) (node : Option Node)
  /-- `steal` has loaded `top`. -/
  | stealLoaded (t : ℤ)
  /-- `steal` has loaded `bottom` above `t`. -/
  | stealReading (t : ℤ)
  /-- `steal` has loaded the node and is about to compare-exchange `top`. -/
  | stealRacing (t : ℤ) (node : Option Node)

/-- What a step of a call leads to. -/
inductive CallOutcome (Node : Type)
  /-- The call goes on. -/
  | running (call : DequeCall Node)
  /-- `push` returns. -/
  | pushReturned (node : Node) (accepted : Bool)
  /-- `pop` or `steal` returns. -/
  | takeReturned (node : Option Node)

variable {Thread Node : Type}

/-- The next atomic step of a call, with the local computation after it. -/
def callStep (deque : ChaseLevDeque Node) :
    DequeCall Node → ChaseLevDeque Node × CallOutcome Node
  | .pushLoaded node b =>
    if b - deque.top ≥ kDequeCap then (deque, .pushReturned node false)
    else (deque, .running (.pushChecked node b))
  | .pushChecked node b =>
    ({ deque with buffer := Function.update deque.buffer (cellOf b) (some node) },
      .running (.pushWritten node b))
  | .pushWritten node b => ({ deque with bottom := b + 1 }, .pushReturned node true)
  | .popLoaded b => ({ deque with bottom := b }, .running (.popLowered b))
  | .popLowered b =>
    if deque.top > b then (deque, .running (.popEmpty deque.top))
    else (deque, .running (.popReading b deque.top))
  | .popEmpty t => ({ deque with bottom := t }, .takeReturned none)
  | .popReading b t =>
    if t ≠ b then (deque, .takeReturned (deque.buffer (cellOf b)))
    else (deque, .running (.popRacing t (deque.buffer (cellOf b))))
  | .popRacing t node =>
    -- A compare-exchange that fails stores the current `top` into its expected value.
    if deque.top = t then ({ deque with top := t + 1 }, .running (.popFinishing t node))
    else (deque, .running (.popFinishing deque.top none))
  | .popFinishing t node => ({ deque with bottom := t + 1 }, .takeReturned node)
  | .stealLoaded t =>
    if t ≥ deque.bottom then (deque, .takeReturned none)
    else (deque, .running (.stealReading t))
  | .stealReading t => (deque, .running (.stealRacing t (deque.buffer (cellOf t))))
  | .stealRacing t node =>
    if deque.top = t then ({ deque with top := t + 1 }, .takeReturned node)
    else (deque, .takeReturned none)

/-- The call after a step. -/
def CallOutcome.call : CallOutcome Node → Option (DequeCall Node)
  | .running call => some call
  | .pushReturned _ _ => none
  | .takeReturned _ => none

/-- The node that a step makes a push return true for. -/
def CallOutcome.pushed : CallOutcome Node → List Node
  | .pushReturned node true => [node]
  | .pushReturned _ false => []
  | .running _ => []
  | .takeReturned _ => []

/-- The node that a step hands out. -/
def CallOutcome.handedOut : CallOutcome Node → List Node
  | .takeReturned node => node.toList
  | .running _ => []
  | .pushReturned _ _ => []

/-! ### Calls of several threads -/

/-- A deque with the calls in progress on it. -/
structure DequeState (Thread Node : Type) where
  deque : ChaseLevDeque Node
  /-- The call each thread is in. -/
  calls : CallTable Thread (DequeCall Node)
  /-- The nodes for which a push returned true, newest first. -/
  pushed : List Node
  /-- The nodes that pops and steals returned, newest first. -/
  handedOut : List Node

/-- A new deque with no call in progress. -/
def DequeState.initial : DequeState Thread Node := ⟨.empty, .idle, [], []⟩

/-- A thread starts a call, which includes its first load, or takes the next step of its call. -/
inductive DequeAction (Thread Node : Type)
  | push (thread : Thread) (node : Node)
  | pop (thread : Thread)
  | steal (thread : Thread)
  | advance (thread : Thread)

/-- The state after the start of a call. -/
def DequeState.start [DecidableEq Thread] (s : DequeState Thread Node) (thread : Thread)
    (call : DequeCall Node) : DequeState Thread Node :=
  { s with calls := Function.update s.calls thread (some call) }

/-- The state after the next step of a thread's call. -/
def DequeState.advance [DecidableEq Thread] (s : DequeState Thread Node) (thread : Thread)
    (call : DequeCall Node) : DequeState Thread Node where
  deque := (callStep s.deque call).1
  calls := Function.update s.calls thread (callStep s.deque call).2.call
  pushed := (callStep s.deque call).2.pushed ++ s.pushed
  handedOut := (callStep s.deque call).2.handedOut ++ s.handedOut

/-- One step on a deque. A thread is in at most one call. -/
def dequeStep [DecidableEq Thread] (s : DequeState Thread Node) :
    DequeAction Thread Node → Option (DequeState Thread Node)
  | .push thread node =>
    if (s.calls thread).isSome then none
    else some (s.start thread (.pushLoaded node s.deque.bottom))
  | .pop thread =>
    if (s.calls thread).isSome then none
    else some (s.start thread (.popLoaded (s.deque.bottom - 1)))
  | .steal thread =>
    if (s.calls thread).isSome then none else some (s.start thread (.stealLoaded s.deque.top))
  | .advance thread => (s.calls thread).map (s.advance thread)

/-- Pushes and pops are the calls that a single owner would make. -/
def DequeCall.ofOwner : DequeCall Node → Bool
  | .stealLoaded _ => false
  | .stealReading _ => false
  | .stealRacing _ _ => false
  | _ => true

/-- The next step of the call is a pop's compare-exchange on the last node, and it fails. -/
def DequeCall.losesRace (deque : ChaseLevDeque Node) : DequeCall Node → Bool
  | .popRacing t _ => deque.top != t
  | _ => false

/-- A push or pop starts only while no push or pop is in progress on the deque, and a pop takes its
compare-exchange on the last node only while `top` is as it loaded it. -/
def exclusiveOwner (s : DequeState Thread Node) : DequeAction Thread Node → Prop
  | .push _ _ => ∀ thread, (s.calls thread).any DequeCall.ofOwner = false
  | .pop _ => ∀ thread, (s.calls thread).any DequeCall.ofOwner = false
  | .steal _ => True
  | .advance thread => (s.calls thread).any (DequeCall.losesRace s.deque) = false

instance [Fintype Thread] (s : DequeState Thread Node) (action : DequeAction Thread Node) :
    Decidable (exclusiveOwner s action) := by
  cases action <;> unfold exclusiveOwner <;> infer_instance

/-! ### The stored nodes -/

/-- The cells from `top` up to a position. -/
def ChaseLevDeque.storedUpTo (deque : ChaseLevDeque Node) (limit : ℤ) : List (Option Node) :=
  window deque.buffer kDequeCap deque.top.toNat (limit - deque.top).toNat

/-- The cells between `top` and `bottom`. -/
def ChaseLevDeque.stored (deque : ChaseLevDeque Node) : List (Option Node) :=
  deque.storedUpTo deque.bottom

/-! ### The invariant -/

/-- The stock of a deque: the nodes pushed are, with their multiplicities, the nodes handed out, the
nodes stored from `top` up to `limit`, and the one in the hand of a pop. -/
structure Stock (deque : ChaseLevDeque Node) (limit : ℤ) (hand : List (Option Node))
    (pushed handedOut : List Node) : Prop where
  top_nonneg : 0 ≤ deque.top
  top_le : deque.top ≤ limit
  limit_le : limit ≤ deque.top + kDequeCap
  accounts : (pushed.map some).Perm (handedOut.map some ++ (deque.storedUpTo limit ++ hand))

/-- What the push or pop in progress knows, where the stored nodes end, and what the call has in its
hand. A pop that found a node below the last one has it in its hand from the moment it has loaded
`top`; the last node stays stored until the compare-exchange. -/
def OwnerSound (deque : ChaseLevDeque Node) (limit : ℤ) (hand : List (Option Node)) :
    Option (DequeCall Node) → Prop
  | some (.pushLoaded _ b) => deque.bottom = b ∧ limit = b ∧ hand = []
  | some (.pushChecked _ b) =>
    deque.bottom = b ∧ limit = b ∧ hand = [] ∧ b < deque.top + kDequeCap
  | some (.pushWritten node b) =>
    deque.bottom = b ∧ limit = b ∧ hand = [] ∧ b < deque.top + kDequeCap ∧
      deque.buffer (cellOf b) = some node
  | some (.popLoaded b) => deque.bottom = b + 1 ∧ limit = b + 1 ∧ hand = []
  | some (.popLowered b) => deque.bottom = b ∧ limit = b + 1 ∧ hand = []
  | some (.popEmpty t) => deque.bottom = t - 1 ∧ limit = t ∧ hand = []
  | some (.popReading b t) =>
    deque.bottom = b ∧
      if t = b then limit = b + 1 ∧ hand = []
      else limit = b ∧ hand = [deque.buffer (cellOf b)]
  | some (.popRacing t node) =>
    deque.bottom = t ∧ limit = t + 1 ∧ hand = [] ∧ node = deque.buffer (cellOf t)
  | some (.popFinishing t node) => deque.bottom = t ∧ limit = t + 1 ∧ hand = [node]
  | _ => deque.bottom = limit ∧ hand = []

/-- What a steal in progress knows: if `top` has not moved since it was loaded, the oldest node is
still stored, and a loaded node is that node. -/
def ThiefSound (deque : ChaseLevDeque Node) (limit : ℤ) : DequeCall Node → Prop
  | .stealLoaded t => t ≤ deque.top
  | .stealReading t => t ≤ deque.top ∧ (deque.top = t → t < limit)
  | .stealRacing t node =>
    t ≤ deque.top ∧ (deque.top = t → t < limit ∧ node = deque.buffer (cellOf t))
  | _ => True

/-- The thread that is in a push or pop, if any; there is at most one. -/
def Owns (calls : CallTable Thread (DequeCall Node)) (owner : Option Thread) : Prop :=
  ∀ thread, (calls thread).any DequeCall.ofOwner = true ↔ owner = some thread

/-- The invariant: at most one thread is in a push or pop, and what it and the thieves know is
true. -/
def DequeState.Sound (s : DequeState Thread Node) : Prop :=
  ∃ (owner : Option Thread) (limit : ℤ) (hand : List (Option Node)),
    Owns s.calls owner ∧
    Stock s.deque limit hand s.pushed s.handedOut ∧
    OwnerSound s.deque limit hand (owner.bind s.calls) ∧
    s.calls.Forall fun _ ↦ ThiefSound s.deque limit

/-! ### Cells and stored nodes -/

theorem cellOf_eq {position : ℤ} (hposition : 0 ≤ position) :
    cellOf position = position.toNat % kDequeCap := by
  unfold cellOf kDequeCap
  omega

/-- Positions less than a lap apart have different cells. -/
theorem cellOf_ne {first second : ℤ} (hfirst : 0 ≤ first) (hlt : first < second)
    (hlap : second < first + kDequeCap) : cellOf first ≠ cellOf second := by
  rw [cellOf_eq hfirst, cellOf_eq (by omega)]
  exact mod_ne_mod (by omega) (by omega)

theorem storedUpTo_top (deque : ChaseLevDeque Node) : deque.storedUpTo deque.top = [] := by
  simp [ChaseLevDeque.storedUpTo]

/-- Raising the limit by one stores the node at the old limit. -/
theorem storedUpTo_succ {deque : ChaseLevDeque Node} {limit : ℤ} (htop : 0 ≤ deque.top)
    (hle : deque.top ≤ limit) :
    deque.storedUpTo (limit + 1) = deque.storedUpTo limit ++ [deque.buffer (cellOf limit)] := by
  have hlength : (limit + 1 - deque.top).toNat = (limit - deque.top).toNat + 1 := by omega
  have hposition : deque.top.toNat + (limit - deque.top).toNat = limit.toNat := by omega
  unfold ChaseLevDeque.storedUpTo
  rw [hlength, ← window_append, hposition, cellOf_eq (by omega)]
  simp [window]

/-- The oldest stored node stands at `top`. -/
theorem storedUpTo_eq_cons {deque : ChaseLevDeque Node} {limit : ℤ} (htop : 0 ≤ deque.top)
    (hlt : deque.top < limit) : deque.storedUpTo limit = deque.buffer (cellOf deque.top) ::
      ChaseLevDeque.storedUpTo { deque with top := deque.top + 1 } limit := by
  have hlength : (limit - deque.top).toNat = 1 + (limit - (deque.top + 1)).toNat := by omega
  have hposition : deque.top.toNat + 1 = (deque.top + 1).toNat := by omega
  unfold ChaseLevDeque.storedUpTo
  rw [hlength, ← window_append, hposition, cellOf_eq htop]
  simp [window]

/-- Writing the free cell at the limit changes no stored node. -/
theorem storedUpTo_update {deque : ChaseLevDeque Node} {limit : ℤ} (htop : 0 ≤ deque.top)
    (hroom : limit < deque.top + kDequeCap) (node : Option Node) :
    ChaseLevDeque.storedUpTo
      { deque with buffer := Function.update deque.buffer (cellOf limit) node } limit =
        deque.storedUpTo limit := by
  refine List.map_congr_left fun k hmem ↦ ?_
  have hk := List.mem_range.mp hmem
  dsimp only at hk
  have hcell : cellOf (deque.top + k) ≠ cellOf limit := cellOf_ne (by omega) (by omega) (by omega)
  rw [cellOf_eq (by omega), show (deque.top + k).toNat = deque.top.toNat + k by omega] at hcell
  exact Function.update_of_ne hcell _ _

/-! ### What the steps keep -/

/-- What a thief knows survives a step of another thread. Assumes: `top` does not go back, and while
it stays the oldest node stays stored in its cell. -/
theorem ThiefSound.mono {deque next : ChaseLevDeque Node} {limit limit' : ℤ}
    {call : DequeCall Node} (hthief : ThiefSound deque limit call) (htop : deque.top ≤ next.top)
    (hkept : next.top = deque.top → deque.top < limit →
      deque.top < limit' ∧ next.buffer (cellOf deque.top) = deque.buffer (cellOf deque.top)) :
    ThiefSound next limit' call := by
  cases call with
  | stealLoaded t => exact le_trans hthief htop
  | stealReading t =>
    obtain ⟨hle, hlt⟩ := hthief
    refine ⟨hle.trans htop, fun heq ↦ ?_⟩
    obtain rfl : deque.top = t := by omega
    exact (hkept heq (hlt rfl)).1
  | stealRacing t node =>
    obtain ⟨hle, hlt⟩ := hthief
    refine ⟨hle.trans htop, fun heq ↦ ?_⟩
    obtain rfl : deque.top = t := by omega
    obtain ⟨hlimit, hnode⟩ := hlt rfl
    obtain ⟨hlimit', hcell⟩ := hkept heq hlimit
    exact ⟨hlimit', hnode.trans hcell.symm⟩
  | _ => trivial

/-- The physical bottom is never above the logical one. -/
theorem OwnerSound.bottom_le {deque : ChaseLevDeque Node} {limit : ℤ}
    {hand : List (Option Node)} {call : Option (DequeCall Node)}
    (howner : OwnerSound deque limit hand call) : deque.bottom ≤ limit := by
  rcases call with _ | call
  · exact howner.1.le
  cases call with
  | popReading b t =>
    obtain ⟨rfl, hview⟩ := howner
    split_ifs at hview with hlast <;> omega
  | _ =>
    simp only [OwnerSound] at howner
    omega

/-- What the push or pop in progress knows survives a thief's advance of `top`. -/
theorem OwnerSound.raiseTop {deque : ChaseLevDeque Node} {limit : ℤ} {hand : List (Option Node)}
    {call : Option (DequeCall Node)} (howner : OwnerSound deque limit hand call) :
    OwnerSound { deque with top := deque.top + 1 } limit hand call := by
  rcases call with _ | call
  · exact howner
  cases call with
  | pushChecked node b =>
    obtain ⟨hbottom, hlimit, hhand, hroom⟩ := howner
    exact ⟨hbottom, hlimit, hhand, by dsimp only; omega⟩
  | pushWritten node b =>
    obtain ⟨hbottom, hlimit, hhand, hroom, hcell⟩ := howner
    exact ⟨hbottom, hlimit, hhand, by dsimp only; omega, hcell⟩
  | _ => exact howner

/-- A pushed node that is not yet handed out may be handed out. It is not the null pointer. -/
theorem perm_handOut {pushed handedOut : List Node} {cell : Option Node}
    {before after : List (Option Node)}
    (hperm : (pushed.map some).Perm (handedOut.map some ++ (before ++ cell :: after))) :
    (pushed.map some).Perm ((cell.toList ++ handedOut).map some ++ (before ++ after)) := by
  have hmem : cell ∈ pushed.map some := hperm.mem_iff.mpr (by simp)
  obtain ⟨node, -, rfl⟩ := List.mem_map.mp hmem
  exact (hperm.trans (List.perm_middle.append_left _)).trans List.perm_middle

/-- What a step of the push or pop in progress keeps: the stock, what the call itself knows, and
what any thief knows. Assumes: the step does not lose the race for the last node. -/
theorem Stock.ownerStep {deque next : ChaseLevDeque Node} {limit : ℤ} {hand : List (Option Node)}
    {call : DequeCall Node} {outcome : CallOutcome Node} {pushed handedOut : List Node}
    (hstock : Stock deque limit hand pushed handedOut)
    (howner : OwnerSound deque limit hand (some call)) (hcall : call.ofOwner = true)
    (hrace : call.losesRace deque = false) (hstep : callStep deque call = (next, outcome)) :
    ∃ (limit' : ℤ) (hand' : List (Option Node)),
      Stock next limit' hand' (outcome.pushed ++ pushed) (outcome.handedOut ++ handedOut) ∧
      OwnerSound next limit' hand' outcome.call ∧
      ∀ thief, ThiefSound deque limit thief → ThiefSound next limit' thief := by
  obtain ⟨htop, hle, hlap, haccounts⟩ := hstock
  cases call with
  | pushLoaded node b =>
    obtain ⟨hbottom, rfl, rfl⟩ := howner
    simp only [callStep] at hstep
    split_ifs at hstep with hfull
    · cases hstep
      exact ⟨_, _, ⟨htop, hle, hlap, haccounts⟩, ⟨hbottom, rfl⟩, fun thief hthief ↦ hthief⟩
    · cases hstep
      have hroom : limit < deque.top + kDequeCap := by omega
      exact ⟨_, _, ⟨htop, hle, hlap, haccounts⟩, ⟨hbottom, rfl, rfl, hroom⟩,
        fun thief hthief ↦ hthief⟩
  | pushChecked node b =>
    obtain ⟨hbottom, rfl, rfl, hroom⟩ := howner
    cases hstep
    refine ⟨limit, [], ⟨htop, hle, hlap, ?_⟩,
      ⟨hbottom, rfl, rfl, hroom, Function.update_self _ _ _⟩, fun thief hthief ↦ ?_⟩
    · rw [storedUpTo_update htop hroom (some node)]
      exact haccounts
    · refine hthief.mono (le_refl _) fun _ hlt ↦ ⟨hlt, ?_⟩
      exact Function.update_of_ne (cellOf_ne htop hlt hroom) _ _
  | pushWritten node b =>
    obtain ⟨hbottom, rfl, rfl, hroom, hcell⟩ := howner
    cases hstep
    refine ⟨limit + 1, [], ⟨htop, by dsimp only; omega, by dsimp only; omega, ?_⟩, ⟨rfl, rfl⟩,
      fun thief hthief ↦ hthief.mono (le_refl _) fun _ hlt ↦ ⟨by omega, rfl⟩⟩
    have hstored := storedUpTo_succ htop hle
    rw [hcell] at hstored
    change (some node :: pushed.map some).Perm
      (handedOut.map some ++ (deque.storedUpTo (limit + 1) ++ []))
    rw [hstored, List.append_nil, ← List.append_assoc]
    rw [List.append_nil] at haccounts
    exact (haccounts.cons _).trans (List.perm_append_singleton _ _).symm
  | popLoaded b =>
    obtain ⟨hbottom, rfl, rfl⟩ := howner
    cases hstep
    exact ⟨b + 1, [], ⟨htop, hle, hlap, haccounts⟩, ⟨rfl, rfl, rfl⟩,
      fun thief hthief ↦ hthief.mono (le_refl _) fun _ hlt ↦ ⟨hlt, rfl⟩⟩
  | popLowered b =>
    obtain ⟨hbottom, rfl, rfl⟩ := howner
    simp only [callStep] at hstep
    split_ifs at hstep with hempty
    · cases hstep
      have htop' : deque.top = b + 1 := by omega
      exact ⟨b + 1, [], ⟨htop, hle, hlap, haccounts⟩, ⟨by omega, htop'.symm, rfl⟩,
        fun thief hthief ↦ hthief⟩
    · cases hstep
      by_cases hlast : deque.top = b
      · refine ⟨b + 1, [], ⟨htop, hle, hlap, haccounts⟩, ⟨hbottom, ?_⟩, fun thief hthief ↦ hthief⟩
        rw [if_pos hlast]
        exact ⟨rfl, rfl⟩
      · -- The node below the last one passes from the store into the hand of the pop.
        refine ⟨b, [deque.buffer (cellOf b)], ⟨htop, by omega, by omega, ?_⟩, ⟨hbottom, ?_⟩,
          fun thief hthief ↦ hthief.mono (le_refl _) fun _ _ ↦ ⟨by omega, rfl⟩⟩
        · rw [storedUpTo_succ htop (by omega), List.append_nil] at haccounts
          exact haccounts
        · rw [if_neg hlast]
          exact ⟨rfl, rfl⟩
  | popEmpty t =>
    obtain ⟨hbottom, rfl, rfl⟩ := howner
    cases hstep
    exact ⟨limit, [], ⟨htop, hle, hlap, haccounts⟩, ⟨rfl, rfl⟩,
      fun thief hthief ↦ hthief.mono (le_refl _) fun _ hlt ↦ ⟨hlt, rfl⟩⟩
  | popReading b t =>
    obtain ⟨hbottom, hview⟩ := howner
    by_cases hlast : t = b
    · rw [if_pos hlast] at hview
      obtain ⟨rfl, rfl⟩ := hview
      simp only [callStep, hlast, ne_eq, not_true_eq_false, if_false] at hstep
      cases hstep
      exact ⟨b + 1, [], ⟨htop, hle, hlap, haccounts⟩, ⟨hbottom, rfl, rfl, rfl⟩,
        fun thief hthief ↦ hthief⟩
    · rw [if_neg hlast] at hview
      obtain ⟨rfl, rfl⟩ := hview
      simp only [callStep, ne_eq, hlast, not_false_eq_true, if_true] at hstep
      cases hstep
      exact ⟨limit, [], ⟨htop, hle, hlap, perm_handOut haccounts⟩, ⟨hbottom, rfl⟩,
        fun thief hthief ↦ hthief⟩
  | popRacing t node =>
    obtain ⟨hbottom, rfl, rfl, rfl⟩ := howner
    have hwon : deque.top = t := by simpa [DequeCall.losesRace] using hrace
    subst hwon
    simp only [callStep, if_true] at hstep
    cases hstep
    refine ⟨deque.top + 1, [deque.buffer (cellOf deque.top)], ⟨by dsimp only; omega, le_refl _,
      by dsimp only; omega, ?_⟩, ⟨hbottom, rfl, rfl⟩, fun thief hthief ↦ hthief.mono (by simp) ?_⟩
    · -- The last node passes from the store into the hand of the pop.
      have hrest := storedUpTo_top { deque with top := deque.top + 1 }
      dsimp only at hrest
      rw [storedUpTo_eq_cons htop (by omega), hrest] at haccounts
      rw [hrest]
      exact haccounts
    · intro heq
      dsimp only at heq
      omega
  | popFinishing t node =>
    obtain ⟨hbottom, rfl, rfl⟩ := howner
    cases hstep
    exact ⟨t + 1, [], ⟨htop, hle, hlap, perm_handOut haccounts⟩, ⟨rfl, rfl⟩,
      fun thief hthief ↦ hthief⟩
  | _ => simp [DequeCall.ofOwner] at hcall

/-- What a step of a steal keeps: the stock, what the push or pop in progress knows, and what the
thief itself and any other thief know. -/
theorem Stock.thiefStep {deque next : ChaseLevDeque Node} {limit : ℤ} {hand : List (Option Node)}
    {owner : Option (DequeCall Node)} {call : DequeCall Node} {outcome : CallOutcome Node}
    {pushed handedOut : List Node} (hstock : Stock deque limit hand pushed handedOut)
    (howner : OwnerSound deque limit hand owner) (hcall : call.ofOwner = false)
    (hthief : ThiefSound deque limit call) (hstep : callStep deque call = (next, outcome)) :
    Stock next limit hand (outcome.pushed ++ pushed) (outcome.handedOut ++ handedOut) ∧
    OwnerSound next limit hand owner ∧
    (∀ after, outcome.call = some after → ThiefSound next limit after) ∧
    ∀ other, ThiefSound deque limit other → ThiefSound next limit other := by
  obtain ⟨htop, hle, hlap, haccounts⟩ := hstock
  cases call with
  | stealLoaded t =>
    simp only [callStep] at hstep
    split_ifs at hstep with hempty
    · cases hstep
      exact ⟨⟨htop, hle, hlap, haccounts⟩, howner, by simp [CallOutcome.call],
        fun other hother ↦ hother⟩
    · cases hstep
      have hbelow : t < limit := lt_of_lt_of_le (by omega) howner.bottom_le
      refine ⟨⟨htop, hle, hlap, haccounts⟩, howner, ?_, fun other hother ↦ hother⟩
      rintro after ⟨⟩
      exact ⟨hthief, fun _ ↦ hbelow⟩
  | stealReading t =>
    cases hstep
    refine ⟨⟨htop, hle, hlap, haccounts⟩, howner, ?_, fun other hother ↦ hother⟩
    rintro after ⟨⟩
    exact ⟨hthief.1, fun heq ↦ ⟨hthief.2 heq, rfl⟩⟩
  | stealRacing t node =>
    simp only [callStep] at hstep
    split_ifs at hstep with hwon
    · cases hstep
      subst hwon
      obtain ⟨-, holdest⟩ := hthief
      obtain ⟨hbelow, rfl⟩ := holdest rfl
      rw [storedUpTo_eq_cons htop hbelow] at haccounts
      refine ⟨⟨by dsimp only; omega, hbelow, by dsimp only; omega, ?_⟩,
        howner.raiseTop, by simp [CallOutcome.call], fun other hother ↦ hother.mono (by simp) ?_⟩
      · exact @perm_handOut _ pushed handedOut (deque.buffer (cellOf deque.top)) [] _ haccounts
      · intro heq
        dsimp only at heq
        omega
    · cases hstep
      exact ⟨⟨htop, hle, hlap, haccounts⟩, howner, by simp [CallOutcome.call],
        fun other hother ↦ hother⟩
  | _ => simp [DequeCall.ofOwner] at hcall

/-! ### The invariant along runs -/

/-- A step does not turn a steal into a push or pop, or the other way round. -/
theorem callStep_ofOwner {deque next : ChaseLevDeque Node} {call after : DequeCall Node}
    {outcome : CallOutcome Node} (hstep : callStep deque call = (next, outcome))
    (hafter : outcome.call = some after) : after.ofOwner = call.ofOwner := by
  cases call <;> simp only [callStep] at hstep <;> (try split_ifs at hstep) <;> cases hstep <;>
    cases hafter <;> rfl

theorem Owns.eq_none {calls : CallTable Thread (DequeCall Node)} {owner : Option Thread}
    (howns : Owns calls owner) (hfree : ∀ thread, (calls thread).any DequeCall.ofOwner = false) :
    owner = none := by
  rcases owner with _ | thread
  · rfl
  · have htrue := (howns thread).mpr rfl
    rw [hfree thread] at htrue
    contradiction

/-- A new deque meets the invariant. -/
theorem initial_sound : (DequeState.initial : DequeState Thread Node).Sound := by
  refine ⟨none, 0, [], fun thread ↦ ?_, ⟨le_refl _, le_refl _, ?_, ?_⟩, ⟨rfl, rfl⟩,
    CallTable.forall_idle _⟩
  · simp [DequeState.initial, CallTable.idle]
  · simp [DequeState.initial, ChaseLevDeque.empty]
  · simp [DequeState.initial, ChaseLevDeque.empty, ChaseLevDeque.storedUpTo]

/-- The nodes handed out are among the pushed ones, none more often than it was pushed. -/
theorem DequeState.Sound.subperm {s : DequeState Thread Node} (hs : s.Sound) :
    s.handedOut.Subperm s.pushed := by
  obtain ⟨owner, limit, hand, -, hstock, -, -⟩ := hs
  have hsome : (s.handedOut.map some).Subperm (s.pushed.map some) :=
    (List.sublist_append_left _ _).subperm.trans hstock.accounts.symm.subperm
  exact (List.map_subperm_map_iff (Option.some_injective Node)).mp hsome

/-- With no call in progress, a pushed node is handed out or stored between `top` and `bottom`. -/
theorem DequeState.Sound.perm_of_idle {s : DequeState Thread Node} (hs : s.Sound)
    (hidle : ∀ thread, s.calls thread = none) :
    (s.pushed.map some).Perm (s.handedOut.map some ++ s.deque.stored) := by
  obtain ⟨owner, limit, hand, howns, hstock, howner, -⟩ := hs
  obtain rfl := howns.eq_none fun thread ↦ by rw [hidle thread]; rfl
  obtain ⟨rfl, rfl⟩ := howner
  have haccounts := hstock.accounts
  rw [List.append_nil] at haccounts
  exact haccounts

variable [DecidableEq Thread]

/-- The thread that starts, continues or ends a push or pop, when no other thread is in one. -/
theorem Owns.updateOwner {calls : CallTable Thread (DequeCall Node)} {owner : Option Thread}
    {thread : Thread} (howns : Owns calls owner) (howner : owner = none ∨ owner = some thread)
    {next : Option (DequeCall Node)} (hnext : ∀ call, next = some call → call.ofOwner = true) :
    Owns (Function.update calls thread next) (next.map fun _ ↦ thread) := by
  intro other
  by_cases hother : other = thread
  · subst hother
    rw [Function.update_self]
    rcases next with _ | call
    · simp
    · simp [hnext call rfl]
  · rw [Function.update_of_ne hother, howns other]
    rcases howner with rfl | rfl
    · cases next <;> simp [Ne.symm hother]
    · cases next <;> simp [Ne.symm hother]

/-- A thread that starts, continues or ends a steal leaves the owner as it is. -/
theorem Owns.updateThief {calls : CallTable Thread (DequeCall Node)} {owner : Option Thread}
    {thread : Thread} (howns : Owns calls owner)
    (hthread : (calls thread).any DequeCall.ofOwner = false) {next : Option (DequeCall Node)}
    (hnext : ∀ call, next = some call → call.ofOwner = false) :
    Owns (Function.update calls thread next) owner ∧
      owner.bind (Function.update calls thread next) = owner.bind calls := by
  have hne : owner ≠ some thread := by
    intro heq
    rw [(howns thread).mpr heq] at hthread
    contradiction
  refine ⟨fun other ↦ ?_, ?_⟩
  · by_cases hother : other = thread
    · subst hother
      rw [Function.update_self]
      rcases next with _ | call
      · simpa using hne
      · simpa [hnext call rfl] using hne
    · rw [Function.update_of_ne hother]
      exact howns other
  · rcases owner with _ | holder
    · rfl
    · have hother : holder ≠ thread := fun heq ↦ hne (congrArg some heq)
      simp only [Option.bind_some, Function.update_of_ne hother]

/-- A thread that starts a push or pop becomes the owner. -/
theorem DequeState.Sound.startOwner {s : DequeState Thread Node} {thread : Thread}
    {call : DequeCall Node} (hs : s.Sound)
    (hfree : ∀ other, (s.calls other).any DequeCall.ofOwner = false)
    (hcall : call.ofOwner = true) (hknows : OwnerSound s.deque s.deque.bottom [] (some call)) :
    (s.start thread call).Sound := by
  obtain ⟨owner, limit, hand, howns, hstock, howner, hthieves⟩ := hs
  obtain rfl := howns.eq_none hfree
  obtain ⟨rfl, rfl⟩ := howner
  refine ⟨some thread, _, [], howns.updateOwner (.inl rfl) (by rintro after ⟨⟩; exact hcall),
    hstock, ?_, ?_⟩
  · simp only [start, Option.bind_some, Function.update_self]
    exact hknows
  · refine CallTable.Forall.update (fun other after _ hafter ↦ hthieves other after hafter) ?_
    rintro after ⟨⟩
    cases call with
    | stealLoaded | stealReading | stealRacing => cases hcall
    | _ => trivial

/-- What the next step of a thread's call keeps. -/
theorem DequeState.Sound.advance {s : DequeState Thread Node} {thread : Thread}
    {call : DequeCall Node} (hs : s.Sound) (hcall : s.calls thread = some call)
    (hrace : call.losesRace s.deque = false) : (s.advance thread call).Sound := by
  obtain ⟨owner, limit, hand, howns, hstock, howner, hthieves⟩ := hs
  obtain ⟨next, outcome, hstep⟩ : ∃ next outcome, callStep s.deque call = (next, outcome) :=
    ⟨_, _, rfl⟩
  have hkind : ∀ after, outcome.call = some after → after.ofOwner = call.ofOwner :=
    fun after hafter ↦ callStep_ofOwner hstep hafter
  unfold DequeState.advance
  rw [hstep]
  cases howned : call.ofOwner with
  | true =>
    obtain rfl : owner = some thread := (howns thread).mp (by rw [hcall]; exact howned)
    rw [Option.bind_some, hcall] at howner
    obtain ⟨limit', hand', hstock', howner', hkept⟩ :=
      hstock.ownerStep howner howned hrace hstep
    refine ⟨_, limit', hand', howns.updateOwner (.inr rfl) fun after hafter ↦ ?_, hstock', ?_,
      CallTable.Forall.update (fun other after _ hafter ↦ hkept _ (hthieves other after hafter)) ?_⟩
    · rw [hkind after hafter, howned]
    · cases hnext : outcome.call with
      | none => simpa [hnext] using howner'
      | some after => simpa [hnext] using howner'
    · intro after hafter
      have hafterOwned := hkind after hafter
      rw [howned] at hafterOwned
      cases after with
      | stealLoaded | stealReading | stealRacing => cases hafterOwned
      | _ => trivial
  | false =>
    obtain ⟨hstock', howner', hthief, hkept⟩ :=
      hstock.thiefStep howner howned (hthieves thread call hcall) hstep
    obtain ⟨howns', hsame⟩ := howns.updateThief (by rw [hcall]; exact howned)
      fun after hafter ↦ (hkind after hafter).trans howned
    refine ⟨owner, limit, hand, howns', hstock', ?_,
      CallTable.Forall.update (fun other after _ hafter ↦ hkept _ (hthieves other after hafter))
        hthief⟩
    dsimp only
    rw [hsame]
    exact howner'

/-- The step lemma: an allowed step keeps the invariant. -/
theorem DequeState.Sound.step {s next : DequeState Thread Node} {action : DequeAction Thread Node}
    (hs : s.Sound) (hguard : exclusiveOwner s action) (hstep : dequeStep s action = some next) :
    next.Sound := by
  cases action with
  | push thread node =>
    simp only [dequeStep, Option.ite_none_left_eq_some, Option.some.injEq] at hstep
    obtain ⟨-, rfl⟩ := hstep
    exact hs.startOwner hguard rfl ⟨rfl, rfl, rfl⟩
  | pop thread =>
    simp only [dequeStep, Option.ite_none_left_eq_some, Option.some.injEq] at hstep
    obtain ⟨-, rfl⟩ := hstep
    exact hs.startOwner hguard rfl ⟨by omega, by omega, rfl⟩
  | steal thread =>
    simp only [dequeStep, Option.ite_none_left_eq_some, Option.some.injEq] at hstep
    obtain ⟨hidle, rfl⟩ := hstep
    obtain ⟨owner, limit, hand, howns, hstock, howner, hthieves⟩ := hs
    rw [Bool.not_eq_true, Option.isSome_eq_false_iff, Option.isNone_iff_eq_none] at hidle
    obtain ⟨howns', hsame⟩ := @Owns.updateThief _ _ _ _ _ thread howns (by simp [hidle])
      (some (.stealLoaded s.deque.top)) (by rintro call ⟨⟩; rfl)
    refine ⟨owner, limit, hand, howns', hstock, ?_,
      CallTable.Forall.update (fun other call _ hcall ↦ hthieves other call hcall) ?_⟩
    · simp only [start]
      rw [hsame]
      exact howner
    · rintro call ⟨⟩
      exact le_refl s.deque.top
  | advance thread =>
    simp only [dequeStep, Option.map_eq_some_iff] at hstep
    obtain ⟨call, hcall, rfl⟩ := hstep
    simp only [exclusiveOwner, hcall, Option.any_some] at hguard
    exact hs.advance hcall hguard

end GameEngine.Core
