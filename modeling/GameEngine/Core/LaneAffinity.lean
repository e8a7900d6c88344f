import GameEngine.Core.SchedulerRefinement

/-!
# Workers get the nodes of the lane they prefer, in turn

`pick_worker` goes round the workers from where the counter of the lane stands, up to the first one
that prefers the lane. `picks_fair` is what this comes to over a run: only workers that prefer the
lane are picked, if there are any, and each of them is among any `count` picks in a row. When no
worker prefers the lane, all of them are. The exception is around the wrap of the 64-bit counter,
where the round may miss a worker.
-/

set_option autoImplicit false
set_option relaxedAutoImplicit false

namespace GameEngine.Core

open GameEngine.Library
open MachineWord

namespace Workers

variable {workers : Workers} {lane : TaskLane}

/-- Some offset leads to a worker. -/
theorem exists_offset (worker : Fin workers.count) (start : ℕ) :
    ∃ k < workers.count, workers.ofNat (start + k) = worker := by
  refine ⟨(worker + (workers.count - start % workers.count)) % workers.count,
    Nat.mod_lt _ workers.count_pos, Fin.ext ?_⟩
  have hstart := Nat.mod_lt start workers.count_pos
  dsimp only [ofNat]
  rw [Nat.add_mod, Nat.mod_mod, ← Nat.add_mod, ← Nat.mod_add_mod,
    show start % workers.count + (worker + (workers.count - start % workers.count)) =
      worker + workers.count by omega, Nat.add_mod_right, Nat.mod_eq_of_lt worker.isLt]

/-- A worker that prefers the lane is picked when the round starts at it. -/
theorem pick_of_preferred {start : ℕ} (hstart : start < word64)
    (hpreferred : workers.preferred (workers.ofNat start) = lane) :
    workers.pick lane start = workers.ofNat start := by
  have hzero : addMod word64 start 0 = start := by
    rw [addMod, Nat.add_zero, Nat.mod_eq_of_lt hstart]
  have hrange : List.range workers.count =
      0 :: (List.range (workers.count - 1)).map Nat.succ := by
    rw [← List.range_succ_eq_map, Nat.sub_add_cancel workers.count_pos]
  unfold pick
  rw [hrange, List.map_cons, hzero, List.find?_cons_of_pos (by simpa using hpreferred),
    Option.getD_some]

/-- With no worker that prefers the lane, the round falls back on where it started. -/
theorem pick_of_none {start : ℕ} (hnone : ∀ worker, workers.preferred worker ≠ lane) :
    workers.pick lane start = workers.ofNat start := by
  unfold pick
  rw [List.find?_eq_none.mpr fun worker _ ↦ by simpa using hnone worker, Option.getD_none]

/-- A round finds a worker that prefers the lane if there is one. Assumes: the counter does not wrap
in it. -/
theorem preferred_pick {start : ℕ} (hwrap : start + workers.count ≤ word64)
    (hexists : ∃ worker, workers.preferred worker = lane) :
    workers.preferred (workers.pick lane start) = lane := by
  obtain ⟨worker, hworker⟩ := hexists
  obtain ⟨k, hk, hoffset⟩ := exists_offset worker start
  unfold pick
  cases hfind : ((List.range workers.count).map fun k ↦
      workers.ofNat (addMod word64 start k)).find? fun idx ↦ workers.preferred idx = lane with
  | some idx => simpa using List.find?_some hfind
  | none =>
    have hmem : worker ∈ (List.range workers.count).map fun k ↦
        workers.ofNat (addMod word64 start k) := by
      refine List.mem_map.mpr ⟨k, List.mem_range.mpr hk, ?_⟩
      rw [addMod, Nat.mod_eq_of_lt (by omega)]
      exact hoffset
    have hmiss := List.find?_eq_none.mp hfind worker hmem
    simp [hworker] at hmiss

end Workers

namespace Scheduler

variable {workers : Workers} {s : Scheduler workers}

/-- The workers that have been picked for a lane, in order. -/
def picked (s : Scheduler workers) (lane : TaskLane) : List (Fin workers.count) :=
  (s.picks.filter fun pick ↦ pick.1 = lane).map Prod.snd

/-- The counter of a lane counts its picks. -/
structure CountsPicks (s : Scheduler workers) (lane : TaskLane) : Prop where
  laneRr_eq : s.laneRr lane = (s.picked lane).length % word64
  picked_eq : s.picked lane =
    (List.range (s.picked lane).length).map fun k ↦ workers.pick lane (k % word64)

theorem picks_look (s : Scheduler workers) (thread : workers.Thread) (visit : Visit workers)
    {found proceed : Scheduler workers → Scheduler workers}
    (hfound : ∀ next, (found next).laneRr = next.laneRr ∧ (found next).picks = next.picks)
    (hproceed : (proceed s).laneRr = s.laneRr ∧ (proceed s).picks = s.picks) :
    (s.look thread visit found proceed).laneRr = s.laneRr ∧
      (s.look thread visit found proceed).picks = s.picks := by
  unfold look
  cases htake : s.take visit with
  | none => exact hproceed
  | some result =>
    obtain ⟨node, rest⟩ := result
    have hrest := (take_spec htake).2
    obtain ⟨hlanes, hpicks⟩ := hfound (rest.setThread thread ⟨[⟨node, .taken⟩], none⟩)
    dsimp only
    rw [hlanes, hpicks, hrest]
    exact ⟨rfl, rfl⟩

/-- Only `pick_worker` advances the counter of a lane. -/
theorem picks_next (s : Scheduler workers) (thread : workers.Thread) :
    ((s.next thread).laneRr = s.laneRr ∧ (s.next thread).picks = s.picks) ∨
      ∃ lane, (s.next thread).laneRr =
          Function.update s.laneRr lane (addMod word64 (s.laneRr lane) 1) ∧
        (s.next thread).picks = s.picks ++ [(lane, workers.pick lane (s.laneRr lane))] := by
  unfold Scheduler.next
  cases (s.threads thread).dispatching with
  | some call =>
    cases call with
    | picking node => exact .inr ⟨s.lane node, rfl, rfl⟩
    | pushing node worker =>
      dsimp only [advanceDispatch]
      split_ifs <;> exact .inl ⟨rfl, rfl⟩
    | enqueueing node =>
      dsimp only [advanceDispatch]
      split_ifs <;> exact .inl ⟨rfl, rfl⟩
  | none =>
    cases (s.threads thread).stack with
    | cons call outer =>
      left
      obtain ⟨node, phase⟩ := call
      unfold advanceExecute
      cases phase with
      | taken =>
        dsimp only
        split_ifs <;> exact ⟨rfl, rfl⟩
      | releasing next =>
        dsimp only
        cases (s.graph.nodes node).successors[next]? <;> exact ⟨rfl, rfl⟩
      | starting => exact ⟨rfl, rfl⟩
      | running => exact ⟨rfl, rfl⟩
      | retiring => exact ⟨rfl, rfl⟩
    | nil =>
      left
      cases thread with
      | some worker =>
        dsimp only [advanceWorker]
        cases (workers.visits (some worker))[s.scans worker]? with
        | none => exact ⟨rfl, rfl⟩
        | some visit => exact picks_look s _ visit (fun _ ↦ ⟨rfl, rfl⟩) ⟨rfl, rfl⟩
      | none =>
        dsimp only [advanceClient]
        cases s.client with
        | submitting next =>
          dsimp only
          split_ifs <;> exact ⟨rfl, rfl⟩
        | checking =>
          dsimp only
          split_ifs <;> exact ⟨rfl, rfl⟩
        | helping next =>
          dsimp only
          cases (workers.visits none)[next]? with
          | none => exact ⟨rfl, rfl⟩
          | some visit => exact picks_look s _ visit (fun _ ↦ ⟨rfl, rfl⟩) ⟨rfl, rfl⟩
        | returned => exact ⟨rfl, rfl⟩

theorem CountsPicks.step {lane : TaskLane} (hcounts : s.CountsPicks lane)
    (thread : workers.Thread) : (s.next thread).CountsPicks lane := by
  rcases picks_next s thread with ⟨hlanes, hpicks⟩ | ⟨other, hlanes, hpicks⟩
  · have hpicked : (s.next thread).picked lane = s.picked lane := by rw [picked, picked, hpicks]
    exact ⟨by rw [hlanes, hpicked, hcounts.laneRr_eq], by rw [hpicked]; exact hcounts.picked_eq⟩
  by_cases hlane : other = lane
  · subst hlane
    have hpicked : (s.next thread).picked other =
        s.picked other ++ [workers.pick other (s.laneRr other)] := by
      simp [picked, hpicks]
    refine ⟨?_, ?_⟩
    · rw [hlanes, hpicked, Function.update_self, List.length_append, List.length_singleton, addMod,
        hcounts.laneRr_eq, Nat.mod_add_mod]
    · rw [hpicked, List.length_append, List.length_singleton, List.range_succ, List.map_append,
        List.map_singleton, ← hcounts.picked_eq, hcounts.laneRr_eq]
  · have hpicked : (s.next thread).picked lane = s.picked lane := by
      simp [picked, hpicks, hlane]
    refine ⟨?_, by rw [hpicked]; exact hcounts.picked_eq⟩
    rw [hlanes, hpicked, Function.update_of_ne (Ne.symm hlane), hcounts.laneRr_eq]

/-- In every state of every run, only workers that prefer a lane have been picked for it, if there
are any, and each of them is among any `count` picks for it in a row. Without any, every worker is.
Assumes: the counter of the lane has not come to its wrap. -/
theorem picks_fair {graph : TaskGraph} {lane : ℕ → TaskLane} (hreach : Reachable graph lane s)
    (wanted : TaskLane) (hwrap : (s.picked wanted).length + workers.count ≤ word64) :
    ((∃ worker, workers.preferred worker = wanted) →
      ∀ worker ∈ s.picked wanted, workers.preferred worker = wanted) ∧
    ∀ position worker, position + workers.count ≤ (s.picked wanted).length →
      (workers.preferred worker = wanted ∨ ∀ other, workers.preferred other ≠ wanted) →
      worker ∈ ((s.picked wanted).drop position).take workers.count := by
  have hcounts : s.CountsPicks wanted := by
    refine hreach.invariant ⟨rfl, rfl⟩ ?_
    intro s thread next hcounts _ hnext
    exact Option.some.inj hnext ▸ hcounts.step thread
  refine ⟨fun hexists worker hmem ↦ ?_, fun position worker hposition hworker ↦ ?_⟩
  · rw [hcounts.picked_eq] at hmem
    obtain ⟨k, hk, rfl⟩ := List.mem_map.mp hmem
    rw [List.mem_range] at hk
    rw [Nat.mod_eq_of_lt (by omega)]
    exact Workers.preferred_pick (by omega) hexists
  · obtain ⟨k, hk, hoffset⟩ := Workers.exists_offset worker position
    have hpick : workers.pick wanted (position + k) = worker := by
      rcases hworker with hpreferred | hnone
      · rw [Workers.pick_of_preferred (by omega) (by rw [hoffset]; exact hpreferred), hoffset]
      · rw [Workers.pick_of_none hnone, hoffset]
    rw [hcounts.picked_eq, List.mem_take_iff_getElem]
    refine ⟨k, by simp; omega, ?_⟩
    simp only [List.getElem_drop, List.getElem_map, List.getElem_range]
    rw [Nat.mod_eq_of_lt (by omega), hpick]

/-- The theorem at six workers, two of which prefer the lane of three tasks: the round that starts
after the first of them goes on to the second. -/
theorem picks_fair_twoWorkers : ∃ (graph : TaskGraph) (s : Scheduler (.new 6 8 none)),
    Reachable graph (fun _ ↦ .render) s ∧ s.picked .render = [0, 5, 5].map (Workers.ofNat _) ∧
      ∀ worker ∈ s.picked .render, (Workers.new 6 8 none).preferred worker = .render := by
  obtain ⟨setup, -, htest⟩ := TransitionSystem.Reaches.exists_of_schedule Setup.system
    (.new 3) [.createTask 8 8 true, .createTask 8 8 true, .createTask 8 8 true]
    (fun setup ↦ ((system : TransitionSystem (Scheduler (.new 6 8 none)) _).execute
        (submitted setup.graph fun _ ↦ .render) (List.replicate 9 none)).any
        fun s ↦ s.picked .render = [0, 5, 5].map (Workers.ofNat _))
    (by decide +kernel)
  obtain ⟨s, hreach, hs⟩ := TransitionSystem.Reaches.exists_of_schedule _ _ _ _ htest
  have hpicked := of_decide_eq_true hs
  refine ⟨setup.graph, s, hreach, hpicked, ?_⟩
  exact (picks_fair hreach .render (by rw [hpicked]; decide)).1 ⟨Workers.ofNat _ 0, rfl⟩

end Scheduler

end GameEngine.Core
