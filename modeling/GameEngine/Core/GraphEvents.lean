import GameEngine.Core.GraphInvariant

/-!
# Tasks, callables and events of the task graph in use

How the parts of `Tracks` that are about tasks follow the steps: the numbers of the tasks (`Named`),
their callables (`Built`), the starts and returns of their bodies (`Ordered`), the counter of
outstanding tasks (`OutstandingCounts`), the handles (`Handled`) and the calls that exclude others
(`Exclusive`).
-/

set_option autoImplicit false
set_option relaxedAutoImplicit false

namespace GameEngine.Core

open GameEngine.Library
open MachineWord DependencyCount

variable {Client Exec : Type} {mode : ℕ → Mode Client Exec} {node : ℕ} {next : Mode Client Exec}
  {clients : CallTable Client ClientCall} {nextTask : ℕ} {events new : List TaskEvent}

/-! ### Numbers -/

section Named

theorem Mode.task_of_unmade {mode : Mode Client Exec} {task : ℕ} (hmode : mode.unmade = some task) :
    mode.task = some task := by
  cases mode with
  | creating client other stage =>
    rw [Mode.unmade] at hmode
    split_ifs at hmode
    exact hmode
  | _ => contradiction

theorem Mode.task_of_callable {mode : Mode Client Exec} {task : ℕ}
    (hmode : mode.callable = some task) : mode.task = some task := by
  cases mode with
  | creating client other stage =>
    rw [Mode.callable] at hmode
    split_ifs at hmode
    exact hmode
  | executing exec other phase =>
    rw [Mode.callable] at hmode
    split_ifs at hmode
    exact hmode
  | pooled => contradiction
  | free => contradiction
  | _ => exact hmode

theorem Mode.task_of_unfinished {mode : Mode Client Exec} {task : ℕ}
    (hmode : mode.unfinished = some task) : mode.task = some task := by
  cases mode with
  | executing exec other phase =>
    rw [Mode.unfinished] at hmode
    split_ifs at hmode
    exact hmode
  | pooled => contradiction
  | free => contradiction
  | creating client other stage => contradiction
  | _ => exact hmode

/-- A node moves on with its task, and there are events of that task or of none. -/
theorem Named.move (hnamed : Named mode clients nextTask events)
    (htask : next.task = (mode node).task)
    (hnew : ∀ event ∈ new, ∀ task, event.task = some task → (mode node).task = some task)
    (hunmade : ∀ task, next.unmade = some task → (mode node).unmade = some task ∧ new = []) :
    Named (Function.update mode node next) clients nextTask (events ++ new) := by
  have htasks : ∀ other, (Function.update mode node next other).task = (mode other).task := by
    intro other
    by_cases heq : other = node
    · subst heq
      rw [Function.update_self, htask]
    · rw [Function.update_of_ne heq]
  refine ⟨fun event hevent task htask' ↦ ?_, fun other task hother ↦ ?_,
    fun first second task hfirst hsecond ↦ ?_, fun client task hcall ↦ ?_, hnamed.asking_distinct,
    fun other task hother event hevent ↦ ?_⟩
  · rcases List.mem_append.mp hevent with hold | hnew'
    · exact hnamed.events_lt event hold task htask'
    · exact hnamed.mode_lt node task (hnew event hnew' task htask')
  · exact hnamed.mode_lt other task (htasks other ▸ hother)
  · exact hnamed.distinct first second task (htasks first ▸ hfirst) (htasks second ▸ hsecond)
  · obtain ⟨hlt, hnodes, hevents⟩ := hnamed.asking client task hcall
    refine ⟨hlt, fun other ↦ htasks other ▸ hnodes other, fun event hevent htask' ↦ ?_⟩
    rcases List.mem_append.mp hevent with hold | hnew'
    · exact hevents event hold htask'
    · exact hnodes node (hnew event hnew' task htask')
  · by_cases heq : other = node
    · subst heq
      rw [Function.update_self] at hother
      obtain ⟨hbefore, rfl⟩ := hunmade task hother
      rw [List.append_nil] at hevent
      exact hnamed.unmade other task hbefore event hevent
    · rw [Function.update_of_ne heq] at hother
      rcases List.mem_append.mp hevent with hold | hnew'
      · exact hnamed.unmade other task hother event hold
      · intro htask'
        exact heq (hnamed.distinct other node task (Mode.task_of_unmade hother)
          (hnew event hnew' task htask'))

/-- A node moves on with its task. -/
theorem Named.keep (hnamed : Named mode clients nextTask events)
    (htask : next.task = (mode node).task)
    (hunmade : ∀ task, next.unmade = some task → (mode node).unmade = some task) :
    Named (Function.update mode node next) clients nextTask events := by
  have hmove : Named (Function.update mode node next) clients nextTask (events ++ []) :=
    hnamed.move htask (fun event hevent ↦ absurd hevent List.not_mem_nil)
      fun task htask ↦ ⟨hunmade task htask, rfl⟩
  rwa [List.append_nil] at hmove

/-- There are events of the task of a node that is constructed, or of none. -/
theorem Named.emit (hnamed : Named mode clients nextTask events)
    (hnew : ∀ event ∈ new, ∀ task, event.task = some task →
      ∃ node, (mode node).task = some task ∧ (mode node).unmade = none) :
    Named mode clients nextTask (events ++ new) := by
  refine ⟨fun event hevent task htask ↦ ?_, hnamed.mode_lt, hnamed.distinct,
    fun client task hcall ↦ ?_, hnamed.asking_distinct,
    fun other task hother event hevent htask ↦ ?_⟩
  · rcases List.mem_append.mp hevent with hold | hnew'
    · exact hnamed.events_lt event hold task htask
    · obtain ⟨node, hnode, -⟩ := hnew event hnew' task htask
      exact hnamed.mode_lt node task hnode
  · obtain ⟨hlt, hnodes, hevents⟩ := hnamed.asking client task hcall
    refine ⟨hlt, hnodes, fun event hevent htask ↦ ?_⟩
    rcases List.mem_append.mp hevent with hold | hnew'
    · exact hevents event hold htask
    · obtain ⟨node, hnode, -⟩ := hnew event hnew' task htask
      exact hnodes node hnode
  · rcases List.mem_append.mp hevent with hold | hnew'
    · exact hnamed.unmade other task hother event hold htask
    · obtain ⟨node, hnode, hmade⟩ := hnew event hnew' task htask
      rw [hnamed.distinct node other task hnode (Mode.task_of_unmade hother), hother] at hmade
      contradiction

/-- A node that belongs to no task gets one. Assumes: the number is taken, and no other has it. -/
theorem Named.assign {task : ℕ} (hnamed : Named mode clients nextTask events)
    (hlt : task < nextTask) (hnodes : ∀ node, (mode node).task ≠ some task)
    (hevents : ∀ event ∈ events, event.task ≠ some task)
    (hasking : ∀ client, (clients client).bind ClientCall.asking ≠ some task)
    (hnext : next.task = some task) :
    Named (Function.update mode node next) clients nextTask events := by
  refine ⟨hnamed.events_lt, fun other task' hother ↦ ?_, fun first second task' hfirst hsecond ↦ ?_,
    fun client task' hcall ↦ ?_, hnamed.asking_distinct, fun other task' hother ↦ ?_⟩
  · by_cases heq : other = node
    · subst heq
      rw [Function.update_self, hnext] at hother
      exact Option.some.inj hother ▸ hlt
    · rw [Function.update_of_ne heq] at hother
      exact hnamed.mode_lt other task' hother
  · by_cases hfirst' : first = node <;> by_cases hsecond' : second = node
    · rw [hfirst', hsecond']
    · subst hfirst'
      rw [Function.update_self, hnext] at hfirst
      rw [Function.update_of_ne hsecond', ← hfirst] at hsecond
      exact absurd hsecond (hnodes second)
    · subst hsecond'
      rw [Function.update_self, hnext] at hsecond
      rw [Function.update_of_ne hfirst', ← hsecond] at hfirst
      exact absurd hfirst (hnodes first)
    · rw [Function.update_of_ne hfirst'] at hfirst
      rw [Function.update_of_ne hsecond'] at hsecond
      exact hnamed.distinct first second task' hfirst hsecond
  · obtain ⟨hlt', hnodes', hevents'⟩ := hnamed.asking client task' hcall
    refine ⟨hlt', fun other ↦ ?_, hevents'⟩
    by_cases heq : other = node
    · subst heq
      rw [Function.update_self, hnext]
      intro heq
      exact hasking client (heq ▸ hcall)
    · rw [Function.update_of_ne heq]
      exact hnodes' other
  · by_cases heq : other = node
    · subst heq
      rw [Function.update_self] at hother
      have htask := Mode.task_of_unmade hother
      rw [hnext] at htask
      exact Option.some.inj htask ▸ hevents
    · rw [Function.update_of_ne heq] at hother
      exact hnamed.unmade other task' hother

/-- A node gives its task up. -/
theorem Named.drop (hnamed : Named mode clients nextTask events) (hnext : next.task = none) :
    Named (Function.update mode node next) clients nextTask events := by
  have hbefore : ∀ other task, (Function.update mode node next other).task = some task →
      (mode other).task = some task ∧ other ≠ node := by
    intro other task hother
    by_cases heq : other = node
    · subst heq
      rw [Function.update_self, hnext] at hother
      contradiction
    · rw [Function.update_of_ne heq] at hother
      exact ⟨hother, heq⟩
  refine ⟨hnamed.events_lt,
    fun other task hother ↦ hnamed.mode_lt other task (hbefore other task hother).1,
    fun first second task hfirst hsecond ↦ hnamed.distinct first second task
      (hbefore first task hfirst).1 (hbefore second task hsecond).1,
    fun client task hcall ↦ ?_, hnamed.asking_distinct, fun other task hother ↦ ?_⟩
  · obtain ⟨hlt, hnodes, hevents⟩ := hnamed.asking client task hcall
    exact ⟨hlt, fun other hother ↦ hnodes other (hbefore other task hother).1, hevents⟩
  · have hne := (hbefore other task (Mode.task_of_unmade hother)).2
    rw [Function.update_of_ne hne] at hother
    exact hnamed.unmade other task hother

/-- The next number is taken. -/
theorem Named.fresh (hnamed : Named mode clients nextTask events) :
    Named mode clients (nextTask + 1) events where
  events_lt := fun event hevent task htask ↦
    Nat.lt_succ_of_lt (hnamed.events_lt event hevent task htask)
  mode_lt := fun node task hnode ↦ Nat.lt_succ_of_lt (hnamed.mode_lt node task hnode)
  distinct := hnamed.distinct
  asking := fun client task hcall ↦
    ⟨Nat.lt_succ_of_lt (hnamed.asking client task hcall).1, (hnamed.asking client task hcall).2⟩
  asking_distinct := hnamed.asking_distinct
  unmade := hnamed.unmade

section Clients

variable [DecidableEq Client] {client : Client} {call : Option ClientCall}

/-- A client's call asks for a node for the same task as before, or for none. -/
theorem Named.setClient (hnamed : Named mode clients nextTask events)
    (hcall : ∀ task, call.bind ClientCall.asking = some task →
      (clients client).bind ClientCall.asking = some task) :
    Named mode (Function.update clients client call) nextTask events := by
  have hbefore : ∀ other task,
      (Function.update clients client call other).bind ClientCall.asking = some task →
      (clients other).bind ClientCall.asking = some task := by
    intro other task hother
    by_cases heq : other = client
    · subst heq
      rw [Function.update_self] at hother
      exact hcall task hother
    · rwa [Function.update_of_ne heq] at hother
  exact ⟨hnamed.events_lt, hnamed.mode_lt, hnamed.distinct,
    fun other task hother ↦ hnamed.asking other task (hbefore other task hother),
    fun first second task hfirst hsecond ↦ hnamed.asking_distinct first second task
      (hbefore first task hfirst) (hbefore second task hsecond), hnamed.unmade⟩

/-- A client asks for a node for a new task. -/
theorem Named.ask {seen : ℕ} (hnamed : Named mode clients nextTask events) :
    Named mode (Function.update clients client (some (.pooling nextTask seen))) (nextTask + 1)
      events := by
  have hcases : ∀ other task,
      (Function.update clients client (some (.pooling nextTask seen)) other).bind
        ClientCall.asking = some task →
      other = client ∧ task = nextTask ∨
        other ≠ client ∧ (clients other).bind ClientCall.asking = some task := by
    intro other task hother
    by_cases heq : other = client
    · subst heq
      rw [Function.update_self] at hother
      exact .inl ⟨rfl, (Option.some.inj hother).symm⟩
    · rw [Function.update_of_ne heq] at hother
      exact .inr ⟨heq, hother⟩
  have hfresh := hnamed.fresh
  refine ⟨hfresh.events_lt, hfresh.mode_lt, hfresh.distinct, fun other task hother ↦ ?_,
    fun first second task hfirst hsecond ↦ ?_, hfresh.unmade⟩
  · rcases hcases other task hother with ⟨-, rfl⟩ | ⟨-, hbefore⟩
    · exact ⟨Nat.lt_succ_self _, fun node hnode ↦ (hnamed.mode_lt node _ hnode).false,
        fun event hevent htask ↦ (hnamed.events_lt event hevent _ htask).false⟩
    · exact hfresh.asking other task hbefore
  · rcases hcases first task hfirst with ⟨rfl, rfl⟩ | ⟨-, hbefore⟩ <;>
      rcases hcases second _ hsecond with ⟨rfl, heq⟩ | ⟨-, hbefore'⟩
    · rfl
    · exact absurd (hnamed.asking second _ hbefore').1 (Nat.lt_irrefl _)
    · exact absurd (heq ▸ (hnamed.asking first _ hbefore).1) (Nat.lt_irrefl _)
    · exact hnamed.asking_distinct first second task hbefore hbefore'

end Clients

end Named

/-! ### Callables -/

section Built

/-- A node keeps its callable. -/
theorem Built.move (hbuilt : Built mode events) (hcallable : next.callable = (mode node).callable) :
    Built (Function.update mode node next) events := by
  have hcallables : ∀ other, (Function.update mode node next other).callable =
      (mode other).callable := by
    intro other
    by_cases heq : other = node
    · subst heq
      rw [Function.update_self, hcallable]
    · rw [Function.update_of_ne heq]
  exact ⟨fun other task hother ↦ hbuilt.present other task (hcallables other ▸ hother),
    fun task hnone ↦ hbuilt.absent task fun other ↦ hcallables other ▸ hnone other, hbuilt.once⟩

/-- No callable is constructed or destroyed. -/
theorem Built.emit (hbuilt : Built mode events)
    (hnew : ∀ task, .constructed task ∉ new ∧ .destroyed task ∉ new) :
    Built mode (events ++ new) := by
  have hconstructed : ∀ task,
      (events ++ new).count (.constructed task) = events.count (.constructed task) := by
    intro task
    rw [List.count_append, List.count_eq_zero_of_not_mem (hnew task).1, Nat.add_zero]
  have hdestroyed : ∀ task,
      (events ++ new).count (.destroyed task) = events.count (.destroyed task) := by
    intro task
    rw [List.count_append, List.count_eq_zero_of_not_mem (hnew task).2, Nat.add_zero]
  refine ⟨fun other task hother ↦ ?_, fun task hnone ↦ ?_, fun task ↦ ?_⟩
  · rw [hconstructed, hdestroyed]
    exact hbuilt.present other task hother
  · rw [hconstructed, hdestroyed]
    exact hbuilt.absent task hnone
  · rw [hconstructed]
    exact hbuilt.once task

/-- A callable in a node has not been destroyed. -/
theorem Built.not_destroyed (hbuilt : Built mode events) {task : ℕ}
    (hnode : (mode node).callable = some task) : .destroyed task ∉ events := by
  have hpresent := hbuilt.present node task hnode
  have honce := hbuilt.once task
  exact List.count_eq_zero.mp (by omega)

/-- A callable is constructed in a node. -/
theorem Built.construct (hbuilt : Built mode events) {task : ℕ}
    (hnode : (mode node).callable = none) (hnext : next.callable = some task)
    (hfresh : ∀ event ∈ events, event.task ≠ some task) :
    Built (Function.update mode node next) (events ++ [.constructed task]) := by
  have hzero : events.count (.constructed task) = 0 :=
    List.count_eq_zero.mpr fun hmem ↦ hfresh _ hmem rfl
  have hzero' : events.count (.destroyed task) = 0 :=
    List.count_eq_zero.mpr fun hmem ↦ hfresh _ hmem rfl
  have hconstructed : ∀ other, (events ++ [TaskEvent.constructed task]).count (.constructed other) =
      events.count (.constructed other) + if other = task then 1 else 0 := by
    intro other
    rw [List.count_append, List.count_singleton]
    by_cases heq : other = task
    · subst heq
      simp
    · simp [heq, Ne.symm heq]
  have hdestroyed : ∀ other, (events ++ [TaskEvent.constructed task]).count (.destroyed other) =
      events.count (.destroyed other) := by
    intro other
    rw [List.count_append, List.count_singleton]
    simp
  refine ⟨fun other task' hother ↦ ?_, fun task' hnone ↦ ?_, fun task' ↦ ?_⟩
  · rw [hconstructed, hdestroyed]
    by_cases heq : other = node
    · subst heq
      rw [Function.update_self, hnext] at hother
      obtain rfl := Option.some.inj hother
      rw [if_pos rfl, hzero, hzero']
    · rw [Function.update_of_ne heq] at hother
      have hne : task' ≠ task := by
        rintro rfl
        have hpresent := hbuilt.present other task' hother
        omega
      rw [if_neg hne, Nat.add_zero]
      exact hbuilt.present other task' hother
  · rw [hconstructed, hdestroyed]
    have hne : task' ≠ task := by
      rintro rfl
      exact hnone node (by rw [Function.update_self, hnext])
    rw [if_neg hne, Nat.add_zero]
    refine hbuilt.absent task' fun other hother ↦ ?_
    by_cases heq : other = node
    · subst heq
      rw [hnode] at hother
      contradiction
    · exact hnone other (by rw [Function.update_of_ne heq]; exact hother)
  · rw [hconstructed]
    by_cases hne : task' = task
    · subst hne
      rw [if_pos rfl, hzero]
    · rw [if_neg hne, Nat.add_zero]
      exact hbuilt.once task'

/-- The callable of a node is destroyed. Assumes: no other node has the callable of that task. -/
theorem Built.destroy (hbuilt : Built mode events) {task : ℕ}
    (hnode : (mode node).callable = some task) (hnext : next.callable = none)
    (hothers : ∀ other, other ≠ node → (mode other).callable ≠ some task) :
    Built (Function.update mode node next) (events ++ [.destroyed task]) := by
  have hpresent := hbuilt.present node task hnode
  have hconstructed : ∀ other, (events ++ [TaskEvent.destroyed task]).count (.constructed other) =
      events.count (.constructed other) := by
    intro other
    rw [List.count_append, List.count_singleton]
    simp
  have hdestroyed : ∀ other, (events ++ [TaskEvent.destroyed task]).count (.destroyed other) =
      events.count (.destroyed other) + if other = task then 1 else 0 := by
    intro other
    rw [List.count_append, List.count_singleton]
    by_cases heq : other = task
    · subst heq
      simp
    · simp [heq, Ne.symm heq]
  refine ⟨fun other task' hother ↦ ?_, fun task' hnone ↦ ?_, fun task' ↦ ?_⟩
  · rw [hconstructed, hdestroyed]
    by_cases heq : other = node
    · subst heq
      rw [Function.update_self, hnext] at hother
      contradiction
    · rw [Function.update_of_ne heq] at hother
      have hne : task' ≠ task := fun hne ↦ hothers other heq (hne ▸ hother)
      rw [if_neg hne, Nat.add_zero]
      exact hbuilt.present other task' hother
  · rw [hconstructed, hdestroyed]
    by_cases hne : task' = task
    · subst hne
      rw [if_pos rfl, hpresent]
    · rw [if_neg hne, Nat.add_zero]
      refine hbuilt.absent task' fun other hother ↦ ?_
      by_cases heq : other = node
      · subst heq
        exact hne (Option.some.inj (hother.symm.trans hnode))
      · exact hnone other (by rw [Function.update_of_ne heq]; exact hother)
  · rw [hconstructed]
    exact hbuilt.once task'

end Built

/-! ### Bodies -/

section Ordered

/-- An event that does not start or end a body after its destruction. -/
theorem Ordered.append (hordered : Ordered mode events) {event : TaskEvent}
    (horder : ∀ task, event = .started task ∨ event = .finished task → .destroyed task ∉ events)
    (hfinished : ∀ task, event = .finished task → .started task ∈ events) :
    Ordered mode (events ++ [event]) := by
  refine ⟨?_, fun other exec task phase hmode hphase ↦ ?_,
    fun other exec task phase hmode hphase ↦ ?_, fun task hmem ↦ ?_⟩
  · refine List.pairwise_append.mpr ⟨hordered.order, List.pairwise_singleton .., ?_⟩
    intro first hfirst second hsecond task hdestroyed
    obtain rfl := List.mem_singleton.mp hsecond
    subst hdestroyed
    exact ⟨fun h ↦ horder task (.inl h) hfirst, fun h ↦ horder task (.inr h) hfirst⟩
  · exact List.mem_append_left _ (hordered.begun other exec task phase hmode hphase)
  · exact List.mem_append_left _ (hordered.ended other exec task phase hmode hphase)
  · rcases List.mem_append.mp hmem with hold | hnew
    · exact List.mem_append_left _ (hordered.started task hold)
    · exact List.mem_append_left _ (hfinished task (List.mem_singleton.mp hnew).symm)

/-- A node moves on to a point of its execution that the events tell. -/
theorem Ordered.move (hordered : Ordered mode events)
    (hnext : ∀ exec task phase, next = .executing exec task phase →
      (phase ≠ .starting → .started task ∈ events) ∧
        (phase.unfinished = false → .finished task ∈ events)) :
    Ordered (Function.update mode node next) events := by
  refine ⟨hordered.order, fun other exec task phase hmode hphase ↦ ?_,
    fun other exec task phase hmode hphase ↦ ?_, hordered.started⟩ <;> by_cases heq : other = node
  · subst heq
    rw [Function.update_self] at hmode
    exact (hnext exec task phase hmode).1 hphase
  · rw [Function.update_of_ne heq] at hmode
    exact hordered.begun other exec task phase hmode hphase
  · subst heq
    rw [Function.update_self] at hmode
    exact (hnext exec task phase hmode).2 hphase
  · rw [Function.update_of_ne heq] at hmode
    exact hordered.ended other exec task phase hmode hphase

end Ordered

/-! ### Outstanding tasks -/

section OutstandingCounts

variable [Fintype Exec] {blocks outstanding : ℕ} {execs : CallTable Exec ExecutorCall}

/-- A node moves on, and is counted as before. -/
theorem OutstandingCounts.keep (hcounted : OutstandingCounts mode blocks execs outstanding)
    (hnext : next.counted = (mode node).counted) :
    OutstandingCounts (Function.update mode node next) blocks execs outstanding := by
  have hfilter : ((Finset.range blocks).filter fun other ↦
      (Function.update mode node next other).counted = true) =
      (Finset.range blocks).filter fun other ↦ (mode other).counted = true := by
    refine Finset.filter_congr fun other _ ↦ ?_
    by_cases heq : other = node
    · subst heq
      rw [Function.update_self, hnext]
    · rw [Function.update_of_ne heq]
  rw [OutstandingCounts, hfilter]
  exact hcounted

/-- A task is counted. -/
theorem OutstandingCounts.add (hcounted : OutstandingCounts mode blocks execs outstanding)
    (hlt : node < blocks) (hnode : (mode node).counted = false) (hnext : next.counted = true) :
    OutstandingCounts (Function.update mode node next) blocks execs
      (addMod word32 outstanding 1) := by
  have hcard := card_filter_update mode (fun place ↦ place.counted = true)
    (Finset.mem_range.mpr hlt) next
  rw [if_neg (by simp [hnode]), if_pos hnext, Nat.add_zero] at hcard
  rw [OutstandingCounts] at hcounted
  rw [OutstandingCounts, hcard, hcounted, addMod_mod]
  congr 1
  omega

variable [DecidableEq Exec] {exec : Exec} {call : Option ExecutorCall}

/-- An executor that is not retiring gets a call in which it is not either. -/
theorem OutstandingCounts.setExec (hcounted : OutstandingCounts mode blocks execs outstanding)
    (hexec : execs exec ≠ some .retiring) (hcall : call ≠ some .retiring) :
    OutstandingCounts mode blocks (Function.update execs exec call) outstanding := by
  have hfilter : (Finset.univ.filter fun other ↦
      Function.update execs exec call other = some .retiring) =
      Finset.univ.filter fun other ↦ execs other = some .retiring := by
    refine Finset.filter_congr fun other _ ↦ ?_
    by_cases heq : other = exec
    · subst heq
      simp [hexec, hcall]
    · rw [Function.update_of_ne heq]
  rw [OutstandingCounts, hfilter]
  exact hcounted

/-- An executor puts its node on the free list: from now on the executor is counted for the task. -/
theorem OutstandingCounts.push (hcounted : OutstandingCounts mode blocks execs outstanding)
    (hlt : node < blocks) (hnode : (mode node).counted = true) (hnext : next.counted = false)
    (hexec : execs exec ≠ some .retiring) :
    OutstandingCounts (Function.update mode node next) blocks
      (Function.update execs exec (some .retiring)) outstanding := by
  have hnodes := card_filter_update mode (fun place ↦ place.counted = true)
    (Finset.mem_range.mpr hlt) next
  have hexecs := card_filter_update execs (fun call ↦ call = some .retiring)
    (Finset.mem_univ exec) (some .retiring)
  rw [if_pos hnode, if_neg (by simp [hnext]), Nat.add_zero] at hnodes
  rw [if_neg hexec, if_pos rfl, Nat.add_zero] at hexecs
  rw [OutstandingCounts] at hcounted
  rw [OutstandingCounts, hexecs, hcounted]
  congr 1
  omega

/-- A task is retired. -/
theorem OutstandingCounts.retire (hcounted : OutstandingCounts mode blocks execs outstanding)
    (hexec : execs exec = some .retiring) (hcall : call ≠ some .retiring) :
    OutstandingCounts mode blocks (Function.update execs exec call)
      (subMod word32 outstanding 1) := by
  have hexecs := card_filter_update execs (fun call ↦ call = some .retiring)
    (Finset.mem_univ exec) call
  rw [if_pos hexec, if_neg hcall, Nat.add_zero] at hexecs
  rw [OutstandingCounts] at hcounted
  rw [OutstandingCounts, hcounted, subMod_mod_left (by omega) (by decide)]
  congr 1
  omega

end OutstandingCounts

/-! ### Handles -/

section Handled

variable {submitted : Bool} {handles : List LiveHandle}

/-- A node moves on: a task that waits goes on waiting until the graph is submitted, none starts to
wait, and none is finished without an event. -/
theorem Handled.keep (hhandled : Handled mode submitted handles events)
    (hcreating : ∀ client task stage, next = .creating client task stage →
      (∀ event ∈ events, event.task ≠ some task) ∨
        ∃ before, mode node = .creating client task before)
    (hsubmitted : submitted = false → ∀ task, mode node ≠ .waiting task)
    (hunfinished : ∀ task, (mode node).unfinished = some task →
      next.unfinished = some task ∨ .finished task ∈ events)
    (hwaiting : ∀ task, next = .waiting task → mode node = .waiting task ∨
      ∃ client stage, mode node = .creating client task stage) :
    Handled (Function.update mode node next) submitted handles events := by
  refine ⟨hhandled.constructed, fun handle hmem other client stage ↦ ?_,
    fun hsub handle hmem ↦ ?_, fun handle hmem ↦ ?_, fun handle hmem hlive ↦ ?_⟩
  · by_cases heq : other = node
    · subst heq
      rw [Function.update_self]
      intro hnext
      rcases hcreating client handle.task stage hnext with hfresh | ⟨before, hbefore⟩
      · exact hfresh _ (hhandled.constructed handle hmem) rfl
      · exact hhandled.made handle hmem other client before hbefore
    · rw [Function.update_of_ne heq]
      exact hhandled.made handle hmem other client stage
  · have hbefore := hhandled.waiting hsub handle hmem
    have hne : handle.node ≠ node := fun heq ↦ hsubmitted hsub handle.task (heq ▸ hbefore)
    rw [Function.update_of_ne hne]
    exact hbefore
  · rcases hhandled.unfinished handle hmem with hfinished | hbefore
    · exact .inl hfinished
    · by_cases heq : handle.node = node
      · subst heq
        rw [Function.update_self]
        exact (hunfinished handle.task hbefore).symm
      · rw [Function.update_of_ne heq]
        exact .inr hbefore
  · by_cases heq : handle.node = node
    · subst heq
      rw [Function.update_self]
      intro hnext
      rcases hwaiting handle.task hnext with hbefore | ⟨client, stage, hbefore⟩
      · exact hhandled.live handle hmem hlive hbefore
      · exact hhandled.made handle hmem _ client stage hbefore
    · rw [Function.update_of_ne heq]
      exact hhandled.live handle hmem hlive

/-- An event is recorded. -/
theorem Handled.emit (hhandled : Handled mode submitted handles events) (new : List TaskEvent) :
    Handled mode submitted handles (events ++ new) where
  constructed := fun handle hmem ↦ List.mem_append_left _ (hhandled.constructed handle hmem)
  made := hhandled.made
  waiting := hhandled.waiting
  unfinished := fun handle hmem ↦
    (hhandled.unfinished handle hmem).imp_left (List.mem_append_left _)
  live := hhandled.live

/-- A handle is returned. -/
theorem Handled.returned (hhandled : Handled mode submitted handles events) {handle : LiveHandle}
    (hconstructed : .constructed handle.task ∈ events)
    (hmade : ∀ node client stage, mode node ≠ .creating client handle.task stage)
    (hwaiting : submitted = false → mode handle.node = .waiting handle.task)
    (hunfinished : (mode handle.node).unfinished = some handle.task)
    (hlive : handle.live = true → mode handle.node ≠ .waiting handle.task) :
    Handled mode submitted (handles ++ [handle]) events := by
  have hcases : ∀ other ∈ handles ++ [handle], other ∈ handles ∨ other = handle := by
    intro other hother
    exact (List.mem_append.mp hother).imp_right List.mem_singleton.mp
  constructor
  · intro other hother
    rcases hcases other hother with hmem | rfl
    · exact hhandled.constructed other hmem
    · exact hconstructed
  · intro other hother
    rcases hcases other hother with hmem | rfl
    · exact hhandled.made other hmem
    · exact hmade
  · intro hsub other hother
    rcases hcases other hother with hmem | rfl
    · exact hhandled.waiting hsub other hmem
    · exact hwaiting hsub
  · intro other hother
    rcases hcases other hother with hmem | rfl
    · exact hhandled.unfinished other hmem
    · exact .inr hunfinished
  · intro other hother
    rcases hcases other hother with hmem | rfl
    · exact hhandled.live other hmem
    · exact hlive

end Handled

/-! ### Exclusive calls -/

section Exclusive

variable {mode' : ℕ → Mode Client Exec} {execs execs' : CallTable Exec ExecutorCall} {halted : Bool}

theorem ClientCall.exclusive_of_exclusively {call : ClientCall}
    (hcall : call.Exclusively mode execs halted) : call.exclusive = true := by
  cases call <;> first | rfl | exact absurd hcall id

/-- No exclusive call is in progress. -/
theorem Exclusive.normal (hexclusive : Exclusive mode clients execs halted)
    (hnone : ∀ client call, clients client = some call → call.exclusive = false) :
    halted = false := by
  rcases hexclusive with ⟨-, hhalted⟩ | ⟨client, call, hcall, -, hexclusively⟩
  · exact hhalted
  · have hcontra := hnone client call hcall
    rw [ClientCall.exclusive_of_exclusively hexclusively] at hcontra
    contradiction

/-- While a client is in a call that is not exclusive, no exclusive call is in progress. -/
theorem Exclusive.none_of_call (hexclusive : Exclusive mode clients execs halted) {client : Client}
    {call : ClientCall} (hcall : clients client = some call) (hnormal : call.exclusive = false) :
    ∀ client call, clients client = some call → call.exclusive = false := by
  rcases hexclusive with ⟨hnone, -⟩ | ⟨other, entry, hentry, hothers, hexclusively⟩
  · exact hnone
  · have hexcl := ClientCall.exclusive_of_exclusively hexclusively
    by_cases heq : client = other
    · subst heq
      rw [Option.some.inj (hcall.symm.trans hentry), hexcl] at hnormal
      contradiction
    · rw [hothers client heq] at hcall
      contradiction

/-- While no exclusive call is in progress, a client gets a call that is not exclusive. -/
theorem Exclusive.setClient [DecidableEq Client] (hexclusive : Exclusive mode clients execs halted)
    (hnone : ∀ client call, clients client = some call → call.exclusive = false) (client : Client)
    {call : Option ClientCall} (hcall : ∀ after, call = some after → after.exclusive = false) :
    Exclusive mode' (Function.update clients client call) execs' halted := by
  refine .inl ⟨fun other entry hentry ↦ ?_, hexclusive.normal hnone⟩
  by_cases heq : other = client
  · subst heq
    rw [Function.update_self] at hentry
    exact hcall entry hentry
  · rw [Function.update_of_ne heq] at hentry
    exact hnone other entry hentry

/-- An executor that is at work goes on. -/
theorem Exclusive.exec (hexclusive : Exclusive mode clients execs halted) (exec : Exec)
    (hbusy : execs exec ≠ none) : Exclusive mode' clients execs' halted := by
  rcases hexclusive with hnormal | ⟨client, call, hcall, hothers, hexclusively⟩
  · exact .inl hnormal
  · cases call with
    | resetting => exact absurd (hexclusively.2.1 exec) hbusy
    | reopening => exact absurd (hexclusively.2.1 exec) hbusy
    | stopping => exact .inr ⟨client, .stopping, hcall, hothers, hexclusively⟩
    | joined => exact absurd (hexclusively.1 exec) hbusy
    | _ => exact absurd hexclusively id

/-- A node that is in use moves. -/
theorem Exclusive.move (hexclusive : Exclusive mode clients execs halted)
    (hpooled : mode node ≠ .pooled) (hfree : mode node ≠ .free) :
    Exclusive mode' clients execs halted := by
  rcases hexclusive with hnormal | ⟨client, call, hcall, hothers, hexclusively⟩
  · exact .inl hnormal
  · refine .inr ⟨client, call, hcall, hothers, ?_⟩
    cases call with
    | resetting =>
      rcases hexclusively.1 node with hnode | hnode
      · exact absurd hnode hpooled
      · exact absurd hnode hfree
    | reopening => exact absurd (hexclusively.1 node) hpooled
    | _ => exact hexclusively

/-- A node is taken out of a queue. -/
theorem Exclusive.take (hexclusive : Exclusive mode clients execs halted) {task : ℕ}
    (hnode : mode node = .queued task) (hhalted : halted = false) :
    Exclusive mode' clients execs' halted := by
  rcases hexclusive with hnormal | ⟨client, call, hcall, hothers, hexclusively⟩
  · exact .inl hnormal
  · cases call with
    | resetting => simpa [hnode] using hexclusively.1 node
    | reopening => simpa [hnode] using hexclusively.1 node
    | stopping => exact .inr ⟨client, .stopping, hcall, hothers, hexclusively⟩
    | joined => simp [hexclusively.2] at hhalted
    | _ => exact absurd hexclusively id

end Exclusive

end GameEngine.Core
