import GameEngine.Core.TaskGraph
import GameEngine.Library.CallTable

/-!
# Running a submitted task graph

`submit` has set its flag, and from then on three kinds of steps interleave: the next iteration of
the submit loop, an `execute` call taking a dispatched node, and one step of an `execute` call: the
exchange of `invoke`, the start and the end of the body, the decrement of one successor, the
recycling of the node and the decrement of the outstanding counter. Any number of `execute` calls
are in progress.

`Tracks` is the invariant. It relates the graph to the stage of every task, and says that a task's
counter holds the sentinel, if `submit` has not removed it yet, plus the dependencies whose
prerequisites have not counted down for it yet. `reachable_tracks` says that it holds in every
reachable state as long as no counter wraps.
-/

set_option autoImplicit false
set_option relaxedAutoImplicit false

namespace GameEngine.Core

open GameEngine.Library
open MachineWord DependencyCount

/-! ### The steps -/

namespace TaskGraph

/-- The decrement of a counter that `submit` and `execute` share: the node whose counter was one is
dispatched. -/
def countDown (graph : TaskGraph) (node : ℕ) : TaskGraph :=
  let pending := (graph.nodes node).pending
  let lowered := graph.setNode node
    { graph.nodes node with pending := subMod word32 pending 1 }
  if pending = 1 then lowered.dispatch node else lowered

/-- Clears a node and puts it on the free list. -/
def recycle (graph : TaskGraph) (node : ℕ) : TaskGraph :=
  { graph.setNode node ⟨false, 0, []⟩ with freeNodes := graph.freeNodes ++ [node] }

@[simp] theorem countDown_taskCount (graph : TaskGraph) (node : ℕ) :
    (graph.countDown node).taskCount = graph.taskCount := by
  simp only [countDown]
  split_ifs <;> rfl

@[simp] theorem countDown_outstanding (graph : TaskGraph) (node : ℕ) :
    (graph.countDown node).outstanding = graph.outstanding := by
  simp only [countDown]
  split_ifs <;> rfl

theorem countDown_dispatched (graph : TaskGraph) (node : ℕ) :
    (graph.countDown node).dispatched =
      if (graph.nodes node).pending = 1 then graph.dispatched ++ [node] else graph.dispatched := by
  simp only [countDown]
  split_ifs <;> rfl

theorem countDown_nodes (graph : TaskGraph) (node : ℕ) :
    (graph.countDown node).nodes = Function.update graph.nodes node
      { graph.nodes node with pending := subMod word32 (graph.nodes node).pending 1 } := by
  simp only [countDown]
  split_ifs <;> rfl

/-- Counting down changes nothing of a node but its counter. -/
theorem countDown_node (graph : TaskGraph) (node other : ℕ) :
    ((graph.countDown node).nodes other).invoke = (graph.nodes other).invoke ∧
      ((graph.countDown node).nodes other).successors = (graph.nodes other).successors := by
  rw [countDown_nodes]
  by_cases hother : other = node
  · subst hother
    rw [Function.update_self]
    exact ⟨rfl, rfl⟩
  · rw [Function.update_of_ne hother]
    exact ⟨rfl, rfl⟩

end TaskGraph

/-- How far an `execute` call has come: it has the node; it has exchanged `invoke`; the body is
running; the body has returned and the successor at a position is next; the node is recycled. -/
inductive Phase
  | taken
  | starting
  | running
  | releasing (next : ℕ)
  | retiring

/-- An `execute` call in progress. -/
structure ExecuteCall where
  node : ℕ
  phase : Phase

/-- The graph after the flag is set: the node the submit loop looks at next, the `execute` calls in
progress, and the tasks whose bodies have started and have returned, in order. -/
structure Execution (Exec : Type) where
  graph : TaskGraph
  submitAt : ℕ
  calls : CallTable Exec ExecuteCall
  started : List ℕ
  finished : List ℕ

/-- A step: the next iteration of the submit loop, an `execute` call that starts on a dispatched
node, or the next step of an `execute` call. -/
inductive ExecutionAction (Exec : Type)
  | submitNext
  | take (exec : Exec) (node : ℕ)
  | advance (exec : Exec)

namespace Execution

variable {Exec : Type}

/-- The state right after `submit` has set its flag. -/
def submitted (graph : TaskGraph) : Execution Exec where
  graph := { graph with submitted := true }
  submitAt := 0
  calls := CallTable.idle
  started := []
  finished := []

/-- `submit` has returned, no `execute` is in progress and no dispatched node is waiting. -/
structure Quiescent (s : Execution Exec) : Prop where
  submitAt_eq : s.submitAt = s.graph.taskCount
  idle : ∀ exec, s.calls exec = none
  dispatched : s.graph.dispatched = []

variable [DecidableEq Exec]

/-- The next step of an `execute` call. -/
def advance (s : Execution Exec) (exec : Exec) (call : ExecuteCall) : Execution Exec :=
  let node := s.graph.nodes call.node
  match call.phase with
  | .taken =>
    if node.invoke then
      { s with
        graph := s.graph.setNode call.node { node with invoke := false }
        calls := Function.update s.calls exec (some ⟨call.node, .starting⟩) }
    else { s with calls := Function.update s.calls exec none }
  | .starting =>
    { s with
      started := s.started ++ [call.node]
      calls := Function.update s.calls exec (some ⟨call.node, .running⟩) }
  | .running =>
    { s with
      finished := s.finished ++ [call.node]
      calls := Function.update s.calls exec (some ⟨call.node, .releasing 0⟩) }
  | .releasing next =>
    match node.successors[next]? with
    | some successor =>
      { s with
        graph := s.graph.countDown successor
        calls := Function.update s.calls exec (some ⟨call.node, .releasing (next + 1)⟩) }
    | none =>
      { s with
        graph := s.graph.recycle call.node
        calls := Function.update s.calls exec (some ⟨call.node, .retiring⟩) }
  | .retiring =>
    { s with
      graph := { s.graph with outstanding := subMod word32 s.graph.outstanding 1 }
      calls := Function.update s.calls exec none }

/-- One step. -/
def step (s : Execution Exec) : ExecutionAction Exec → Option (Execution Exec)
  | .submitNext =>
    if s.submitAt < s.graph.taskCount then
      some { s with graph := s.graph.countDown s.submitAt, submitAt := s.submitAt + 1 }
    else none
  | .take exec node =>
    if (s.calls exec).isNone ∧ node ∈ s.graph.dispatched then
      some { s with
        graph := { s.graph with dispatched := s.graph.dispatched.erase node }
        calls := Function.update s.calls exec (some ⟨node, .taken⟩) }
    else none
  | .advance exec => (s.calls exec).map (s.advance exec)

/-- The submitted graph as a transition system. -/
def system : TransitionSystem (Execution Exec) (ExecutionAction Exec) where
  step := step

end Execution

/-! ### The stage of a task -/

/-- Where a task is: no `execute` call has taken it yet, a call holds it, or its call is over. -/
inductive Stage
  | waiting
  | held (phase : Phase)
  | retired

namespace Stage

/-- How many of its successors, out of `length`, a task at this stage has counted down for. -/
def released (length : ℕ) : Stage → ℕ
  | .held (.releasing next) => next
  | .held .retiring => length
  | .retired => length
  | _ => 0

/-- The `invoke` pointer of the node is still set. -/
def armed : Stage → Bool
  | .waiting => true
  | .held .taken => true
  | _ => false

/-- The body has started. -/
def hasStarted : Stage → Bool
  | .held .running => true
  | .held (.releasing _) => true
  | .held .retiring => true
  | .retired => true
  | _ => false

/-- The body has returned. -/
def hasFinished : Stage → Bool
  | .held (.releasing _) => true
  | .held .retiring => true
  | .retired => true
  | _ => false

/-- The call is over. -/
def isRetired : Stage → Bool
  | .retired => true
  | _ => false

/-- The node has been cleared. -/
def isRecycled : Stage → Bool
  | .held .retiring => true
  | .retired => true
  | _ => false

end Stage

/-! ### The invariant -/

/-- The calls in progress are those of the tasks that are held, one each, at the same point. -/
structure CallsTrack {Exec : Type} (count : ℕ) (stage : ℕ → Stage)
    (calls : CallTable Exec ExecuteCall) : Prop where
  forall_calls : calls.Forall fun _ call ↦
    call.node < count ∧ stage call.node = .held call.phase
  heldOnce : calls.HeldOnce (fun call ↦ some call.node) fun task ↦
    task < count ∧ ∃ phase, stage task = .held phase

/-- The counters hold what is due, and a task that nothing is due of has been dispatched once: it
is waiting to be taken, or it has been taken. -/
structure Counted (count : ℕ) (due : ℕ → ℕ) (stage : ℕ → Stage) (graph : TaskGraph) : Prop where
  pending_eq : ∀ task < count, (graph.nodes task).pending = due task % word32
  due_le : ∀ task < count, due task ≤ word32
  ready_iff : ∀ task < count,
    due task = 0 ↔ task ∈ graph.dispatched ∨ stage task ≠ .waiting
  dispatched_waiting : ∀ task ∈ graph.dispatched, task < count ∧ stage task = .waiting
  nodup : graph.dispatched.Nodup

/-- The nodes hold what the stages say of `invoke` and of the successors. -/
structure NodesTrack (count : ℕ) (successors : ℕ → List ℕ) (stage : ℕ → Stage)
    (nodes : ℕ → TaskNode) : Prop where
  invoke_eq : ∀ task < count, (nodes task).invoke = (stage task).armed
  successors_eq : ∀ task < count, (stage task).isRecycled = false →
    (nodes task).successors = successors task
  released_le : ∀ task < count,
    (stage task).released (successors task).length ≤ (successors task).length

/-- The logs hold the tasks whose bodies have started and have returned. -/
structure LogsTrack (count : ℕ) (stage : ℕ → Stage) (started finished : List ℕ) : Prop where
  nodup : started.Nodup
  mem_started : ∀ task, task ∈ started ↔ task < count ∧ (stage task).hasStarted
  mem_finished : ∀ task, task ∈ finished ↔ task < count ∧ (stage task).hasFinished

/-- The tasks that `execute` is not done with. -/
def unretired (count : ℕ) (stage : ℕ → Stage) : Finset ℕ :=
  (Finset.range count).filter fun task ↦ (stage task).isRetired = false

namespace Setup

/-- What a task still waits for: the sentinel, when the submit loop has not reached the task yet,
and one count for each dependency whose prerequisite has not counted down for it yet. -/
def due (setup : Setup) (submitAt : ℕ) (stage : ℕ → Stage) (task : ℕ) : ℕ :=
  (if submitAt ≤ task then 1 else 0) +
    owed setup.graph.taskCount setup.successors
      (fun other ↦ (stage other).released (setup.successors other).length) task

/-- The invariant: the graph, the calls and the logs agree with the stages of the tasks. -/
structure Tracks {Exec : Type} (setup : Setup) (stage : ℕ → Stage) (s : Execution Exec) : Prop where
  taskCount_eq : s.graph.taskCount = setup.graph.taskCount
  submitAt_le : s.submitAt ≤ setup.graph.taskCount
  counted : Counted setup.graph.taskCount (setup.due s.submitAt stage) stage s.graph
  nodes : NodesTrack setup.graph.taskCount setup.successors stage s.graph.nodes
  calls : CallsTrack setup.graph.taskCount stage s.calls
  logs : LogsTrack setup.graph.taskCount stage s.started s.finished
  outstanding_eq : s.graph.outstanding = (unretired setup.graph.taskCount stage).card % word32

end Setup

/-! ### What one step does to each part -/

section Parts

variable {Exec : Type} [DecidableEq Exec] {count : ℕ} {due due' : ℕ → ℕ} {stage : ℕ → Stage}
  {graph graph' : TaskGraph} {successors : ℕ → List ℕ} {task : ℕ} {next : Stage}

/-- Counting a task down takes one from what it is due, and dispatches it if nothing is left. -/
theorem Counted.countDown (hcounted : Counted count due stage graph) (htask : task < count)
    (hpos : due task ≠ 0)
    (hdue : ∀ other, due' other + (if other = task then 1 else 0) = due other) :
    Counted count due' stage (graph.countDown task) := by
  have hpending := hcounted.pending_eq task htask
  have hle := hcounted.due_le task htask
  have htaskdue := hdue task
  rw [if_pos rfl] at htaskdue
  have hother : ∀ other, other ≠ task → due' other = due other := by
    intro other hne
    simpa [hne] using hdue other
  have hidle : ¬ (task ∈ graph.dispatched ∨ stage task ≠ .waiting) :=
    fun hready ↦ hpos ((hcounted.ready_iff task htask).mpr hready)
  obtain ⟨hnotMem, hwaiting⟩ := not_or.mp hidle
  -- With at most `2 ^ 32` due, the counter is one exactly when one is due.
  have hlast : (graph.nodes task).pending = 1 ↔ due' task = 0 := by
    rw [hpending]
    unfold word32 at hle ⊢
    omega
  refine ⟨?_, ?_, ?_, ?_, ?_⟩
  · intro other hlt
    rw [TaskGraph.countDown_nodes]
    by_cases hne : other = task
    · subst hne
      rw [Function.update_self]
      dsimp only
      rw [hpending, subMod_mod_left (by omega) (by norm_num [word32]),
        show due other - 1 = due' other by omega]
    · rw [Function.update_of_ne hne, hother other hne]
      exact hcounted.pending_eq other hlt
  · intro other hlt
    have hbound := hcounted.due_le other hlt
    have hchange := hdue other
    omega
  · intro other hlt
    rw [TaskGraph.countDown_dispatched]
    by_cases hne : other = task
    · subst hne
      rw [← hlast]
      split_ifs with hone
      · simp [hone]
      · simp only [hone, false_iff]
        exact hidle
    · rw [hother other hne, hcounted.ready_iff other hlt]
      split_ifs with hone
      · simp [hne]
      · rfl
  · intro other hmem
    rw [TaskGraph.countDown_dispatched] at hmem
    split_ifs at hmem with hone
    · rcases List.mem_append.mp hmem with hold | hnew
      · exact hcounted.dispatched_waiting other hold
      · rw [List.mem_singleton.mp hnew]
        exact ⟨htask, not_not.mp hwaiting⟩
    · exact hcounted.dispatched_waiting other hmem
  · rw [TaskGraph.countDown_dispatched]
    split_ifs with hone
    · exact List.nodup_append'.mpr ⟨hcounted.nodup, List.nodup_singleton task,
        List.disjoint_singleton.mpr hnotMem⟩
    · exact hcounted.nodup

/-- A task that has been taken moves on without a change of its counter. -/
theorem Counted.move (hcounted : Counted count due stage graph) (htaken : stage task ≠ .waiting)
    (hnext : next ≠ .waiting)
    (hpending : ∀ other < count, (graph'.nodes other).pending = (graph.nodes other).pending)
    (hdispatched : graph'.dispatched = graph.dispatched) :
    Counted count due (Function.update stage task next) graph' := by
  have hstage : ∀ other, Function.update stage task next other = .waiting ↔
      stage other = .waiting := by
    intro other
    by_cases hother : other = task
    · subst hother
      simp [htaken, hnext]
    · rw [Function.update_of_ne hother]
  refine ⟨?_, hcounted.due_le, ?_, ?_, hdispatched ▸ hcounted.nodup⟩
  · intro other hlt
    rw [hpending other hlt]
    exact hcounted.pending_eq other hlt
  · intro other hlt
    rw [hdispatched, ne_eq, hstage other]
    exact hcounted.ready_iff other hlt
  · intro other hmem
    rw [hdispatched] at hmem
    rw [hstage other]
    exact hcounted.dispatched_waiting other hmem

/-- A dispatched task is taken. -/
theorem Counted.take (hcounted : Counted count due stage graph)
    (hmem : task ∈ graph.dispatched) (hnext : next ≠ .waiting) :
    Counted count due (Function.update stage task next)
      { graph with dispatched := graph.dispatched.erase task } := by
  refine ⟨hcounted.pending_eq, hcounted.due_le, ?_, ?_, hcounted.nodup.erase task⟩
  · intro other hlt
    rw [hcounted.ready_iff other hlt, hcounted.nodup.mem_erase_iff]
    by_cases hother : other = task
    · subst hother
      simp [hmem, hnext]
    · simp [hother]
  · intro other hother
    obtain ⟨hne, hold⟩ := hcounted.nodup.mem_erase_iff.mp hother
    rw [Function.update_of_ne hne]
    exact hcounted.dispatched_waiting other hold

/-- A dispatched task is due nothing. -/
theorem Counted.due_eq_zero_of_taken (hcounted : Counted count due stage graph)
    (htask : task < count) (htaken : stage task ≠ .waiting) : due task = 0 :=
  (hcounted.ready_iff task htask).mpr (.inr htaken)

/-- One node and the stage of its task change. -/
theorem NodesTrack.move {nodes nodes' : ℕ → TaskNode}
    (hnodes : NodesTrack count successors stage nodes)
    (hothers : ∀ other, other ≠ task → nodes' other = nodes other)
    (hinvoke : (nodes' task).invoke = next.armed)
    (hsuccessors : next.isRecycled = false → (nodes' task).successors = successors task)
    (hreleased : next.released (successors task).length ≤ (successors task).length) :
    NodesTrack count successors (Function.update stage task next) nodes' := by
  refine ⟨?_, ?_, ?_⟩ <;> intro other hlt <;> by_cases hother : other = task
  · subst hother
    rw [Function.update_self]
    exact hinvoke
  · rw [Function.update_of_ne hother, hothers other hother]
    exact hnodes.invoke_eq other hlt
  · subst hother
    rw [Function.update_self]
    exact hsuccessors
  · rw [Function.update_of_ne hother, hothers other hother]
    exact hnodes.successors_eq other hlt
  · subst hother
    rw [Function.update_self]
    exact hreleased
  · rw [Function.update_of_ne hother]
    exact hnodes.released_le other hlt

/-- The nodes after a counter has been counted down. -/
theorem NodesTrack.countDown (hnodes : NodesTrack count successors stage graph.nodes) (node : ℕ) :
    NodesTrack count successors stage (graph.countDown node).nodes := by
  refine ⟨?_, ?_, hnodes.released_le⟩
  · intro other hlt
    rw [(graph.countDown_node node other).1]
    exact hnodes.invoke_eq other hlt
  · intro other hlt hrecycled
    rw [(graph.countDown_node node other).2]
    exact hnodes.successors_eq other hlt hrecycled

omit [DecidableEq Exec] in
/-- The other calls are at other tasks. -/
theorem CallsTrack.forall_others {calls : CallTable Exec ExecuteCall} {exec : Exec}
    {call : ExecuteCall} (hcalls : CallsTrack count stage calls) (hcall : calls exec = some call)
    {next : Stage} (other : Exec) (otherCall : ExecuteCall) (hother : other ≠ exec)
    (hotherCall : calls other = some otherCall) :
    otherCall.node < count ∧
      Function.update stage call.node next otherCall.node = .held otherCall.phase := by
  have hne : otherCall.node ≠ call.node := fun heq ↦
    hother (hcalls.heldOnce.eq_of_key hotherCall hcall (congrArg some heq) rfl)
  rw [Function.update_of_ne hne]
  exact hcalls.forall_calls other otherCall hotherCall

/-- A call moves its task to the next point. -/
theorem CallsTrack.advance {calls : CallTable Exec ExecuteCall} {exec : Exec} {call : ExecuteCall}
    (hcalls : CallsTrack count stage calls) (hcall : calls exec = some call) (phase : Phase) :
    CallsTrack count (Function.update stage call.node (.held phase))
      (Function.update calls exec (some ⟨call.node, phase⟩)) := by
  obtain ⟨hlt, hstage⟩ := hcalls.forall_calls exec call hcall
  refine ⟨CallTable.Forall.update ?_ ?_, ?_⟩
  · exact hcalls.forall_others hcall
  · rintro _ ⟨⟩
    exact ⟨hlt, Function.update_self ..⟩
  · have hkey : (some (ExecuteCall.mk call.node phase)).bind (fun call ↦ some call.node) =
        (calls exec).bind fun call ↦ some call.node := by
      rw [hcall]
      rfl
    refine (hcalls.heldOnce.keep hkey).congr fun task ↦ ?_
    by_cases htask : task = call.node
    · subst htask
      simp [hstage]
    · rw [Function.update_of_ne htask]

/-- A free thread takes a waiting task. -/
theorem CallsTrack.take {calls : CallTable Exec ExecuteCall} {exec : Exec}
    (hcalls : CallsTrack count stage calls) (hfree : calls exec = none) (htask : task < count)
    (hwaiting : stage task = .waiting) (phase : Phase) :
    CallsTrack count (Function.update stage task (.held phase))
      (Function.update calls exec (some ⟨task, phase⟩)) := by
  refine ⟨CallTable.Forall.update ?_ ?_, hcalls.heldOnce.take (by simp [hfree]) rfl ?_ ?_⟩
  · intro other call _ hcall
    obtain ⟨hlt, hstage⟩ := hcalls.forall_calls other call hcall
    have hne : call.node ≠ task := by
      rintro rfl
      rw [hwaiting] at hstage
      contradiction
    rw [Function.update_of_ne hne]
    exact ⟨hlt, hstage⟩
  · rintro _ ⟨⟩
    exact ⟨htask, Function.update_self ..⟩
  · simp [hwaiting]
  · intro other
    by_cases hother : other = task
    · subst hother
      simp [htask]
    · rw [Function.update_of_ne hother]
      simp [hother]

/-- A call ends. -/
theorem CallsTrack.retire {calls : CallTable Exec ExecuteCall} {exec : Exec} {call : ExecuteCall}
    (hcalls : CallsTrack count stage calls) (hcall : calls exec = some call) :
    CallsTrack count (Function.update stage call.node .retired)
      (Function.update calls exec none) := by
  have hgiven : (calls exec).bind (fun call ↦ some call.node) = some call.node := by
    rw [hcall]
    rfl
  refine ⟨CallTable.Forall.update ?_ (by simp), hcalls.heldOnce.giveUp hgiven rfl ?_⟩
  · exact hcalls.forall_others hcall
  · intro task
    by_cases htask : task = call.node
    · subst htask
      simp
    · rw [Function.update_of_ne htask]
      simp [htask]

/-- A stage changes without a body starting or returning. -/
theorem LogsTrack.move {started finished : List ℕ} (hlogs : LogsTrack count stage started finished)
    (hstarted : next.hasStarted = (stage task).hasStarted)
    (hfinished : next.hasFinished = (stage task).hasFinished) :
    LogsTrack count (Function.update stage task next) started finished := by
  refine ⟨hlogs.nodup, fun other ↦ ?_, fun other ↦ ?_⟩ <;> by_cases hother : other = task
  · subst hother
    rw [Function.update_self, hstarted]
    exact hlogs.mem_started other
  · rw [Function.update_of_ne hother]
    exact hlogs.mem_started other
  · subst hother
    rw [Function.update_self, hfinished]
    exact hlogs.mem_finished other
  · rw [Function.update_of_ne hother]
    exact hlogs.mem_finished other

/-- A body starts. -/
theorem LogsTrack.start {started finished : List ℕ}
    (hlogs : LogsTrack count stage started finished) (htask : task < count)
    (hstage : stage task = .held .starting) :
    LogsTrack count (Function.update stage task (.held .running)) (started ++ [task]) finished := by
  have hnotMem : task ∉ started := by
    rw [hlogs.mem_started, hstage]
    simp [Stage.hasStarted]
  refine ⟨List.nodup_append'.mpr ⟨hlogs.nodup, List.nodup_singleton task,
    List.disjoint_singleton.mpr hnotMem⟩, fun other ↦ ?_, fun other ↦ ?_⟩ <;>
    by_cases hother : other = task
  · subst hother
    simp [htask, Stage.hasStarted]
  · rw [Function.update_of_ne hother, List.mem_append, hlogs.mem_started]
    simp [hother]
  · subst hother
    rw [Function.update_self, hlogs.mem_finished, hstage]
    simp [Stage.hasFinished]
  · rw [Function.update_of_ne hother]
    exact hlogs.mem_finished other

/-- A body returns. -/
theorem LogsTrack.finish {started finished : List ℕ}
    (hlogs : LogsTrack count stage started finished) (htask : task < count)
    (hstage : stage task = .held .running) :
    LogsTrack count (Function.update stage task (.held (.releasing 0))) started
      (finished ++ [task]) := by
  refine ⟨hlogs.nodup, fun other ↦ ?_, fun other ↦ ?_⟩ <;> by_cases hother : other = task
  · subst hother
    rw [Function.update_self, hlogs.mem_started, hstage]
    simp [Stage.hasStarted]
  · rw [Function.update_of_ne hother]
    exact hlogs.mem_started other
  · subst hother
    simp [htask, Stage.hasFinished]
  · rw [Function.update_of_ne hother, List.mem_append, hlogs.mem_finished]
    simp [hother]

/-- A stage changes and the task's call is still not over. -/
theorem unretired_move (hretired : next.isRetired = (stage task).isRetired) :
    unretired count (Function.update stage task next) = unretired count stage := by
  refine Finset.filter_congr fun other _ ↦ ?_
  by_cases hother : other = task
  · subst hother
    rw [Function.update_self, hretired]
  · rw [Function.update_of_ne hother]

/-- A call that is over leaves one task fewer. -/
theorem card_unretired_retire (htask : task < count) (hstage : (stage task).isRetired = false) :
    (unretired count (Function.update stage task .retired)).card + 1 =
      (unretired count stage).card := by
  have hmem : task ∈ unretired count stage := by simp [unretired, htask, hstage]
  have herase : unretired count (Function.update stage task .retired) =
      (unretired count stage).erase task := by
    ext other
    by_cases hother : other = task
    · subst hother
      rw [unretired, Finset.mem_filter, Function.update_self]
      simp [Stage.isRetired]
    · simp [unretired, hother]
  rw [herase, Finset.card_erase_add_one hmem]

end Parts

namespace Setup

variable {setup : Setup} {stage : ℕ → Stage} {submitAt task : ℕ}

/-- What is due does not change with a stage at which the task has released as many successors. -/
theorem due_move {next : Stage} (hreleased : next.released (setup.successors task).length =
    (stage task).released (setup.successors task).length) :
    setup.due submitAt (Function.update stage task next) = setup.due submitAt stage := by
  have hsame : (fun other ↦ (Function.update stage task next other).released
      (setup.successors other).length) =
      fun other ↦ (stage other).released (setup.successors other).length := by
    funext other
    by_cases hother : other = task
    · subst hother
      rw [Function.update_self, hreleased]
    · rw [Function.update_of_ne hother]
  funext other
  rw [due, due, hsame]

/-- The submit loop takes the sentinel from the task it reaches. -/
theorem due_submit (other : ℕ) :
    setup.due (submitAt + 1) stage other + (if other = submitAt then 1 else 0) =
      setup.due submitAt stage other := by
  unfold due
  split_ifs <;> omega

/-- A task that releases its next successor takes one from what that successor is due. -/
theorem due_release {next successor : ℕ} (htask : task < setup.graph.taskCount)
    (hstage : stage task = .held (.releasing next))
    (hsuccessor : (setup.successors task)[next]? = some successor) (other : ℕ) :
    setup.due submitAt (Function.update stage task (.held (.releasing (next + 1)))) other +
        (if other = successor then 1 else 0) = setup.due submitAt stage other := by
  have hreleased : (fun node ↦ (Function.update stage task (.held (.releasing (next + 1)))
      node).released (setup.successors node).length) =
      Function.update (fun node ↦ (stage node).released (setup.successors node).length) task
        ((stage task).released (setup.successors task).length + 1) := by
    funext node
    by_cases hnode : node = task
    · subst hnode
      rw [Function.update_self, Function.update_self, hstage]
      rfl
    · rw [Function.update_of_ne hnode, Function.update_of_ne hnode]
  have hget : (setup.successors task)[(stage task).released (setup.successors task).length]? =
      some successor := by
    rw [hstage]
    exact hsuccessor
  have hadvance := @owed_advance setup.graph.taskCount setup.successors
    (fun node ↦ (stage node).released (setup.successors node).length) task other successor htask
    hget
  rw [due, due, hreleased]
  omega

/-- Before anything has run, a task is due the sentinel and one count for each dependency. -/
theorem due_start (hcounts : setup.Counts) (task : ℕ) :
    setup.due 0 (fun _ ↦ .waiting) task = 1 + setup.indegree task := by
  have howed := owed_successorsOf (fun edge hedge ↦ (hcounts.edges_lt edge hedge).1) task
  rw [due, if_pos (Nat.zero_le task), indegree, ← howed]
  rfl

/-- A task that has released all of its successors is due to none of them. -/
theorem due_eq_zero_iff {target : ℕ} : setup.due submitAt stage target = 0 ↔
    target < submitAt ∧ ∀ source < setup.graph.taskCount,
      target ∉ (setup.successors source).drop
        ((stage source).released (setup.successors source).length) := by
  rw [due, Nat.add_eq_zero_iff, owed_eq_zero]
  refine and_congr_left fun _ ↦ ?_
  split_ifs with hle
  · simp [hle]
  · simp [not_le.mp hle]

/-! ### One step of the whole -/

variable {Exec : Type} {s : Execution Exec}

/-- The invariant holds right after the flag is set. Assumes: fewer than `2 ^ 32` dependencies of
each task on others. -/
theorem tracks_submitted (hcounts : setup.Counts)
    (hindegree : ∀ task < setup.graph.taskCount, setup.indegree task < word32) :
    setup.Tracks (fun _ ↦ .waiting) (Execution.submitted setup.graph : Execution Exec) where
  taskCount_eq := rfl
  submitAt_le := Nat.zero_le _
  counted := by
    refine ⟨fun task htask ↦ ?_, fun task htask ↦ ?_, fun task htask ↦ ?_, ?_, ?_⟩
    · simp only [Execution.submitted]
      rw [due_start hcounts task, hcounts.node_eq task htask]
    · simp only [Execution.submitted]
      rw [due_start hcounts task]
      have hlt := hindegree task htask
      omega
    · simp only [Execution.submitted]
      rw [due_start hcounts task]
      simp [hcounts.dispatched]
    · simp [Execution.submitted, hcounts.dispatched]
    · simp [Execution.submitted, hcounts.dispatched]
  nodes := by
    refine ⟨fun task htask ↦ ?_, fun task htask _ ↦ ?_, fun task _ ↦ Nat.zero_le _⟩
    · simp only [Execution.submitted]
      rw [hcounts.node_eq task htask]
      rfl
    · simp only [Execution.submitted]
      rw [hcounts.node_eq task htask]
  calls := ⟨CallTable.forall_idle _, (CallTable.heldOnce_idle _).congr (by simp)⟩
  logs := ⟨List.nodup_nil, by simp [Execution.submitted, Stage.hasStarted],
    by simp [Execution.submitted, Stage.hasFinished]⟩
  outstanding_eq := by simp [Execution.submitted, hcounts.outstanding, unretired, Stage.isRetired]

/-- An iteration of the submit loop keeps the invariant. -/
theorem Tracks.submitNext (htracks : setup.Tracks stage s)
    (hlt : s.submitAt < s.graph.taskCount) :
    setup.Tracks stage
      { s with graph := s.graph.countDown s.submitAt, submitAt := s.submitAt + 1 } := by
  rw [htracks.taskCount_eq] at hlt
  have hpos : setup.due s.submitAt stage s.submitAt ≠ 0 := by simp [due]
  exact
    { taskCount_eq := (TaskGraph.countDown_taskCount ..).trans htracks.taskCount_eq
      submitAt_le := hlt
      counted := htracks.counted.countDown hlt hpos due_submit
      nodes := htracks.nodes.countDown s.submitAt
      calls := htracks.calls
      logs := htracks.logs
      outstanding_eq := (TaskGraph.countDown_outstanding ..).trans htracks.outstanding_eq }

variable [DecidableEq Exec]

/-- Taking a dispatched node keeps the invariant. -/
theorem Tracks.take (htracks : setup.Tracks stage s) {exec : Exec} (hfree : s.calls exec = none)
    (hmem : task ∈ s.graph.dispatched) :
    setup.Tracks (Function.update stage task (.held .taken))
      { s with
        graph := { s.graph with dispatched := s.graph.dispatched.erase task }
        calls := Function.update s.calls exec (some ⟨task, .taken⟩) } := by
  obtain ⟨htask, hwaiting⟩ := htracks.counted.dispatched_waiting task hmem
  have hdue : setup.due s.submitAt (Function.update stage task (.held .taken)) =
      setup.due s.submitAt stage := due_move (by rw [hwaiting]; rfl)
  exact
    { taskCount_eq := htracks.taskCount_eq
      submitAt_le := htracks.submitAt_le
      counted := hdue ▸ htracks.counted.take hmem (by simp)
      nodes := by
        refine htracks.nodes.move (fun _ _ ↦ rfl) ?_ (fun _ ↦ ?_) (Nat.zero_le _)
        · rw [htracks.nodes.invoke_eq task htask, hwaiting]
          rfl
        · exact htracks.nodes.successors_eq task htask (by rw [hwaiting]; rfl)
      calls := htracks.calls.take hfree htask hwaiting .taken
      logs := htracks.logs.move (by rw [hwaiting]; rfl) (by rw [hwaiting]; rfl)
      outstanding_eq := by
        rw [unretired_move (by rw [hwaiting]; rfl)]
        exact htracks.outstanding_eq }

/-- A call that moves on to another point without counting down keeps the invariant. The caller
shows what becomes of the node and of the logs. -/
theorem Tracks.move (htracks : setup.Tracks stage s) {exec : Exec} {call : ExecuteCall}
    (hcall : s.calls exec = some call) {phase : Phase} {nodes : ℕ → TaskNode}
    {freeNodes started finished : List ℕ}
    (hreleased : (Stage.held phase).released (setup.successors call.node).length =
      (Stage.held call.phase).released (setup.successors call.node).length)
    (hpending : ∀ other < setup.graph.taskCount,
      (nodes other).pending = (s.graph.nodes other).pending)
    (hnodes : NodesTrack setup.graph.taskCount setup.successors
      (Function.update stage call.node (.held phase)) nodes)
    (hlogs : LogsTrack setup.graph.taskCount (Function.update stage call.node (.held phase))
      started finished) :
    setup.Tracks (Function.update stage call.node (.held phase))
      { s with
        graph := { s.graph with nodes := nodes, freeNodes := freeNodes }
        calls := Function.update s.calls exec (some ⟨call.node, phase⟩)
        started := started
        finished := finished } := by
  obtain ⟨-, hstage⟩ := htracks.calls.forall_calls exec call hcall
  have hdue : setup.due s.submitAt (Function.update stage call.node (.held phase)) =
      setup.due s.submitAt stage := due_move (by rw [hstage, hreleased])
  exact
    { taskCount_eq := htracks.taskCount_eq
      submitAt_le := htracks.submitAt_le
      counted := hdue ▸ htracks.counted.move (by simp [hstage]) (by simp) hpending rfl
      nodes := hnodes
      calls := htracks.calls.advance hcall phase
      logs := hlogs
      outstanding_eq := by
        rw [unretired_move (by rw [hstage]; rfl)]
        exact htracks.outstanding_eq }

/-- Counting down for the next successor keeps the invariant. -/
theorem Tracks.release (hcounts : setup.Counts) (htracks : setup.Tracks stage s) {exec : Exec}
    {node next successor : ℕ} (hcall : s.calls exec = some ⟨node, .releasing next⟩)
    (hsuccessor : (s.graph.nodes node).successors[next]? = some successor) :
    setup.Tracks (Function.update stage node (.held (.releasing (next + 1))))
      { s with
        graph := s.graph.countDown successor
        calls := Function.update s.calls exec (some ⟨node, .releasing (next + 1)⟩) } := by
  obtain ⟨hnode, hstage⟩ := htracks.calls.forall_calls exec _ hcall
  rw [htracks.nodes.successors_eq node hnode (by rw [hstage]; rfl)] at hsuccessor
  have hdue : ∀ other, setup.due s.submitAt
      (Function.update stage node (.held (.releasing (next + 1)))) other +
        (if other = successor then 1 else 0) = setup.due s.submitAt stage other :=
    due_release hnode hstage hsuccessor
  have hlt : successor < setup.graph.taskCount :=
    (hcounts.edges_lt _ (mem_successorsOf.mp (List.mem_of_getElem? hsuccessor))).2
  have hpos : setup.due s.submitAt stage successor ≠ 0 := by
    have h := hdue successor
    rw [if_pos rfl] at h
    omega
  have hmoved : Counted setup.graph.taskCount (setup.due s.submitAt stage)
      (Function.update stage node (.held (.releasing (next + 1)))) s.graph :=
    htracks.counted.move (by simp [hstage]) (by simp) (fun _ _ ↦ rfl) rfl
  have hnodes : NodesTrack setup.graph.taskCount setup.successors
      (Function.update stage node (.held (.releasing (next + 1)))) s.graph.nodes := by
    refine htracks.nodes.move (fun _ _ ↦ rfl) ?_ (fun _ ↦ ?_) ?_
    · rw [htracks.nodes.invoke_eq node hnode, hstage]
      rfl
    · exact htracks.nodes.successors_eq node hnode (by rw [hstage]; rfl)
    · exact (List.getElem?_eq_some_iff.mp hsuccessor).1
  exact
    { taskCount_eq := (TaskGraph.countDown_taskCount ..).trans htracks.taskCount_eq
      submitAt_le := htracks.submitAt_le
      counted := hmoved.countDown hlt hpos hdue
      nodes := hnodes.countDown successor
      calls := htracks.calls.advance hcall _
      logs := htracks.logs.move (by rw [hstage]; rfl) (by rw [hstage]; rfl)
      outstanding_eq := by
        rw [unretired_move (by rw [hstage]; rfl)]
        exact (TaskGraph.countDown_outstanding ..).trans htracks.outstanding_eq }

/-- The end of a call keeps the invariant. -/
theorem Tracks.retire (htracks : setup.Tracks stage s) {exec : Exec} {node : ℕ}
    (hcall : s.calls exec = some ⟨node, .retiring⟩) :
    setup.Tracks (Function.update stage node .retired)
      { s with
        graph := { s.graph with outstanding := subMod word32 s.graph.outstanding 1 }
        calls := Function.update s.calls exec none } := by
  obtain ⟨hnode, hstage⟩ := htracks.calls.forall_calls exec _ hcall
  have hdue : setup.due s.submitAt (Function.update stage node .retired) =
      setup.due s.submitAt stage := due_move (by rw [hstage]; rfl)
  exact
    { taskCount_eq := htracks.taskCount_eq
      submitAt_le := htracks.submitAt_le
      counted := hdue ▸ htracks.counted.move (by simp [hstage]) (by simp) (fun _ _ ↦ rfl) rfl
      nodes := by
        refine htracks.nodes.move (fun _ _ ↦ rfl) ?_ (fun h ↦ by simp [Stage.isRecycled] at h)
          le_rfl
        rw [htracks.nodes.invoke_eq node hnode, hstage]
        rfl
      calls := htracks.calls.retire hcall
      logs := htracks.logs.move (by rw [hstage]; rfl) (by rw [hstage]; rfl)
      outstanding_eq := by
        have hcard := @card_unretired_retire _ stage _ hnode (by rw [hstage]; rfl)
        dsimp only at hcard ⊢
        rw [htracks.outstanding_eq, ← hcard, subMod_mod_left (by omega) (by norm_num [word32]),
          Nat.add_sub_cancel] }

/-- Every step of a call keeps the invariant, one case for each point the call may be at. -/
theorem Tracks.advance (hcounts : setup.Counts) (htracks : setup.Tracks stage s) {exec : Exec}
    {call : ExecuteCall} (hcall : s.calls exec = some call) :
    ∃ stage', setup.Tracks stage' (s.advance exec call) := by
  obtain ⟨node, phase⟩ := call
  obtain ⟨hnode, hstage⟩ := htracks.calls.forall_calls exec _ hcall
  dsimp only at hnode hstage
  have hinvoke := htracks.nodes.invoke_eq node hnode
  have hle := htracks.nodes.released_le node hnode
  have hothers : ∀ value other, other ≠ node →
      Function.update s.graph.nodes node value other = s.graph.nodes other :=
    fun value other hother ↦ Function.update_of_ne hother ..
  rw [hstage] at hinvoke hle
  cases phase with
  | taken =>
    simp only [Execution.advance, hinvoke, Stage.armed, if_true]
    refine ⟨_, htracks.move hcall rfl (fun other _ ↦ ?_)
      (htracks.nodes.move (hothers _) ?_ (fun _ ↦ ?_) (Nat.zero_le _))
      (htracks.logs.move (by rw [hstage]; rfl) (by rw [hstage]; rfl))⟩
    · by_cases hother : other = node
      · subst hother
        rw [Function.update_self]
      · rw [hothers _ other hother]
    · rw [Function.update_self]
      rfl
    · rw [Function.update_self]
      exact htracks.nodes.successors_eq node hnode (by rw [hstage]; rfl)
  | starting =>
    refine ⟨_, htracks.move hcall rfl (fun _ _ ↦ rfl)
      (htracks.nodes.move (fun _ _ ↦ rfl) hinvoke (fun _ ↦ ?_) (Nat.zero_le _))
      (htracks.logs.start hnode hstage)⟩
    exact htracks.nodes.successors_eq node hnode (by rw [hstage]; rfl)
  | running =>
    refine ⟨_, htracks.move hcall rfl (fun _ _ ↦ rfl)
      (htracks.nodes.move (fun _ _ ↦ rfl) hinvoke (fun _ ↦ ?_) (Nat.zero_le _))
      (htracks.logs.finish hnode hstage)⟩
    exact htracks.nodes.successors_eq node hnode (by rw [hstage]; rfl)
  | releasing next =>
    have hsuccessors := htracks.nodes.successors_eq node hnode (by rw [hstage]; rfl)
    cases hnext : (s.graph.nodes node).successors[next]? with
    | some successor =>
      simp only [Execution.advance, hnext]
      exact ⟨_, htracks.release hcounts hcall hnext⟩
    | none =>
      simp only [Execution.advance, hnext, TaskGraph.recycle, TaskGraph.setNode]
      have hall : next = (setup.successors node).length := by
        rw [hsuccessors, List.getElem?_eq_none_iff] at hnext
        exact le_antisymm hle hnext
      -- The counter that `recycle` clears is already zero.
      have hzero : (s.graph.nodes node).pending = 0 := by
        rw [htracks.counted.pending_eq node hnode,
          htracks.counted.due_eq_zero_of_taken hnode (by simp [hstage])]
        rfl
      refine ⟨_, htracks.move hcall hall.symm (fun other _ ↦ ?_)
        (htracks.nodes.move (hothers _) ?_ (fun h ↦ by simp [Stage.isRecycled] at h) le_rfl)
        (htracks.logs.move (by rw [hstage]; rfl) (by rw [hstage]; rfl))⟩
      · by_cases hother : other = node
        · subst hother
          rw [Function.update_self, hzero]
        · rw [hothers _ other hother]
      · rw [Function.update_self]
        rfl
  | retiring => exact ⟨_, htracks.retire hcall⟩

/-- Every step keeps the invariant. -/
theorem Tracks.step (hcounts : setup.Counts) (htracks : setup.Tracks stage s)
    {action : ExecutionAction Exec} {next : Execution Exec} (hstep : s.step action = some next) :
    ∃ stage', setup.Tracks stage' next := by
  cases action with
  | submitNext =>
    simp only [Execution.step, Option.ite_none_right_eq_some, Option.some.injEq] at hstep
    obtain ⟨hlt, rfl⟩ := hstep
    exact ⟨stage, htracks.submitNext hlt⟩
  | take exec node =>
    simp only [Execution.step, Option.ite_none_right_eq_some, Option.some.injEq,
      Option.isNone_iff_eq_none] at hstep
    obtain ⟨⟨hfree, hmem⟩, rfl⟩ := hstep
    exact ⟨_, htracks.take hfree hmem⟩
  | advance exec =>
    simp only [Execution.step, Option.map_eq_some_iff] at hstep
    obtain ⟨call, hcall, rfl⟩ := hstep
    exact htracks.advance hcounts hcall

/-- The invariant holds in every state of every run. Assumes: fewer than `2 ^ 32` dependencies of
each task on others. -/
theorem reachable_tracks (hcounts : setup.Counts)
    (hindegree : ∀ task < setup.graph.taskCount, setup.indegree task < word32)
    (hreach : Execution.system.Reaches TransitionSystem.unguarded
      (Execution.submitted setup.graph) s) : ∃ stage, setup.Tracks stage s :=
  hreach.invariant ⟨_, tracks_submitted hcounts hindegree⟩
    fun _ _ _ htracks _ hstep ↦ htracks.elim fun _ h ↦ h.step hcounts hstep

end Setup

end GameEngine.Core
