import GameEngine.Ai.InferenceExecute
import GameEngine.Core.LiveGraph

/-!
# The inference engine

`InferenceEngine` of `ai/inference_engine` turns every `submit` of its client into a job and a task
of its own `TaskGraph`. A job comes from a pool of 256 or from the heap, its tensor from a pool of
64 blocks or from the heap, and the task from the 1024 nodes of the graph. The body of the task
evaluates the model, calls the callback if there is one, fulfils the promise and frees the job. The
destructor destroys the members in the reverse of the order in which they are declared.

An `Engine` is the state that the client and the executors of the graph share, and
`inferenceEngine` the transition system of their steps. The pools are taken as the atomic lists that
`PoolAllocator` implements, and a body is kept under the number of its task, as no task is executed
twice. `new` is expected to find memory for a job, and the callback to return.

What has become of the requests, which are numbered in the order of the `submit` calls, and the list
`misused` of the members that a body has used after their destruction are bookkeeping that the code
does not have.
-/

set_option autoImplicit false
set_option relaxedAutoImplicit false

namespace GameEngine.Ai

open GameEngine.Library GameEngine.Core
open MachineWord

/-! ### Tensors -/

/-- Where the elements of a tensor are. -/
inductive TensorPlace
  | absent
  | pooled (block : ℕ)
  | heap
deriving DecidableEq

namespace TensorBuffer

/-- A buffer without elements. -/
def null : TensorBuffer := ⟨none, 0, by simp, by simp⟩

/-- A buffer of zeros. -/
def zeros (count : ℕ) (hfits : count * floatBytes < word64) : TensorBuffer :=
  ⟨some (List.replicate count 0), count, by simp, fun _ ↦ hfits⟩

/-- The elements of the source replace those of the buffer, as many as both have. -/
def copyFrom (buffer source : TensorBuffer) : TensorBuffer :=
  match hbuffer : buffer.data, source.data with
  | some cells, some x =>
    { data := some (x.take buffer.size ++ cells.drop x.length)
      size := buffer.size
      length_data := by
        have hlength := buffer.length_data cells hbuffer
        intro copied hcopied
        rw [← Option.some.inj hcopied, List.length_append, List.length_take, List.length_drop]
        omega
      size_fits := fun _ ↦ buffer.size_fits (by rw [hbuffer]; rfl) }
  | _, _ => buffer

/-- A buffer is given by its elements and their number. -/
theorem ext_data {buffer other : TensorBuffer} (hdata : buffer.data = other.data)
    (hsize : buffer.size = other.size) : buffer = other := by
  cases buffer
  cases other
  obtain rfl := hdata
  obtain rfl := hsize
  rfl

/-- Zeros are replaced by as many elements. -/
theorem copyFrom_zeros {source : TensorBuffer} {cells : List FloatBits}
    (hdata : source.data = some cells) (hfits : source.size * floatBytes < word64) :
    (zeros source.size hfits).copyFrom source = source := by
  have hlength : cells.length = source.size := source.length_data cells hdata
  apply ext_data
  · unfold copyFrom
    split
    · rename_i zeros' x hzeros hx
      obtain rfl : cells = x := Option.some.inj (hdata.symm.trans hx)
      obtain rfl : List.replicate source.size 0 = zeros' := Option.some.inj hzeros
      simp [zeros, hdata, hlength]
    · rename_i hnone
      exact absurd hdata (hnone _ cells rfl)
  · unfold copyFrom
    split <;> rfl

end TensorBuffer

/-! ### Requests and jobs -/

/-- A call of `submit`: the tensor, whose elements fit into memory, and whether there is a callback
that can be called. -/
structure InferRequest where
  input : TensorBuffer
  callback : Bool
  fits : input.size * floatBytes < word64

/-- A block of the job pool, or an object on the heap. -/
inductive JobPointer
  | block (index : ℕ)
  | heap (number : ℕ)
deriving DecidableEq

/-- `InferJob`. Its promise is that of a request. -/
structure InferJob where
  request : ℕ
  input : TensorBuffer
  place : TensorPlace
  useCallback : Bool
  callback : Bool

/-- A new job. -/
def InferJob.new (request : ℕ) : InferJob := ⟨request, .null, .absent, false, false⟩

/-- The members of the engine that the body of a task uses and that are destroyed before the graph,
in that order. -/
inductive Member
  | npu
  | session
  | jobPool
  | tensorPool
deriving DecidableEq

/-! ### The shared state -/

/-- How far the call of the client has come. `allocated` is an `enqueue` that has its job, `filled`
one whose job is filled in, `creating` and `submitting` one in the calls of the graph; `tearing` and
`closing` are the destructor. -/
inductive EngineCall
  | allocated (job : JobPointer)
  | filled (job : JobPointer)
  | creating
  | submitting
  | tearing (remaining : List Member)
  | closing
deriving DecidableEq

/-- How far the body of a task has come: it has the result, it is about to fulfil the promise, to
destroy the job, to give its memory back, or it is done. -/
inductive BodyCall
  | delivering (result : List FloatBits)
  | fulfilling (value : List FloatBits)
  | destroying
  | deallocating
  | returned
deriving DecidableEq

/-- What happens to a request. -/
inductive InferEvent
  | called (request : ℕ) (result : List FloatBits)
  | fulfilled (request : ℕ) (value : List FloatBits)
  | freed (request : ℕ)
deriving DecidableEq

/-- The request an event is about. -/
def InferEvent.request : InferEvent → ℕ
  | .called request _ | .fulfilled request _ | .freed request => request

/-- The engine in use. `jobs` are the jobs that are alive, and `closures` the pointers that the
callables of the tasks hold. -/
structure Engine (Exec : Type) where
  graph : LiveGraph Unit Exec
  jobs : JobPointer → Option InferJob
  freeJobs : List ℕ
  heapJobs : ℕ
  freeTensors : List ℕ
  closures : ℕ → Option JobPointer
  bodies : ℕ → Option BodyCall
  call : Option EngineCall
  destroyed : List Member
  requests : List InferRequest
  events : List InferEvent
  misused : List Member

/-- What does not change while requests are served: the backend, the session with its model, and the
kernels. -/
structure Setup where
  kernels : Kernels
  backend : InferenceBackend
  session : OnnxSession

/-- What an execution finds besides the session and the tensor. -/
structure Devices where
  memory : DeviceMemory
  npu : SimulatedNpu
  accelerator : Bool

namespace Engine

variable {Exec : Type}

/-- `max_tasks` of the engine's graph. -/
def maxTasks : ℕ := 1024

/-- The blocks of the job pool. -/
def jobBlocks : ℕ := 256

/-- The blocks of the tensor pool. -/
def tensorBlocks : ℕ := 64

/-- The bytes of a block of the tensor pool, `kMaxTensorFloats` elements. -/
def tensorBlockBytes : ℕ := 4096 * floatBytes

/-- The size and the alignment of the callable, which holds two pointers. -/
def closureBytes : ℕ := 16
def closureAlign : ℕ := 8

/-- A new engine. -/
def new : Engine Exec where
  graph := .new maxTasks
  jobs := fun _ ↦ none
  freeJobs := List.range jobBlocks
  heapJobs := 0
  freeTensors := List.range tensorBlocks
  closures := fun _ ↦ none
  bodies := fun _ ↦ none
  call := none
  destroyed := []
  requests := []
  events := []
  misused := []

/-- Records an event. -/
def emit (s : Engine Exec) (event : InferEvent) : Engine Exec :=
  { s with events := s.events ++ [event] }

/-- Replaces a job. -/
def setJob (s : Engine Exec) (pointer : JobPointer) (job : Option InferJob) : Engine Exec :=
  { s with jobs := Function.update s.jobs pointer job }

/-- The body of a task goes on. -/
def setBody (s : Engine Exec) (task : ℕ) (body : BodyCall) : Engine Exec :=
  { s with bodies := Function.update s.bodies task (some body) }

/-- Records the use of members. -/
def use (s : Engine Exec) (members : List Member) : Engine Exec :=
  { s with misused := s.misused ++ members.filter (· ∈ s.destroyed) }

/-! ### The client -/

/-- `alloc_job` for a request. -/
def allocJob (s : Engine Exec) (request : ℕ) : Engine Exec × JobPointer :=
  match s.freeJobs with
  | block :: rest =>
    ({ s with freeJobs := rest }.setJob (.block block) (some (.new request)), .block block)
  | [] =>
    ({ s with heapJobs := s.heapJobs + 1 }.setJob (.heap s.heapJobs) (some (.new request)),
      .heap s.heapJobs)

/-- A job is allocated somewhere. -/
theorem allocJob_eq (s : Engine Exec) (request : ℕ) : ∃ pointer freeJobs heapJobs,
    s.allocJob request = ({ s with
      freeJobs := freeJobs
      heapJobs := heapJobs
      jobs := Function.update s.jobs pointer (some (.new request)) }, pointer) := by
  unfold allocJob
  cases s.freeJobs with
  | cons block rest => exact ⟨.block block, rest, s.heapJobs, rfl⟩
  | nil => exact ⟨.heap s.heapJobs, _, s.heapJobs + 1, rfl⟩

/-- A tensor on the heap. `granted` is the answer of the system. -/
def heapTensor (freeTensors : List ℕ) (count : ℕ) (hfits : count * floatBytes < word64)
    (granted : Bool) : TensorBuffer × TensorPlace × List ℕ :=
  if granted then (.zeros count hfits, .heap, freeTensors) else (.null, .absent, freeTensors)

/-- `make_tensor`: the tensor, where it is, and what is left of the pool. -/
def makeTensor (freeTensors : List ℕ) (count : ℕ) (hfits : count * floatBytes < word64)
    (granted : Bool) : TensorBuffer × TensorPlace × List ℕ :=
  if count = 0 then (.null, .absent, freeTensors)
  else if tensorBlockBytes < count * floatBytes then heapTensor freeTensors count hfits granted
  else
    match freeTensors with
    | block :: rest => (.zeros count hfits, .pooled block, rest)
    | [] => heapTensor freeTensors count hfits granted

/-- `enqueue` fills its job in. -/
def fillJob (s : Engine Exec) (pointer : JobPointer) (job : InferJob) (request : InferRequest)
    (granted : Bool) : Engine Exec :=
  let made := makeTensor s.freeTensors request.input.size request.fits granted
  { s with freeTensors := made.2.2 }.setJob pointer (some
    { job with
      input := made.1.copyFrom request.input
      place := made.2.1
      useCallback := request.callback
      callback := request.callback })

variable [DecidableEq Exec] [Fintype Exec]

/-- The next step of the client's call. -/
def advance (s : Engine Exec) (granted : Bool) : EngineCall → Option (Engine Exec)
  | .allocated pointer =>
    (s.jobs pointer).bind fun job ↦ (s.requests[job.request]?).map fun request ↦
      { s.fillJob pointer job request granted with call := some (.filled pointer) }
  | .filled pointer =>
    (LiveGraph.step s.graph (.create () closureBytes closureAlign)).map fun graph ↦
      { s with
        graph := graph
        closures := Function.update s.closures s.graph.nextTask (some pointer)
        call := some .creating }
  | .creating =>
    if s.graph.clients () = none then
      (LiveGraph.step s.graph (.submit ())).map fun graph ↦
        { s with graph := graph, call := some .submitting }
    else (LiveGraph.step s.graph (.advance ())).map fun graph ↦ { s with graph := graph }
  | .submitting =>
    if s.graph.clients () = none then some { s with call := none }
    else (LiveGraph.step s.graph (.advance ())).map fun graph ↦ { s with graph := graph }
  | .tearing (member :: rest) =>
    some { s with destroyed := s.destroyed ++ [member], call := some (.tearing rest) }
  | .tearing [] =>
    (LiveGraph.step s.graph (.destroy ())).map fun graph ↦
      { s with graph := graph, call := some .closing }
  | .closing => (LiveGraph.step s.graph (.advance ())).map fun graph ↦ { s with graph := graph }

/-! ### The body of a task -/

/-- The members that the body uses in its next step. The job and its tensor may be in the memory of
the pools. -/
def uses (setup : Setup) (pointer : JobPointer) (job : InferJob) : Option BodyCall → List Member
  | none =>
    let jobPool := match pointer with | .block _ => [.jobPool] | .heap _ => []
    let tensorPool := match job.place with | .pooled _ => [.tensorPool] | _ => []
    let npu := if setup.backend = .simulatedNpu ∧ job.input.size ≠ 0 ∧ job.input.data.isSome then
      [.npu] else []
    .session :: jobPool ++ tensorPool ++ npu
  | some (.delivering _) | some (.fulfilling _) | some .deallocating =>
    match pointer with | .block _ => [.jobPool] | .heap _ => []
  | some .destroying =>
    .jobPool :: match job.place with | .pooled _ => [.tensorPool] | _ => []
  | some .returned => []

/-- The destructor of a job releases its tensor. -/
def destroyJob (s : Engine Exec) (pointer : JobPointer) (job : InferJob) : Engine Exec :=
  { s with
    freeTensors := match job.place with
      | .pooled block => block :: s.freeTensors
      | _ => s.freeTensors }.setJob pointer (some { job with input := .null, place := .absent })

/-- The memory of a job is given back. -/
def deallocateJob (s : Engine Exec) (pointer : JobPointer) : Engine Exec :=
  { s with
    freeJobs := match pointer with
      | .block block => block :: s.freeJobs
      | .heap _ => s.freeJobs }.setJob pointer none

/-- The next step of the body of a task. -/
def runBody (setup : Setup) (s : Engine Exec) (task : ℕ) (devices : Devices) (pointer : JobPointer)
    (job : InferJob) : Engine Exec :=
  let s' := s.use (uses setup pointer job (s.bodies task))
  match s.bodies task with
  | none => s'.setBody task (.delivering (execute setup.kernels setup.backend setup.session
      devices.memory devices.npu devices.accelerator job.input).1)
  | some (.delivering result) =>
    if job.useCallback && job.callback then
      (s'.emit (.called job.request result)).setBody task (.fulfilling [])
    else s'.setBody task (.fulfilling result)
  | some (.fulfilling value) =>
    (s'.emit (.fulfilled job.request value)).setBody task .destroying
  | some .destroying => (s'.destroyJob pointer job).setBody task .deallocating
  | some .deallocating =>
    ((s'.deallocateJob pointer).emit (.freed job.request)).setBody task .returned
  | some .returned => s'

omit [DecidableEq Exec] [Fintype Exec] in
/-- What a body leaves alone. -/
theorem runBody_frame (setup : Setup) (s : Engine Exec) (task : ℕ) (devices : Devices)
    (pointer : JobPointer) (job : InferJob) :
    (runBody setup s task devices pointer job).graph = s.graph ∧
      (runBody setup s task devices pointer job).call = s.call ∧
      (runBody setup s task devices pointer job).destroyed = s.destroyed ∧
      (runBody setup s task devices pointer job).misused = s.misused ++
        (uses setup pointer job (s.bodies task)).filter (· ∈ s.destroyed) := by
  unfold runBody
  cases s.bodies task with
  | none => exact ⟨rfl, rfl, rfl, rfl⟩
  | some call =>
    cases call with
    | delivering result =>
      dsimp only
      split_ifs <;> exact ⟨rfl, rfl, rfl, rfl⟩
    | _ => exact ⟨rfl, rfl, rfl, rfl⟩

/-- The task whose body an executor is in. -/
def inBody (s : Engine Exec) (exec : Exec) : Option ℕ :=
  match s.graph.execs exec with
  | some (.executing _ task .running) => if s.bodies task = some .returned then none else some task
  | _ => none

omit [DecidableEq Exec] [Fintype Exec] in
/-- An executor is in a body that has not returned, or the body of its task has. -/
theorem inBody_cases (s : Engine Exec) (exec : Exec) :
    (∃ node task, s.inBody exec = some task ∧
      s.graph.execs exec = some (.executing node task .running) ∧
      s.bodies task ≠ some .returned) ∨
    (s.inBody exec = none ∧ ∀ node task, s.graph.execs exec = some (.executing node task .running) →
      s.bodies task = some .returned) := by
  unfold inBody
  split
  · rename_i node task hexec
    by_cases hreturned : s.bodies task = some .returned
    · rw [if_pos hreturned, hexec]
      refine .inr ⟨rfl, fun other task' h ↦ ?_⟩
      obtain ⟨-, rfl, -⟩ := ExecutorCall.executing.inj (Option.some.inj h)
      exact hreturned
    · rw [if_neg hreturned]
      exact .inl ⟨node, task, rfl, hexec, hreturned⟩
  · rename_i hother
    exact .inr ⟨rfl, fun node task h ↦ absurd h (hother node task)⟩

/-- The next step of an `execute` call: of the body while it runs, else of the graph. -/
def run (setup : Setup) (s : Engine Exec) (exec : Exec) (devices : Devices) :
    Option (Engine Exec) :=
  match s.inBody exec with
  | some task => (s.closures task).bind fun pointer ↦ (s.jobs pointer).map fun job ↦
      runBody setup s task devices pointer job
  | none => (LiveGraph.step s.graph (.run exec)).map fun graph ↦ { s with graph := graph }

/-- A step of an `execute` call is one of the body that it is in, which has not returned, or one in
the graph. -/
theorem run_cases {setup : Setup} {s next : Engine Exec} {exec : Exec} {devices : Devices}
    (hnext : s.run setup exec devices = some next) :
    (∃ node task pointer job, s.graph.execs exec = some (.executing node task .running) ∧
      s.bodies task ≠ some .returned ∧ s.closures task = some pointer ∧
      s.jobs pointer = some job ∧ next = s.runBody setup task devices pointer job) ∨
    ∃ call, s.graph.execs exec = some call ∧
      (∀ node task, call = .executing node task .running → s.bodies task = some .returned) ∧
      next = { s with graph := s.graph.run exec call } := by
  rw [run] at hnext
  rcases s.inBody_cases exec with ⟨node, task, hinBody, hexec, hbody⟩ | ⟨hinBody, hreturned⟩
  · rw [hinBody] at hnext
    obtain ⟨pointer, hclosure, hjobs⟩ := Option.bind_eq_some_iff.mp hnext
    obtain ⟨job, hjob, rfl⟩ := Option.map_eq_some_iff.mp hjobs
    exact .inl ⟨node, task, pointer, job, hexec, hbody, hclosure, hjob, rfl⟩
  · rw [hinBody] at hnext
    obtain ⟨graph, hstep, rfl⟩ := Option.map_eq_some_iff.mp hnext
    obtain ⟨call, hexec, rfl⟩ := Option.map_eq_some_iff.mp hstep
    exact .inr ⟨call, hexec, fun node task h ↦ hreturned node task (h ▸ hexec), rfl⟩

end Engine

/-! ### The transition system -/

/-- A step: the client calls `submit` or the destructor or continues its call, or an executor of the
graph takes a node or continues its `execute` call. -/
inductive EngineAction (Exec : Type)
  | submit (request : InferRequest)
  | destroy
  | advance (granted : Bool)
  | take (exec : Exec) (node : ℕ)
  | run (exec : Exec) (devices : Devices)

namespace Engine

variable {Exec : Type} [DecidableEq Exec] [Fintype Exec]

/-- One step. -/
def step (setup : Setup) (s : Engine Exec) : EngineAction Exec → Option (Engine Exec)
  | .submit request =>
    if s.call = none then
      let allocated := allocJob { s with requests := s.requests ++ [request] } s.requests.length
      some { allocated.1 with call := some (.allocated allocated.2) }
    else none
  | .destroy =>
    if s.call = none then
      some { s with call := some (.tearing [.npu, .session, .jobPool, .tensorPool]) }
    else none
  | .advance granted => s.call.bind (s.advance granted)
  | .take exec node =>
    (LiveGraph.step s.graph (.take exec node)).map fun graph ↦ { s with graph := graph }
  | .run exec devices => s.run setup exec devices

end Engine

/-- The inference engine, as a transition system. -/
def inferenceEngine (setup : Setup) (Exec : Type) [DecidableEq Exec] [Fintype Exec] :
    TransitionSystem (Engine Exec) (EngineAction Exec) where
  step := Engine.step setup

/-! ### A small engine -/

/-- The setup of an engine with the fallback. -/
def fallbackSetup : Setup := ⟨biasOnly, .simdFallback, OnnxSession.loadAll [twoInputs]⟩

/-- A request for an empty tensor, answered through the promise. -/
def emptyRequest : InferRequest := ⟨.null, false, by decide⟩

/-- A device that has no memory. -/
def noDevices : Devices := ⟨⟨fun _ ↦ none, fun _ ↦ none, fun _ _ ↦ 0⟩, .new, false⟩

end GameEngine.Ai
