import GameEngine.Ai.InferenceEngine
import GameEngine.Core.TaskPresence

/-!
# How requests are served

`Serving` is the invariant of an engine whose client submits requests: the job pool and the tensor
pool do not hand out what is in use, every task whose body is not done has a job of its own that is
filled in for its request, and what has happened to a request is what the body of its task has done
so far (`Progress`).
-/

set_option autoImplicit false
set_option relaxedAutoImplicit false

namespace GameEngine.Ai

open GameEngine.Library GameEngine.Core
open MachineWord

variable {Exec : Type} {setup : Setup} {s next : Engine Exec}

/-! ### Tensors of the requests -/

/-- The tensor that `enqueue` makes of a request when there is memory for it. -/
def InferRequest.copy (request : InferRequest) : TensorBuffer :=
  (if request.input.size = 0 then TensorBuffer.null
    else .zeros request.input.size request.fits).copyFrom request.input

/-- The tensor is the one that was submitted, if that has elements. -/
theorem InferRequest.copy_eq (request : InferRequest) {cells : List FloatBits}
    (hdata : request.input.data = some cells) (hsize : request.input.size ≠ 0) :
    request.copy = request.input := by
  rw [InferRequest.copy, if_neg hsize, TensorBuffer.copyFrom_zeros hdata]

/-- `make_tensor` takes the first block of the pool, or none. -/
theorem makeTensor_spec (freeTensors : List ℕ) (count : ℕ) (hfits : count * floatBytes < word64) :
    ∃ place rest, Engine.makeTensor freeTensors count hfits true =
        (if count = 0 then TensorBuffer.null else .zeros count hfits, place, rest) ∧
      ((∃ block, place = .pooled block ∧ freeTensors = block :: rest) ∨
        (∀ block, place ≠ .pooled block) ∧ rest = freeTensors) := by
  unfold Engine.makeTensor
  by_cases hcount : count = 0
  · rw [if_pos hcount, if_pos hcount]
    exact ⟨_, _, rfl, .inr ⟨nofun, rfl⟩⟩
  rw [if_neg hcount, if_neg hcount]
  split_ifs with hlarge
  · exact ⟨_, _, rfl, .inr ⟨nofun, rfl⟩⟩
  · cases freeTensors with
    | nil => exact ⟨_, _, rfl, .inr ⟨nofun, rfl⟩⟩
    | cons block rest => exact ⟨_, _, rfl, .inl ⟨block, rfl, rfl⟩⟩

/-! ### What happens to a request -/

/-- The events of a request. -/
def Engine.eventsOf (s : Engine Exec) (number : ℕ) : List InferEvent :=
  s.events.filter (·.request = number)

/-- What an execution may return for the tensor of a request. -/
def IsResult (setup : Setup) (request : InferRequest) (result : List FloatBits) : Prop :=
  ∃ devices : Devices, result = (execute setup.kernels setup.backend setup.session devices.memory
    devices.npu devices.accelerator request.copy).1

/-- The result reaches the client: through the callback, after which the promise is fulfilled with
an empty vector, or through the promise. -/
def delivery (number : ℕ) (callback : Bool) (result : List FloatBits) : List InferEvent :=
  if callback then [.called number result, .fulfilled number []] else [.fulfilled number result]

/-- The events of a request are what the body of its task has done so far. -/
def Progress (setup : Setup) (number : ℕ) (request : InferRequest) (own : List InferEvent) :
    Option BodyCall → Prop
  | none => own = []
  | some (.delivering result) => own = [] ∧ IsResult setup request result
  | some (.fulfilling value) => ∃ result, IsResult setup request result ∧
      delivery number request.callback result = own ++ [.fulfilled number value]
  | some .destroying | some .deallocating => ∃ result, IsResult setup request result ∧
      own = delivery number request.callback result
  | some .returned => ∃ result, IsResult setup request result ∧
      own = delivery number request.callback result ++ [.freed number]

/-- The body has fulfilled the promise. -/
def BodyCall.delivered : BodyCall → Bool
  | .delivering _ | .fulfilling _ => false
  | .destroying | .deallocating | .returned => true

theorem Progress.fulfilled_iff {number : ℕ} {request : InferRequest} {own : List InferEvent}
    {body : Option BodyCall} (hprogress : Progress setup number request own body) :
    (∃ value, .fulfilled number value ∈ own) ↔ body.any BodyCall.delivered = true := by
  have hdelivery : ∀ result, ∃ value, .fulfilled number value ∈
      delivery number request.callback result := by
    intro result
    unfold delivery
    split_ifs
    · exact ⟨[], by simp⟩
    · exact ⟨result, by simp⟩
  cases body with
  | none =>
    obtain rfl : own = [] := hprogress
    simp
  | some call =>
    cases call with
    | delivering result =>
      obtain rfl : own = [] := hprogress.1
      simp [BodyCall.delivered]
    | fulfilling value =>
      obtain ⟨result, -, hown⟩ := hprogress
      have hnot : ∀ value', .fulfilled number value' ∉ own := by
        intro value' hmem
        unfold delivery at hown
        split_ifs at hown
        · have hcalled : [.called number result] = own := by simpa using congrArg List.dropLast hown
          rw [← hcalled] at hmem
          simp at hmem
        · have hnil : [] = own := by simpa using congrArg List.dropLast hown
          rw [← hnil] at hmem
          simp at hmem
      simp [BodyCall.delivered, hnot]
    | returned =>
      obtain ⟨result, -, rfl⟩ := hprogress
      obtain ⟨value, hvalue⟩ := hdelivery result
      simp only [BodyCall.delivered, Option.any_some, iff_true]
      exact ⟨value, List.mem_append_left _ hvalue⟩
    | _ =>
      obtain ⟨result, -, rfl⟩ := hprogress
      simp only [BodyCall.delivered, Option.any_some, iff_true]
      exact hdelivery result

/-- The events of a request begin its delivery, which ends with the job being freed. -/
theorem Progress.begins {number : ℕ} {request : InferRequest} {own : List InferEvent}
    {body : Option BodyCall} (hprogress : Progress setup number request own body) :
    ∃ result, IsResult setup request result ∧
      own <+: delivery number request.callback result ++ [.freed number] := by
  cases body with
  | none =>
    obtain rfl : own = [] := hprogress
    exact ⟨_, ⟨⟨⟨fun _ ↦ none, fun _ ↦ none, fun _ _ ↦ 0⟩, .new, false⟩, rfl⟩, List.nil_prefix⟩
  | some call =>
    cases call with
    | delivering result =>
      obtain ⟨rfl, hresult⟩ := hprogress
      exact ⟨result, hresult, List.nil_prefix⟩
    | fulfilling value =>
      obtain ⟨result, hresult, hown⟩ := hprogress
      refine ⟨result, hresult, ?_⟩
      rw [hown, List.append_assoc]
      exact List.prefix_append ..
    | returned =>
      obtain ⟨result, hresult, rfl⟩ := hprogress
      exact ⟨result, hresult, List.prefix_refl _⟩
    | _ =>
      obtain ⟨result, hresult, rfl⟩ := hprogress
      exact ⟨result, hresult, List.prefix_append ..⟩

/-! ### The invariant -/

/-- A job is filled in for a request, as far as the body has not used it up. -/
structure InferJob.Serves (job : InferJob) (number : ℕ) (request : InferRequest)
    (body : Option BodyCall) : Prop where
  number : job.request = number
  useCallback : job.useCallback = request.callback
  callback : job.callback = request.callback
  input : body = none → job.input = request.copy

/-- The pools have what is not in use, and no two jobs share a tensor block. -/
structure JobStore (jobs : JobPointer → Option InferJob) (freeJobs : List ℕ) (heapJobs : ℕ)
    (freeTensors : List ℕ) : Prop where
  nodup : freeJobs.Nodup
  free : ∀ block ∈ freeJobs, jobs (.block block) = none
  heap : ∀ number, heapJobs ≤ number → jobs (.heap number) = none
  tensors_nodup : freeTensors.Nodup
  tensors_free : ∀ pointer job block, jobs pointer = some job → job.place = .pooled block →
    block ∉ freeTensors
  tensors_apart : ∀ first second job job' block, jobs first = some job → jobs second = some job' →
    job.place = .pooled block → job'.place = .pooled block → first = second

/-- The call has a job and no task yet. -/
def EngineCall.preparing : EngineCall → Bool
  | .allocated _ | .filled _ => true
  | _ => false

/-- The invariant of an engine that serves requests. -/
structure Serving (setup : Setup) (s : Engine Exec) : Prop where
  store : JobStore s.jobs s.freeJobs s.heapJobs s.freeTensors
  length : s.requests.length = s.graph.nextTask + if s.call.any EngineCall.preparing then 1 else 0
  progress : ∀ number request, s.requests[number]? = some request →
    Progress setup number request (s.eventsOf number) (s.bodies number)
  allocated : ∀ pointer, s.call = some (.allocated pointer) →
    s.jobs pointer = some (.new s.graph.nextTask)
  filled : ∀ pointer, s.call = some (.filled pointer) → ∃ job request,
    s.jobs pointer = some job ∧ s.requests[s.graph.nextTask]? = some request ∧
      job.Serves s.graph.nextTask request none
  serves : ∀ number < s.graph.nextTask, s.bodies number ≠ some .returned →
    ∃ pointer job request, s.closures number = some pointer ∧ s.jobs pointer = some job ∧
      s.requests[number]? = some request ∧ job.Serves number request (s.bodies number)
  fresh : ∀ number, s.graph.nextTask ≤ number → s.bodies number = none
  begun : ∀ number, s.bodies number ≠ none → .started number ∈ s.graph.events
  events_lt : ∀ event ∈ s.events, event.request < s.graph.nextTask
  finished : ∀ number, .finished number ∈ s.graph.events → s.bodies number = some .returned

/-- A new engine. -/
theorem serving_new : Serving setup (.new : Engine Exec) where
  store :=
    { nodup := by simp only [Engine.new, List.nodup_range]
      free := fun _ _ ↦ rfl
      heap := fun _ _ ↦ rfl
      tensors_nodup := by simp only [Engine.new, List.nodup_range]
      tensors_free := fun _ _ _ h ↦ absurd h (by simp [Engine.new])
      tensors_apart := fun _ _ _ _ _ h ↦ absurd h (by simp [Engine.new]) }
  length := rfl
  progress := nofun
  allocated := nofun
  filled := nofun
  serves := nofun
  fresh := fun _ _ ↦ rfl
  begun := fun _ h ↦ absurd rfl h
  events_lt := nofun
  finished := nofun

/-! ### The pools -/

section JobStore

variable {jobs : JobPointer → Option InferJob} {freeJobs freeTensors : List ℕ} {heapJobs : ℕ}
  {pointer : JobPointer}

/-- A job is put somewhere or removed. Its tensor block comes from the pool, and one that is given
back is that of the job that was there. -/
theorem JobStore.put (hstore : JobStore jobs freeJobs heapJobs freeTensors) (job : Option InferJob)
    {freeJobs' freeTensors' : List ℕ} {heapJobs' : ℕ} (hnodup : freeJobs'.Nodup)
    (hfree : ∀ block ∈ freeJobs', JobPointer.block block = pointer ∧ job = none ∨
      JobPointer.block block ≠ pointer ∧ block ∈ freeJobs)
    (hheap : ∀ number, heapJobs' ≤ number → JobPointer.heap number ≠ pointer ∧ heapJobs ≤ number)
    (htensors : freeTensors'.Nodup)
    (hplace : ∀ own ∈ job, ∀ block, own.place = .pooled block →
      block ∈ freeTensors ∧ block ∉ freeTensors')
    (hreleased : ∀ block ∈ freeTensors', block ∈ freeTensors ∨
      ∃ own, jobs pointer = some own ∧ own.place = .pooled block) :
    JobStore (Function.update jobs pointer job) freeJobs' heapJobs' freeTensors' where
  nodup := hnodup
  free := by
    intro block hblock
    rcases hfree block hblock with ⟨rfl, rfl⟩ | ⟨hne, hmem⟩
    · exact Function.update_self ..
    · rw [Function.update_of_ne hne]
      exact hstore.free block hmem
  heap := by
    intro number hle
    obtain ⟨hne, hle'⟩ := hheap number hle
    rw [Function.update_of_ne hne]
    exact hstore.heap number hle'
  tensors_nodup := htensors
  tensors_free := by
    intro other own block hown hblock hmem
    by_cases heq : other = pointer
    · subst heq
      rw [Function.update_self] at hown
      exact (hplace own hown block hblock).2 hmem
    · rw [Function.update_of_ne heq] at hown
      rcases hreleased block hmem with hbefore | ⟨before, hjob, hpooled⟩
      · exact hstore.tensors_free other own block hown hblock hbefore
      · exact heq (hstore.tensors_apart other pointer own before block hown hjob hblock hpooled)
  tensors_apart := by
    intro first second own own' block hfirst hsecond hblock hblock'
    by_cases heq : first = pointer <;> by_cases heq' : second = pointer
    · rw [heq, heq']
    · subst heq
      rw [Function.update_self] at hfirst
      rw [Function.update_of_ne heq'] at hsecond
      exact absurd (hplace own hfirst block hblock).1
        (hstore.tensors_free second own' block hsecond hblock')
    · subst heq'
      rw [Function.update_self] at hsecond
      rw [Function.update_of_ne heq] at hfirst
      exact absurd (hplace own' hsecond block hblock').1
        (hstore.tensors_free first own block hfirst hblock)
    · rw [Function.update_of_ne heq] at hfirst
      rw [Function.update_of_ne heq'] at hsecond
      exact hstore.tensors_apart first second own own' block hfirst hsecond hblock hblock'

/-- `alloc_job` puts a new job where none is. -/
theorem allocJob_spec (hstore : JobStore s.jobs s.freeJobs s.heapJobs s.freeTensors)
    (request : ℕ) : ∃ pointer freeJobs heapJobs,
      s.allocJob request = ({ s with
        freeJobs := freeJobs
        heapJobs := heapJobs
        jobs := Function.update s.jobs pointer (some (.new request)) }, pointer) ∧
      s.jobs pointer = none ∧
      JobStore (Function.update s.jobs pointer (some (.new request))) freeJobs heapJobs
        s.freeTensors := by
  have hplace : ∀ own ∈ some (InferJob.new request), ∀ block, own.place = .pooled block →
      block ∈ s.freeTensors ∧ block ∉ s.freeTensors := by
    intro own hown block hblock
    obtain rfl := Option.some.inj hown
    contradiction
  cases hjobs : s.freeJobs with
  | cons block rest =>
    have hnodup := hstore.nodup
    rw [hjobs, List.nodup_cons] at hnodup
    refine ⟨.block block, rest, s.heapJobs, ?_, hstore.free block (by simp [hjobs]), ?_⟩
    · rw [Engine.allocJob, hjobs]
      rfl
    · refine hstore.put _ hnodup.2 (fun other hother ↦ .inr ⟨?_, by simp [hjobs, hother]⟩)
        (fun number hle ↦ ⟨nofun, hle⟩) hstore.tensors_nodup hplace (fun _ h ↦ .inl h)
      rintro ⟨rfl⟩
      exact hnodup.1 hother
  | nil =>
    refine ⟨.heap s.heapJobs, [], s.heapJobs + 1, ?_, hstore.heap _ (Nat.le_refl _), ?_⟩
    · rw [Engine.allocJob, hjobs]
      rw [Engine.setJob]
    · refine hstore.put _ List.nodup_nil nofun (fun number hle ↦ ⟨?_, by omega⟩)
        hstore.tensors_nodup hplace (fun _ h ↦ .inl h)
      rintro ⟨rfl⟩
      omega

end JobStore

/-! ### The client -/

theorem Engine.eventsOf_append (s : Engine Exec) (new : List InferEvent) (number : ℕ) :
    (s.events ++ new).filter (·.request = number) =
      s.eventsOf number ++ new.filter (·.request = number) := List.filter_append ..

/-- There are no events of a request that has no task. -/
theorem Serving.eventsOf_eq_nil (hserving : Serving setup s) {number : ℕ}
    (hle : s.graph.nextTask ≤ number) : s.eventsOf number = [] := by
  rw [Engine.eventsOf, List.filter_eq_nil_iff]
  intro event hevent
  have hlt := hserving.events_lt event hevent
  simp only [decide_eq_true_eq]
  omega

/-- Two tasks have different jobs. -/
theorem Serving.job_ne (hserving : Serving setup s) {number : ℕ} {pointer : JobPointer}
    {job : InferJob} (hjob : s.jobs pointer = some job) (hother : job.request ≠ number)
    (hlt : number < s.graph.nextTask) (hbody : s.bodies number ≠ some .returned)
    (after : Option InferJob) : ∃ pointer' job' request, s.closures number = some pointer' ∧
      Function.update s.jobs pointer after pointer' = some job' ∧
      s.requests[number]? = some request ∧ job'.Serves number request (s.bodies number) := by
  obtain ⟨pointer', job', request, hclosure, hjob', hrequest, hserves⟩ :=
    hserving.serves number hlt hbody
  refine ⟨pointer', job', request, hclosure, ?_, hrequest, hserves⟩
  rw [Function.update_of_ne, hjob']
  rintro rfl
  obtain rfl := Option.some.inj (hjob.symm.trans hjob')
  exact hother hserves.number

/-- The client calls `submit`, which allocates a job. -/
theorem Serving.submit (hserving : Serving setup s) (hcall : s.call = none)
    (request : InferRequest) :
    let allocated := Engine.allocJob { s with requests := s.requests ++ [request] }
      s.requests.length
    Serving setup { allocated.1 with call := some (.allocated allocated.2) } := by
  have hlength : s.requests.length = s.graph.nextTask := by
    rw [hserving.length, hcall]
    rfl
  obtain ⟨pointer, freeJobs, heapJobs, halloc, hfresh, hstore⟩ :=
    allocJob_spec (s := { s with requests := s.requests ++ [request] }) hserving.store
      s.requests.length
  rw [halloc]
  have hkept : ∀ number < s.graph.nextTask,
      (s.requests ++ [request])[number]? = s.requests[number]? := fun number hlt ↦
    List.getElem?_append_left (hlength ▸ hlt)
  refine ⟨hstore, ?_, fun number own hown ↦ ?_, ?_, nofun, fun number hlt hbody ↦ ?_,
    hserving.fresh, hserving.begun, hserving.events_lt, hserving.finished⟩
  · rw [List.length_append, hlength]
    rfl
  · by_cases hlt : number < s.graph.nextTask
    · rw [hkept number hlt] at hown
      exact hserving.progress number own hown
    · have hle := Nat.le_of_not_lt hlt
      have hevents := hserving.eventsOf_eq_nil hle
      have hbody := hserving.fresh number hle
      dsimp only
      rw [hbody]
      exact hevents
  · rintro _ ⟨rfl⟩
    rw [← hlength]
    exact Function.update_self ..
  · obtain ⟨pointer', job, own, hclosure, hjob, hrequest, hserves⟩ :=
      hserving.serves number hlt hbody
    have hne : pointer' ≠ pointer := by
      rintro rfl
      exact absurd (hfresh.symm.trans hjob) (by simp)
    exact ⟨pointer', job, own, hclosure, (Function.update_of_ne hne ..).trans hjob,
      (hkept number hlt).trans hrequest, hserves⟩

/-- `enqueue` fills its job in. -/
theorem Serving.fill (hserving : Serving setup s) {pointer : JobPointer} {job : InferJob}
    {request : InferRequest} (hcall : s.call = some (.allocated pointer))
    (hjob : s.jobs pointer = some job) (hrequest : s.requests[job.request]? = some request) :
    Serving setup { s.fillJob pointer job request true with call := some (.filled pointer) } := by
  obtain rfl : job = .new s.graph.nextTask :=
    Option.some.inj (hjob.symm.trans (hserving.allocated pointer hcall))
  obtain ⟨place, rest, hmade, hplace⟩ :=
    makeTensor_spec s.freeTensors request.input.size request.fits
  have hnodup := hserving.store.tensors_nodup
  have hstore : JobStore (s.fillJob pointer (.new s.graph.nextTask) request true).jobs s.freeJobs
      s.heapJobs rest := by
    refine hserving.store.put _ hserving.store.nodup (fun block hblock ↦ .inr ⟨?_, hblock⟩)
      (fun number hle ↦ ⟨?_, hle⟩) ?_ (fun own hown block hblock ↦ ?_) fun block hblock ↦ ?_
    · rintro rfl
      exact absurd (hjob.symm.trans (hserving.store.free block hblock)) (by simp)
    · rintro rfl
      exact absurd (hjob.symm.trans (hserving.store.heap number hle)) (by simp)
    · rcases hplace with ⟨block, -, hfree⟩ | ⟨-, rfl⟩
      · rw [hfree] at hnodup
        exact hnodup.of_cons
      · exact hnodup
    · obtain rfl := Option.some.inj hown
      dsimp only at hblock
      rw [hmade] at hblock
      rcases hplace with ⟨taken, rfl, hfree⟩ | ⟨hnone, -⟩
      · obtain rfl := TensorPlace.pooled.inj hblock
        rw [hfree] at hnodup ⊢
        exact ⟨List.mem_cons_self, (List.nodup_cons.mp hnodup).1⟩
      · exact absurd hblock (hnone block)
    · rcases hplace with ⟨taken, -, hfree⟩ | ⟨-, rfl⟩
      · exact .inl (hfree ▸ List.mem_cons_of_mem _ hblock)
      · exact .inl hblock
  have hlength := hserving.length
  rw [hcall] at hlength
  refine ⟨?_, hlength, hserving.progress, nofun, ?_, fun number hlt hbody ↦ ?_, hserving.fresh,
    hserving.begun, hserving.events_lt, hserving.finished⟩
  · have hrest : (Engine.makeTensor s.freeTensors request.input.size request.fits true).2.2 =
        rest := by
      rw [hmade]
    rw [← hrest] at hstore
    exact hstore
  · rintro _ ⟨rfl⟩
    refine ⟨_, request, Function.update_self .., hrequest, rfl, rfl, rfl, fun _ ↦ ?_⟩
    dsimp only
    rw [hmade]
    rfl
  · exact hserving.job_ne hjob (Nat.ne_of_gt hlt) hlt hbody _

/-- The graph takes a step other than the start of a `create_task` call. -/
theorem Serving.graph (hserving : Serving setup s) {graph : LiveGraph Unit Exec}
    {allowed : TaskEvent → Prop} (hextends : LiveGraph.Extends allowed s.graph graph)
    (hallowed : ∀ number, allowed (.finished number) → s.bodies number = some .returned)
    {call : Option EngineCall} (hcall : call = s.call ∨
      s.call.any EngineCall.preparing = false ∧ call.any EngineCall.preparing = false) :
    Serving setup { s with graph := graph, call := call } := by
  obtain ⟨hnextTask, -, -, new, hevents, hnew⟩ := hextends
  have hkept : ∀ prepared, call = some prepared → prepared.preparing = true → s.call = call := by
    rintro prepared rfl hprepared
    refine (hcall.resolve_right fun hnot ↦ ?_).symm
    exact absurd (hprepared.symm.trans hnot.2) (by simp)
  refine ⟨hserving.store, ?_, hserving.progress, fun pointer h ↦ ?_, fun pointer h ↦ ?_,
    fun number hlt hbody ↦ ?_, fun number hle ↦ ?_, fun number hbody ↦ ?_, fun event hevent ↦ ?_,
    fun number hfinished ↦ ?_⟩
  · rw [hnextTask]
    rcases hcall with rfl | ⟨hbefore, hafter⟩
    · exact hserving.length
    · have hlength := hserving.length
      rw [hbefore] at hlength
      rw [hafter]
      exact hlength
  · rw [hnextTask]
    exact hserving.allocated pointer ((hkept _ h rfl).trans h)
  · rw [hnextTask]
    exact hserving.filled pointer ((hkept _ h rfl).trans h)
  · rw [hnextTask] at hlt
    exact hserving.serves number hlt hbody
  · rw [hnextTask] at hle
    exact hserving.fresh number hle
  · rw [hevents]
    exact List.mem_append_left _ (hserving.begun number hbody)
  · rw [hnextTask]
    exact hserving.events_lt event hevent
  · rw [hevents] at hfinished
    rcases List.mem_append.mp hfinished with hbefore | hafter
    · exact hserving.finished number hbefore
    · exact hallowed number (hnew _ hafter)

/-- The client calls `create_task` with the pointer to its job. -/
theorem Serving.create (hserving : Serving setup s) {pointer : JobPointer}
    (hcall : s.call = some (.filled pointer)) {graph : LiveGraph Unit Exec}
    (hnextTask : graph.nextTask = s.graph.nextTask + 1) (hevents : graph.events = s.graph.events) :
    Serving setup { s with
      graph := graph
      closures := Function.update s.closures s.graph.nextTask (some pointer)
      call := some .creating } := by
  have hlength := hserving.length
  rw [hcall] at hlength
  refine ⟨hserving.store, by rw [hlength, hnextTask]; rfl, hserving.progress, nofun, nofun,
    fun number hlt hbody ↦ ?_, fun number hle ↦ ?_, by rw [hevents]; exact hserving.begun,
    fun event hevent ↦ ?_, by rw [hevents]; exact hserving.finished⟩
  · rw [hnextTask] at hlt
    rcases Nat.lt_succ_iff_lt_or_eq.mp hlt with hlt | rfl
    · obtain ⟨pointer', job, request, hclosure, hserves⟩ := hserving.serves number hlt hbody
      exact ⟨pointer', job, request, (Function.update_of_ne (Nat.ne_of_lt hlt) ..).trans hclosure,
        hserves⟩
    · obtain ⟨job, request, hjob, hrequest, hserves⟩ := hserving.filled pointer hcall
      refine ⟨pointer, job, request, Function.update_self .., hjob, hrequest, ?_⟩
      rw [hserving.fresh _ (Nat.le_refl _)]
      exact hserves
  · rw [hnextTask] at hle
    exact hserving.fresh number (Nat.le_of_succ_le hle)
  · rw [hnextTask]
    exact Nat.lt_succ_of_lt (hserving.events_lt event hevent)

/-! ### The bodies -/

section Bodies

variable {number : ℕ} {pointer : JobPointer} {job : InferJob} {request : InferRequest}

/-- The body of a task goes on: what it does to its job, its events and its progress fit. -/
theorem Serving.body (hserving : Serving setup s) (hlt : number < s.graph.nextTask)
    (hclosure : s.closures number = some pointer) (hjob : s.jobs pointer = some job)
    (hrequest : s.requests[number]? = some request) (hnumber : job.request = number)
    (hstarted : .started number ∈ s.graph.events) (hbody : s.bodies number ≠ some .returned)
    {jobs : JobPointer → Option InferJob} {after : Option InferJob}
    (hjobs : jobs = Function.update s.jobs pointer after)
    {events new : List InferEvent} (hevents : events = s.events ++ new)
    {freeJobs freeTensors : List ℕ} {body : BodyCall} {misused : List Member}
    (hstore : JobStore jobs freeJobs s.heapJobs freeTensors)
    (hnew : ∀ event ∈ new, event.request = number)
    (hprogress : Progress setup number request (s.eventsOf number ++ new) (some body))
    (hafter : body ≠ .returned → ∃ job', after = some job' ∧
      job'.Serves number request (some body)) :
    Serving setup { s with
      jobs := jobs
      freeJobs := freeJobs
      freeTensors := freeTensors
      bodies := Function.update s.bodies number (some body)
      events := events
      misused := misused } := by
  subst hjobs hevents
  have hother : ∀ pointer' job', s.jobs pointer' = some job' → job'.request ≠ number →
      Function.update s.jobs pointer after pointer' = some job' := by
    intro pointer' job' hjob' hne
    refine (Function.update_of_ne ?_ ..).trans hjob'
    rintro rfl
    obtain rfl := Option.some.inj (hjob.symm.trans hjob')
    exact hne hnumber
  refine ⟨hstore, hserving.length, fun number' own hown ↦ ?_, fun pointer' h ↦ ?_,
    fun pointer' h ↦ ?_, fun number' hlt' hbody' ↦ ?_, fun number' hle ↦ ?_,
    fun number' hbody' ↦ ?_, fun event hevent ↦ ?_, fun number' hfinished ↦ ?_⟩
  · dsimp only [Engine.eventsOf]
    rw [s.eventsOf_append]
    by_cases heq : number' = number
    · subst heq
      obtain rfl := Option.some.inj (hrequest.symm.trans hown)
      rw [Function.update_self, List.filter_eq_self.mpr fun event hevent ↦
        decide_eq_true (hnew event hevent)]
      exact hprogress
    · rw [Function.update_of_ne heq, List.filter_eq_nil_iff.mpr, List.append_nil]
      · exact hserving.progress number' own hown
      · intro event hevent
        rw [decide_eq_true_eq, hnew event hevent]
        exact Ne.symm heq
  · exact hother pointer' _ (hserving.allocated pointer' h) (Nat.ne_of_gt hlt)
  · obtain ⟨job', own, hjob', hown, hserves⟩ := hserving.filled pointer' h
    exact ⟨job', own, hother pointer' job' hjob' (hserves.number ▸ Nat.ne_of_gt hlt), hown, hserves⟩
  · dsimp only at hbody' ⊢
    by_cases heq : number' = number
    · subst heq
      rw [Function.update_self] at hbody' ⊢
      obtain ⟨job', rfl, hserves⟩ := hafter fun h ↦ hbody' (congrArg some h)
      exact ⟨pointer, job', request, hclosure, Function.update_self .., hrequest, hserves⟩
    · rw [Function.update_of_ne heq] at hbody' ⊢
      exact hserving.job_ne hjob (fun h ↦ heq (h.symm.trans hnumber)) hlt' hbody' after
  · have hne : number' ≠ number := fun h ↦ absurd (h ▸ hle) (Nat.not_le_of_lt hlt)
    exact (Function.update_of_ne hne ..).trans (hserving.fresh number' hle)
  · dsimp only at hbody' ⊢
    by_cases heq : number' = number
    · rw [heq]
      exact hstarted
    · rw [Function.update_of_ne heq] at hbody'
      exact hserving.begun number' hbody'
  · rcases List.mem_append.mp hevent with hbefore | hafter'
    · exact hserving.events_lt event hbefore
    · rw [hnew event hafter']
      exact hlt
  · have hreturned := hserving.finished number' hfinished
    have hne : number' ≠ number := fun h ↦ hbody (h ▸ hreturned)
    exact (Function.update_of_ne hne ..).trans hreturned

/-- The destructor of a job gives its tensor block back. -/
theorem JobStore.destroy (hstore : JobStore s.jobs s.freeJobs s.heapJobs s.freeTensors)
    (hjob : s.jobs pointer = some job) : JobStore (s.destroyJob pointer job).jobs s.freeJobs
      s.heapJobs (s.destroyJob pointer job).freeTensors := by
  refine hstore.put _ hstore.nodup (fun block hblock ↦ .inr ⟨?_, hblock⟩)
    (fun number hle ↦ ⟨?_, hle⟩) ?_ (fun own hown block hblock ↦ ?_) fun block hblock ↦ ?_
  · rintro rfl
    exact absurd (hjob.symm.trans (hstore.free block hblock)) (by simp)
  · rintro rfl
    exact absurd (hjob.symm.trans (hstore.heap number hle)) (by simp)
  · rw [Engine.destroyJob]
    cases hplace : job.place with
    | pooled block =>
      exact List.nodup_cons.mpr ⟨hstore.tensors_free pointer job block hjob hplace,
        hstore.tensors_nodup⟩
    | _ => exact hstore.tensors_nodup
  · obtain rfl := Option.some.inj hown
    contradiction
  · rw [Engine.destroyJob] at hblock
    cases hplace : job.place with
    | pooled taken =>
      simp only [Engine.setJob, hplace] at hblock
      rcases List.mem_cons.mp hblock with rfl | hmem
      · exact .inr ⟨job, hjob, hplace⟩
      · exact .inl hmem
    | _ =>
      simp only [Engine.setJob, hplace] at hblock
      exact .inl hblock

/-- The memory of a job is given back. -/
theorem JobStore.deallocate (hstore : JobStore s.jobs s.freeJobs s.heapJobs s.freeTensors)
    (hjob : s.jobs pointer = some job) : JobStore (s.deallocateJob pointer).jobs
      (s.deallocateJob pointer).freeJobs s.heapJobs s.freeTensors := by
  have hheap : ∀ number, s.heapJobs ≤ number → JobPointer.heap number ≠ pointer := by
    rintro number hle rfl
    exact absurd (hjob.symm.trans (hstore.heap number hle)) (by simp)
  have hblocks : ∀ block ∈ s.freeJobs, JobPointer.block block ≠ pointer := by
    rintro block hblock rfl
    exact absurd (hjob.symm.trans (hstore.free block hblock)) (by simp)
  cases pointer with
  | block block =>
    refine hstore.put none ?_ (fun other hother ↦ ?_) (fun number hle ↦ ⟨nofun, hle⟩)
      hstore.tensors_nodup nofun (fun _ h ↦ .inl h)
    · exact List.nodup_cons.mpr ⟨fun hmem ↦ hblocks block hmem rfl, hstore.nodup⟩
    · rcases List.mem_cons.mp hother with rfl | hmem
      · exact .inl ⟨rfl, rfl⟩
      · exact .inr ⟨hblocks other hmem, hmem⟩
  | heap own =>
    exact hstore.put none hstore.nodup (fun other hother ↦ .inr ⟨nofun, hother⟩)
      (fun number hle ↦ ⟨hheap number hle, hle⟩) hstore.tensors_nodup nofun (fun _ h ↦ .inl h)

/-- The body of a task takes its next step. -/
theorem Serving.runBody (hserving : Serving setup s) (hlt : number < s.graph.nextTask)
    (hstarted : .started number ∈ s.graph.events) (hbody : s.bodies number ≠ some .returned)
    (hclosure : s.closures number = some pointer) (hjob : s.jobs pointer = some job)
    (devices : Devices) : Serving setup (s.runBody setup number devices pointer job) := by
  obtain ⟨pointer', job', request, hclosure', hjob', hrequest, hserves⟩ :=
    hserving.serves number hlt hbody
  obtain rfl := Option.some.inj (hclosure.symm.trans hclosure')
  obtain rfl := Option.some.inj (hjob.symm.trans hjob')
  have hprogress := hserving.progress number request hrequest
  have hown := hserves.number
  have hsame : Function.update s.jobs pointer (some job) = s.jobs := by
    rw [← hjob, Function.update_eq_self]
  have hstore := hserving.store
  have hsilent : ∀ event ∈ ([] : List InferEvent), event.request = number := nofun
  unfold Engine.runBody
  cases hstage : s.bodies number with
  | none =>
    rw [hstage] at hprogress hserves
    have hevents : s.eventsOf number = [] := hprogress
    refine hserving.body hlt hclosure hjob hrequest hown hstarted hbody hsame.symm
      (List.append_nil _).symm hstore hsilent ⟨?_, devices, ?_⟩ fun _ ↦ ⟨job, rfl, ?_⟩
    · rw [hevents, List.append_nil]
    · rw [hserves.input rfl]
    · exact ⟨hown, hserves.useCallback, hserves.callback, nofun⟩
  | some call =>
    have hserves' : ∀ body, job.Serves number request (some body) := fun body ↦
      ⟨hown, hserves.useCallback, hserves.callback, nofun⟩
    rw [hstage] at hprogress
    cases call with
    | delivering result =>
      obtain ⟨hevents, hresult⟩ := hprogress
      dsimp only
      rw [hserves.useCallback, hserves.callback, Bool.and_self]
      cases hcallback : request.callback with
      | true =>
        refine hserving.body hlt hclosure hjob hrequest hown hstarted hbody hsame.symm rfl hstore
          ?_ ⟨result, hresult, ?_⟩ fun _ ↦ ⟨job, rfl, hserves' _⟩
        · intro event hevent
          rw [List.mem_singleton.mp hevent]
          exact hown
        · rw [hevents, hcallback, hown]
          rfl
      | false =>
        refine hserving.body hlt hclosure hjob hrequest hown hstarted hbody hsame.symm
          (List.append_nil _).symm hstore hsilent ⟨result, hresult, ?_⟩
          fun _ ↦ ⟨job, rfl, hserves' _⟩
        rw [hevents, hcallback]
        rfl
    | fulfilling value =>
      obtain ⟨result, hresult, hdelivery⟩ := hprogress
      refine hserving.body hlt hclosure hjob hrequest hown hstarted hbody hsame.symm rfl hstore
        ?_ ⟨result, hresult, ?_⟩ fun _ ↦ ⟨job, rfl, hserves' _⟩
      · intro event hevent
        rw [List.mem_singleton.mp hevent]
        exact hown
      · rw [hdelivery, hown]
    | destroying =>
      refine hserving.body hlt hclosure hjob hrequest hown hstarted hbody rfl
        (List.append_nil _).symm (hstore.destroy hjob) hsilent ?_ fun _ ↦
          ⟨_, rfl, hown, hserves.useCallback, hserves.callback, nofun⟩
      rw [List.append_nil]
      exact hprogress
    | deallocating =>
      obtain ⟨result, hresult, hevents⟩ := hprogress
      refine hserving.body hlt hclosure hjob hrequest hown hstarted hbody rfl rfl
        (hstore.deallocate hjob) ?_ ⟨result, hresult, ?_⟩ fun h ↦ absurd rfl h
      · intro event hevent
        rw [List.mem_singleton.mp hevent]
        exact hown
      · rw [hevents, hown]
    | returned => exact absurd hstage hbody

end Bodies

end GameEngine.Ai
