import GameEngine.Ai.RequestConservation

/-!
# What requests leave behind

Every request takes a job and a tensor from the pools of the engine, or from the heap. `Housed` says
that in every state each block of the two pools is free or in the hands of a job, and that every job
is in the hands of a call of `submit` or of a task whose body has not returned. So an engine that is
at rest has all blocks back and no job on the heap, and each request for a tensor that the model
takes has been answered with what the fallback computes for the tensor that was submitted,
whatever the backend, the order of the tasks and the memory of the device (`requests_answered`).
-/

set_option autoImplicit false
set_option relaxedAutoImplicit false

namespace GameEngine.Ai

open GameEngine.Library GameEngine.Core
open MachineWord

variable {Exec : Type} {setup : Setup} {s next : Engine Exec}

/-! ### The property -/

/-- The blocks of the pools are those that are free and those that jobs have. -/
structure Stocked (jobs : JobPointer → Option InferJob) (freeJobs freeTensors : List ℕ) :
    Prop where
  blocks : ∀ block, block < Engine.jobBlocks ↔
    block ∈ freeJobs ∨ (jobs (.block block)).isSome
  tensors : ∀ block, block < Engine.tensorBlocks ↔
    block ∈ freeTensors ∨ ∃ pointer, ∃ job ∈ jobs pointer, job.place = .pooled block

/-- No block is in two places: free blocks are listed once and are with no job, and no two jobs have
the same block. -/
structure BlocksApart (jobs : JobPointer → Option InferJob)
    (freeJobs freeTensors : List ℕ) : Prop where
  freeJobs_nodup : freeJobs.Nodup
  jobs_free : ∀ block ∈ freeJobs, jobs (.block block) = none
  freeTensors_nodup : freeTensors.Nodup
  tensors_free : ∀ block ∈ freeTensors, ∀ pointer, ∀ job ∈ jobs pointer, job.place ≠ .pooled block
  tensors_apart : ∀ block first second, (∃ job ∈ jobs first, job.place = .pooled block) →
    (∃ job ∈ jobs second, job.place = .pooled block) → first = second

/-- The tensor of a request is empty, or one that the model takes. -/
def Setup.Takes (setup : Setup) (request : InferRequest) : Prop :=
  request.input.size = 0 ∨
    request.input.data.isSome ∧ setup.session.Fits request.input.size

/-- What the fallback returns for the tensor of a request. -/
def Setup.answer (setup : Setup) (request : InferRequest) : List FloatBits :=
  (execute setup.kernels .simdFallback setup.session noDevices.memory .new false request.input).1

/-- An engine at rest: nothing is in use, and the requests that the model takes are answered. -/
structure AtRest (setup : Setup) (s : Engine Exec) : Prop where
  jobs : ∀ pointer, s.jobs pointer = none
  freeJobs : s.freeJobs.Perm (List.range Engine.jobBlocks)
  freeTensors : s.freeTensors.Perm (List.range Engine.tensorBlocks)
  answered : ∀ number request, s.requests[number]? = some request → setup.Takes request →
    s.eventsOf number = delivery number request.callback (setup.answer request) ++ [.freed number]

/-- The engine has each of its blocks in one place, and is at rest when the client is in no call and
nothing is outstanding. -/
structure Answered (setup : Setup) (s : Engine Exec) : Prop where
  stocked : Stocked s.jobs s.freeJobs s.freeTensors
  apart : BlocksApart s.jobs s.freeJobs s.freeTensors
  rest : s.call = none → s.graph.outstanding = 0 → AtRest setup s

/-! ### Results -/

/-- An empty request makes an empty tensor. -/
theorem InferRequest.copy_of_empty (request : InferRequest) (hsize : request.input.size = 0) :
    request.copy = .null := by
  rw [InferRequest.copy, if_pos hsize]
  rfl

/-- Any execution returns what the fallback does, if the model takes the tensor. -/
theorem IsResult.eq_answer (hshaped : setup.session.Shaped) {request : InferRequest}
    (htakes : setup.Takes request) {result : List FloatBits}
    (hresult : IsResult setup request result) : result = setup.answer request := by
  obtain ⟨devices, rfl⟩ := hresult
  by_cases hsize : request.input.size = 0
  · rw [request.copy_of_empty hsize, Setup.answer, execute, execute,
      executeSized_empty _ _ _ _ _ _ (.inl rfl), executeSized_empty _ _ _ _ _ _ (.inr hsize), hsize]
    rfl
  · obtain ⟨hdata, hfits⟩ := htakes.resolve_left hsize
    obtain ⟨cells, hcells⟩ := Option.isSome_iff_exists.mp hdata
    rw [request.copy_eq hcells hsize, Setup.answer, execute, execute,
      executeSized_fst _ _ _ _ _ _ hcells hsize, executeSized_fst _ _ _ _ _ _ hcells hsize]
    exact afterRun_of_fits _ hshaped cells hfits (length_freshOutput ..) (length_freshOutput ..)

/-! ### The pools -/

section Stocked

variable {jobs : JobPointer → Option InferJob} {freeJobs freeTensors : List ℕ}
  {pointer : JobPointer}

/-- Some job has a property: the one at a pointer, or another. -/
theorem exists_job_update (jobs : JobPointer → Option InferJob) (pointer : JobPointer)
    (after : Option InferJob) (property : InferJob → Prop) :
    (∃ other, ∃ job ∈ Function.update jobs pointer after other, property job) ↔
      (∃ job ∈ after, property job) ∨ ∃ other ≠ pointer, ∃ job ∈ jobs other, property job := by
  constructor
  · rintro ⟨other, job, hjob, hproperty⟩
    by_cases heq : other = pointer
    · subst heq
      rw [Function.update_self] at hjob
      exact .inl ⟨job, hjob, hproperty⟩
    · rw [Function.update_of_ne heq] at hjob
      exact .inr ⟨other, heq, job, hjob, hproperty⟩
  · rintro (⟨job, hjob, hproperty⟩ | ⟨other, hne, job, hjob, hproperty⟩)
    · exact ⟨pointer, job, by rwa [Function.update_self], hproperty⟩
    · exact ⟨other, job, by rwa [Function.update_of_ne hne], hproperty⟩

/-- A job is put somewhere or removed. What it has comes from the pools or goes back there. -/
theorem Stocked.put (hstocked : Stocked jobs freeJobs freeTensors) {after : Option InferJob}
    {freeJobs' freeTensors' : List ℕ}
    (hblocks : ∀ block, block ∈ freeJobs' ∨ JobPointer.block block = pointer ∧ after.isSome ↔
      block ∈ freeJobs ∨ JobPointer.block block = pointer ∧ (jobs pointer).isSome)
    (htensors : ∀ block, block ∈ freeTensors' ∨ (∃ job ∈ after, job.place = .pooled block) ↔
      block ∈ freeTensors ∨ ∃ job ∈ jobs pointer, job.place = .pooled block) :
    Stocked (Function.update jobs pointer after) freeJobs' freeTensors' where
  blocks := by
    intro block
    have hblock := hblocks block
    rw [hstocked.blocks block]
    by_cases heq : JobPointer.block block = pointer
    · simp only [heq, true_and, Function.update_self] at hblock ⊢
      exact hblock.symm
    · simp only [heq, false_and, or_false] at hblock
      rw [Function.update_of_ne heq, hblock]
  tensors := by
    intro block
    have hbefore := exists_job_update jobs pointer (jobs pointer) (·.place = .pooled block)
    rw [Function.update_eq_self] at hbefore
    rw [hstocked.tensors block, hbefore, exists_job_update, ← or_assoc, ← or_assoc, htensors block]

/-- The store of the jobs keeps the blocks apart. -/
theorem JobStore.apart {heapJobs : ℕ} (hstore : JobStore jobs freeJobs heapJobs freeTensors) :
    BlocksApart jobs freeJobs freeTensors where
  freeJobs_nodup := hstore.nodup
  jobs_free := hstore.free
  freeTensors_nodup := hstore.tensors_nodup
  tensors_free := fun block hfree pointer job hjob hplace ↦
    hstore.tensors_free pointer job block hjob hplace hfree
  tensors_apart := by
    rintro block first second ⟨job, hjob, hplace⟩ ⟨job', hjob', hplace'⟩
    exact hstore.tensors_apart first second job job' block hjob hjob' hplace hplace'

/-- When there is no job, all blocks are free. -/
theorem Stocked.perm (hstocked : Stocked jobs freeJobs freeTensors)
    (hnone : ∀ pointer, jobs pointer = none) {heapJobs : ℕ}
    (hstore : JobStore jobs freeJobs heapJobs freeTensors) :
    freeJobs.Perm (List.range Engine.jobBlocks) ∧
      freeTensors.Perm (List.range Engine.tensorBlocks) := by
  constructor
  · refine (List.perm_ext_iff_of_nodup hstore.nodup List.nodup_range).mpr fun block ↦ ?_
    rw [List.mem_range, hstocked.blocks block, hnone]
    simp
  · refine (List.perm_ext_iff_of_nodup hstore.tensors_nodup List.nodup_range).mpr fun block ↦ ?_
    rw [List.mem_range, hstocked.tensors block]
    simp [hnone]

end Stocked

/-! ### Who has the jobs -/

/-- Every block is free or with a job, and every job with a call or with a task. The tensor of a job
is released before its memory. -/
structure Housed (s : Engine Exec) : Prop where
  stocked : Stocked s.jobs s.freeJobs s.freeTensors
  owned : ∀ pointer, (s.jobs pointer).isSome → s.call = some (.allocated pointer) ∨
    s.call = some (.filled pointer) ∨ ∃ number < s.graph.nextTask,
      s.closures number = some pointer ∧ s.bodies number ≠ some .returned
  emptied : ∀ number pointer, s.bodies number = some .deallocating →
    s.closures number = some pointer → ∀ job ∈ s.jobs pointer, job.place = .absent

theorem housed_new : Housed (.new : Engine Exec) where
  stocked :=
    { blocks := fun block ↦ by simp [Engine.new]
      tensors := fun block ↦ by simp [Engine.new] }
  owned := nofun
  emptied := nofun

section Steps

variable {pointer : JobPointer}

/-- A task whose body has begun and not returned has a job, which is for its own request. -/
theorem Serving.exists_job (hserving : Serving setup s) {number : ℕ} {body : BodyCall}
    (hbody : s.bodies number = some body) (hnot : body ≠ .returned)
    (hclosure : s.closures number = some pointer) :
    ∃ job, s.jobs pointer = some job ∧ job.request = number := by
  have hlt : number < s.graph.nextTask := by
    by_contra hle
    rw [hserving.fresh number (Nat.le_of_not_lt hle)] at hbody
    contradiction
  obtain ⟨pointer', job, request, hclosure', hjob, -, hserves⟩ :=
    hserving.serves number hlt (by rw [hbody]; exact fun h ↦ hnot (Option.some.inj h))
  obtain rfl := Option.some.inj (hclosure.symm.trans hclosure')
  exact ⟨job, hjob, hserves.number⟩

/-- `submit` allocates a job. -/
theorem Housed.submit (hhoused : Housed s) (hserving : Serving setup s) (hcall : s.call = none)
    (request : InferRequest) :
    let allocated := Engine.allocJob { s with requests := s.requests ++ [request] }
        s.requests.length
    Housed { allocated.1 with call := some (.allocated allocated.2) } := by
  have hstocked := hhoused.stocked
  obtain ⟨pointer, freeJobs, heapJobs, halloc, hfresh, hput⟩ : ∃ pointer freeJobs heapJobs,
      Engine.allocJob { s with requests := s.requests ++ [request] } s.requests.length =
        ({ s with
          requests := s.requests ++ [request]
          freeJobs := freeJobs
          heapJobs := heapJobs
          jobs := Function.update s.jobs pointer (some (.new s.requests.length)) }, pointer) ∧
      s.jobs pointer = none ∧
      ∀ block, block ∈ freeJobs ∨ JobPointer.block block = pointer ↔ block ∈ s.freeJobs := by
    cases hfree : s.freeJobs with
    | cons block rest =>
      refine ⟨.block block, rest, s.heapJobs, rfl,
        hserving.store.free block (by simp [hfree]), fun other ↦ ?_⟩
      rw [List.mem_cons, JobPointer.block.injEq, or_comm]
    | nil =>
      refine ⟨.heap s.heapJobs, [], s.heapJobs + 1, rfl,
        hserving.store.heap _ (Nat.le_refl _), fun other ↦ ?_⟩
      simp
  rw [halloc]
  refine ⟨hstocked.put (fun block ↦ ?_) (fun block ↦ ?_), fun pointer' hjob ↦ ?_,
    fun number pointer' hbody hclosure ↦ ?_⟩
  · rw [hfresh]
    simpa using hput block
  · simp [hfresh, InferJob.new]
  · by_cases heq : pointer' = pointer
    · rw [heq]
      exact .inl rfl
    · change (Function.update s.jobs pointer _ pointer').isSome at hjob
      rw [Function.update_of_ne heq] at hjob
      have howner := hhoused.owned pointer' hjob
      rw [hcall] at howner
      exact .inr (.inr ((howner.resolve_left (by simp)).resolve_left (by simp)))
  · obtain ⟨job, hjob, -⟩ := hserving.exists_job hbody (by simp) hclosure
    have hne : pointer' ≠ pointer := by
      rintro rfl
      exact absurd (hfresh.symm.trans hjob) (by simp)
    change ∀ job' ∈ Function.update s.jobs pointer _ pointer', _
    rw [Function.update_of_ne hne]
    exact hhoused.emptied number pointer' hbody hclosure

/-- `enqueue` fills its job in, which takes a tensor. -/
theorem Housed.fill (hhoused : Housed s) (hserving : Serving setup s) {job : InferJob}
    {request : InferRequest} (hcall : s.call = some (.allocated pointer))
    (hjob : s.jobs pointer = some job) :
    Housed { s.fillJob pointer job request true with call := some (.filled pointer) } := by
  obtain rfl : job = .new s.graph.nextTask :=
    Option.some.inj (hjob.symm.trans (hserving.allocated pointer hcall))
  obtain ⟨place, rest, hmade, hplace⟩ :=
    makeTensor_spec s.freeTensors request.input.size request.fits
  have hrest : (Engine.makeTensor s.freeTensors request.input.size request.fits true).2.2 =
      rest := by
    rw [hmade]
  refine ⟨?_, fun pointer' hjob' ↦ ?_, fun number pointer' hbody hclosure ↦ ?_⟩
  · dsimp only [Engine.fillJob, Engine.setJob]
    rw [hmade]
    refine hhoused.stocked.put (fun block ↦ by rw [hjob]; simp) fun block ↦ ?_
    rw [hjob]
    rcases hplace with ⟨taken, rfl, hfree⟩ | ⟨hnone, rfl⟩
    · simp [hfree, InferJob.new, or_comm, eq_comm]
    · simp [InferJob.new, hnone]
  · by_cases heq : pointer' = pointer
    · rw [heq]
      exact .inr (.inl rfl)
    · change (Function.update s.jobs pointer _ pointer').isSome at hjob'
      rw [Function.update_of_ne heq] at hjob'
      have howner := hhoused.owned pointer' hjob'
      rw [hcall] at howner
      exact .inr (.inr ((howner.resolve_left fun h ↦ heq
        (EngineCall.allocated.inj (Option.some.inj h)).symm).resolve_left (by simp)))
  · obtain ⟨own, hown, hnumber⟩ := hserving.exists_job hbody (by simp) hclosure
    have hne : pointer' ≠ pointer := by
      rintro rfl
      obtain rfl := Option.some.inj (hjob.symm.trans hown)
      have hfresh := hserving.fresh number (Nat.le_of_eq hnumber)
      exact absurd (hfresh.symm.trans hbody) (by simp)
    change ∀ job' ∈ Function.update s.jobs pointer _ pointer', _
    rw [Function.update_of_ne hne]
    exact hhoused.emptied number pointer' hbody hclosure

/-- The graph takes a step other than the start of a `create_task` call. -/
theorem Housed.graph (hhoused : Housed s) {graph : LiveGraph Unit Exec}
    (hnextTask : graph.nextTask = s.graph.nextTask) {call : Option EngineCall}
    (hcall : call = s.call ∨ s.call.any EngineCall.preparing = false) :
    Housed { s with graph := graph, call := call } := by
  refine ⟨hhoused.stocked, fun pointer hjob ↦ ?_, hhoused.emptied⟩
  dsimp only
  rw [hnextTask]
  rcases hcall with rfl | hother
  · exact hhoused.owned pointer hjob
  · refine .inr (.inr (((hhoused.owned pointer hjob).resolve_left ?_).resolve_left ?_)) <;>
    · intro h
      simp [h, EngineCall.preparing] at hother

/-- The graph takes a step in which it creates no task. -/
theorem Housed.extends (hhoused : Housed s) {allowed : TaskEvent → Prop}
    {graph : LiveGraph Unit Exec} (hextends : LiveGraph.Extends allowed s.graph graph) :
    Housed { s with graph := graph } :=
  hhoused.graph hextends.nextTask (.inl rfl)

/-- The client calls `create_task` with the pointer to its job. -/
theorem Housed.create (hhoused : Housed s) (hserving : Serving setup s)
    (hcall : s.call = some (.filled pointer)) {graph : LiveGraph Unit Exec}
    (hnextTask : graph.nextTask = s.graph.nextTask + 1) :
    Housed { s with
      graph := graph
      closures := Function.update s.closures s.graph.nextTask (some pointer)
      call := some .creating } := by
  have hfresh := hserving.fresh _ (Nat.le_refl s.graph.nextTask)
  refine ⟨hhoused.stocked, fun pointer' hjob ↦ .inr (.inr ?_),
    fun number pointer' hbody hclosure ↦ ?_⟩
  · dsimp only
    rw [hnextTask]
    rcases hhoused.owned pointer' hjob with hallocated | hfilled | ⟨number, hlt, hclosure, hbody⟩
    · rw [hcall] at hallocated
      exact absurd hallocated (by simp)
    · obtain rfl : pointer = pointer' := by simpa [hcall] using hfilled
      refine ⟨_, Nat.lt_succ_self _, Function.update_self .., ?_⟩
      rw [hfresh]
      simp
    · exact ⟨number, Nat.lt_succ_of_lt hlt,
        (Function.update_of_ne (Nat.ne_of_lt hlt) ..).trans hclosure, hbody⟩
  · have hne : number ≠ s.graph.nextTask := by
      rintro rfl
      exact absurd (hfresh.symm.trans hbody) (by simp)
    change Function.update s.closures s.graph.nextTask _ number = _ at hclosure
    rw [Function.update_of_ne hne] at hclosure
    exact hhoused.emptied number pointer' hbody hclosure

/-! ### The bodies -/

section Bodies

variable {number : ℕ} {job : InferJob}

/-- The body of a task goes on: it has emptied its job before it removes it. -/
theorem Housed.body (hhoused : Housed s) (hserving : Serving setup s)
    (hlt : number < s.graph.nextTask) (hclosure : s.closures number = some pointer)
    (hjob : s.jobs pointer = some job) (hnumber : job.request = number)
    {jobs : JobPointer → Option InferJob} {after : Option InferJob}
    (hjobs : jobs = Function.update s.jobs pointer after) {freeJobs freeTensors : List ℕ}
    (hstocked : Stocked jobs freeJobs freeTensors) {body : BodyCall}
    (hreturned : body = .returned → after = none)
    (hemptied : body = .deallocating → ∀ own ∈ after, own.place = .absent)
    {events : List InferEvent} {misused : List Member} :
    Housed { s with
      jobs := jobs
      freeJobs := freeJobs
      freeTensors := freeTensors
      bodies := Function.update s.bodies number (some body)
      events := events
      misused := misused } := by
  subst hjobs
  refine ⟨hstocked, fun pointer' halive ↦ ?_, fun number' pointer' hbody' hclosure' ↦ ?_⟩
  · by_cases heq : pointer' = pointer
    · subst heq
      change (Function.update s.jobs pointer' after pointer').isSome at halive
      rw [Function.update_self] at halive
      refine .inr (.inr ⟨number, hlt, hclosure, ?_⟩)
      change Function.update s.bodies number (some body) number ≠ _
      rw [Function.update_self]
      intro hbody
      rw [hreturned (Option.some.inj hbody)] at halive
      contradiction
    · change (Function.update s.jobs pointer after pointer').isSome at halive
      rw [Function.update_of_ne heq] at halive
      refine (hhoused.owned pointer' halive).imp_right fun howner ↦ howner.imp_right ?_
      rintro ⟨number', hlt', hclosure', hbody'⟩
      have hne : number' ≠ number := by
        rintro rfl
        exact heq (Option.some.inj (hclosure'.symm.trans hclosure))
      exact ⟨number', hlt', hclosure', (Function.update_of_ne hne ..).trans_ne hbody'⟩
  · change Function.update s.bodies number (some body) number' = _ at hbody'
    change ∀ own ∈ Function.update s.jobs pointer after pointer', _
    by_cases heq : number' = number
    · subst heq
      rw [Function.update_self, Option.some.injEq] at hbody'
      obtain rfl := Option.some.inj (hclosure.symm.trans hclosure')
      rw [Function.update_self]
      exact hemptied hbody'
    · rw [Function.update_of_ne heq] at hbody'
      obtain ⟨own, hown, hother⟩ := hserving.exists_job hbody' (by simp) hclosure'
      have hne : pointer' ≠ pointer := by
        rintro rfl
        obtain rfl := Option.some.inj (hjob.symm.trans hown)
        exact heq (hother.symm.trans hnumber)
      rw [Function.update_of_ne hne]
      exact hhoused.emptied number' pointer' hbody' hclosure'

/-- The destructor of a job gives its tensor block back. -/
theorem Stocked.destroy (hstocked : Stocked s.jobs s.freeJobs s.freeTensors)
    (hjob : s.jobs pointer = some job) : Stocked (s.destroyJob pointer job).jobs s.freeJobs
      (s.destroyJob pointer job).freeTensors := by
  refine hstocked.put (fun block ↦ by rw [hjob]; simp) fun block ↦ ?_
  rw [hjob]
  cases hplace : job.place with
  | pooled taken => simp [Engine.destroyJob, Engine.setJob, hplace, or_comm, eq_comm]
  | _ => simp [Engine.destroyJob, Engine.setJob, hplace]

/-- The memory of a job without a tensor is given back. -/
theorem Stocked.deallocate (hstocked : Stocked s.jobs s.freeJobs s.freeTensors)
    (hjob : s.jobs pointer = some job) (habsent : job.place = .absent) :
    Stocked (s.deallocateJob pointer).jobs (s.deallocateJob pointer).freeJobs s.freeTensors := by
  refine hstocked.put (fun block ↦ ?_) fun block ↦ ?_
  · rw [hjob]
    cases pointer with
    | block own => simp [Engine.deallocateJob, Engine.setJob, or_comm]
    | heap own => simp [Engine.deallocateJob, Engine.setJob]
  · simp [hjob, habsent]

/-- The body of a task takes its next step. -/
theorem Housed.runBody (hhoused : Housed s) (hserving : Serving setup s)
    (hlt : number < s.graph.nextTask) (hbody : s.bodies number ≠ some .returned)
    (hclosure : s.closures number = some pointer) (hjob : s.jobs pointer = some job)
    (devices : Devices) : Housed (s.runBody setup number devices pointer job) := by
  obtain ⟨pointer', job', request, hclosure', hjob', -, hserves⟩ :=
    hserving.serves number hlt hbody
  obtain rfl := Option.some.inj (hclosure.symm.trans hclosure')
  obtain rfl := Option.some.inj (hjob.symm.trans hjob')
  have hown := hserves.number
  have hsame : Function.update s.jobs pointer (some job) = s.jobs := by
    rw [← hjob, Function.update_eq_self]
  have hstocked := hhoused.stocked
  unfold Engine.runBody
  cases hstage : s.bodies number with
  | none =>
    exact hhoused.body hserving hlt hclosure hjob hown hsame.symm hstocked (by simp) (by simp)
  | some call =>
    cases call with
    | delivering result =>
      dsimp only
      split_ifs
      · exact hhoused.body hserving hlt hclosure hjob hown hsame.symm hstocked (by simp)
          (by simp)
      · exact hhoused.body hserving hlt hclosure hjob hown hsame.symm hstocked (by simp)
          (by simp)
    | fulfilling value =>
      exact hhoused.body hserving hlt hclosure hjob hown hsame.symm hstocked (by simp) (by simp)
    | destroying =>
      refine hhoused.body hserving hlt hclosure hjob hown rfl (hstocked.destroy hjob)
        (by simp) ?_
      rintro - own ⟨rfl⟩
      rfl
    | deallocating =>
      have habsent := hhoused.emptied number pointer hstage hclosure job hjob
      exact hhoused.body hserving hlt hclosure hjob hown rfl (hstocked.deallocate hjob habsent)
        (fun _ ↦ rfl) (by simp)
    | returned => exact absurd hstage hbody

end Bodies

/-! ### Runs -/

variable [Fintype Exec] [DecidableEq Exec]

/-- The call of the client takes its next step. -/
theorem Housed.advance (hhoused : Housed s) (hoperating : Operating setup s) {granted : Bool}
    {call : EngineCall} (hcall : s.call = some call)
    (hrequesting : Requesting (.advance granted : EngineAction Exec))
    (hnext : s.advance granted call = some next) : Housed next := by
  obtain rfl : granted = true := hrequesting
  have hserving := hoperating.serving
  -- a step of the call that the graph is in
  have hgoOn : ∀ {graph}, LiveGraph.step s.graph (.advance ()) = some graph →
      Housed { s with graph := graph } := by
    intro graph hstep
    obtain ⟨inner, hinner, hadvance⟩ := Option.bind_eq_some_iff.mp hstep
    exact hhoused.extends (LiveGraph.clientMoved_advance
      (hoperating.feeding.plain.normal () inner hinner) hadvance).extends
  cases call with
  | allocated pointer =>
    obtain ⟨job, hjob, hfilled⟩ := Option.bind_eq_some_iff.mp hnext
    obtain ⟨request, -, rfl⟩ := Option.map_eq_some_iff.mp hfilled
    exact hhoused.fill hserving hcall hjob
  | filled pointer =>
    obtain ⟨graph, hstep, rfl⟩ := Option.map_eq_some_iff.mp hnext
    rw [LiveGraph.step] at hstep
    split_ifs at hstep
    obtain rfl := Option.some.inj hstep
    exact hhoused.create hserving hcall (s.graph.create_frame () (by decide) (by decide)).1
  | creating =>
    rw [Engine.advance] at hnext
    split_ifs at hnext
    · obtain ⟨graph, hstep, rfl⟩ := Option.map_eq_some_iff.mp hnext
      exact hhoused.graph (LiveGraph.clientMoved_submit hstep).extends.nextTask
        (.inr (by rw [hcall]; rfl))
    · obtain ⟨graph, hstep, rfl⟩ := Option.map_eq_some_iff.mp hnext
      exact hgoOn hstep
  | submitting =>
    rw [Engine.advance] at hnext
    split_ifs at hnext
    · rw [← Option.some.inj hnext]
      exact hhoused.graph rfl (.inr (by rw [hcall]; rfl))
    · obtain ⟨graph, hstep, rfl⟩ := Option.map_eq_some_iff.mp hnext
      exact hgoOn hstep
  | tearing remaining => exact absurd hcall (hoperating.kept remaining)
  | closing => exact absurd hcall hoperating.open_

/-- An `execute` call takes its next step. -/
theorem Housed.run (hhoused : Housed s) (hoperating : Operating setup s) {exec : Exec}
    {devices : Devices} (hnext : s.run setup exec devices = some next) : Housed next := by
  rcases Engine.run_cases hnext with
    ⟨node, task, pointer, job, hexec, hbody, hclosure, hjob, rfl⟩ | ⟨call, -, -, rfl⟩
  · exact hhoused.runBody hoperating.serving (hoperating.task_lt hexec) hbody hclosure hjob devices
  · exact hhoused.extends (s.graph.extends_run exec call)

/-- A step of the client or of an executor. -/
theorem Housed.step (hhoused : Housed s) (hoperating : Operating setup s)
    {action : EngineAction Exec} (hrequesting : Requesting action)
    (hnext : Engine.step setup s action = some next) : Housed next := by
  cases action with
  | submit request =>
    rw [Engine.step] at hnext
    split_ifs at hnext with hcall
    rw [← Option.some.inj hnext]
    exact hhoused.submit hoperating.serving hcall request
  | destroy => contradiction
  | advance granted =>
    obtain ⟨call, hcall, hadvance⟩ := Option.bind_eq_some_iff.mp hnext
    exact hhoused.advance hoperating hcall hrequesting hadvance
  | take exec node =>
    obtain ⟨graph, hstep, rfl⟩ := Option.map_eq_some_iff.mp hnext
    have hnextTask : graph.nextTask = s.graph.nextTask := by
      rw [LiveGraph.step] at hstep
      split_ifs at hstep
      rw [← Option.some.inj hstep]
      rfl
    exact hhoused.graph hnextTask (.inl rfl)
  | run exec devices => exact hhoused.run hoperating hnext

omit [DecidableEq Exec] in
/-- At rest nobody has a job. -/
theorem Housed.jobs_eq_none (hhoused : Housed s) (hoperating : Operating setup s)
    (hexecs : Engine.maxTasks + Fintype.card Exec < word32) (hcall : s.call = none)
    (houtstanding : s.graph.outstanding = 0) (pointer : JobPointer) : s.jobs pointer = none := by
  rw [← Option.not_isSome_iff_eq_none]
  intro halive
  have hlength := hoperating.serving.length
  rw [hcall, Option.any_none, if_neg Bool.false_ne_true, Nat.add_zero] at hlength
  rcases hhoused.owned pointer halive with hallocated | hfilled | ⟨number, hlt, -, hbody⟩
  · exact absurd (hcall.symm.trans hallocated) (by simp)
  · exact absurd (hcall.symm.trans hfilled) (by simp)
  · exact hbody (hoperating.returned hexecs hcall houtstanding (hlength ▸ hlt))

omit [DecidableEq Exec] in
/-- When the client is in no call and nothing is outstanding, the engine is at rest. -/
theorem Housed.atRest (hhoused : Housed s) (hoperating : Operating setup s)
    (hshaped : setup.session.Shaped) (hexecs : Engine.maxTasks + Fintype.card Exec < word32)
    (hcall : s.call = none) (houtstanding : s.graph.outstanding = 0) : AtRest setup s := by
  have hnone := hhoused.jobs_eq_none hoperating hexecs hcall houtstanding
  obtain ⟨hjobs, htensors⟩ := hhoused.stocked.perm hnone hoperating.serving.store
  refine ⟨hnone, hjobs, htensors, fun number request hrequest htakes ↦ ?_⟩
  have hprogress := hoperating.serving.progress number request hrequest
  rw [hoperating.returned hexecs hcall houtstanding
    (List.getElem?_eq_some_iff.mp hrequest).1] at hprogress
  obtain ⟨result, hresult, hevents⟩ := hprogress
  rw [hevents, hresult.eq_answer hshaped htakes]

end Steps

/-- An accelerator whose memory is not zero. -/
def usedDevices : Devices := ⟨⟨fun _ ↦ some 64, fun _ ↦ some 128, fun _ _ ↦ 1⟩, .new, true⟩

/-- A request for a tensor of two elements, answered through the promise. -/
def zerosRequest : InferRequest := ⟨.zeros 2 (by decide), false, by decide⟩

/-- Two requests for tensors from the pool are submitted, and then served by the accelerator. -/
def zerosSchedule (exec : Exec) : List (EngineAction Exec) :=
  .submit zerosRequest :: List.replicate 18 (.advance true) ++
    .submit { zerosRequest with callback := true } :: List.replicate 15 (.advance true) ++
    .take exec 0 :: List.replicate 11 (.run exec usedDevices) ++
    .take exec 1 :: List.replicate 11 (.run exec usedDevices)

end GameEngine.Ai
