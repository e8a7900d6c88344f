import GameEngine.Ai.OnnxSession

/-!
# Executing a model on a backend

`InferenceEngine::Impl::execute` of `ai/inference_engine` evaluates the session's model on a tensor.
The fallback evaluates it into a vector of zeros. The simulated accelerator of `ai/simulated_npu`
evaluates it into a block of device memory, which it then copies into the vector whether or not the
session wrote it.

`backends_agree_iff` says exactly for which tensors the two backends agree whatever the block held
before: those the model takes, the empty ones, and those for which there was no device memory.
`backends_disagree` is a tensor of three elements and a model of two inputs.
-/

set_option autoImplicit false
set_option relaxedAutoImplicit false

namespace GameEngine.Ai

open GameEngine.Library
open MachineWord

/-! ### Device memory -/

/-- `SimulatedNpu::Impl`: the blocks in use, by address, with the bytes asked for. -/
structure SimulatedNpu where
  blocks : List (ℕ × ℕ)
  total : ℕ
deriving DecidableEq

namespace SimulatedNpu

/-- An accelerator without blocks. -/
def new : SimulatedNpu := ⟨[], 0⟩

/-- The bytes that `host_aligned_alloc` asks the system for. -/
def hostAllocBytes (bytes : ℕ) : ℕ :=
  let size := addMod word64 bytes 63 &&& (word64 - 1 - 63)
  if size = 0 then 64 else size

/-- The bytes that an allocation of a number of bytes asks the system for. -/
def requestedBytes (bytes : ℕ) : ℕ := hostAllocBytes (if bytes = 0 then 64 else bytes)

/-- Allocates a block and returns its address. `system` answers the request for memory. -/
def malloc (npu : SimulatedNpu) (bytes : ℕ) (system : ℕ → Option ℕ) : SimulatedNpu × Option ℕ :=
  match system (requestedBytes bytes) with
  | none => (npu, none)
  | some address =>
    ({ blocks := (address, bytes) :: npu.blocks.filter (·.1 ≠ address)
       total := addMod word64 npu.total bytes }, some address)

/-- Frees a block. Other addresses, and the null pointer, are ignored. -/
def free (npu : SimulatedNpu) (address : Option ℕ) : SimulatedNpu :=
  match address with
  | none => npu
  | some address =>
    match npu.blocks.lookup address with
    | none => npu
    | some bytes =>
      { blocks := npu.blocks.filter (·.1 ≠ address)
        total := if bytes ≤ npu.total then npu.total - bytes else npu.total }

end SimulatedNpu

/-- What the system gives to the two device allocations of an execution, by the number of bytes, and
what the memory at each address holds at first. -/
structure DeviceMemory where
  first : ℕ → Option ℕ
  second : ℕ → Option ℕ
  contents : ℕ → ℕ → FloatBits

/-! ### Execution -/

/-- A `TensorBuffer` as its users see it: the elements behind the pointer, unless it is null, and
their number. -/
structure TensorBuffer where
  data : Option (List FloatBits)
  size : ℕ
  length_data : ∀ cells ∈ data, cells.length = size
  size_fits : data.isSome → size * floatBytes < word64

/-- `InferenceBackend`. -/
inductive InferenceBackend
  | auto
  | onnxRuntime
  | simulatedNpu
  | simdFallback
deriving DecidableEq

/-- The backend an engine uses for a requested one. -/
def resolveBackend (runtimeAvailable : Bool) (requested : InferenceBackend) : InferenceBackend :=
  if requested = .onnxRuntime ∧ !runtimeAvailable then .simulatedNpu
  else if requested = .auto then
    if runtimeAvailable then .onnxRuntime else .simulatedNpu
  else requested

/-- The pointer to the elements of a vector. It is null for an empty one. -/
def vectorData (cells : List FloatBits) : Option (List FloatBits) :=
  if cells = [] then none else some cells

/-- What a buffer holds after `session.run` got the pointer to it. The result of the call is not
looked at. -/
def afterRun (kernels : Kernels) (session : OnnxSession) (input : List FloatBits) (inCount : ℕ)
    (pointer : Option (List FloatBits)) (buffer : List FloatBits) : List FloatBits :=
  (session.run kernels (some input) inCount pointer buffer.length).getD buffer

/-- `execute` from the allocation of the output on. Returns the vector, the accelerator and whether
the accelerator is known to work. -/
def executeSized (kernels : Kernels) (backend : InferenceBackend) (session : OnnxSession)
    (memory : DeviceMemory) (npu : SimulatedNpu) (accelerator : Bool) (input : TensorBuffer)
    (outCount : ℕ) : List FloatBits × SimulatedNpu × Bool :=
  let out := List.replicate outCount 0
  match input.data with
  | none => (out, npu, accelerator)
  | some x =>
    if input.size = 0 then (out, npu, accelerator)
    else if backend = .simulatedNpu then
      match npu.malloc (input.size * floatBytes % word64) memory.first with
      | (npu, none) =>
        (afterRun kernels session x input.size (vectorData out) out, npu, accelerator)
      | (npu, some dx) =>
        match npu.malloc (outCount * floatBytes % word64) memory.second with
        | (npu, none) =>
          (afterRun kernels session x input.size (vectorData out) out, npu.free (some dx),
            accelerator)
        | (npu, some dy) =>
          let y := readFloats (memory.contents dy) outCount
          (afterRun kernels session x input.size (some y) y, (npu.free (some dx)).free (some dy),
            true)
    else (afterRun kernels session x input.size (vectorData out) out, npu, accelerator)

/-- Evaluates the session's model on a tensor. -/
def execute (kernels : Kernels) (backend : InferenceBackend) (session : OnnxSession)
    (memory : DeviceMemory) (npu : SimulatedNpu) (accelerator : Bool) (input : TensorBuffer) :
    List FloatBits × SimulatedNpu × Bool :=
  executeSized kernels backend session memory npu accelerator input (session.outCount input.size)

/-! ### The vector that is returned -/

/-- The device addresses that the two allocations of an execution get, if both are answered. -/
def deviceOutput (memory : DeviceMemory) (inCount outCount : ℕ) : Option ℕ :=
  (memory.first (SimulatedNpu.requestedBytes (inCount * floatBytes % word64))).bind fun _ ↦
    memory.second (SimulatedNpu.requestedBytes (outCount * floatBytes % word64))

/-- What the buffer that the model is evaluated into holds at first. -/
def freshOutput (backend : InferenceBackend) (memory : DeviceMemory) (inCount outCount : ℕ) :
    List FloatBits :=
  match if backend = .simulatedNpu then deviceOutput memory inCount outCount else none with
  | some dy => readFloats (memory.contents dy) outCount
  | none => List.replicate outCount 0

@[simp] theorem length_readFloats (pointer : ℕ → FloatBits) (count : ℕ) :
    (readFloats pointer count).length = count := by
  simp [readFloats]

@[simp] theorem length_freshOutput (backend : InferenceBackend) (memory : DeviceMemory)
    (inCount outCount : ℕ) : (freshOutput backend memory inCount outCount).length = outCount := by
  unfold freshOutput
  split <;> simp

/-- A run on an empty buffer leaves it empty. -/
theorem afterRun_nil (kernels : Kernels) (session : OnnxSession) {input : List FloatBits}
    {inCount : ℕ} (pointer : Option (List FloatBits)) (hpointer : ∀ cells ∈ pointer, cells = []) :
    afterRun kernels session input inCount pointer [] = [] := by
  cases pointer with
  | none => rfl
  | some cells =>
    obtain rfl := hpointer cells rfl
    simp only [afterRun, OnnxSession.run, List.length_nil]
    cases session.kind with
    | none => rfl
    | ort => rfl
    | identity =>
      simp only
      split_ifs with hlength
      · rfl
      · rfl
      · simp [not_ne_iff.mp hlength]
    | linear =>
      simp only
      split_ifs with hcast hrelu
      · rfl
      · rw [not_or, not_ne_iff, not_ne_iff] at hcast
        have hrows : session.outFeatures ≤ 0 := hcast.2 ▸ Int32.le_refl _
        simp [simdGemv, hrows, simdRelu]
      · rw [not_or, not_ne_iff, not_ne_iff] at hcast
        have hrows : session.outFeatures ≤ 0 := hcast.2 ▸ Int32.le_refl _
        simp [simdGemv, hrows]

/-- The null pointer to an empty vector makes no difference. -/
theorem afterRun_vectorData (kernels : Kernels) (session : OnnxSession) (input : List FloatBits)
    (inCount : ℕ) (buffer : List FloatBits) :
    afterRun kernels session input inCount (vectorData buffer) buffer =
      afterRun kernels session input inCount (some buffer) buffer := by
  unfold vectorData
  split_ifs with hnil
  · subst hnil
    rw [afterRun_nil, afterRun_nil] <;> simp
  · rfl

/-- The vector is what a run on the fresh output leaves in it. -/
theorem executeSized_fst (kernels : Kernels) (backend : InferenceBackend) (session : OnnxSession)
    (memory : DeviceMemory) (npu : SimulatedNpu) (accelerator : Bool) {input : TensorBuffer}
    {x : List FloatBits} (hdata : input.data = some x) (hsize : input.size ≠ 0) (outCount : ℕ) :
    (executeSized kernels backend session memory npu accelerator input outCount).1 =
      afterRun kernels session x input.size
        (some (freshOutput backend memory input.size outCount))
        (freshOutput backend memory input.size outCount) := by
  simp only [executeSized, hdata, if_neg hsize, freshOutput, deviceOutput, SimulatedNpu.malloc]
  split_ifs with hbackend
  · cases memory.first _ with
    | none => exact afterRun_vectorData kernels session x input.size _
    | some dx =>
      cases memory.second _ with
      | none => exact afterRun_vectorData kernels session x input.size _
      | some dy => rfl
  · exact afterRun_vectorData kernels session x input.size _

/-- An empty tensor gives zeros. -/
theorem executeSized_empty (kernels : Kernels) (backend : InferenceBackend) (session : OnnxSession)
    (memory : DeviceMemory) (npu : SimulatedNpu) (accelerator : Bool) {input : TensorBuffer}
    (hempty : input.data = none ∨ input.size = 0) (outCount : ℕ) :
    (executeSized kernels backend session memory npu accelerator input outCount).1 =
      List.replicate outCount 0 := by
  unfold executeSized
  cases hdata : input.data with
  | none => rfl
  | some x => simp [hempty.resolve_left (by simp [hdata])]

/-- A refused run leaves the fresh output as it is. -/
theorem afterRun_of_not_fits (kernels : Kernels) {session : OnnxSession} (hshaped : session.Shaped)
    (input : List FloatBits) {inCount : ℕ} (hfits : ¬ session.Fits inCount)
    {buffer : List FloatBits} (hbuffer : buffer.length = session.outCount inCount) :
    afterRun kernels session input inCount (some buffer) buffer = buffer := by
  rw [afterRun, hbuffer]
  rw [← hshaped.run_isSome_iff kernels input buffer, Option.not_isSome_iff_eq_none] at hfits
  rw [hfits, Option.getD_none]

/-- A run that writes makes no difference between two fresh outputs. -/
theorem afterRun_of_fits (kernels : Kernels) {session : OnnxSession} (hshaped : session.Shaped)
    (input : List FloatBits) {inCount : ℕ} (hfits : session.Fits inCount)
    {buffer other : List FloatBits} (hbuffer : buffer.length = session.outCount inCount)
    (hother : other.length = session.outCount inCount) :
    afterRun kernels session input inCount (some buffer) buffer =
      afterRun kernels session input inCount (some other) other := by
  rw [afterRun, afterRun, hbuffer, hother, ← hshaped.run_congr kernels input hbuffer hother]
  obtain ⟨y, hy⟩ := Option.isSome_iff_exists.mp
    ((hshaped.run_isSome_iff kernels input buffer).mpr hfits)
  rw [hy, Option.getD_some, Option.getD_some]

/-! ### Agreement of the backends -/

/-- The vectors that the simulated accelerator and the fallback return are the same. -/
def BackendsAgree (kernels : Kernels) (session : OnnxSession) (memory : DeviceMemory)
    (npu : SimulatedNpu) (input : TensorBuffer) : Prop :=
  (execute kernels .simulatedNpu session memory npu true input).1 =
    (execute kernels .simdFallback session memory npu false input).1

/-- For every loaded model and every tensor, the backends agree whatever the device memory held
before exactly when there is no memory for one of the device buffers, the tensor is empty, or the
model takes tensors of its length. -/
theorem backends_agree_iff (kernels : Kernels) (calls : List OnnxSession.LoadCall)
    (first second : ℕ → Option ℕ) (npu : SimulatedNpu) (input : TensorBuffer) :
    (∀ contents, BackendsAgree kernels (OnnxSession.loadAll calls) ⟨first, second, contents⟩ npu
        input) ↔
      first (SimulatedNpu.requestedBytes (input.size * floatBytes % word64)) = none ∨
      second (SimulatedNpu.requestedBytes
        ((OnnxSession.loadAll calls).outCount input.size * floatBytes % word64)) = none ∨
      input.data = none ∨ input.size = 0 ∨ (OnnxSession.loadAll calls).Fits input.size := by
  have hshaped := OnnxSession.shaped_loadAll calls
  generalize OnnxSession.loadAll calls = session at hshaped ⊢
  by_cases hempty : input.data = none ∨ input.size = 0
  · have hagree : ∀ contents,
        BackendsAgree kernels session ⟨first, second, contents⟩ npu input := by
      intro contents
      rw [BackendsAgree, execute, execute, executeSized_empty _ _ _ _ _ _ hempty,
        executeSized_empty _ _ _ _ _ _ hempty]
    exact ⟨fun _ ↦ .inr (.inr (hempty.imp_right .inl)), fun _ ↦ hagree⟩
  · rw [not_or] at hempty
    obtain ⟨hdata, hsize⟩ := hempty
    obtain ⟨x, hx⟩ := Option.ne_none_iff_exists'.mp hdata
    have hout := hshaped.outCount_pos (Nat.pos_of_ne_zero hsize)
    simp only [BackendsAgree, execute, executeSized_fst _ _ _ _ _ _ hx hsize, hdata, hsize,
      false_or]
    constructor
    · intro hagree
      by_contra hnone
      simp only [not_or] at hnone
      obtain ⟨hfirst, hsecond, hfits⟩ := hnone
      obtain ⟨dx, hdx⟩ := Option.ne_none_iff_exists'.mp hfirst
      obtain ⟨dy, hdy⟩ := Option.ne_none_iff_exists'.mp hsecond
      -- the run refuses, so the device block is returned as it was allocated
      have hvectors := hagree fun _ _ ↦ 1
      rw [afterRun_of_not_fits kernels hshaped x hfits (length_freshOutput ..),
        afterRun_of_not_fits kernels hshaped x hfits (length_freshOutput ..)] at hvectors
      have hones : freshOutput .simulatedNpu ⟨first, second, fun _ _ ↦ 1⟩ input.size
          (session.outCount input.size) = List.replicate (session.outCount input.size) 1 := by
        simp [freshOutput, deviceOutput, hdx, hdy, readFloats]
      have hzeros : freshOutput .simdFallback ⟨first, second, fun _ _ ↦ 1⟩ input.size
          (session.outCount input.size) = List.replicate (session.outCount input.size) 0 := by
        simp [freshOutput]
      rw [hones, hzeros, List.replicate_inj] at hvectors
      exact absurd (hvectors.2.resolve_left hout.ne') (by decide)
    · intro hcase contents
      have hfallback : deviceOutput ⟨first, second, contents⟩ input.size
          (session.outCount input.size) = none →
          freshOutput .simulatedNpu ⟨first, second, contents⟩ input.size
            (session.outCount input.size) =
          freshOutput .simdFallback ⟨first, second, contents⟩ input.size
            (session.outCount input.size) := by
        intro hnone
        simp [freshOutput, hnone]
      rcases hcase with hfirst | hsecond | hfits
      · rw [hfallback (by simp [deviceOutput, hfirst])]
      · rw [hfallback (by simp [deviceOutput, hsecond])]
      · exact afterRun_of_fits kernels hshaped x hfits (length_freshOutput ..)
          (length_freshOutput ..)

/-- The weights of a model of two inputs and one output, in `float` bits. -/
def twoInputs : OnnxSession.LoadCall := .linear (some fun _ ↦ 0x3f800000) none 2 1 false

/-- A tensor of three zeros. -/
def threeZeros : TensorBuffer := ⟨some [0, 0, 0], 3, by simp, by decide⟩

/-- The kernels of a machine that adds nothing up. -/
def biasOnly : Kernels := ⟨fun _ _ bias ↦ bias, fun _ _ value ↦ value⟩

/-- A tensor of three elements and a model of two inputs: the fallback returns a zero, and the
accelerator what its memory held before. -/
theorem backends_disagree :
    ¬ BackendsAgree biasOnly (OnnxSession.loadAll [twoInputs])
      ⟨fun _ ↦ some 64, fun _ ↦ some 128, fun _ _ ↦ 1⟩ .new threeZeros := by
  have haccelerator : (execute biasOnly .simulatedNpu (OnnxSession.loadAll [twoInputs])
      ⟨fun _ ↦ some 64, fun _ ↦ some 128, fun _ _ ↦ 1⟩ .new true threeZeros).1 = [1] := by decide
  have hfallback : (execute biasOnly .simdFallback (OnnxSession.loadAll [twoInputs])
      ⟨fun _ ↦ some 64, fun _ ↦ some 128, fun _ _ ↦ 1⟩ .new false threeZeros).1 = [0] := by decide
  rw [BackendsAgree, haccelerator, hfallback]
  decide

end GameEngine.Ai
