import GameEngine.Ai.ModelSwap
import GameEngine.Ai.RequestService

/-!
# Failed loads

The three loaders of `InferenceEngine` clear the session first and look at their arguments then. A
load that fails has therefore unloaded the model. `LoadedEngine` is what the loaders and a request
share: the backend, whether an accelerator is known to work, the session and the accelerator.

`failed_load_unloads` says what a failed load leaves: a session without a model, everything else as
it was, and requests that no model answers. `failed_load_changes_result` is an identity that a
failed load replaces by no model.
-/

set_option autoImplicit false
set_option relaxedAutoImplicit false

namespace GameEngine.Ai

/-- `InferenceEngine::Impl` as far as models and their evaluation go. -/
structure LoadedEngine where
  backend : InferenceBackend
  accelerator : Bool
  session : OnnxSession
  npu : SimulatedNpu
deriving DecidableEq

namespace LoadedEngine

/-- A new engine holds an identity of any width. -/
def new (runtimeAvailable : Bool) (requested : InferenceBackend) : LoadedEngine :=
  let backend := resolveBackend runtimeAvailable requested
  { backend := backend
    accelerator := backend = .simulatedNpu || backend = .onnxRuntime
    session := (OnnxSession.new.loadIdentity 0).1
    npu := .new }

/-- `load_identity`. -/
def loadIdentity (engine : LoadedEngine) (features : Int32) : LoadedEngine × Bool :=
  let (session, loaded) := engine.session.loadIdentity features
  ({ engine with session := session }, loaded)

/-- `load_linear`. -/
def loadLinear (engine : LoadedEngine) (weights bias : Option (ℕ → FloatBits))
    (inFeatures outFeatures : Int32) (relu : Bool) : LoadedEngine × Bool :=
  let (session, loaded) := engine.session.loadLinear weights bias inFeatures outFeatures relu
  ({ engine with session := session }, loaded)

/-- `load_onnx`. -/
def loadOnnx (engine : LoadedEngine) (path : Option (List UInt8)) (opened : Bool) :
    LoadedEngine × Bool :=
  let (session, loaded) := engine.session.loadFile path opened
  if loaded then
    ({ engine with session := session, backend := .onnxRuntime, accelerator := true }, true)
  else ({ engine with session := session }, false)

/-- The engine after a call of a loader, and what the call returns. -/
def load (engine : LoadedEngine) : OnnxSession.LoadCall → LoadedEngine × Bool
  | .identity features => engine.loadIdentity features
  | .linear weights bias inFeatures outFeatures relu =>
    engine.loadLinear weights bias inFeatures outFeatures relu
  | .file path opened => engine.loadOnnx path opened

/-- What the execution of a request is given besides the session. -/
def execution (engine : LoadedEngine) (kernels : Kernels) (memory : DeviceMemory)
    (request : InferRequest) : Execution :=
  ⟨kernels, engine.backend, memory, engine.npu, engine.accelerator, request.copy⟩

/-- The vector that a request yields. -/
def submit (engine : LoadedEngine) (kernels : Kernels) (memory : DeviceMemory)
    (request : InferRequest) : List FloatBits :=
  (engine.execution kernels memory request).result engine.session

end LoadedEngine

/-! ### A session that has been cleared -/

namespace OnnxSession

/-- Nothing of a model is left. -/
theorem clear_eq_new (session : OnnxSession) : session.clear = new := rfl

/-- A call that fails has cleared the session. -/
theorem load_of_failed {session : OnnxSession} {call : LoadCall}
    (hfailed : (session.load call).2 = false) : (session.load call).1 = new := by
  cases call with
  | linear weights bias inFeatures outFeatures relu =>
    simp only [load, loadLinear] at hfailed ⊢
    cases weights with
    | none => exact clear_eq_new session
    | some weights =>
      simp only at hfailed ⊢
      split_ifs at hfailed ⊢
      exact clear_eq_new session
  | identity features =>
    simp only [load, loadIdentity] at hfailed ⊢
    split_ifs at hfailed ⊢
    exact clear_eq_new session
  | file path opened =>
    simp only [load, loadFile] at hfailed ⊢
    split_ifs at hfailed ⊢
    · exact clear_eq_new session
    · exact clear_eq_new session

end OnnxSession

namespace LoadedEngine

/-- A loader changes the session as the loader of the session does, and returns what it returns. -/
theorem load_session (engine : LoadedEngine) (call : OnnxSession.LoadCall) :
    (engine.load call).1.session = (engine.session.load call).1 ∧
      (engine.load call).2 = (engine.session.load call).2 := by
  cases call with
  | linear weights bias inFeatures outFeatures relu => exact ⟨rfl, rfl⟩
  | identity features => exact ⟨rfl, rfl⟩
  | file path opened =>
    simp only [load, loadOnnx, OnnxSession.load]
    split_ifs with hloaded
    · exact ⟨rfl, hloaded.symm⟩
    · exact ⟨rfl, (Bool.eq_false_iff.mpr hloaded).symm⟩

/-- A loader that fails leaves everything but the session. -/
theorem load_of_failed {engine : LoadedEngine} {call : OnnxSession.LoadCall}
    (hfailed : (engine.load call).2 = false) :
    (engine.load call).1 = { engine with session := .new } := by
  obtain ⟨hsession, hloaded⟩ := engine.load_session call
  rw [OnnxSession.load_of_failed (hloaded ▸ hfailed)] at hsession
  rw [← hsession]
  cases call with
  | linear weights bias inFeatures outFeatures relu => rfl
  | identity features => rfl
  | file path opened =>
    simp only [load, loadOnnx] at hfailed ⊢
    split_ifs at hfailed ⊢
    rfl

end LoadedEngine

/-- For every engine and every call of a loader that returns false: the session is afterwards one
without a model, whatever was loaded before, and the rest of the engine is as it was; the model is
the one loaded before if and only if none was; and every request yields a vector of the size of its
input that the model does not write. -/
theorem failed_load_unloads (engine : LoadedEngine) (call : OnnxSession.LoadCall)
    (hfailed : (engine.load call).2 = false) :
    (engine.load call).1 = { engine with session := .new } ∧
      ((engine.load call).1.session = engine.session ↔ engine.session = .new) ∧
      ∀ kernels memory request, (engine.load call).1.submit kernels memory request =
        (engine.execution kernels memory request).unwritten request.copy.size := by
  have hload := LoadedEngine.load_of_failed hfailed
  refine ⟨hload, ?_, fun kernels memory request ↦ ?_⟩
  · rw [hload]
    exact eq_comm
  · rw [hload]
    exact Execution.resultSized_of_none (engine.execution kernels memory request)
      (show OnnxSession.new.kind = .none from rfl) request.copy.size

/-- The theorem at a linear model with a null pointer as weights. -/
theorem failed_load_unloads_null :
    (((LoadedEngine.new false .auto).load (.linear none none 2 2 true)).1.session = .new) := by
  rw [(failed_load_unloads (.new false .auto) (.linear none none 2 2 true) rfl).1]

/-- An engine with an identity returns a one as it is. After `load_identity(-1)` has returned false,
it returns a zero. -/
theorem failed_load_changes_result :
    let engine := LoadedEngine.new false .simdFallback
    let request : InferRequest := ⟨⟨some [0x3f800000], 1, by simp, by decide⟩, false, by decide⟩
    let memory : DeviceMemory := ⟨fun _ ↦ none, fun _ ↦ none, fun _ _ ↦ 0⟩
    (engine.load (.identity (-1))).2 = false ∧
      (engine.load (.identity (-1))).1.session ≠ engine.session ∧
      engine.submit biasOnly memory request = [0x3f800000] ∧
      (engine.load (.identity (-1))).1.submit biasOnly memory request = [0] := by
  intro engine request memory
  exact ⟨by decide, by decide, by decide, by decide⟩

end GameEngine.Ai
