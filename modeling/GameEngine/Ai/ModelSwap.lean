import GameEngine.Ai.InferenceExecute
import GameEngine.Library.TransitionSystem

/-!
# Loading a model while another one is being executed

Nothing keeps `InferenceEngine::load_linear` and `load_identity` apart from a worker that executes
an earlier request. The client writes the members of the session one by one, the kind first to none
and last to the new one. The worker reads the widths one by one, allocates the output and runs the
session.

`swap_result` says what the worker can return: the vector of the old model, that of the new model,
or an output of a size read along the way that the session did not write. `swap_mixes_sizes` is such
an output: one element, for a model of two outputs.
-/

set_option autoImplicit false
set_option relaxedAutoImplicit false

namespace GameEngine.Ai

open GameEngine.Library
open MachineWord TransitionSystem OnnxSession

/-! ### The statements of a loading call -/

/-- A statement of a loading call: it assigns one member of the session. -/
inductive Assignment
  | kind (value : Kind)
  | inFeatures (value : Int32)
  | outFeatures (value : Int32)
  | relu (value : Bool)
  | weights (cells : List FloatBits)
  | bias (cells : List FloatBits)
deriving DecidableEq

/-- The session after a statement. -/
def Assignment.apply (session : OnnxSession) : Assignment → OnnxSession
  | .kind value => { session with kind := value }
  | .inFeatures value => { session with inFeatures := value }
  | .outFeatures value => { session with outFeatures := value }
  | .relu value => { session with relu := value }
  | .weights cells => { session with weights := cells }
  | .bias cells => { session with bias := cells }

/-- The statements of `clear` behind the first. -/
def clearing : List Assignment :=
  [.inFeatures 0, .outFeatures 0, .relu false, .weights [], .bias []]

/-- The statements of a loading call behind those of `clear`. -/
def refilling : LoadCall → List Assignment
  | .linear none _ _ _ _ => []
  | .linear (some weights) bias inFeatures outFeatures relu =>
    if inFeatures ≤ 0 ∨ outFeatures ≤ 0 then []
    else
      [.weights (readFloats weights (sizeOfInt inFeatures * sizeOfInt outFeatures % word64)),
        .bias (match bias with
          | some bias => readFloats bias (sizeOfInt outFeatures)
          | none => List.replicate (sizeOfInt outFeatures) 0),
        .inFeatures inFeatures, .outFeatures outFeatures, .relu relu, .kind .linear]
  | .identity features =>
    if features < 0 then []
    else [.inFeatures features, .outFeatures features, .kind .identity]
  | .file path opened => if path = none ∨ path = some [] ∨ !opened then [] else [.kind .ort]

/-- The statements of a loading call. -/
def statements (call : LoadCall) : List Assignment :=
  .kind .none :: clearing ++ refilling call

/-- One after the other, the statements do what the call does. -/
theorem foldl_statements (session : OnnxSession) (call : LoadCall) :
    (statements call).foldl Assignment.apply session = (session.load call).1 := by
  simp only [statements, clearing, List.cons_append, List.nil_append, List.foldl_cons,
    Assignment.apply]
  cases call with
  | linear weights bias inFeatures outFeatures relu =>
    cases weights with
    | none => rfl
    | some weights =>
      simp only [refilling, load, loadLinear]
      split_ifs <;> rfl
  | identity features =>
    simp only [refilling, load, loadIdentity]
    split_ifs <;> rfl
  | file path opened =>
    simp only [refilling, load, loadFile]
    cases opened <;> by_cases hpath : path = none ∨ path = some [] <;>
      simp [hpath, clear, Assignment.apply]

/-- Only the last of some statements gives the session a kind other than none. -/
def KindLast : List Assignment → Prop
  | [] => True
  | assignment :: rest =>
    (rest ≠ [] → ∀ kind, assignment = .kind kind → kind = .none) ∧ KindLast rest

theorem kindLast_statements (call : LoadCall) : KindLast (statements call) := by
  cases call with
  | linear weights bias inFeatures outFeatures relu =>
    cases weights with
    | none => simp [statements, clearing, refilling, KindLast]
    | some weights =>
      simp only [statements, clearing, refilling]
      split_ifs <;> simp [KindLast]
  | identity features =>
    simp only [statements, clearing, refilling]
    split_ifs <;> simp [KindLast]
  | file path opened =>
    simp only [statements, clearing, refilling]
    split_ifs <;> simp [KindLast]

/-- The output widths that a loading call writes are zero and that of its model. -/
theorem outFeatures_statements (session : OnnxSession) (call : LoadCall) (value : Int32)
    (hvalue : .outFeatures value ∈ statements call) :
    value = 0 ∨ value = (session.load call).1.outFeatures := by
  revert hvalue
  cases call with
  | linear weights bias inFeatures outFeatures relu =>
    cases weights with
    | none => simp +contextual [statements, clearing, refilling]
    | some weights =>
      simp only [statements, clearing, refilling, load, loadLinear]
      split_ifs <;> simp +contextual
  | identity features =>
    simp only [statements, clearing, refilling, load, loadIdentity]
    split_ifs <;> simp +contextual
  | file path opened =>
    simp only [statements, clearing, refilling]
    split_ifs <;> simp +contextual

/-! ### The worker -/

/-- How far the worker is. It evaluates `in_features() == 0 && out_features() == 0`, reads the width
of the output if that is false, allocates the output and the device memory, and runs the session. -/
inductive Worker
  | started
  | widthIsZero
  | sizing
  | sized (outCount : ℕ)
  | allocated (outCount : ℕ)
  | returned (result : List FloatBits)
deriving DecidableEq

/-- What an execution is given besides the session. -/
structure Execution where
  kernels : Kernels
  backend : InferenceBackend
  memory : DeviceMemory
  npu : SimulatedNpu
  accelerator : Bool
  input : TensorBuffer

namespace Execution

variable (execution : Execution)

/-- The vector that the execution returns for a session and a size of the output. -/
def resultSized (session : OnnxSession) (outCount : ℕ) : List FloatBits :=
  (executeSized execution.kernels execution.backend session execution.memory execution.npu
    execution.accelerator execution.input outCount).1

/-- The vector that the execution returns when no model is loaded meanwhile. -/
def result (session : OnnxSession) : List FloatBits :=
  (execute execution.kernels execution.backend session execution.memory execution.npu
    execution.accelerator execution.input).1

/-- What the execution returns if the session does not write the output. -/
def unwritten (outCount : ℕ) : List FloatBits :=
  if execution.input.data = none ∨ execution.input.size = 0 then List.replicate outCount 0
  else freshOutput execution.backend execution.memory execution.input.size outCount

theorem resultSized_outCount (session : OnnxSession) :
    execution.resultSized session (session.outCount execution.input.size) =
      execution.result session := rfl

/-- A session without a model leaves the output unwritten. -/
theorem resultSized_of_none {session : OnnxSession} (hkind : session.kind = .none) (outCount : ℕ) :
    execution.resultSized session outCount = execution.unwritten outCount := by
  unfold resultSized unwritten
  split_ifs with hempty
  · exact executeSized_empty _ _ _ _ _ _ hempty outCount
  · rw [not_or] at hempty
    obtain ⟨x, hx⟩ := Option.ne_none_iff_exists'.mp hempty.1
    rw [executeSized_fst _ _ _ _ _ _ hx hempty.2, afterRun]
    simp [run, hkind]

/-- A loaded session writes an output of fewer than 2 ^ 32 elements only if the output has the size
for its model. -/
theorem resultSized_cases {session : OnnxSession} (hshaped : session.Shaped) (outCount : ℕ) :
    execution.resultSized session outCount = execution.unwritten outCount ∨
      outCount = session.outCount execution.input.size ∨ word32 ≤ outCount := by
  by_cases hempty : execution.input.data = none ∨ execution.input.size = 0
  · left
    rw [unwritten, if_pos hempty]
    exact executeSized_empty _ _ _ _ _ _ hempty outCount
  · by_cases hlarge : word32 ≤ outCount
    · exact .inr (.inr hlarge)
    · rw [unwritten, if_neg hempty]
      rw [not_or] at hempty
      obtain ⟨x, hx⟩ := Option.ne_none_iff_exists'.mp hempty.1
      rw [resultSized, executeSized_fst _ _ _ _ _ _ hx hempty.2, afterRun, length_freshOutput]
      cases hrun : session.run execution.kernels (some x) execution.input.size
        (some (freshOutput execution.backend execution.memory execution.input.size outCount))
        outCount with
      | none => exact .inl rfl
      | some y =>
        exact .inr (.inl (hshaped.eq_outCount (Nat.lt_of_not_le hlarge) (by rw [hrun]; rfl)))

end Execution

/-! ### The interleaving -/

/-- A loading call and an execution under way. -/
structure SwapState where
  session : OnnxSession
  remaining : List Assignment
  worker : Worker
deriving DecidableEq

/-- Whose step it is. -/
inductive SwapAction
  | client
  | worker

/-- The worker's next step. -/
def Worker.next (execution : Execution) (session : OnnxSession) : Worker → Option Worker
  | .started => some (if session.inFeatures = 0 then .widthIsZero else .sizing)
  | .widthIsZero =>
    some (if session.outFeatures = 0 then .sized execution.input.size else .sizing)
  | .sizing => some (.sized (sizeOfInt session.outFeatures))
  | .sized outCount => some (.allocated outCount)
  | .allocated outCount => some (.returned (execution.resultSized session outCount))
  | .returned _ => none

/-- The statements of the client and the steps of the worker, one at a time. -/
def modelSwap (execution : Execution) : TransitionSystem SwapState SwapAction where
  step state
    | .client =>
      match state.remaining with
      | [] => none
      | assignment :: rest =>
        some { state with session := assignment.apply state.session, remaining := rest }
    | .worker =>
      (state.worker.next execution state.session).map fun worker ↦ { state with worker := worker }

/-- The client is about to load a model, and the worker about to execute. -/
def SwapState.start (old : OnnxSession) (call : LoadCall) : SwapState :=
  ⟨old, statements call, .started⟩

/-- The sizes of the output that the worker can read: that of the input, zero, and the widths of the
two models. -/
def SizeRead (execution : Execution) (old new : OnnxSession) (outCount : ℕ) : Prop :=
  outCount = execution.input.size ∨ outCount = 0 ∨ outCount = sizeOfInt old.outFeatures ∨
    outCount = sizeOfInt new.outFeatures

/-- What the worker can return: the vector of one of the models, or an output of a size read along
the way that the session did not write. A session takes an output of another size than that of its
model only for an input of 2 ^ 32 elements or more. -/
def SwapResult (execution : Execution) (old new : OnnxSession) (result : List FloatBits) : Prop :=
  result = execution.result old ∨ result = execution.result new ∨
    (∃ outCount, SizeRead execution old new outCount ∧ result = execution.unwritten outCount) ∨
    word32 ≤ execution.input.size ∧ result = execution.resultSized new execution.input.size

/-- What the worker has read while the old model was in place. -/
def Worker.Undisturbed (execution : Execution) (old : OnnxSession) : Worker → Prop
  | .started => True
  | .widthIsZero => old.inFeatures = 0
  | .sizing => ¬ (old.inFeatures = 0 ∧ old.outFeatures = 0)
  | .sized outCount => outCount = old.outCount execution.input.size
  | .allocated outCount => outCount = old.outCount execution.input.size
  | .returned result => result = execution.result old

/-- What the worker has read in any case. -/
def Worker.Read (execution : Execution) (old new : OnnxSession) : Worker → Prop
  | .sized outCount => SizeRead execution old new outCount
  | .allocated outCount => SizeRead execution old new outCount
  | .returned result => SwapResult execution old new result
  | _ => True

section Invariant

variable {execution : Execution} {old new session : OnnxSession} {call : LoadCall}

theorem Worker.Undisturbed.next {worker after : Worker} (hworker : worker.Undisturbed execution old)
    (hnext : worker.next execution old = some after) : after.Undisturbed execution old := by
  cases worker with
  | started =>
    obtain rfl := Option.some.inj hnext
    split_ifs with hzero
    · exact hzero
    · exact fun h ↦ hzero h.1
  | widthIsZero =>
    obtain rfl := Option.some.inj hnext
    split_ifs with hzero
    · exact (if_pos ⟨hworker, hzero⟩).symm
    · exact fun h ↦ hzero h.2
  | sizing =>
    obtain rfl := Option.some.inj hnext
    exact (if_neg hworker).symm
  | sized outCount =>
    obtain rfl := Option.some.inj hnext
    exact hworker
  | allocated outCount =>
    obtain rfl := Option.some.inj hnext
    obtain rfl : outCount = old.outCount execution.input.size := hworker
    rfl
  | returned result => contradiction

/-- A size read that is at least 2 ^ 32 is that of the input. -/
theorem SizeRead.eq_input {outCount : ℕ} (hread : SizeRead execution old new outCount)
    (hold : old.Shaped) (hnew : new.Shaped) (hlarge : word32 ≤ outCount) :
    outCount = execution.input.size := by
  have holdLt := sizeOfInt_lt hold.outFeatures_nonneg
  have hnewLt := sizeOfInt_lt hnew.outFeatures_nonneg
  have hword : 2 ^ 32 ≤ outCount := hlarge
  rcases hread with hinput | hzero | hread | hread
  · exact hinput
  · omega
  · omega
  · omega

/-- What a run of the session gives: the old model is in place and the worker has read nothing else,
the session is being loaded, or the new model is in place. -/
theorem swapResult_resultSized {outCount : ℕ} (hread : SizeRead execution old new outCount)
    (hold : old.Shaped) (hnew : new.Shaped)
    (hsession : session = old ∧ outCount = old.outCount execution.input.size ∨
      session.kind = .none ∨ session = new) :
    SwapResult execution old new (execution.resultSized session outCount) := by
  rcases hsession with ⟨rfl, rfl⟩ | hkind | rfl
  · exact .inl rfl
  · exact .inr (.inr (.inl ⟨outCount, hread, execution.resultSized_of_none hkind outCount⟩))
  · rcases execution.resultSized_cases hnew outCount with hunwritten | rfl | hlarge
    · exact .inr (.inr (.inl ⟨outCount, hread, hunwritten⟩))
    · exact .inr (.inl rfl)
    · obtain rfl := hread.eq_input hold hnew hlarge
      exact .inr (.inr (.inr ⟨hlarge, rfl⟩))

theorem Worker.Read.next {worker after : Worker} (hworker : worker.Read execution old new)
    (hold : old.Shaped) (hnew : new.Shaped)
    (hsession : session = old ∧ worker.Undisturbed execution old ∨ session.kind = .none ∨
      session = new)
    (hwidth : session.outFeatures = 0 ∨ session.outFeatures = old.outFeatures ∨
      session.outFeatures = new.outFeatures)
    (hnext : worker.next execution session = some after) : after.Read execution old new := by
  cases worker with
  | started =>
    obtain rfl := Option.some.inj hnext
    split_ifs <;> trivial
  | widthIsZero =>
    obtain rfl := Option.some.inj hnext
    split_ifs
    · exact .inl rfl
    · trivial
  | sizing =>
    obtain rfl := Option.some.inj hnext
    rcases hwidth with hwidth | hwidth | hwidth
    · exact .inr (.inl (by rw [hwidth, sizeOfInt_zero]))
    · exact .inr (.inr (.inl (by rw [hwidth])))
    · exact .inr (.inr (.inr (by rw [hwidth])))
  | sized outCount =>
    obtain rfl := Option.some.inj hnext
    exact hworker
  | allocated outCount =>
    obtain rfl := Option.some.inj hnext
    exact swapResult_resultSized hworker hold hnew hsession
  | returned result => contradiction

/-- The load has not begun and the worker has read the old model, or the session has no kind, or the
load is over. -/
structure SwapInvariant (execution : Execution) (old : OnnxSession) (call : LoadCall)
    (state : SwapState) : Prop where
  phase : state.remaining = statements call ∧ state.session = old ∧
      state.worker.Undisturbed execution old ∨
    state.session.kind = .none ∨ state.remaining = []
  foldl : state.remaining.foldl Assignment.apply state.session = (old.load call).1
  kindLast : KindLast state.remaining
  remaining : ∀ value, .outFeatures value ∈ state.remaining →
    value = 0 ∨ value = (old.load call).1.outFeatures
  width : state.session.outFeatures = 0 ∨ state.session.outFeatures = old.outFeatures ∨
    state.session.outFeatures = (old.load call).1.outFeatures
  read : state.worker.Read execution old (old.load call).1

theorem swapInvariant_start (execution : Execution) (old : OnnxSession) (call : LoadCall) :
    SwapInvariant execution old call (.start old call) where
  phase := .inl ⟨rfl, rfl, trivial⟩
  foldl := foldl_statements old call
  kindLast := kindLast_statements call
  remaining := outFeatures_statements old call
  width := .inr (.inl rfl)
  read := trivial

/-- A statement other than one that gives the session a kind leaves it without one. -/
theorem Assignment.kind_apply {assignment : Assignment} (hsession : session.kind = .none)
    (hassignment : ∀ kind, assignment = .kind kind → kind = .none) :
    (assignment.apply session).kind = .none := by
  cases assignment with
  | kind value => exact hassignment value rfl
  | _ => exact hsession

theorem Assignment.outFeatures_apply (assignment : Assignment) (session : OnnxSession) :
    (assignment.apply session).outFeatures = session.outFeatures ∨
      assignment = .outFeatures (assignment.apply session).outFeatures := by
  cases assignment with
  | outFeatures value => exact .inr rfl
  | _ => exact .inl rfl

theorem SwapInvariant.client {state : SwapState} (hinv : SwapInvariant execution old call state)
    {assignment : Assignment} {rest : List Assignment}
    (hremaining : state.remaining = assignment :: rest) :
    SwapInvariant execution old call
      { state with session := assignment.apply state.session, remaining := rest } := by
  obtain ⟨hphase, hfoldl, hkindLast, hwidths, hwidth, hread⟩ := hinv
  rw [hremaining] at hfoldl hkindLast hwidths
  refine ⟨.inr ?_, hfoldl, hkindLast.2, fun value hvalue ↦ hwidths value (.tail _ hvalue), ?_,
    hread⟩
  · rcases hphase with ⟨hstatements, -, -⟩ | hkind | hnil
    · -- the first statement takes the kind away
      rw [hremaining] at hstatements
      obtain ⟨rfl, -⟩ := List.cons.inj hstatements
      exact .inl rfl
    · by_cases hrest : rest = []
      · exact .inr hrest
      · exact .inl (Assignment.kind_apply hkind (hkindLast.1 hrest))
    · rw [hremaining] at hnil
      contradiction
  · rcases assignment.outFeatures_apply state.session with hkeep | hwrite
    · rw [hkeep]
      exact hwidth
    · have hmem : .outFeatures (assignment.apply state.session).outFeatures ∈ assignment :: rest :=
        hwrite.symm ▸ List.mem_cons_self
      rcases hwidths _ hmem with hvalue | hvalue
      · exact .inl hvalue
      · exact .inr (.inr hvalue)

theorem SwapInvariant.step {state after : SwapState} {action : SwapAction} (hold : old.Shaped)
    (hinv : SwapInvariant execution old call state)
    (hstep : (modelSwap execution).step state action = some after) :
    SwapInvariant execution old call after := by
  cases action with
  | client =>
    simp only [modelSwap] at hstep
    cases hremaining : state.remaining with
    | nil => simp [hremaining] at hstep
    | cons assignment rest =>
      rw [hremaining] at hstep
      obtain rfl := Option.some.inj hstep
      exact hinv.client hremaining
  | worker =>
    simp only [modelSwap, Option.map_eq_some_iff] at hstep
    obtain ⟨worker, hnext, rfl⟩ := hstep
    refine { hinv with phase := ?_, read := ?_ }
    · refine hinv.phase.imp_left fun ⟨hremaining, hsession, hworker⟩ ↦ ⟨hremaining, hsession, ?_⟩
      exact hworker.next (hsession ▸ hnext)
    · refine hinv.read.next hold (shaped_load old call) ?_ hinv.width hnext
      rcases hinv.phase with ⟨-, hsession, hworker⟩ | hkind | hnil
      · exact .inl ⟨hsession, hworker⟩
      · exact .inr (.inl hkind)
      · have hfoldl := hinv.foldl
        rw [hnil] at hfoldl
        exact .inr (.inr hfoldl)

end Invariant

/-- In every interleaving of a loading call with an execution, for every model loaded before, the
worker returns the vector of the old model, that of the new model, or an output of a size read along
the way that the session did not write. -/
theorem swap_result (execution : Execution) (calls : List LoadCall) (call : LoadCall)
    {state : SwapState}
    (hreach : Reaches (modelSwap execution) unguarded (.start (loadAll calls) call) state)
    {result : List FloatBits} (hreturned : state.worker = .returned result) :
    SwapResult execution (loadAll calls) ((loadAll calls).load call).1 result := by
  have hinv : SwapInvariant execution (loadAll calls) call state :=
    hreach.invariant (swapInvariant_start execution (loadAll calls) call)
      fun _ _ _ hinv _ hstep ↦ hinv.step (shaped_loadAll calls) hstep
  have hread := hinv.read
  rw [hreturned] at hread
  exact hread

/-- A linear model of two inputs, all of whose biases are one bit. -/
def twoInputsTo (outFeatures : Int32) : LoadCall :=
  .linear (some fun _ ↦ 0) (some fun _ ↦ 1) 2 outFeatures false

/-- The fallback executes on a tensor of two zeros. -/
def twoZeros : Execution where
  kernels := biasOnly
  backend := .simdFallback
  memory := ⟨fun _ ↦ none, fun _ ↦ none, fun _ _ ↦ 0⟩
  npu := .new
  accelerator := false
  input := ⟨some [0, 0], 2, by simp, by decide⟩

/-- The worker reads the width of a model of one output, a model of two outputs is loaded, and the
session refuses the output of one element. -/
theorem twoZeros_reaches : ∃ state,
    Reaches (modelSwap twoZeros) unguarded (.start (loadAll [twoInputsTo 1]) (twoInputsTo 2))
      state ∧ state.worker = .returned [0] := by
  obtain ⟨state, hreach, hstate⟩ := Reaches.exists_of_schedule (modelSwap twoZeros)
    (.start (loadAll [twoInputsTo 1]) (twoInputsTo 2))
    ([.worker, .worker] ++ List.replicate 12 .client ++ [.worker, .worker])
    (fun state ↦ decide (state.worker = .returned [0])) (by decide)
  exact ⟨state, hreach, of_decide_eq_true hstate⟩

theorem swap_result_twoZeros : SwapResult twoZeros (loadAll [twoInputsTo 1])
    ((loadAll [twoInputsTo 1]).load (twoInputsTo 2)).1 [0] := by
  obtain ⟨state, hreach, hreturned⟩ := twoZeros_reaches
  exact swap_result twoZeros [twoInputsTo 1] (twoInputsTo 2) hreach hreturned

/-- The worker returns the vector of neither model. -/
theorem swap_mixes_sizes : ∃ state result,
    Reaches (modelSwap twoZeros) unguarded (.start (loadAll [twoInputsTo 1]) (twoInputsTo 2))
      state ∧ state.worker = .returned result ∧
    result ≠ twoZeros.result (loadAll [twoInputsTo 1]) ∧
    result ≠ twoZeros.result ((loadAll [twoInputsTo 1]).load (twoInputsTo 2)).1 := by
  obtain ⟨state, hreach, hreturned⟩ := twoZeros_reaches
  exact ⟨state, [0], hreach, hreturned, by decide, by decide⟩

end GameEngine.Ai
