import GameEngine.Library.MachineWord
import Mathlib.Data.List.Basic
import Mathlib.Tactic.SplitIfs

/-!
# Models and their evaluation

`OnnxSession` of `ai/onnx_session` holds one model: none, an identity of a width, or a linear map
with a bias and an optional rectifier. Loading clears the session before it looks at its arguments.
`run` checks the lengths against the model and either writes the output or refuses.

A `float` is given by its bits. The arithmetic of a row and of the rectifier is a parameter,
`Kernels`, because the builds of `ai/simd_kernels` add up a row in different orders. A pointer that
is not null is given by what it points to.

`run_isSome_iff` says when `run` writes an output of the size that the engine makes for it, and
`run_congr` that what it then writes does not depend on what the output held before.
-/

set_option autoImplicit false
set_option relaxedAutoImplicit false

namespace GameEngine.Ai

open GameEngine.Library
open MachineWord

/-- The bits of a `float`. All zero is the number zero. -/
abbrev FloatBits := UInt32

/-- `sizeof(float)`. -/
def floatBytes : ℕ := 4

/-! ### Counts as `int` and as `std::size_t` -/

/-- `static_cast<int>` of a size keeps the low 32 bits. -/
def intOfSize (count : ℕ) : Int32 := Int32.ofNat count

/-- `static_cast<std::size_t>` of an `int` wraps a negative one. -/
def sizeOfInt (value : Int32) : ℕ := (value.toInt % (word64 : ℤ)).toNat

@[simp] theorem sizeOfInt_zero : sizeOfInt 0 = 0 := by decide

/-- The cast keeps a nonnegative `int`. -/
theorem sizeOfInt_eq {value : Int32} (hvalue : 0 ≤ value) :
    (sizeOfInt value : ℤ) = value.toInt := by
  have hnonneg : 0 ≤ value.toInt := Int32.le_iff_toInt_le.mp hvalue
  have hlt : value.toInt < 2 ^ 31 := value.toInt_lt
  have hword : (word64 : ℤ) = 2 ^ 64 := by norm_num [word64]
  rw [sizeOfInt, Int.emod_eq_of_lt hnonneg (by omega), Int.toNat_of_nonneg hnonneg]

theorem sizeOfInt_lt {value : Int32} (hvalue : 0 ≤ value) : sizeOfInt value < 2 ^ 31 := by
  have hlt := value.toInt_lt
  have heq := sizeOfInt_eq hvalue
  omega

theorem sizeOfInt_pos {value : Int32} (hvalue : 0 < value) : 0 < sizeOfInt value := by
  have hpos : 0 < value.toInt := Int32.lt_iff_toInt_lt.mp hvalue
  have heq := sizeOfInt_eq (Int32.le_of_lt hvalue)
  omega

/-- Casting a nonnegative `int` to a size and back gives it again. -/
theorem intOfSize_sizeOfInt {value : Int32} (hvalue : 0 ≤ value) :
    intOfSize (sizeOfInt value) = value := by
  apply Int32.toInt.inj
  rw [intOfSize, Int32.toInt_ofNat_of_lt (sizeOfInt_lt hvalue), sizeOfInt_eq hvalue]

/-- A size that is cast to a nonnegative `int` is that `int`, up to a multiple of the word size. -/
theorem eq_sizeOfInt {value : Int32} {count : ℕ} (hvalue : 0 ≤ value) (hcount : count < word32)
    (hcast : intOfSize count = value) : count = sizeOfInt value := by
  have hint : value.toInt = (count : ℤ).bmod Int32.size := by
    rw [← hcast, intOfSize, Int32.toInt_ofNat']
  have hnonneg : 0 ≤ value.toInt := Int32.le_iff_toInt_le.mp hvalue
  have heq := sizeOfInt_eq hvalue
  have hword : count < 2 ^ 32 := hcount
  rw [Int.bmod_def, show ((Int32.size : ℕ) : ℤ) = 2 ^ 32 from rfl] at hint
  split_ifs at hint <;> omega

/-! ### Kernels -/

/-- The arithmetic of one output element: a row of the weights times the input, added to the bias,
and the rectifier on element `i` of an array of `count`. In a vector unit and in the loop for the
remaining elements the rectifier may treat a NaN differently, hence its place is an argument. -/
structure Kernels where
  dot : (row input : List FloatBits) → (bias : FloatBits) → FloatBits
  clamp : (count i : ℕ) → FloatBits → FloatBits

/-- `simd_gemv` overwrites the first `rows` elements of the output. The pointer to the elements of
an empty vector of weights is null, and a missing bias is zero. -/
def simdGemv (kernels : Kernels) (weights : List FloatBits) (rows cols : Int32)
    (input bias output : List FloatBits) : List FloatBits :=
  if weights = [] ∨ rows ≤ 0 ∨ cols ≤ 0 then output
  else
    ((List.range (sizeOfInt rows)).map fun r ↦
      kernels.dot ((weights.drop (r * sizeOfInt cols)).take (sizeOfInt cols))
        (input.take (sizeOfInt cols)) (bias.getD r 0)) ++ output.drop (sizeOfInt rows)

/-- `simd_relu` on the first `count` elements. -/
def simdRelu (kernels : Kernels) (data : List FloatBits) (count : ℕ) : List FloatBits :=
  data.mapIdx fun i value ↦ if i < count then kernels.clamp count i value else value

/-! ### Sessions -/

/-- `OnnxSession::Impl::Kind`. -/
inductive Kind
  | none
  | identity
  | linear
  | ort
deriving DecidableEq

/-- `OnnxSession::Impl`. The handle of the runtime is left out, as `run` never uses it. -/
structure OnnxSession where
  kind : Kind
  inFeatures : Int32
  outFeatures : Int32
  relu : Bool
  weights : List FloatBits
  bias : List FloatBits
deriving DecidableEq

/-- `vector::assign` from a pointer: the first `count` elements behind it. -/
def readFloats (pointer : ℕ → FloatBits) (count : ℕ) : List FloatBits :=
  (List.range count).map pointer

namespace OnnxSession

/-- A new session. -/
def new : OnnxSession := ⟨.none, 0, 0, false, [], []⟩

/-- Forgets the model. -/
def clear (session : OnnxSession) : OnnxSession :=
  { session with
    kind := .none, inFeatures := 0, outFeatures := 0, relu := false, weights := [], bias := [] }

/-- Loads a linear model, unless the weights are a null pointer or a width is not positive. Returns
the session and whether the model was loaded. -/
def loadLinear (session : OnnxSession) (weights bias : Option (ℕ → FloatBits))
    (inFeatures outFeatures : Int32) (relu : Bool) : OnnxSession × Bool :=
  let session := session.clear
  match weights with
  | none => (session, false)
  | some weights =>
    if inFeatures ≤ 0 ∨ outFeatures ≤ 0 then (session, false)
    else
      let wcount := sizeOfInt inFeatures * sizeOfInt outFeatures % word64
      ({ kind := .linear
         inFeatures := inFeatures
         outFeatures := outFeatures
         relu := relu
         weights := readFloats weights wcount
         bias := match bias with
          | some bias => readFloats bias (sizeOfInt outFeatures)
          | none => List.replicate (sizeOfInt outFeatures) 0 }, true)

/-- Loads an identity, of any width if the width is zero. -/
def loadIdentity (session : OnnxSession) (features : Int32) : OnnxSession × Bool :=
  let session := session.clear
  if features < 0 then (session, false)
  else ({ session with inFeatures := features, outFeatures := features, kind := .identity }, true)

/-- Loads a file, unless the path is a null pointer or empty. `opened` says whether the runtime is
compiled in and could open it. -/
def loadFile (session : OnnxSession) (path : Option (List UInt8)) (opened : Bool) :
    OnnxSession × Bool :=
  let session := session.clear
  if path = none ∨ path = some [] then (session, false)
  else if opened then ({ session with kind := .ort }, true)
  else (session, false)

/-- Evaluates the model. Returns what the output then holds, or nothing if the call refuses and
leaves the output as it was. -/
def run (kernels : Kernels) (session : OnnxSession) (input : Option (List FloatBits)) (inCount : ℕ)
    (output : Option (List FloatBits)) (outCount : ℕ) : Option (List FloatBits) :=
  match input, output with
  | some input, some output =>
    match session.kind with
    | .none => none
    | .identity =>
      if inCount ≠ outCount then none
      else if 0 < session.inFeatures ∧ intOfSize inCount ≠ session.inFeatures then none
      else some (input.take inCount ++ output.drop inCount)
    | .linear =>
      if intOfSize inCount ≠ session.inFeatures ∨ intOfSize outCount ≠ session.outFeatures then none
      else
        let y := simdGemv kernels session.weights session.outFeatures session.inFeatures input
          session.bias output
        some (if session.relu then simdRelu kernels y outCount else y)
    | .ort => none
  | _, _ => none

/-! ### Loaded sessions -/

/-- A call that loads a model. -/
inductive LoadCall
  | linear (weights bias : Option (ℕ → FloatBits)) (inFeatures outFeatures : Int32) (relu : Bool)
  | identity (features : Int32)
  | file (path : Option (List UInt8)) (opened : Bool)

/-- The session after a call, and what the call returns. -/
def load (session : OnnxSession) : LoadCall → OnnxSession × Bool
  | .linear weights bias inFeatures outFeatures relu =>
    session.loadLinear weights bias inFeatures outFeatures relu
  | .identity features => session.loadIdentity features
  | .file path opened => session.loadFile path opened

/-- The session after a sequence of calls on a new one. -/
def loadAll (calls : List LoadCall) : OnnxSession :=
  calls.foldl (fun session call ↦ (session.load call).1) new

/-- The widths fit the kind of the model, and a linear model has weights. -/
structure Shaped (session : OnnxSession) : Prop where
  inFeatures_nonneg : 0 ≤ session.inFeatures
  outFeatures_nonneg : 0 ≤ session.outFeatures
  features_eq : session.kind ≠ .linear → session.outFeatures = session.inFeatures
  linear_pos : session.kind = .linear → 0 < session.inFeatures ∧ 0 < session.outFeatures
  weights_ne : session.kind = .linear → session.weights ≠ []

theorem shaped_clear (session : OnnxSession) : session.clear.Shaped := by
  constructor <;> simp [clear]

theorem shaped_new : new.Shaped := shaped_clear new

/-- Every call leaves a session whose widths fit its kind, whatever it was before. -/
theorem shaped_load (session : OnnxSession) (call : LoadCall) : (session.load call).1.Shaped := by
  cases call with
  | linear weights bias inFeatures outFeatures relu =>
    simp only [load, loadLinear]
    cases weights with
    | none => exact shaped_clear session
    | some weights =>
      simp only
      split_ifs with hrefused
      · exact shaped_clear session
      · rw [not_or, Int32.not_le, Int32.not_le] at hrefused
        obtain ⟨hin, hout⟩ := hrefused
        have hinPos := sizeOfInt_pos hin
        have houtPos := sizeOfInt_pos hout
        have hinLt := sizeOfInt_lt (Int32.le_of_lt hin)
        have houtLt := sizeOfInt_lt (Int32.le_of_lt hout)
        have hcount : sizeOfInt inFeatures * sizeOfInt outFeatures < word64 := by
          calc sizeOfInt inFeatures * sizeOfInt outFeatures
              < 2 ^ 31 * 2 ^ 31 := Nat.mul_lt_mul'' hinLt houtLt
            _ < word64 := by decide
        have hne : sizeOfInt inFeatures * sizeOfInt outFeatures ≠ 0 :=
          Nat.mul_ne_zero hinPos.ne' houtPos.ne'
        refine ⟨Int32.le_of_lt hin, Int32.le_of_lt hout, fun h ↦ absurd rfl h,
          fun _ ↦ ⟨hin, hout⟩, fun _ ↦ ?_⟩
        simpa [readFloats, Nat.mod_eq_of_lt hcount] using hne
  | identity features =>
    simp only [load, loadIdentity]
    split_ifs with hnegative
    · exact shaped_clear session
    · rw [Int32.not_lt] at hnegative
      exact ⟨hnegative, hnegative, fun _ ↦ rfl, fun h ↦ by contradiction,
        fun h ↦ by contradiction⟩
  | file path opened =>
    simp only [load, loadFile]
    split_ifs
    · exact shaped_clear session
    · constructor <;> simp [clear]
    · exact shaped_clear session

theorem shaped_loadAll (calls : List LoadCall) : (loadAll calls).Shaped := by
  have hfold : ∀ session : OnnxSession, session.Shaped →
      (calls.foldl (fun session call ↦ (session.load call).1) session).Shaped := by
    induction calls with
    | nil => exact fun session hshaped ↦ hshaped
    | cons call rest ih => exact fun session _ ↦ ih _ (shaped_load session call)
  exact hfold new shaped_new

/-! ### What `run` writes -/

/-- The size of the output that the engine makes for an input of `inCount` elements. -/
def outCount (session : OnnxSession) (inCount : ℕ) : ℕ :=
  if session.inFeatures = 0 ∧ session.outFeatures = 0 then inCount
  else sizeOfInt session.outFeatures

/-- The model takes inputs of `inCount` elements. -/
def Fits (session : OnnxSession) (inCount : ℕ) : Prop :=
  match session.kind with
  | .identity => session.inFeatures = 0 ∨ inCount = sizeOfInt session.inFeatures
  | .linear => intOfSize inCount = session.inFeatures
  | _ => False

instance (session : OnnxSession) (inCount : ℕ) : Decidable (session.Fits inCount) := by
  unfold Fits
  split <;> infer_instance

/-- The output for an input that is not empty is not empty. -/
theorem Shaped.outCount_pos {session : OnnxSession} (hshaped : session.Shaped) {inCount : ℕ}
    (hcount : 0 < inCount) : 0 < session.outCount inCount := by
  unfold outCount
  split_ifs with hany
  · exact hcount
  · apply sizeOfInt_pos
    apply Int32.lt_of_le_of_ne hshaped.outFeatures_nonneg
    intro hzero
    by_cases hlinear : session.kind = .linear
    · exact Int32.lt_irrefl (hzero ▸ (hshaped.linear_pos hlinear).2)
    · exact hany ⟨(hshaped.features_eq hlinear).symm.trans hzero.symm, hzero.symm⟩

/-- On an output of the size that the engine makes, the call writes exactly when the model takes
inputs of that length. -/
theorem Shaped.run_isSome_iff {session : OnnxSession} (hshaped : session.Shaped) (kernels : Kernels)
    {inCount : ℕ} (input output : List FloatBits) :
    (session.run kernels (some input) inCount (some output) (session.outCount inCount)).isSome ↔
      session.Fits inCount := by
  simp only [run, Fits]
  cases hkind : session.kind with
  | none => simp
  | ort => simp
  | identity =>
    have hfeatures := hshaped.features_eq (by simp [hkind])
    simp only [outCount, hfeatures, and_self]
    by_cases hzero : session.inFeatures = 0
    · simp [hzero]
    · have hpos : 0 < session.inFeatures :=
        Int32.lt_of_le_of_ne hshaped.inFeatures_nonneg (Ne.symm hzero)
      simp only [hzero, if_false, hpos, true_and, false_or]
      by_cases heq : inCount = sizeOfInt session.inFeatures
      · simp [heq, intOfSize_sizeOfInt hshaped.inFeatures_nonneg]
      · simp [heq]
  | linear =>
    obtain ⟨hin, hout⟩ := hshaped.linear_pos hkind
    have hne : session.inFeatures ≠ 0 := fun hzero ↦ Int32.lt_irrefl (hzero ▸ hin)
    simp only [outCount, hne, false_and, if_false,
      intOfSize_sizeOfInt hshaped.outFeatures_nonneg, ne_eq, not_true_eq_false, or_false]
    by_cases hcast : intOfSize inCount = session.inFeatures <;> simp [hcast]

/-- What the call writes on an output of the size that the engine makes depends only on the model
and on the input. -/
theorem Shaped.run_congr {session : OnnxSession} (hshaped : session.Shaped) (kernels : Kernels)
    {inCount : ℕ} (input : List FloatBits) {output other : List FloatBits}
    (houtput : output.length = session.outCount inCount)
    (hother : other.length = session.outCount inCount) :
    session.run kernels (some input) inCount (some output) (session.outCount inCount) =
      session.run kernels (some input) inCount (some other) (session.outCount inCount) := by
  simp only [run]
  cases hkind : session.kind with
  | none => rfl
  | ort => rfl
  | identity =>
    simp only
    split_ifs with hlength
    · rfl
    · rfl
    · rw [List.drop_of_length_le, List.drop_of_length_le] <;> omega
  | linear =>
    obtain ⟨hin, hout⟩ := hshaped.linear_pos hkind
    have hguard : ¬ (session.weights = [] ∨ session.outFeatures ≤ 0 ∨ session.inFeatures ≤ 0) := by
      simp [hshaped.weights_ne hkind, hin, hout]
    have hcount : session.outCount inCount = sizeOfInt session.outFeatures := by
      rw [outCount, if_neg fun h ↦ Int32.lt_irrefl (h.2 ▸ hout)]
    simp only [simdGemv, if_neg hguard]
    rw [List.drop_of_length_le (by omega), List.drop_of_length_le (by omega)]

/-- An output of fewer than 2 ^ 32 elements on which the call writes has the size that the engine
makes. -/
theorem Shaped.eq_outCount {session : OnnxSession} (hshaped : session.Shaped) {kernels : Kernels}
    {inCount count : ℕ} {input output : List FloatBits} (hcount : count < word32)
    (hwrites : (session.run kernels (some input) inCount (some output) count).isSome) :
    count = session.outCount inCount := by
  simp only [run] at hwrites
  cases hkind : session.kind with
  | none => simp [hkind] at hwrites
  | ort => simp [hkind] at hwrites
  | identity =>
    have hfeatures := hshaped.features_eq (by simp [hkind])
    simp only [hkind] at hwrites
    split_ifs at hwrites with hlength hcast
    · simp at hwrites
    · simp at hwrites
    · rw [not_ne_iff] at hlength
      by_cases hzero : session.inFeatures = 0
      · simp [outCount, hfeatures, hzero, hlength]
      · have hpos : 0 < session.inFeatures :=
          Int32.lt_of_le_of_ne hshaped.inFeatures_nonneg (Ne.symm hzero)
        have hint : intOfSize count = session.inFeatures := by
          by_contra hne
          exact hcast ⟨hpos, hlength ▸ hne⟩
        rw [outCount, hfeatures, if_neg fun h ↦ hzero h.1]
        exact eq_sizeOfInt hshaped.inFeatures_nonneg hcount hint
  | linear =>
    obtain ⟨hin, hout⟩ := hshaped.linear_pos hkind
    simp only [hkind] at hwrites
    have hcast : intOfSize count = session.outFeatures := by
      by_contra hne
      rw [if_pos (.inr hne)] at hwrites
      simp at hwrites
    rw [outCount, if_neg fun h ↦ Int32.lt_irrefl (h.2 ▸ hout)]
    exact eq_sizeOfInt hshaped.outFeatures_nonneg hcount hcast

end OnnxSession

end GameEngine.Ai
