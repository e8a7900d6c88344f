import GameEngine.Ai.SimdKernels
import Mathlib.Algebra.Order.Ring.Rat

/-!
# The vector body of `simd_relu`

The vector body takes the maximum with zero, and the loop behind it replaces what is below zero.
`simdRelu_eq` says which element gets which. The two differ on two values: the AVX2 maximum of the
negative zero, or of what is not a number, and zero is the second operand, the positive zero,
whereas the comparison of the loop is false and leaves both as they are.

`relu_agrees_iff` is the exact condition under which the AVX2 body does what the loop does.
`relu_depends_on_index` is an array on whose equal elements it does not.
-/

set_option autoImplicit false
set_option relaxedAutoImplicit false

namespace GameEngine.Ai.SimdKernels

open GameEngine.Library

/-- The number of elements that a vector body processes. -/
def Build.vectorized (build : Build) (count : ℕ) : ℕ :=
  match build with
  | .scalar => 0
  | .avx2 _ => 8 * (count / 8)
  | .neon _ => 4 * (count / 4)

/-- What the vector body of a build makes of an element. -/
def Build.reluLane (build : Build) (value : FloatValue) : FloatValue :=
  match build with
  | .scalar => value.reluTail
  | .avx2 _ => value.maxPs .positiveZero
  | .neon _ => value.vmaxq .positiveZero

theorem Build.vectorized_le (build : Build) (count : ℕ) : build.vectorized count ≤ count := by
  cases build <;> unfold Build.vectorized <;> dsimp only <;> omega

section Buffers

variable {data : Buffer FloatValue} {count : ℕ}

theorem reluLanes_eq {width i : ℕ} (max : FloatValue → FloatValue → FloatValue)
    (hi : i + width ≤ data.size) :
    reluLanes width max i data =
      some (data.mapRange i (i + width) fun _ value ↦ max value .positiveZero) := by
  simp only [reluLanes, Buffer.loadLanes_eq hi, Option.bind_eq_bind, Option.bind_some]
  exact Buffer.storeLanes_eq hi fun lane ↦ rfl

theorem reluElement_eq {i : ℕ} (hi : i < data.size) :
    reluElement i data = some (data.mapRange i (i + 1) fun _ value ↦ value.reluTail) := by
  rw [reluElement, Buffer.load_eq hi]
  cases hbelow : (data.get i).lt .positiveZero with
  | true =>
    simp only [Option.bind_eq_bind, Option.bind_some, hbelow, if_true]
    exact Buffer.store_eq hi (by rw [FloatValue.reluTail, hbelow, if_pos rfl])
  | false =>
    simp only [Option.bind_eq_bind, Option.bind_some, hbelow, Bool.false_eq_true, if_false]
    refine congrArg some (Buffer.ext_get rfl fun other ↦ ?_)
    rw [Buffer.mapRange_get]
    split_ifs with hother
    · obtain rfl : other = i := by omega
      rw [FloatValue.reluTail, hbelow, if_neg Bool.false_ne_true]
    · rfl

/-- The vector body changes the elements of the blocks that fit. -/
theorem reluBlocks_eq (build : Build) (hcount : count ≤ data.size) :
    reluBlocks build data count = some (build.vectorized count,
      data.mapRange 0 (build.vectorized count) fun _ value ↦ build.reluLane value) := by
  have hlarge : count ≤ 2 ^ 62 := hcount.trans data.size_le
  have hblocks : ∀ (width : ℕ) (max : FloatValue → FloatValue → FloatValue), 0 < width → width ≤ 8 →
      loop (sizeFits width count) width (reluLanes width max) (count + 1) 0 data =
        some (width * (count / width), data.mapRange 0 (width * (count / width))
          fun _ value ↦ max value .positiveZero) := by
    intro width max hwidth hle
    have hloop : loop (sizeFits width count) width (reluLanes width max) (count + 1) 0 data =
        some (lastPosition width count 0, data.mapRange (0 + 0) (0 + lastPosition width count 0)
          fun _ value ↦ max value .positiveZero) :=
      Buffer.blocks_spec hwidth (fun i hi ↦ sizeFits_eq hle hlarge hi)
        (fun i state hfits hsize ↦ by
          rw [Nat.zero_add, Nat.zero_add]
          exact reluLanes_eq max (by omega))
        (Nat.zero_le count) (by omega)
    simpa [lastPosition] using hloop
  cases build with
  | scalar => exact congrArg (fun buffer ↦ some (0, buffer)) (Buffer.mapRange_empty 0 _).symm
  | avx2 fma => exact hblocks 8 FloatValue.maxPs (by decide) (by decide)
  | neon aarch64 => exact hblocks 4 FloatValue.vmaxq (by decide) (by decide)

/-- What `simd_relu` makes of every element. -/
theorem simdRelu_eq (build : Build) (hcount : count ≤ data.size) :
    simdRelu build (some data) count = some (some (data.mapRange 0 count fun i value ↦
      if i < build.vectorized count then build.reluLane value else value.reluTail)) := by
  have hle := build.vectorized_le count
  have htail : ∀ buffer : Buffer FloatValue, buffer.size = data.size →
      loop (below count) 1 reluElement (count + 1) (build.vectorized count) buffer =
        some (count, buffer.mapRange (build.vectorized count) count
          fun _ value ↦ value.reluTail) := by
    intro buffer hsize
    have hloop : loop (below count) 1 reluElement (count + 1) (build.vectorized count) buffer =
        some (lastPosition 1 count (build.vectorized count),
          buffer.mapRange (0 + build.vectorized count)
            (0 + lastPosition 1 count (build.vectorized count)) fun _ value ↦ value.reluTail) :=
      Buffer.blocks_spec Nat.one_pos (fun i _ ↦ below_eq)
        (fun i state hfits hstate ↦ by
          rw [Nat.zero_add, Nat.zero_add]
          exact reluElement_eq (by omega))
        hle (by omega)
    rwa [lastPosition_one _ _ hle, Nat.zero_add, Nat.zero_add] at hloop
  simp only [simdRelu, reluBlocks_eq build hcount, Option.bind_eq_bind, Option.bind_some]
  rw [htail (data.mapRange 0 (build.vectorized count) fun _ value ↦ build.reluLane value) rfl]
  refine congrArg (some ∘ some) ?_
  rw [← Buffer.mapRange_append (Nat.zero_le _) hle]
  have hblocks : (data.mapRange 0 (build.vectorized count) fun i value ↦
      if i < build.vectorized count then build.reluLane value else value.reluTail) =
      data.mapRange 0 (build.vectorized count) fun _ value ↦ build.reluLane value :=
    Buffer.mapRange_congr fun i _ hi ↦ if_pos hi
  rw [hblocks]
  exact Buffer.mapRange_congr fun i hi _ ↦ (if_neg (by omega)).symm

end Buffers

/-- The AVX2 maximum with zero is what the loop makes of a value, except on two values. -/
theorem maxPs_eq_reluTail_iff (value : FloatValue) :
    value.maxPs .positiveZero = value.reluTail ↔ value ≠ .nan ∧ value ≠ .zero true := by
  cases value with
  | nan => simp [FloatValue.maxPs, FloatValue.reluTail, FloatValue.lt, FloatValue.number?,
      FloatValue.positiveZero]
  | zero negative => cases negative <;> simp [FloatValue.maxPs, FloatValue.reluTail, FloatValue.lt,
      FloatValue.number?, FloatValue.positiveZero]
  | rational value hvalue =>
    simp only [FloatValue.maxPs, FloatValue.reluTail, FloatValue.lt, FloatValue.number?,
      FloatValue.positiveZero, decide_eq_true_eq, ne_eq, reduceCtorEq, not_false_eq_true, and_self,
      iff_true]
    rcases lt_or_gt_of_ne hvalue with hneg | hpos
    · rw [if_neg hneg.not_gt, if_pos hneg]
    · rw [if_pos hpos, if_neg hpos.not_gt]

/-- For every array and every number of elements: the loop without vectors makes of every element
what depends on the element only, and the AVX2 body, with the loop behind it, makes the same of the
array if and only if no element of the blocks of eight is the negative zero or not a number. -/
theorem relu_agrees_iff (fma : Bool) (data : Buffer FloatValue) {count : ℕ}
    (hcount : count ≤ data.size) :
    simdRelu .scalar (some data) count =
        some (some (data.mapRange 0 count fun _ value ↦ value.reluTail)) ∧
      (simdRelu (.avx2 fma) (some data) count = simdRelu .scalar (some data) count ↔
        ∀ i < 8 * (count / 8), data.get i ≠ .nan ∧ data.get i ≠ .zero true) := by
  have hscalar : simdRelu .scalar (some data) count =
      some (some (data.mapRange 0 count fun _ value ↦ value.reluTail)) := by
    rw [simdRelu_eq _ hcount]
    rfl
  refine ⟨hscalar, ?_⟩
  rw [hscalar, simdRelu_eq _ hcount]
  have hle := (Build.avx2 fma).vectorized_le count
  constructor
  · intro hagree i hi
    have hget := congrArg (fun buffer ↦ buffer.get i) (Option.some.inj (Option.some.inj hagree))
    have hlt : i < count := hi.trans_le hle
    have hblock : i < (Build.avx2 fma).vectorized count := hi
    simp only [Buffer.mapRange_get, Nat.zero_le, hlt, hblock, and_self, if_true] at hget
    exact (maxPs_eq_reluTail_iff _).mp hget
  · intro hvalues
    refine congrArg (some ∘ some) (Buffer.mapRange_congr fun i _ _ ↦ ?_)
    split_ifs with hi
    · exact (maxPs_eq_reluTail_iff _).mpr (hvalues i hi)
    · rfl

/-- The theorem at nine elements, the last of them the negative zero. -/
theorem relu_agrees_iff_tail :
    let data : Buffer FloatValue :=
      ⟨9, fun i ↦ if i = 8 then .zero true else .zero false, by decide⟩
    simdRelu (.avx2 false) (some data) 9 = simdRelu .scalar (some data) 9 :=
  ((relu_agrees_iff false ⟨9, fun i ↦ if i = 8 then .zero true else .zero false, by decide⟩
    (by decide)).2).mpr (by decide)

/-- Nine elements that are not numbers: the first eight become zero, and the ninth stays. -/
theorem relu_depends_on_index :
    let data : Buffer FloatValue := ⟨9, fun _ ↦ .nan, by decide⟩
    ∃ out, simdRelu (.avx2 false) (some data) 9 = some (some out) ∧
      data.get 0 = data.get 8 ∧ out.get 0 = .zero false ∧ out.get 8 = .nan ∧
      simdRelu (.avx2 false) (some data) 9 ≠ simdRelu .scalar (some data) 9 := by
  intro data
  have havx2 := simdRelu_eq (.avx2 false) (show 9 ≤ data.size from le_rfl)
  refine ⟨_, havx2, rfl, rfl, rfl, ?_⟩
  rw [havx2, simdRelu_eq .scalar (show 9 ≤ data.size from le_rfl)]
  intro hagree
  have hget := congrArg (fun buffer ↦ buffer.get 0) (Option.some.inj (Option.some.inj hagree))
  exact absurd hget (by decide)

end GameEngine.Ai.SimdKernels
