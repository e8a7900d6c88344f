import GameEngine.Library.LaneBuffer
import GameEngine.Library.MachineWord
import Mathlib.Algebra.Ring.Defs
import Mathlib.Data.Rat.Defs

/-!
# The vector kernels

The functions of `ai/simd_kernels`, each with the bodies that the compiler may choose: AVX2, with
fused multiplication and addition or without, NEON, on a 64-bit processor or not, and no vectors at
all. A vector body steps over blocks of eight or four elements, and the loop behind it over the
elements that are left.

`simd_relu` is about values that may be compared, `FloatValue`; the other kernels add and multiply
in any ring. An index in an `int` that overflows is impossible, as an access outside a buffer is.
-/

set_option autoImplicit false
set_option relaxedAutoImplicit false

namespace GameEngine.Ai.SimdKernels

open GameEngine.Library GameEngine.Library.MachineWord

/-! ### Builds and index arithmetic -/

/-- Which body the compiler has chosen. -/
inductive Build
  | scalar
  | avx2 (fma : Bool)
  | neon (aarch64 : Bool)
deriving DecidableEq

/-- The number of lanes of a vector. -/
def Build.lanes : Build → Option ℕ
  | .scalar => none
  | .avx2 _ => some 8
  | .neon _ => some 4

/-- Addition of two values of type `int` that are not negative. -/
def intAdd (first second : ℕ) : Option ℕ :=
  if first + second < 2 ^ 31 then some (first + second) else none

/-- Multiplication of two values of type `int` that are not negative. -/
def intMul (first second : ℕ) : Option ℕ :=
  if first * second < 2 ^ 31 then some (first * second) else none

/-- `i < count`. -/
def below (count i : ℕ) : Option Bool := some (decide (i < count))

/-- `i + width <= count`, in `std::size_t`. -/
def sizeFits (width count i : ℕ) : Option Bool := some (decide (addMod word64 i width ≤ count))

/-- `i + width <= count`, in `int`. -/
def intFits (width count i : ℕ) : Option Bool :=
  (intAdd i width).map fun next ↦ decide (next ≤ count)

/-! ### Comparison -/

/-- The value of a `float` as far as comparison goes. -/
inductive FloatValue
  | nan
  | zero (negative : Bool)
  | rational (value : ℚ) (nonzero : value ≠ 0)
deriving DecidableEq

namespace FloatValue

/-- The number that a value stands for. -/
def number? : FloatValue → Option ℚ
  | nan => none
  | zero _ => some 0
  | rational value _ => some value

/-- `<`. -/
def lt (first second : FloatValue) : Bool :=
  match first.number?, second.number? with
  | some x, some y => decide (x < y)
  | _, _ => false

/-- `0.0f`. -/
def positiveZero : FloatValue := zero false

/-- `_mm256_max_ps` on one lane. -/
def maxPs (first second : FloatValue) : FloatValue := if second.lt first then first else second

/-- `vmaxq_f32` on one lane: not a number if one of the two is not, and the positive zero if one of
two zeros is. -/
def vmaxq : FloatValue → FloatValue → FloatValue
  | nan, _ => nan
  | _, nan => nan
  | zero first, zero second => zero (first && second)
  | first, second => if first.lt second then second else first

/-- The element after one round of the last loop of `simd_relu`. -/
def reluTail (value : FloatValue) : FloatValue :=
  if value.lt positiveZero then positiveZero else value

end FloatValue

/-- A vector body of `simd_relu` on the block at `i`. -/
def reluLanes (width : ℕ) (max : FloatValue → FloatValue → FloatValue) (i : ℕ)
    (data : Buffer FloatValue) : Option (Buffer FloatValue) := do
  let v ← data.loadLanes width i
  data.storeLanes i fun lane ↦ max (v lane) .positiveZero

/-- The last loop of `simd_relu` at `i`. -/
def reluElement (i : ℕ) (data : Buffer FloatValue) : Option (Buffer FloatValue) := do
  let value ← data.load i
  if value.lt .positiveZero then data.store i .positiveZero else some data

/-- The vector body of `simd_relu`. -/
def reluBlocks (build : Build) (data : Buffer FloatValue) (count : ℕ) :
    Option (ℕ × Buffer FloatValue) :=
  match build with
  | .scalar => some (0, data)
  | .avx2 _ => loop (sizeFits 8 count) 8 (reluLanes 8 FloatValue.maxPs) (count + 1) 0 data
  | .neon _ => loop (sizeFits 4 count) 4 (reluLanes 4 FloatValue.vmaxq) (count + 1) 0 data

/-- `simd_relu`. -/
def simdRelu (build : Build) (data : Option (Buffer FloatValue)) (count : ℕ) :
    Option (Option (Buffer FloatValue)) :=
  match data with
  | none => some none
  | some data => do
    let (i, data) ← reluBlocks build data count
    let (_, data) ← loop (below count) 1 reluElement (count + 1) i data
    some (some data)

section Ring

variable {R : Type} [CommRing R]

/-! ### Matrix by vector -/

/-- `_mm256_fmadd_ps`, lane by lane. -/
def fmadd {width : ℕ} (a b c : Fin width → R) : Fin width → R := fun lane ↦ a lane * b lane + c lane

/-- `_mm256_mul_ps`, lane by lane. -/
def mulLanes {width : ℕ} (a b : Fin width → R) : Fin width → R := fun lane ↦ a lane * b lane

/-- `_mm256_add_ps`, lane by lane. -/
def addLanes {width : ℕ} (a b : Fin width → R) : Fin width → R := fun lane ↦ a lane + b lane

/-- `vmlaq_f32`, lane by lane. -/
def vmlaq (acc a b : Fin 4 → R) : Fin 4 → R := fun lane ↦ acc lane + a lane * b lane

/-- The accumulator after one block of the AVX2 body. -/
def avx2Accumulate (fma : Bool) (acc wv xv : Fin 8 → R) : Fin 8 → R :=
  if fma then fmadd wv xv acc else addLanes acc (mulLanes wv xv)

/-- The eight lanes added, from the first to the last. -/
def avx2Sum (tmp : Fin 8 → R) : R :=
  tmp 0 + tmp 1 + tmp 2 + tmp 3 + tmp 4 + tmp 5 + tmp 6 + tmp 7

/-- The four lanes added: by `vaddvq_f32`, or the two halves first and then the pair. -/
def neonSum (aarch64 : Bool) (acc : Fin 4 → R) : R :=
  if aarch64 then acc 0 + acc 1 + acc 2 + acc 3 else acc 0 + acc 2 + (acc 1 + acc 3)

/-- A vector body of `simd_gemv` on the block at `c`. `wr` is the index of the row. -/
def gemvLanes (width : ℕ) (accumulate : (Fin width → R) → (Fin width → R) → (Fin width → R) →
    Fin width → R) (weights x : Buffer R) (wr c : ℕ) (acc : Fin width → R) :
    Option (Fin width → R) := do
  let wv ← weights.loadLanes width (wr + c)
  let xv ← x.loadLanes width c
  some (accumulate acc wv xv)

/-- The last loop of `simd_gemv` at `c`. -/
def gemvElement (weights x : Buffer R) (wr c : ℕ) (sum : R) : Option R := do
  let w ← weights.load (wr + c)
  let v ← x.load c
  some (sum + w * v)

/-- The vector body of a row of `simd_gemv`, up to the addition to the sum. -/
def gemvBlocks (build : Build) (weights : Buffer R) (cols : ℕ) (x : Buffer R) (wr : ℕ) (sum : R) :
    Option (ℕ × R) :=
  match build with
  | .scalar => some (0, sum)
  | .avx2 fma => do
    let (c, acc) ← loop (intFits 8 cols) 8 (gemvLanes 8 (avx2Accumulate fma) weights x wr)
      (cols + 1) 0 fun _ ↦ 0
    some (c, sum + avx2Sum acc)
  | .neon aarch64 => do
    let (c, acc) ← loop (intFits 4 cols) 4 (gemvLanes 4 vmlaq weights x wr) (cols + 1) 0 fun _ ↦ 0
    some (c, sum + neonSum aarch64 acc)

/-- The element of the bias, or zero without one. -/
def biasOr0 (bias : Option (Buffer R)) (r : ℕ) : Option R :=
  match bias with
  | some bias => bias.load r
  | none => some 0

/-- One row of `simd_gemv`. -/
def gemvRow (build : Build) (weights : Buffer R) (cols : ℕ) (x : Buffer R)
    (bias : Option (Buffer R)) (r : ℕ) (y : Buffer R) : Option (Buffer R) := do
  let wr := r * cols % word64
  let sum ← biasOr0 bias r
  let (c, sum) ← gemvBlocks build weights cols x wr sum
  let (_, sum) ← loop (below cols) 1 (gemvElement weights x wr) (cols + 1) c sum
  y.store r sum

/-- `simd_gemv`. A pointer is null, or one to a buffer. -/
def simdGemv (build : Build) (weights : Option (Buffer R)) (rows cols : Int32)
    (x bias y : Option (Buffer R)) : Option (Option (Buffer R)) :=
  match weights, x, y with
  | some weights, some x, some y =>
    if rows.toInt ≤ 0 ∨ cols.toInt ≤ 0 then some (some y)
    else do
      let rows := rows.toInt.toNat
      let (_, y) ←
        loop (below rows) 1 (gemvRow build weights cols.toInt.toNat x bias) (rows + 1) 0 y
      some (some y)
  | _, _, y => some y

/-! ### Matrix by matrix -/

/-- A vector body of `simd_matmul_mnk` on the block at `j`. `bp` and `ci` are the indices of the
rows. -/
def matmulLanes (width : ℕ) (accumulate : (Fin width → R) → (Fin width → R) → (Fin width → R) →
    Fin width → R) (av : Fin width → R) (b : Buffer R) (bp ci j : ℕ) (c : Buffer R) :
    Option (Buffer R) := do
  let bv ← b.loadLanes width (bp + j)
  let cv ← c.loadLanes width (ci + j)
  c.storeLanes (ci + j) (accumulate cv av bv)

/-- The last loop of `simd_matmul_mnk` at `j`. -/
def matmulElement (aip : R) (b : Buffer R) (bp ci j : ℕ) (c : Buffer R) : Option (Buffer R) := do
  let old ← c.load (ci + j)
  let factor ← b.load (bp + j)
  c.store (ci + j) (old + aip * factor)

/-- The vector body of one product of an element with a row. -/
def matmulBlocks (build : Build) (aip : R) (b : Buffer R) (n bp ci : ℕ) (c : Buffer R) :
    Option (ℕ × Buffer R) :=
  match build with
  | .scalar => some (0, c)
  | .avx2 fma =>
    loop (intFits 8 n) 8 (matmulLanes 8 (avx2Accumulate fma) (fun _ ↦ aip) b bp ci) (n + 1) 0 c
  | .neon _ => loop (intFits 4 n) 4 (matmulLanes 4 vmlaq (fun _ ↦ aip) b bp ci) (n + 1) 0 c

/-- One product of an element with a row. -/
def matmulProduct (build : Build) (a : Buffer R) (k : ℕ) (b : Buffer R) (n i p : ℕ) (c : Buffer R) :
    Option (Buffer R) := do
  let ik ← intMul i k
  let ikp ← intAdd ik p
  let aip ← a.load ikp
  let bp ← intMul p n
  let ci ← intMul i n
  let (j, c) ← matmulBlocks build aip b n bp ci c
  let (_, c) ← loop (below n) 1 (matmulElement aip b bp ci) (n + 1) j c
  some c

/-- The first loop of a row of `simd_matmul_mnk` at `j`. -/
def matmulClear (n i j : ℕ) (c : Buffer R) : Option (Buffer R) := do
  let ci ← intMul i n
  let index ← intAdd ci j
  c.store index 0

/-- One row of `simd_matmul_mnk`. -/
def matmulRow (build : Build) (a : Buffer R) (k : ℕ) (b : Buffer R) (n i : ℕ) (c : Buffer R) :
    Option (Buffer R) := do
  let (_, c) ← loop (below n) 1 (matmulClear n i) (n + 1) 0 c
  let (_, c) ← loop (below k) 1 (matmulProduct build a k b n i) (k + 1) 0 c
  some c

/-- `simd_matmul_mnk`. -/
def simdMatmulMnk (build : Build) (a : Option (Buffer R)) (m k : Int32) (b : Option (Buffer R))
    (n : Int32) (c : Option (Buffer R)) : Option (Option (Buffer R)) :=
  match a, b, c with
  | some a, some b, some c =>
    if m.toInt ≤ 0 ∨ k.toInt ≤ 0 ∨ n.toInt ≤ 0 then some (some c)
    else do
      let m := m.toInt.toNat
      let (_, c) ← loop (below m) 1 (matmulRow build a k.toInt.toNat b n.toInt.toNat) (m + 1) 0 c
      some (some c)
  | _, _, c => some c

/-- `simd_matmul`. -/
def simdMatmul (build : Build) (a b c : Option (Buffer R)) (n : Int32) :
    Option (Option (Buffer R)) :=
  simdMatmulMnk build a n n b n c

end Ring

/-! ### The tests of the loops -/

theorem below_eq {count i : ℕ} : below count i = some (decide (i + 1 ≤ count)) := rfl

/-- An addition in `std::size_t` is exact on the indices of a buffer. -/
theorem sizeFits_eq {width count i : ℕ} (hwidth : width ≤ 8) (hcount : count ≤ 2 ^ 62)
    (hi : i ≤ count) : sizeFits width count i = some (decide (i + width ≤ count)) := by
  rw [sizeFits, addMod, Nat.mod_eq_of_lt]
  unfold word64
  omega

theorem intFits_eq {width count i : ℕ} (hfits : i + width < 2 ^ 31) :
    intFits width count i = some (decide (i + width ≤ count)) := by
  rw [intFits, intAdd, if_pos hfits]
  rfl

end GameEngine.Ai.SimdKernels
