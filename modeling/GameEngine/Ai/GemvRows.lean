import GameEngine.Ai.SimdKernels
import Mathlib.Algebra.BigOperators.Fin
import Mathlib.Algebra.BigOperators.Intervals
import Mathlib.Algebra.Ring.Int.Defs

/-!
# The product of a matrix and a vector

The vector bodies of `simd_gemv` add the products of a row in lanes, one block of columns after the
other, and add the lanes up at the end; the loop behind them adds the columns that are left. What
the lanes add up to is the invariant: the sum over the columns so far (`gemvLanes_spec`). How the
lanes are added, and whether the multiplication is fused, makes no difference in a ring.

`gemv_correct` says that every build computes the sum over all columns of every row, and stays
inside its buffers.
-/

set_option autoImplicit false
set_option relaxedAutoImplicit false

namespace GameEngine.Ai.SimdKernels

open GameEngine.Library GameEngine.Library.MachineWord Finset

variable {R : Type} [CommRing R]

/-! ### Lanes -/

theorem avx2Accumulate_apply (fma : Bool) (acc wv xv : Fin 8 → R) (lane : Fin 8) :
    avx2Accumulate fma acc wv xv lane = acc lane + wv lane * xv lane := by
  cases fma with
  | true => exact add_comm ..
  | false => rfl

theorem avx2Sum_eq (acc : Fin 8 → R) : avx2Sum acc = ∑ lane, acc lane :=
  (Fin.sum_univ_eight acc).symm

theorem neonSum_eq (aarch64 : Bool) (acc : Fin 4 → R) : neonSum aarch64 acc = ∑ lane, acc lane := by
  rw [Fin.sum_univ_four]
  cases aarch64 with
  | true => rfl
  | false => exact (add_add_add_comm ..).trans (add_assoc ..).symm

section Row

variable {weights x : Buffer R} {wr cols : ℕ}

/-- The product of an element of a row with the element of the vector in its column. -/
def term (weights x : Buffer R) (wr c : ℕ) : R := weights.get (wr + c) * x.get c

/-- The lanes of a vector body add up to the sum over the columns of its blocks. -/
theorem gemvLanes_spec {width : ℕ} {accumulate : (Fin width → R) → (Fin width → R) →
      (Fin width → R) → Fin width → R} (hwidth : 0 < width)
    (haccumulate : ∀ acc wv xv lane, accumulate acc wv xv lane = acc lane + wv lane * xv lane)
    (hfits : cols + width < 2 ^ 31) (hweights : wr + cols ≤ weights.size) (hx : cols ≤ x.size) :
    ∃ acc, loop (intFits width cols) width (gemvLanes width accumulate weights x wr) (cols + 1) 0
        (fun _ ↦ 0) = some (lastPosition width cols 0, acc) ∧
      ∑ lane, acc lane = ∑ c ∈ range (lastPosition width cols 0), term weights x wr c := by
  refine loop_spec
    (fun c (acc : Fin width → R) ↦ ∑ lane, acc lane = ∑ column ∈ range c, term weights x wr column)
    hwidth (fun c hc ↦ intFits_eq (by omega)) ?_ (Nat.zero_le cols)
    (by omega : cols < 0 + (cols + 1)) (by simp)
  intro c acc hc hacc
  refine ⟨accumulate acc (fun lane ↦ weights.get (wr + c + lane)) (fun lane ↦ x.get (c + lane)),
    ?_, ?_⟩
  · rw [gemvLanes, Buffer.loadLanes_eq (by omega), Buffer.loadLanes_eq (by omega)]
    rfl
  · calc ∑ lane, accumulate acc (fun lane ↦ weights.get (wr + c + lane))
          (fun lane ↦ x.get (c + lane)) lane
        = ∑ lane, acc lane + ∑ lane : Fin width, term weights x wr (c + lane) := by
          rw [← sum_add_distrib]
          exact sum_congr rfl fun lane _ ↦ by rw [haccumulate, term, Nat.add_assoc]
      _ = ∑ column ∈ range (c + width), term weights x wr column := by
          rw [hacc, sum_range_add, sum_range fun lane ↦ term weights x wr (c + lane)]

/-- The vector body of any build leaves the sum over the columns up to the one it ends at. -/
theorem gemvBlocks_spec (build : Build) (hfits : cols + 8 < 2 ^ 31)
    (hweights : wr + cols ≤ weights.size) (hx : cols ≤ x.size) (sum : R) :
    ∃ c ≤ cols, gemvBlocks build weights cols x wr sum =
      some (c, sum + ∑ column ∈ range c, term weights x wr column) := by
  cases build with
  | scalar => exact ⟨0, Nat.zero_le cols, by simp [gemvBlocks]⟩
  | avx2 fma =>
    obtain ⟨acc, hloop, hsum⟩ := gemvLanes_spec (by decide) (avx2Accumulate_apply fma) hfits
      hweights hx
    refine ⟨lastPosition 8 cols 0, lastPosition_le (Nat.zero_le cols), ?_⟩
    simp only [gemvBlocks, hloop, Option.bind_eq_bind, Option.bind_some]
    rw [avx2Sum_eq, hsum]
  | neon aarch64 =>
    obtain ⟨acc, hloop, hsum⟩ := @gemvLanes_spec R _ weights x wr cols 4 vmlaq (by decide)
      (fun acc wv xv lane ↦ rfl) (by omega) hweights hx
    refine ⟨lastPosition 4 cols 0, lastPosition_le (Nat.zero_le cols), ?_⟩
    simp only [gemvBlocks, hloop, Option.bind_eq_bind, Option.bind_some]
    rw [neonSum_eq, hsum]

/-- The last loop adds the columns that are left. -/
theorem gemvElement_spec {c : ℕ} (hc : c ≤ cols) (hweights : wr + cols ≤ weights.size)
    (hx : cols ≤ x.size) (sum : R) :
    loop (below cols) 1 (gemvElement weights x wr) (cols + 1) c
        (sum + ∑ column ∈ range c, term weights x wr column) =
      some (cols, sum + ∑ column ∈ range cols, term weights x wr column) := by
  have hstep : ∀ i total, i + 1 ≤ cols →
      total = sum + ∑ column ∈ range i, term weights x wr column →
      ∃ next, gemvElement weights x wr i total = some next ∧
        next = sum + ∑ column ∈ range (i + 1), term weights x wr column := by
    intro i total hi htotal
    refine ⟨total + term weights x wr i, ?_, ?_⟩
    · rw [gemvElement, Buffer.load_eq (by omega), Buffer.load_eq (by omega)]
      rfl
    · rw [htotal, sum_range_succ, add_assoc]
  obtain ⟨total, hloop, htotal⟩ := loop_spec _ Nat.one_pos (fun i _ ↦ below_eq) hstep hc
    (by omega : cols < c + (cols + 1)) rfl
  rw [lastPosition_one _ _ hc] at hloop htotal
  rw [hloop, htotal]

end Row

/-! ### Rows -/

/-- The product of a row and the vector, and the element of the bias, if there is one. -/
def gemvValue (weights : Buffer R) (cols : ℕ) (x : Buffer R) (bias : Option (Buffer R)) (r : ℕ) :
    R :=
  bias.elim 0 (·.get r) + ∑ c ∈ range cols, weights.get (r * cols + c) * x.get c

section Rows

variable {weights x y : Buffer R} {bias : Option (Buffer R)} {rows cols : ℕ}

theorem biasOr0_eq (hbias : ∀ buffer ∈ bias, buffer.size = rows) {r : ℕ} (hr : r < rows) :
    biasOr0 bias r = some (bias.elim 0 (·.get r)) := by
  cases bias with
  | none => rfl
  | some buffer => exact Buffer.load_eq (by rwa [hbias buffer rfl])

/-- A row of the matrix ends in it. -/
theorem row_end_le {r : ℕ} (hr : r < rows) : r * cols + cols ≤ rows * cols := by
  rw [← Nat.succ_mul]
  exact Nat.mul_le_mul_right _ hr

/-- One row of any build. -/
theorem gemvRow_eq (build : Build) (hfits : cols + 8 < 2 ^ 31)
    (hweights : weights.size = rows * cols) (hx : x.size = cols)
    (hbias : ∀ buffer ∈ bias, buffer.size = rows) {r : ℕ} (hr : r < rows) (hy : r < y.size) :
    gemvRow build weights cols x bias r y =
      some (y.mapRange r (r + 1) fun r _ ↦ gemvValue weights cols x bias r) := by
  have hend : r * cols + cols ≤ weights.size := hweights ▸ row_end_le hr
  have hwr : r * cols % word64 = r * cols := by
    have hsize := weights.size_le
    refine Nat.mod_eq_of_lt ?_
    unfold word64
    omega
  obtain ⟨c, hc, hblocks⟩ := gemvBlocks_spec build hfits hend hx.ge (bias.elim 0 (·.get r))
  have htail := gemvElement_spec hc hend hx.ge (bias.elim 0 (·.get r))
  simp only [gemvRow, hwr, biasOr0_eq hbias hr, hblocks, htail, Option.bind_eq_bind,
    Option.bind_some]
  exact Buffer.store_eq hy rfl

end Rows

/-- For every build, every positive number of rows, and every positive number of columns to which 8
can be added in an `int`: `simd_gemv` reads only the elements of the three arrays, writes the
product of every row and the vector, with the bias, to the element of the row, and no other
element. -/
theorem gemv_correct (build : Build) {rows cols : Int32} {weights x y : Buffer R}
    {bias : Option (Buffer R)} (hrows : 0 < rows.toInt) (hcols : 0 < cols.toInt)
    (hfits : cols.toInt + 8 < 2 ^ 31)
    (hweights : weights.size = rows.toInt.toNat * cols.toInt.toNat)
    (hx : x.size = cols.toInt.toNat) (hbias : ∀ buffer ∈ bias, buffer.size = rows.toInt.toNat)
    (hy : y.size = rows.toInt.toNat) :
    ∃ out, simdGemv build (some weights) rows cols (some x) bias (some y) = some (some out) ∧
      out.size = y.size ∧
      (∀ r < rows.toInt.toNat, out.get r = bias.elim 0 (·.get r) +
        ∑ c ∈ range cols.toInt.toNat, weights.get (r * cols.toInt.toNat + c) * x.get c) ∧
      ∀ index, rows.toInt.toNat ≤ index → out.get index = y.get index := by
  obtain ⟨n, hn⟩ : ∃ n, n = cols.toInt.toNat := ⟨_, rfl⟩
  obtain ⟨count, hcount⟩ : ∃ count, count = rows.toInt.toNat := ⟨_, rfl⟩
  rw [← hn, ← hcount] at hweights
  rw [← hn] at hx ⊢
  rw [← hcount] at hbias hy ⊢
  have hloop : loop (below count) 1 (gemvRow build weights n x bias) (count + 1) 0 y =
      some (lastPosition 1 count 0, y.mapRange (0 + 0) (0 + lastPosition 1 count 0)
        fun r _ ↦ gemvValue weights n x bias r) :=
    Buffer.blocks_spec Nat.one_pos (fun i _ ↦ below_eq)
      (fun r state hr hstate ↦ by
        rw [Nat.zero_add, Nat.zero_add]
        exact gemvRow_eq build (by omega) hweights hx hbias hr (by omega))
      (Nat.zero_le count) (by omega)
  rw [lastPosition_one _ _ (Nat.zero_le count), Nat.zero_add, Nat.zero_add] at hloop
  refine ⟨y.mapRange 0 count fun r _ ↦ gemvValue weights n x bias r, ?_, rfl, fun r hr ↦ ?_,
    fun index hindex ↦ ?_⟩
  · have hguard : ¬ (rows.toInt ≤ 0 ∨ cols.toInt ≤ 0) := by omega
    simp only [simdGemv, if_neg hguard, ← hcount, ← hn, hloop, Option.bind_eq_bind,
      Option.bind_some]
  · rw [Buffer.mapRange_get, if_pos ⟨Nat.zero_le r, hr⟩]
    rfl
  · rw [Buffer.mapRange_get, if_neg (by omega)]

/-- The theorem at a row of nine columns in the AVX2 body. -/
theorem gemv_correct_nine :
    ∃ out, simdGemv (.avx2 true) (some (⟨9, fun i ↦ (i : ℤ), by decide⟩ : Buffer ℤ)) 1 9
        (some ⟨9, fun _ ↦ 2, by decide⟩) (some ⟨1, fun _ ↦ 5, by decide⟩)
        (some ⟨1, fun _ ↦ 0, by decide⟩) = some (some out) ∧ out.get 0 = 77 := by
  obtain ⟨out, hout, -, hrows, -⟩ := gemv_correct (.avx2 true)
    (show 0 < (1 : Int32).toInt by decide) (show 0 < (9 : Int32).toInt by decide) (by decide)
    (show (⟨9, fun i ↦ (i : ℤ), by decide⟩ : Buffer ℤ).size = _ by decide)
    (show (⟨9, fun _ ↦ 2, by decide⟩ : Buffer ℤ).size = _ by decide)
    (show ∀ buffer ∈ some (⟨1, fun _ ↦ 5, by decide⟩ : Buffer ℤ),
        buffer.size = (1 : Int32).toInt.toNat by
      rintro buffer ⟨⟩
      decide)
    (show (⟨1, fun _ ↦ 0, by decide⟩ : Buffer ℤ).size = _ by decide)
  refine ⟨out, hout, (hrows 0 (by decide)).trans ?_⟩
  rw [show (9 : Int32).toInt.toNat = 9 by decide]
  decide

end GameEngine.Ai.SimdKernels
