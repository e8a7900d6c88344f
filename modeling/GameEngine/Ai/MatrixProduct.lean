import GameEngine.Ai.GemvRows

/-!
# The product of two matrices

`simd_matmul_mnk` computes the rows of the product one after the other. It clears a row, and adds to
it every row of the second matrix, multiplied by an element of the first. Each of these steps
changes the elements of one range of the result, by blocks and then one by one, so that a row, and
all rows, are changes of ranges too (`matmulProduct_eq`, `matmulRow_eq`, `matmul_eq`).

The indices are of type `int`. `matmul_correct_iff` says for which sizes none of them overflows, and
that the result is the product exactly then. `matmul_large_overflows` is a product of a column and a
row of 46341 elements.
-/

set_option autoImplicit false
set_option relaxedAutoImplicit false

namespace GameEngine.Ai.SimdKernels

open GameEngine.Library GameEngine.Library.MachineWord Finset

variable {R : Type} [CommRing R]

/-- No index that is computed in an `int` overflows. -/
structure IndicesFit (build : Build) (m k n : ℕ) : Prop where
  result : m * n ≤ 2 ^ 31
  first : m * k ≤ 2 ^ 31
  second : (k - 1) * n < 2 ^ 31
  block : ∀ width ∈ build.lanes, n + width < 2 ^ 31

theorem intMul_eq {first second : ℕ} (hfits : first * second < 2 ^ 31) :
    intMul first second = some (first * second) := if_pos hfits

theorem intAdd_eq {first second : ℕ} (hfits : first + second < 2 ^ 31) :
    intAdd first second = some (first + second) := if_pos hfits

theorem intMul_some {first second value : ℕ} (hvalue : intMul first second = some value) :
    first * second < 2 ^ 31 ∧ value = first * second := by
  unfold intMul at hvalue
  split_ifs at hvalue with hfits
  exact ⟨hfits, (Option.some.inj hvalue).symm⟩

theorem intAdd_some {first second value : ℕ} (hvalue : intAdd first second = some value) :
    first + second < 2 ^ 31 := by
  unfold intAdd at hvalue
  split_ifs at hvalue with hfits
  exact hfits

/-! ### One row -/

section Row

variable {a b c : Buffer R} {m k n i p bp ci : ℕ} {build : Build}

/-- The product of an element with a row, added to the elements of a range from `ci` on. -/
def addProduct (aip : R) (b : Buffer R) (bp ci index : ℕ) (value : R) : R :=
  value + aip * b.get (bp + (index - ci))

theorem matmulLanes_eq {width j : ℕ} {accumulate : (Fin width → R) → (Fin width → R) →
      (Fin width → R) → Fin width → R}
    (haccumulate : ∀ acc wv xv lane, accumulate acc wv xv lane = acc lane + wv lane * xv lane)
    (aip : R) (hb : bp + j + width ≤ b.size) (hc : ci + j + width ≤ c.size) :
    matmulLanes width accumulate (fun _ ↦ aip) b bp ci j c =
      some (c.mapRange (ci + j) (ci + (j + width)) (addProduct aip b bp ci)) := by
  simp only [matmulLanes, Buffer.loadLanes_eq hb, Buffer.loadLanes_eq hc, Option.bind_eq_bind,
    Option.bind_some]
  rw [← Nat.add_assoc]
  refine Buffer.storeLanes_eq hc fun lane ↦ ?_
  rw [haccumulate, addProduct, show ci + j + lane - ci = j + lane by omega, ← Nat.add_assoc]

theorem matmulElement_eq {j : ℕ} (aip : R) (hb : bp + j < b.size) (hc : ci + j < c.size) :
    matmulElement aip b bp ci j c =
      some (c.mapRange (ci + j) (ci + (j + 1)) (addProduct aip b bp ci)) := by
  simp only [matmulElement, Buffer.load_eq hb, Buffer.load_eq hc, Option.bind_eq_bind,
    Option.bind_some]
  refine Buffer.store_eq hc ?_
  rw [addProduct, show ci + j - ci = j by omega]

/-- The vector body of any build adds the product to the elements of its blocks. -/
theorem matmulBlocks_eq (build : Build) (hblock : ∀ width ∈ build.lanes, n + width < 2 ^ 31)
    (aip : R) (hb : bp + n ≤ b.size) (hc : ci + n ≤ c.size) :
    ∃ j ≤ n, matmulBlocks build aip b n bp ci c =
      some (j, c.mapRange ci (ci + j) (addProduct aip b bp ci)) := by
  have hloop : ∀ {width : ℕ} (accumulate : (Fin width → R) → (Fin width → R) → (Fin width → R) →
      Fin width → R), 0 < width → n + width < 2 ^ 31 →
      (∀ acc wv xv lane, accumulate acc wv xv lane = acc lane + wv lane * xv lane) →
      loop (intFits width n) width (matmulLanes width accumulate (fun _ ↦ aip) b bp ci) (n + 1) 0
          c =
        some (lastPosition width n 0,
          c.mapRange (ci + 0) (ci + lastPosition width n 0) (addProduct aip b bp ci)) := by
    intro width accumulate hwidth hfits haccumulate
    exact Buffer.blocks_spec hwidth (fun j hj ↦ intFits_eq (by omega))
      (fun j state hj hstate ↦ matmulLanes_eq haccumulate aip (by omega) (by omega))
      (Nat.zero_le n) (by omega)
  cases build with
  | scalar =>
    refine ⟨0, Nat.zero_le n, ?_⟩
    rw [Nat.add_zero, Buffer.mapRange_empty]
    rfl
  | avx2 fma =>
    exact ⟨lastPosition 8 n 0, lastPosition_le (Nat.zero_le n),
      hloop (avx2Accumulate fma) (by decide) (hblock 8 rfl) (avx2Accumulate_apply fma)⟩
  | neon aarch64 =>
    exact ⟨lastPosition 4 n 0, lastPosition_le (Nat.zero_le n),
      hloop vmlaq (by decide) (hblock 4 rfl) fun _ _ _ _ ↦ rfl⟩

/-- One product of an element with a row. -/
theorem matmulProduct_eq (hfits : IndicesFit build m k n) (hn : 0 < n) (ha : a.size = m * k)
    (hb : b.size = k * n) (hi : i < m) (hp : p < k) (hc : c.size = m * n) :
    matmulProduct build a k b n i p c = some (c.mapRange (i * n) (i * n + n)
      (addProduct (a.get (i * k + p)) b (p * n) (i * n))) := by
  have hrow : i * n + n ≤ m * n := row_end_le hi
  have hik : i * k + k ≤ m * k := row_end_le hi
  have hpn : p * n + n ≤ k * n := row_end_le hp
  have hpn' : p * n ≤ (k - 1) * n := Nat.mul_le_mul_right _ (by omega)
  have hresult := hfits.result
  have hfirst := hfits.first
  have hsecond := hfits.second
  obtain ⟨j, hj, hblocks⟩ := matmulBlocks_eq build hfits.block (a.get (i * k + p))
    (by omega : p * n + n ≤ b.size) (by omega : i * n + n ≤ c.size)
  have htail : ∀ state : Buffer R, state.size = c.size →
      loop (below n) 1 (matmulElement (a.get (i * k + p)) b (p * n) (i * n)) (n + 1) j state =
        some (lastPosition 1 n j, state.mapRange (i * n + j) (i * n + lastPosition 1 n j)
          (addProduct (a.get (i * k + p)) b (p * n) (i * n))) := by
    intro state hstate
    exact Buffer.blocks_spec Nat.one_pos (fun j _ ↦ below_eq)
      (fun j buffer hj hbuffer ↦ matmulElement_eq _ (by omega) (by omega)) hj (by omega)
  simp only [matmulProduct, intMul_eq (by omega : i * k < 2 ^ 31),
    intAdd_eq (by omega : i * k + p < 2 ^ 31), Buffer.load_eq (by omega : i * k + p < a.size),
    intMul_eq (by omega : p * n < 2 ^ 31), intMul_eq (by omega : i * n < 2 ^ 31), hblocks,
    Option.bind_eq_bind, Option.bind_some]
  rw [htail _ (Buffer.mapRange_size (i * n) (i * n + j) _), Option.bind_some,
    lastPosition_one _ _ hj]
  exact congrArg some (Buffer.mapRange_append (by omega) (by omega) _)

/-- A row is cleared. -/
theorem matmulClear_eq (hfits : IndicesFit build m k n) (hi : i < m) (hc : c.size = m * n) :
    loop (below n) 1 (matmulClear n i) (n + 1) 0 c =
      some (n, c.mapRange (i * n) (i * n + n) fun _ _ ↦ 0) := by
  have hrow : i * n + n ≤ m * n := row_end_le hi
  have hresult := hfits.result
  have hloop : loop (below n) 1 (matmulClear n i) (n + 1) 0 c =
      some (lastPosition 1 n 0, c.mapRange (i * n + 0) (i * n + lastPosition 1 n 0)
        fun _ _ ↦ 0) := by
    refine Buffer.blocks_spec Nat.one_pos (fun j _ ↦ below_eq) (fun j state hj hstate ↦ ?_)
      (Nat.zero_le n) (by omega)
    simp only [matmulClear, intMul_eq (by omega : i * n < 2 ^ 31),
      intAdd_eq (by omega : i * n + j < 2 ^ 31), Option.bind_eq_bind, Option.bind_some]
    exact Buffer.store_eq (by omega) rfl
  rwa [lastPosition_one _ _ (Nat.zero_le n), Nat.add_zero] at hloop

/-- The element of the product of two matrices at an index of the result. -/
def productAt (a : Buffer R) (k : ℕ) (b : Buffer R) (n index : ℕ) : R :=
  ∑ p ∈ range k, a.get (index / n * k + p) * b.get (p * n + index % n)

/-- One row of the product. -/
theorem matmulRow_eq (hfits : IndicesFit build m k n) (hn : 0 < n) (ha : a.size = m * k)
    (hb : b.size = k * n) (hi : i < m) (hc : c.size = m * n) :
    matmulRow build a k b n i c =
      some (c.mapRange (i * n) (i * n + n) fun index _ ↦ productAt a k b n index) := by
  have hstep : ∀ p (state : Buffer R), p + 1 ≤ k →
      state = c.mapRange (i * n) (i * n + n) (fun index _ ↦
        ∑ q ∈ range p, a.get (i * k + q) * b.get (q * n + (index - i * n))) →
      ∃ next, matmulProduct build a k b n i p state = some next ∧
        next = c.mapRange (i * n) (i * n + n) fun index _ ↦
          ∑ q ∈ range (p + 1), a.get (i * k + q) * b.get (q * n + (index - i * n)) := by
    rintro p state hp rfl
    refine ⟨_, matmulProduct_eq hfits hn ha hb hi hp hc, ?_⟩
    rw [Buffer.mapRange_comp]
    refine Buffer.mapRange_congr fun index _ _ ↦ ?_
    rw [addProduct, sum_range_succ]
  obtain ⟨final, hloop, hfinal⟩ := loop_spec _ Nat.one_pos (fun p _ ↦ below_eq) hstep
    (Nat.zero_le k) (by omega : k < 0 + (k + 1))
    (show c.mapRange (i * n) (i * n + n) (fun _ _ ↦ 0) = _ by simp only [range_zero, sum_empty])
  rw [lastPosition_one _ _ (Nat.zero_le k)] at hloop hfinal
  simp only [matmulRow, matmulClear_eq hfits hi hc, hloop, Option.bind_eq_bind, Option.bind_some]
  rw [hfinal]
  refine congrArg some (Buffer.mapRange_congr fun index hfirst hlast ↦ ?_)
  have hdiv : index / n = i := by
    refine Nat.div_eq_of_lt_le hfirst ?_
    rwa [Nat.succ_mul]
  have hmod : index % n = index - i * n := by
    rw [Nat.mod_eq_sub, hdiv, Nat.mul_comm]
  rw [productAt, hdiv, hmod]

/-- All rows of the product. -/
theorem matmul_eq (hfits : IndicesFit build m k n) (hn : 0 < n) (ha : a.size = m * k)
    (hb : b.size = k * n) (hc : c.size = m * n) :
    loop (below m) 1 (matmulRow build a k b n) (m + 1) 0 c =
      some (m, c.mapRange 0 (m * n) fun index _ ↦ productAt a k b n index) := by
  have hstep : ∀ i (state : Buffer R), i + 1 ≤ m →
      state = c.mapRange 0 (i * n) (fun index _ ↦ productAt a k b n index) →
      ∃ next, matmulRow build a k b n i state = some next ∧
        next = c.mapRange 0 ((i + 1) * n) fun index _ ↦ productAt a k b n index := by
    rintro i state hi rfl
    refine ⟨_, matmulRow_eq hfits hn ha hb hi hc, ?_⟩
    rw [Nat.succ_mul]
    exact Buffer.mapRange_append (Nat.zero_le _) (Nat.le_add_right _ _) _
  obtain ⟨final, hloop, hfinal⟩ := loop_spec _ Nat.one_pos (fun i _ ↦ below_eq) hstep
    (Nat.zero_le m) (by omega : m < 0 + (m + 1)) (by rw [Nat.zero_mul, Buffer.mapRange_empty])
  rw [lastPosition_one _ _ (Nat.zero_le m)] at hloop hfinal
  rw [hloop, hfinal]

end Row

/-! ### Indices that overflow -/

section Overflow

variable {a b before after : Buffer R} {m k n i p : ℕ} {build : Build}

/-- The last step of a loop over single elements has had a result. -/
theorem last_step {State : Type} {body : ℕ → State → Option State} {count fuel last : ℕ}
    {state final : State} (hpos : 0 < count)
    (hloop : loop (below count) 1 body fuel 0 state = some (last, final)) :
    ∃ before after, body (count - 1) before = some after := by
  have hsteps := (loop_success Nat.one_pos
    (fun i more hmore ↦ (Option.some.inj hmore).symm) hloop).2.2 (count - 1)
    (by rw [Nat.sub_zero, Nat.div_one]; omega)
  rwa [Nat.zero_add, Nat.one_mul] at hsteps

/-- The test of a vector body has not overflowed. -/
theorem intFits_success {State : Type} {width : ℕ} {body : ℕ → State → Option State}
    {fuel last : ℕ} {state final : State} (hwidth : 0 < width)
    (hloop : loop (intFits width n) width body fuel 0 state = some (last, final)) :
    width * (n / width) + width < 2 ^ 31 := by
  have htest : ∀ j more, intFits width n j = some more → more = decide (j + width ≤ n) := by
    intro j more hmore
    obtain ⟨next, hnext, rfl⟩ := Option.map_eq_some_iff.mp hmore
    have hfits := intAdd_some hnext
    rw [intAdd_eq hfits] at hnext
    rw [Option.some.inj hnext]
  obtain ⟨rfl, hsome, -⟩ := loop_success hwidth htest hloop
  obtain ⟨more, hmore⟩ := Option.isSome_iff_exists.mp hsome
  obtain ⟨next, hnext, -⟩ := Option.map_eq_some_iff.mp hmore
  simpa [lastPosition] using intAdd_some hnext

theorem matmulBlocks_success {aip : R} {bp ci j : ℕ}
    (hblocks : matmulBlocks build aip b n bp ci before = some (j, after)) :
    ∀ width ∈ build.lanes, n + width < 2 ^ 31 := by
  cases build with
  | scalar => simp [Build.lanes]
  | avx2 fma =>
    rintro width ⟨⟩
    have hlt := intFits_success (by decide) hblocks
    omega
  | neon aarch64 =>
    rintro width ⟨⟩
    have hlt := intFits_success (by decide) hblocks
    omega

/-- A product of an element with a row has computed its indices. -/
theorem matmulProduct_success (hproduct : matmulProduct build a k b n i p before = some after) :
    i * k + p < 2 ^ 31 ∧ p * n < 2 ^ 31 ∧ ∀ width ∈ build.lanes, n + width < 2 ^ 31 := by
  simp only [matmulProduct, Option.bind_eq_bind, Option.bind_eq_some_iff] at hproduct
  obtain ⟨ik, hik, ikp, hikp, aip, -, bp, hbp, ci, -, ⟨j, middle⟩, hblocks, -⟩ := hproduct
  obtain ⟨-, rfl⟩ := intMul_some hik
  exact ⟨intAdd_some hikp, (intMul_some hbp).1, matmulBlocks_success hblocks⟩

/-- A row has computed the index of its last element, and has made its last product. -/
theorem matmulRow_success (hn : 0 < n) (hk : 0 < k)
    (hrow : matmulRow build a k b n i before = some after) :
    i * n + (n - 1) < 2 ^ 31 ∧ i * k + (k - 1) < 2 ^ 31 ∧ (k - 1) * n < 2 ^ 31 ∧
      ∀ width ∈ build.lanes, n + width < 2 ^ 31 := by
  simp only [matmulRow, Option.bind_eq_bind, Option.bind_eq_some_iff] at hrow
  obtain ⟨⟨last, cleared⟩, hclear, ⟨last', final⟩, hproducts, -⟩ := hrow
  obtain ⟨state, next, hclear⟩ := last_step hn hclear
  obtain ⟨state', next', hproduct⟩ := last_step hk hproducts
  simp only [matmulClear, Option.bind_eq_bind, Option.bind_eq_some_iff] at hclear
  obtain ⟨ci, hci, index, hindex, -⟩ := hclear
  obtain ⟨-, rfl⟩ := intMul_some hci
  exact ⟨intAdd_some hindex, matmulProduct_success hproduct⟩

/-- If all rows have been computed, no index has overflowed. -/
theorem matmul_success (hm : 0 < m) (hk : 0 < k) (hn : 0 < n) {fuel last : ℕ}
    (hloop : loop (below m) 1 (matmulRow build a k b n) fuel 0 before = some (last, after)) :
    IndicesFit build m k n := by
  obtain ⟨state, next, hrow⟩ := last_step hm hloop
  obtain ⟨hresult, hfirst, hsecond, hblock⟩ := matmulRow_success hn hk hrow
  have hmn : (m - 1) * n + n = m * n := by
    rw [← Nat.succ_mul, Nat.succ_eq_add_one, Nat.sub_add_cancel hm]
  have hmk : (m - 1) * k + k = m * k := by
    rw [← Nat.succ_mul, Nat.succ_eq_add_one, Nat.sub_add_cancel hm]
  exact ⟨by omega, by omega, hsecond, hblock⟩

end Overflow

/-- `simd_matmul_mnk` on positive sizes is the loop over the rows. -/
theorem simdMatmulMnk_eq (build : Build) {m k n : Int32} (a b c : Buffer R) (hm : 0 < m.toInt)
    (hk : 0 < k.toInt) (hn : 0 < n.toInt) :
    simdMatmulMnk build (some a) m k (some b) n (some c) =
      (loop (below m.toInt.toNat) 1 (matmulRow build a k.toInt.toNat b n.toInt.toNat)
        (m.toInt.toNat + 1) 0 c).map fun result ↦ some result.2 := by
  have hguard : ¬ (m.toInt ≤ 0 ∨ k.toInt ≤ 0 ∨ n.toInt ≤ 0) := by omega
  simp only [simdMatmulMnk, if_neg hguard, Option.map_eq_bind]
  rfl

/-- For every build, all positive sizes and all matrices of these sizes: `simd_matmul_mnk` computes
the product, reads only the elements of the two matrices and writes only those of the result, with
no overflow of an index, if and only if the result and the first matrix have at most `2 ^ 31`
elements, the rows of the second but the last fewer than `2 ^ 31`, and the number of lanes can be
added to the number of columns in an `int`. -/
theorem matmul_correct_iff (build : Build) {m k n : Int32} {a b c : Buffer R} (hm : 0 < m.toInt)
    (hk : 0 < k.toInt) (hn : 0 < n.toInt) (ha : a.size = m.toInt.toNat * k.toInt.toNat)
    (hb : b.size = k.toInt.toNat * n.toInt.toNat) (hc : c.size = m.toInt.toNat * n.toInt.toNat) :
    (∃ out, simdMatmulMnk build (some a) m k (some b) n (some c) = some (some out) ∧
      out.size = c.size ∧
      (∀ i < m.toInt.toNat, ∀ j < n.toInt.toNat, out.get (i * n.toInt.toNat + j) =
        ∑ p ∈ range k.toInt.toNat,
          a.get (i * k.toInt.toNat + p) * b.get (p * n.toInt.toNat + j)) ∧
      ∀ index, m.toInt.toNat * n.toInt.toNat ≤ index → out.get index = c.get index) ↔
    IndicesFit build m.toInt.toNat k.toInt.toNat n.toInt.toNat := by
  rw [simdMatmulMnk_eq build a b c hm hk hn]
  constructor
  · rintro ⟨out, hout, -⟩
    obtain ⟨⟨last, after⟩, hloop, -⟩ := Option.map_eq_some_iff.mp hout
    exact matmul_success (by omega) (by omega) (by omega) hloop
  · intro hfits
    rw [matmul_eq hfits (by omega) ha hb hc, Option.map_some]
    refine ⟨_, rfl, rfl, fun i hi j hj ↦ ?_, fun index hindex ↦ ?_⟩
    · have hend : i * n.toInt.toNat + n.toInt.toNat ≤ m.toInt.toNat * n.toInt.toNat :=
        row_end_le hi
      rw [Buffer.mapRange_get, if_pos ⟨Nat.zero_le _, by omega⟩, productAt, Nat.add_comm _ j,
        Nat.add_mul_div_right _ _ (by omega), Nat.div_eq_of_lt hj, Nat.zero_add,
        Nat.add_mul_mod_self_right, Nat.mod_eq_of_lt hj]
    · rw [Buffer.mapRange_get, if_neg (by omega)]

/-- The theorem at a product of two matrices with two rows and two columns. -/
theorem matmul_correct_iff_two :
    ∃ out, simdMatmulMnk (.avx2 false) (some (⟨4, fun i ↦ (i : ℤ), by decide⟩ : Buffer ℤ)) 2 2
        (some ⟨4, fun i ↦ i + 1, by decide⟩) 2 (some ⟨4, fun _ ↦ 7, by decide⟩) = some (some out) ∧
      out.get 3 = 16 := by
  obtain ⟨out, hout, -, hproduct, -⟩ := (matmul_correct_iff (.avx2 false)
    (show 0 < (2 : Int32).toInt by decide) (show 0 < (2 : Int32).toInt by decide)
    (show 0 < (2 : Int32).toInt by decide)
    (show (⟨4, fun i ↦ (i : ℤ), by decide⟩ : Buffer ℤ).size = _ by decide)
    (show (⟨4, fun i ↦ i + 1, by decide⟩ : Buffer ℤ).size = _ by decide)
    (show (⟨4, fun _ ↦ 7, by decide⟩ : Buffer ℤ).size = _ by decide)).mpr
    ⟨by decide, by decide, by decide, by rintro width ⟨⟩; decide⟩
  refine ⟨out, hout, (hproduct 1 (by decide) 1 (by decide)).trans ?_⟩
  rw [show (2 : Int32).toInt.toNat = 2 by decide]
  decide

/-- The product of a column and a row of 46341 elements: the index of the last element is too large
for an `int`. -/
theorem matmul_large_overflows :
    simdMatmulMnk (.avx2 false) (some (⟨46341, fun _ ↦ 0, by decide⟩ : Buffer ℤ)) 46341 1
        (some ⟨46341, fun _ ↦ 0, by decide⟩) 46341 (some ⟨2147488281, fun _ ↦ 0, by decide⟩) =
      none := by
  rw [simdMatmulMnk_eq _ _ _ _ (by decide) (by decide) (by decide), Option.map_eq_none_iff,
    Option.eq_none_iff_forall_not_mem]
  rintro ⟨last, after⟩ hloop
  have hfits := matmul_success (by decide) (by decide) (by decide) hloop
  exact absurd hfits.result (by decide)

end GameEngine.Ai.SimdKernels
