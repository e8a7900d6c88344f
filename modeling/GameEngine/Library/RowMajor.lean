import GameEngine.Library.CircularBuffer

/-!
# Planes in row-major order

A plane of pixels lies in a buffer row by row: the pixel in row `y` and column `x` of a plane with
`columns` columns is at index `y * columns + x`. `plane` is the list of its pixels in this order
(`plane_eq_map`). A plane also comes from single stores in any order, as long as each stores the
value of its index and every index is hit (`cells_stores`).
-/

set_option autoImplicit false
set_option relaxedAutoImplicit false

namespace GameEngine.Library.RowMajor

open CircularBuffer

variable {α : Type*}

/-- The pixels of a plane, row by row. -/
def plane (rows columns : ℕ) (pixel : ℕ → ℕ → α) : List α :=
  (List.range rows).flatMap fun y ↦ (List.range columns).map (pixel y)

theorem plane_succ (rows columns : ℕ) (pixel : ℕ → ℕ → α) :
    plane (rows + 1) columns pixel =
      plane rows columns pixel ++ (List.range columns).map (pixel rows) := by
  simp [plane, List.range_succ]

/-- The pixel at an index. -/
theorem plane_eq_map (rows columns : ℕ) (pixel : ℕ → ℕ → α) :
    plane rows columns pixel =
      (List.range (rows * columns)).map fun index ↦ pixel (index / columns) (index % columns) := by
  induction rows with
  | zero => simp [plane]
  | succ rows ih =>
    rw [plane_succ, ih, Nat.succ_mul, List.range_add, List.map_append, List.map_map]
    congr 1
    refine List.map_congr_left fun x hx ↦ ?_
    have hx := List.mem_range.mp hx
    have hcolumns : 0 < columns := Nat.zero_lt_of_lt hx
    simp only [Function.comp_apply]
    rw [Nat.mul_comm rows, Nat.mul_add_div hcolumns, Nat.div_eq_of_lt hx, Nat.mul_add_mod,
      Nat.mod_eq_of_lt hx, Nat.add_zero]

@[simp] theorem length_plane (rows columns : ℕ) (pixel : ℕ → ℕ → α) :
    (plane rows columns pixel).length = rows * columns := by
  rw [plane_eq_map, List.length_map, List.length_range]

/-- Every index of a plane belongs to a pixel. -/
theorem exists_pixel {rows columns index : ℕ} (hindex : index < rows * columns) :
    ∃ y < rows, ∃ x < columns, y * columns + x = index := by
  have hcolumns : 0 < columns := Nat.pos_of_ne_zero fun hzero ↦ by simp [hzero] at hindex
  refine ⟨index / columns, Nat.div_lt_of_lt_mul ?_, index % columns, Nat.mod_lt _ hcolumns, ?_⟩
  · rwa [Nat.mul_comm]
  · rw [Nat.mul_comm]
    exact Nat.div_add_mod index columns

/-! ### Single stores -/

/-- Stores at indices relative to an offset, in order. -/
def stores (buffer : ℕ → α) (offset : ℕ) (writes : List (ℕ × α)) : ℕ → α :=
  writes.foldl (fun buffer write ↦ Function.update buffer (offset + write.1) write.2) buffer

/-- A cell after stores that all store the value of their index. -/
theorem stores_apply {writes : List (ℕ × α)} {value : ℕ → α}
    (hvalue : ∀ write ∈ writes, write.2 = value write.1) {buffer : ℕ → α} {offset index : ℕ}
    (hhit : buffer (offset + index) = value index ∨ ∃ write ∈ writes, write.1 = index) :
    stores buffer offset writes (offset + index) = value index := by
  induction writes generalizing buffer with
  | nil => simpa [stores] using hhit
  | cons write rest ih =>
    refine ih (fun other hother ↦ hvalue other (List.mem_cons_of_mem _ hother)) ?_
    by_cases hindex : write.1 = index
    · subst hindex
      exact .inl ((Function.update_self _ _ _).trans (hvalue write List.mem_cons_self))
    · rcases hhit with hold | ⟨other, hother, rfl⟩
      · exact .inl ((Function.update_of_ne (by omega) _ _).trans hold)
      · rcases List.mem_cons.mp hother with rfl | hrest
        · exact absurd rfl hindex
        · exact .inr ⟨other, hrest, rfl⟩

/-- Cells that are all hit. -/
theorem cells_stores {writes : List (ℕ × α)} {value : ℕ → α}
    (hvalue : ∀ write ∈ writes, write.2 = value write.1) (buffer : ℕ → α) {offset length : ℕ}
    (hhit : ∀ index < length, ∃ write ∈ writes, write.1 = index) :
    cells (stores buffer offset writes) offset length = (List.range length).map value :=
  List.map_congr_left fun index hindex ↦
    stores_apply hvalue (.inr (hhit index (List.mem_range.mp hindex)))

end GameEngine.Library.RowMajor
