import Mathlib.Data.Nat.ModEq
import Mathlib.Data.List.GetD

/-!
# Windows of a circular buffer

A buffer is a function from cell indices to contents, and a circular buffer of `capacity` cells is
read at positions modulo `capacity`. `window buffer capacity start length` is the list of the
`length` cells from position `start` on, in cyclic order. Positions are unbounded: two positions
less than one lap apart lie in different cells (`mod_ne_mod`).

A window of at most one lap is stored in two contiguous segments, the part up to the end of the
buffer and the part that wrapped to its front (`window_eq_segments`). Overwriting these two
segments with the pieces of a list is `spliceWindow`; it puts the list into the window
(`window_spliceWindow_self`) and leaves every window that shares no cell with it as it was
(`window_spliceWindow_of_disjoint`).
-/

set_option autoImplicit false
set_option relaxedAutoImplicit false

namespace GameEngine.Library.CircularBuffer

variable {α : Type*}

/-- Two positions less than one lap apart lie in different cells. -/
theorem mod_ne_mod {capacity first second : ℕ} (hlt : first < second)
    (hgap : second < first + capacity) : first % capacity ≠ second % capacity := by
  intro heq
  have hdvd : capacity ∣ second - first := (Nat.modEq_iff_dvd' hlt.le).mp heq
  have hle := Nat.le_of_dvd (Nat.sub_pos_of_lt hlt) hdvd
  omega

/-- Two offsets below the capacity from one start lie in the same cell only when they are equal. -/
theorem offset_eq_of_mod_eq {capacity start first second : ℕ} (hfirst : first < capacity)
    (hsecond : second < capacity)
    (heq : (start + first) % capacity = (start + second) % capacity) : first = second := by
  rcases Nat.lt_trichotomy first second with hlt | rfl | hgt
  · exact absurd heq (mod_ne_mod (by omega) (by omega))
  · rfl
  · exact absurd heq.symm (mod_ne_mod (by omega) (by omega))

/-! ### Contiguous cells and windows -/

/-- The contents of `length` contiguous cells from `offset` on. -/
def cells (buffer : ℕ → α) (offset length : ℕ) : List α :=
  (List.range length).map fun k ↦ buffer (offset + k)

/-- The contents of the `length` cells from position `start` on, in cyclic order. -/
def window (buffer : ℕ → α) (capacity start length : ℕ) : List α :=
  (List.range length).map fun k ↦ buffer ((start + k) % capacity)

@[simp] theorem length_cells (buffer : ℕ → α) (offset length : ℕ) :
    (cells buffer offset length).length = length := by
  simp [cells]

@[simp] theorem length_window (buffer : ℕ → α) (capacity start length : ℕ) :
    (window buffer capacity start length).length = length := by
  simp [window]

@[simp] theorem window_zero (buffer : ℕ → α) (capacity start : ℕ) :
    window buffer capacity start 0 = [] := rfl

/-- Contiguous cells, and those that follow them. -/
theorem cells_append (buffer : ℕ → α) (offset first second : ℕ) :
    cells buffer offset first ++ cells buffer (offset + first) second =
      cells buffer offset (first + second) := by
  simp [cells, List.range_add, Nat.add_assoc]

/-- Cells on which two buffers agree. -/
theorem cells_congr {buffer buffer' : ℕ → α} {offset length : ℕ}
    (hsame : ∀ index, offset ≤ index → index < offset + length →
      buffer' index = buffer index) : cells buffer' offset length = cells buffer offset length := by
  refine List.map_congr_left fun k hk ↦ hsame _ (Nat.le_add_right _ _) ?_
  exact Nat.add_lt_add_left (List.mem_range.mp hk) _

theorem getElem_window (buffer : ℕ → α) (capacity start length k : ℕ)
    (hk : k < (window buffer capacity start length).length) :
    (window buffer capacity start length)[k] = buffer ((start + k) % capacity) := by
  simp [window]

/-- A window depends on its start only modulo the capacity. -/
theorem window_mod_start (buffer : ℕ → α) (capacity start length : ℕ) :
    window buffer capacity (start % capacity) length = window buffer capacity start length := by
  simp [window, Nat.mod_add_mod]

/-- Windows whose starts agree modulo the capacity are equal. -/
theorem window_congr {buffer : ℕ → α} {capacity start start' length : ℕ}
    (hstart : start % capacity = start' % capacity) :
    window buffer capacity start length = window buffer capacity start' length := by
  rw [← window_mod_start, hstart, window_mod_start]

/-- Two windows, the second from where the first ends, make one window. -/
theorem window_append (buffer : ℕ → α) (capacity start first second : ℕ) :
    window buffer capacity start first ++ window buffer capacity (start + first) second =
      window buffer capacity start (first + second) := by
  simp [window, List.range_add, Nat.add_assoc]

/-- The front of a window is the shorter window from the same start. -/
theorem take_window (buffer : ℕ → α) (capacity start length count : ℕ) :
    (window buffer capacity start length).take count =
      window buffer capacity start (min count length) := by
  simp [window, ← List.map_take, List.take_range]

/-- The rest of a window is the window from the later start. -/
theorem drop_window {buffer : ℕ → α} {capacity start length count : ℕ} (hcount : count ≤ length) :
    (window buffer capacity start length).drop count =
      window buffer capacity (start + count) (length - count) := by
  have hsplit := window_append buffer capacity start count (length - count)
  rw [Nat.add_sub_cancel' hcount] at hsplit
  rw [← hsplit, List.drop_left' (length_window _ _ _ _)]

/-- The number of cells of a window that come before the end of the buffer. -/
def firstSegment (capacity start length : ℕ) : ℕ := min length (capacity - start % capacity)

/-- A window of at most one lap is the segment up to the end of the buffer followed by the segment
that wrapped to its front. -/
theorem window_eq_segments {buffer : ℕ → α} {capacity start length : ℕ}
    (hlength : length ≤ capacity) :
    window buffer capacity start length =
      cells buffer (start % capacity) (firstSegment capacity start length) ++
        cells buffer 0 (length - firstSegment capacity start length) := by
  apply List.ext_getElem
  · simp [firstSegment]
  · intro k hk _
    rw [length_window] at hk
    have hpos : 0 < capacity := by omega
    have hmod := Nat.mod_lt start hpos
    rw [getElem_window, List.getElem_append, ← Nat.mod_add_mod]
    simp only [length_cells]
    split_ifs with hfirst
    · have hbelow : start % capacity + k < capacity := by
        unfold firstSegment at hfirst
        omega
      simp [cells, Nat.mod_eq_of_lt hbelow]
    · have hwrap : start % capacity + k = (k - firstSegment capacity start length) + capacity := by
        unfold firstSegment at hfirst ⊢
        omega
      have hbelow : k - firstSegment capacity start length < capacity := by omega
      rw [hwrap, Nat.add_mod_right, Nat.mod_eq_of_lt hbelow]
      simp [cells]

/-! ### Overwriting cells -/

/-- Overwrites contiguous cells from `offset` on with a list. -/
def splice (buffer : ℕ → α) (offset : ℕ) (data : List α) (index : ℕ) : α :=
  if offset ≤ index then data.getD (index - offset) (buffer index) else buffer index

theorem splice_inside {buffer : ℕ → α} {offset k : ℕ} {data : List α} (hk : k < data.length) :
    splice buffer offset data (offset + k) = data[k] := by
  simp [splice, hk]

theorem splice_outside {buffer : ℕ → α} {offset index : ℕ} {data : List α}
    (hindex : index < offset ∨ offset + data.length ≤ index) :
    splice buffer offset data index = buffer index := by
  unfold splice
  split_ifs with hle
  · rw [List.getD_eq_default]
    omega
  · rfl

/-- The overwritten cells hold the list. -/
theorem cells_splice_self (buffer : ℕ → α) (offset : ℕ) (data : List α) :
    cells (splice buffer offset data) offset data.length = data := by
  apply List.ext_getElem
  · simp
  · intro k _ hk
    simp [cells, splice_inside hk]

@[simp] theorem splice_nil (buffer : ℕ → α) (offset : ℕ) : splice buffer offset [] = buffer := by
  funext index
  exact splice_outside (by simp only [List.length_nil]; omega)

/-- Overwrites the window from position `start` on with a list of at most one lap: its front goes
up to the end of the buffer, the rest to the front of the buffer. -/
def spliceWindow (buffer : ℕ → α) (capacity start : ℕ) (data : List α) : ℕ → α :=
  splice (splice buffer (start % capacity) (data.take (firstSegment capacity start data.length))) 0
    (data.drop (firstSegment capacity start data.length))

@[simp] theorem spliceWindow_nil (buffer : ℕ → α) (capacity start : ℕ) :
    spliceWindow buffer capacity start [] = buffer := by
  simp [spliceWindow]

/-- Every cell of the overwritten window holds its element of the list. -/
theorem spliceWindow_inside {buffer : ℕ → α} {capacity start k : ℕ} {data : List α}
    (hdata : data.length ≤ capacity) (hk : k < data.length) :
    spliceWindow buffer capacity start data ((start + k) % capacity) = data[k] := by
  have hmod := Nat.mod_lt start (by omega : 0 < capacity)
  rw [← Nat.mod_add_mod]
  unfold spliceWindow
  generalize hfirst : firstSegment capacity start data.length = first
  unfold firstSegment at hfirst
  by_cases hsegment : k < first
  · have hbelow : start % capacity + k < capacity := by omega
    rw [Nat.mod_eq_of_lt hbelow, splice_outside (by simp only [List.length_drop]; omega),
      splice_inside (by simp only [List.length_take]; omega), List.getElem_take]
  · have hwrap : start % capacity + k = (k - first) + capacity := by omega
    have hbelow : k - first < capacity := by omega
    rw [hwrap, Nat.add_mod_right, Nat.mod_eq_of_lt hbelow]
    have hrest : k - first < (data.drop first).length := by
      simp only [List.length_drop]
      omega
    have hinside : splice (splice buffer (start % capacity) (data.take first)) 0 (data.drop first)
        (k - first) = (data.drop first)[k - first] := by
      rw [← splice_inside hrest, Nat.zero_add]
    rw [hinside, List.getElem_drop]
    congr 1
    omega

/-- A cell outside the overwritten window keeps its content. -/
theorem spliceWindow_outside {buffer : ℕ → α} {capacity start index : ℕ} {data : List α}
    (hdata : data.length ≤ capacity)
    (houtside : ∀ k < data.length, index ≠ (start + k) % capacity) :
    spliceWindow buffer capacity start data index = buffer index := by
  by_cases hempty : data = []
  · simp [hempty, spliceWindow]
  have hlength : 0 < data.length := List.length_pos_iff.mpr hempty
  have hmod := Nat.mod_lt start (by omega : 0 < capacity)
  unfold spliceWindow
  generalize hfirst : firstSegment capacity start data.length = first
  unfold firstSegment at hfirst
  have hsecond : data.length - first ≤ index := by
    by_contra hinside
    have hcell := houtside (first + index) (by omega)
    rw [← Nat.mod_add_mod, show start % capacity + (first + index) = index + capacity by omega,
      Nat.add_mod_right, Nat.mod_eq_of_lt (by omega)] at hcell
    exact hcell rfl
  have hsegment : index < start % capacity ∨ start % capacity + first ≤ index := by
    by_contra hinside
    have hcell := houtside (index - start % capacity) (by omega)
    rw [← Nat.mod_add_mod, show start % capacity + (index - start % capacity) = index by omega,
      Nat.mod_eq_of_lt (by omega)] at hcell
    exact hcell rfl
  rw [splice_outside (by simp only [List.length_drop]; omega),
    splice_outside (by simp only [List.length_take]; omega)]

/-- The overwritten window holds the list. -/
theorem window_spliceWindow_self {buffer : ℕ → α} {capacity start : ℕ} {data : List α}
    (hdata : data.length ≤ capacity) :
    window (spliceWindow buffer capacity start data) capacity start data.length = data := by
  apply List.ext_getElem
  · simp
  · intro k _ hk
    rw [getElem_window, spliceWindow_inside hdata hk]

/-- A window that shares no cell with the overwritten one keeps its contents. -/
theorem window_spliceWindow_of_disjoint {buffer : ℕ → α} {capacity start start' length : ℕ}
    {data : List α} (hdata : data.length ≤ capacity)
    (hdisjoint : ∀ k < length, ∀ l < data.length,
      (start' + k) % capacity ≠ (start + l) % capacity) :
    window (spliceWindow buffer capacity start data) capacity start' length =
      window buffer capacity start' length := by
  refine List.map_congr_left fun k hk ↦ ?_
  exact spliceWindow_outside hdata (hdisjoint k (List.mem_range.mp hk))

end GameEngine.Library.CircularBuffer
