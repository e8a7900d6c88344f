import GameEngine.Library.CountedLoop
import Mathlib.Data.Fin.Basic
import Mathlib.Logic.Function.Basic

/-!
# Buffers with lanes

A buffer is an array behind a pointer, of a size that an array in the address space may have. An
access outside is impossible. Vector instructions load and store several neighbouring elements at
once, its lanes.

`mapRange` changes the elements of a range, each by its index. A loop over blocks of lanes and a
loop over single elements are both such changes (`blocks_spec`); neighbouring ones are one, and so
are two on the same range.
-/

set_option autoImplicit false
set_option relaxedAutoImplicit false

namespace GameEngine.Library

variable {α : Type*}

/-- The elements behind a pointer. Only those below `size` may be read or written. -/
structure Buffer (α : Type*) where
  size : ℕ
  get : ℕ → α
  size_le : size ≤ 2 ^ 62

namespace Buffer

@[ext]
theorem ext_get {first second : Buffer α} (hsize : first.size = second.size)
    (hget : ∀ index, first.get index = second.get index) : first = second := by
  obtain ⟨size, get, hle⟩ := first
  obtain ⟨size', get', hle'⟩ := second
  obtain rfl : size = size' := hsize
  obtain rfl : get = get' := funext hget
  rfl

/-- Reads an element. -/
def load (buffer : Buffer α) (index : ℕ) : Option α :=
  if index < buffer.size then some (buffer.get index) else none

/-- Reads neighbouring elements. -/
def loadLanes (width : ℕ) (buffer : Buffer α) (index : ℕ) : Option (Fin width → α) :=
  if index + width ≤ buffer.size then some fun lane ↦ buffer.get (index + lane) else none

/-- The elements of a range changed. -/
def mapRange (first last : ℕ) (change : ℕ → α → α) (buffer : Buffer α) : Buffer α :=
  { buffer with
    get := fun index ↦
      if first ≤ index ∧ index < last then change index (buffer.get index) else buffer.get index }

/-- Writes an element. -/
def store (buffer : Buffer α) (index : ℕ) (value : α) : Option (Buffer α) :=
  if index < buffer.size then
    some { buffer with get := Function.update buffer.get index value }
  else none

/-- Writes neighbouring elements. -/
def storeLanes {width : ℕ} (buffer : Buffer α) (index : ℕ) (lanes : Fin width → α) :
    Option (Buffer α) :=
  if index + width ≤ buffer.size then
    some { buffer with
      get := fun other ↦
        if hlane : index ≤ other ∧ other < index + width then lanes ⟨other - index, by omega⟩
        else buffer.get other }
  else none

section Access

variable {buffer : Buffer α} {index : ℕ}

theorem load_eq (hindex : index < buffer.size) : buffer.load index = some (buffer.get index) :=
  if_pos hindex

theorem loadLanes_eq {width : ℕ} (hindex : index + width ≤ buffer.size) :
    buffer.loadLanes width index = some fun lane : Fin width ↦ buffer.get (index + lane) :=
  if_pos hindex

@[simp]
theorem mapRange_size (first last : ℕ) (change : ℕ → α → α) :
    (buffer.mapRange first last change).size = buffer.size := rfl

theorem mapRange_get (first last : ℕ) (change : ℕ → α → α) (other : ℕ) :
    (buffer.mapRange first last change).get other =
      if first ≤ other ∧ other < last then change other (buffer.get other) else buffer.get other :=
  rfl

/-- An element is written by changing it. -/
theorem store_eq (hindex : index < buffer.size) {change : ℕ → α → α} {value : α}
    (hvalue : value = change index (buffer.get index)) :
    buffer.store index value = some (buffer.mapRange index (index + 1) change) := by
  rw [store, if_pos hindex, Option.some.injEq]
  refine Buffer.ext_get rfl fun other ↦ ?_
  rw [mapRange_get]
  by_cases hother : other = index
  · subst hother
    rw [if_pos ⟨le_rfl, Nat.lt_succ_self _⟩]
    exact (Function.update_self ..).trans hvalue
  · rw [if_neg (by omega)]
    exact Function.update_of_ne hother ..

/-- Lanes are written by changing each. -/
theorem storeLanes_eq {width : ℕ} (hindex : index + width ≤ buffer.size) {change : ℕ → α → α}
    {lanes : Fin width → α}
    (hlanes : ∀ lane, lanes lane = change (index + lane) (buffer.get (index + lane))) :
    buffer.storeLanes index lanes = some (buffer.mapRange index (index + width) change) := by
  rw [storeLanes, if_pos hindex, Option.some.injEq]
  refine Buffer.ext_get rfl fun other ↦ ?_
  rw [mapRange_get]
  dsimp only
  split_ifs with hlane
  · have hother : index + (other - index) = other := by omega
    simpa [hother] using hlanes ⟨other - index, by omega⟩
  · rfl

/-- Nothing is changed. -/
theorem mapRange_empty (first : ℕ) (change : ℕ → α → α) :
    buffer.mapRange first first change = buffer := by
  refine Buffer.ext_get rfl fun other ↦ ?_
  rw [mapRange_get, if_neg (by omega)]

/-- Neighbouring ranges are one. -/
theorem mapRange_append {first middle last : ℕ} (hfirst : first ≤ middle) (hlast : middle ≤ last)
    (change : ℕ → α → α) :
    (buffer.mapRange first middle change).mapRange middle last change =
      buffer.mapRange first last change := by
  refine Buffer.ext_get rfl fun other ↦ ?_
  simp only [mapRange_get]
  split_ifs <;> first | rfl | omega

/-- Two changes of a range are one. -/
theorem mapRange_comp (first last : ℕ) (change again : ℕ → α → α) :
    (buffer.mapRange first last change).mapRange first last again =
      buffer.mapRange first last fun index value ↦ again index (change index value) := by
  refine Buffer.ext_get rfl fun other ↦ ?_
  simp only [mapRange_get]
  split_ifs <;> rfl

/-- Only the changes of the elements in the range matter. -/
theorem mapRange_congr {first last : ℕ} {change other : ℕ → α → α}
    (hchange : ∀ index, first ≤ index → index < last →
      change index (buffer.get index) = other index (buffer.get index)) :
    buffer.mapRange first last change = buffer.mapRange first last other := by
  refine Buffer.ext_get rfl fun index ↦ ?_
  simp only [mapRange_get]
  split_ifs with hrange
  · exact hchange index hrange.1 hrange.2
  · rfl

/-- A loop whose body changes the elements of one block after the other changes all blocks that fit.
`base` is the index of the element at the position zero. -/
theorem blocks_spec {test : ℕ → Option Bool} {width bound base : ℕ}
    {body : ℕ → Buffer α → Option (Buffer α)} {change : ℕ → α → α} (hwidth : 0 < width)
    (htest : ∀ position ≤ bound, test position = some (decide (position + width ≤ bound)))
    (hbody : ∀ position (state : Buffer α), position + width ≤ bound → state.size = buffer.size →
      body position state =
        some (state.mapRange (base + position) (base + (position + width)) change))
    {fuel start : ℕ} (hstart : start ≤ bound) (hfuel : bound < start + fuel) :
    loop test width body fuel start buffer =
      some (lastPosition width bound start,
        buffer.mapRange (base + start) (base + lastPosition width bound start) change) := by
  have hstep : ∀ position (state : Buffer α), position + width ≤ bound →
      state = buffer.mapRange (base + start) (base + position) change ∧ start ≤ position →
      ∃ next, body position state = some next ∧
        next = buffer.mapRange (base + start) (base + (position + width)) change ∧
          start ≤ position + width := by
    rintro position state hfits ⟨rfl, hle⟩
    refine ⟨_, hbody position _ hfits rfl, ?_, by omega⟩
    exact mapRange_append (by omega) (by omega) change
  obtain ⟨final, hloop, hfinal, -⟩ := loop_spec _ hwidth htest hstep hstart hfuel
    ⟨(mapRange_empty _ _).symm, le_rfl⟩
  rw [hloop, hfinal]

end Access

end Buffer

end GameEngine.Library
