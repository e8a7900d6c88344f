import Mathlib.Data.Nat.Bitwise
import Mathlib.Tactic.Ring

/-!
# Free-running machine counters

Unsigned machine arithmetic on `ℕ`, with the modulus `2 ^ w` of the word as a parameter. A
free-running counter keeps only the residue of an unbounded count. `subMod_mod` is the fact every
user of such counters relies on: the wrapped difference of two residues is the true difference of
the counts as long as that difference is below the modulus, whether or not the residues wrapped.

`and_add_and_not` splits a word into its bits inside a mask and those outside it, which bounds what
rounding down by a mask takes away.
-/

set_option autoImplicit false
set_option relaxedAutoImplicit false

namespace GameEngine.Library.MachineWord

/-- The number of values of a 64-bit word. -/
def word64 : ℕ := 2 ^ 64

/-- The number of values of a 32-bit word. -/
def word32 : ℕ := 2 ^ 32

/-- Wrapping addition. -/
def addMod (modulus first second : ℕ) : ℕ := (first + second) % modulus

/-- Wrapping subtraction. -/
def subMod (modulus first second : ℕ) : ℕ := (modulus - second % modulus + first) % modulus

theorem word64_pos : 0 < word64 := by norm_num [word64]

/-- A wrapped result is a word. -/
theorem addMod_lt {modulus : ℕ} (hmodulus : 0 < modulus) (first second : ℕ) :
    addMod modulus first second < modulus :=
  Nat.mod_lt _ hmodulus

/-- Wrapping addition of residues is the residue of the sum. -/
theorem addMod_mod (modulus first second : ℕ) :
    addMod modulus (first % modulus) second = (first + second) % modulus :=
  Nat.mod_add_mod first modulus second

/-- The wrapped difference of two counter residues is the true difference of the counts. Assumes:
the second count is at most the first, and less than the modulus behind it. -/
theorem subMod_mod {modulus first second : ℕ} (hle : second ≤ first)
    (hlt : first - second < modulus) :
    subMod modulus (first % modulus) (second % modulus) = first - second := by
  have hpos : 0 < modulus := Nat.lt_of_le_of_lt (Nat.zero_le _) hlt
  have hresidue : second % modulus < modulus := Nat.mod_lt _ hpos
  have hsum : first + (modulus - second % modulus) =
      (first - second) + modulus * (second / modulus + 1) := by
    have hsplit := Nat.div_add_mod second modulus
    rw [Nat.mul_add, Nat.mul_one]
    omega
  rw [subMod, Nat.mod_mod, Nat.add_comm, Nat.mod_add_mod, hsum, Nat.add_mul_mod_self_left,
    Nat.mod_eq_of_lt hlt]

/-- Wrapping subtraction from a residue is the residue of the difference. -/
theorem subMod_mod_left {modulus first second : ℕ} (hle : second ≤ first)
    (hsecond : second < modulus) :
    subMod modulus (first % modulus) second = (first - second) % modulus := by
  rw [subMod, Nat.mod_eq_of_lt hsecond, Nat.add_comm, Nat.mod_add_mod,
    show first + (modulus - second) = first - second + modulus by omega, Nat.add_mod_right]

/-- Subtraction that does not go below zero does not wrap. -/
theorem subMod_of_le {modulus first second : ℕ} (hle : second ≤ first) (hlt : first < modulus) :
    subMod modulus first second = first - second := by
  have hdiff : first - second < modulus := Nat.lt_of_le_of_lt (Nat.sub_le _ _) hlt
  have h := subMod_mod hle hdiff
  rwa [Nat.mod_eq_of_lt hlt, Nat.mod_eq_of_lt (Nat.lt_of_le_of_lt hle hlt)] at h

/-- Wrapping subtraction of words, by the order of its arguments. -/
theorem subMod_eq {modulus first second : ℕ} (hfirst : first < modulus)
    (hsecond : second < modulus) : subMod modulus first second =
      if second ≤ first then first - second else modulus + first - second := by
  split_ifs with hle
  · exact subMod_of_le hle hfirst
  · rw [subMod, Nat.mod_eq_of_lt hsecond, Nat.mod_eq_of_lt (by omega)]
    omega

/-- Wrapping addition of words, by whether the sum reaches the modulus. -/
theorem addMod_eq {modulus first second : ℕ} (hfirst : first < modulus)
    (hsecond : second ≤ modulus) : addMod modulus first second =
      if first + second < modulus then first + second else first + second - modulus := by
  split_ifs with hlt
  · exact Nat.mod_eq_of_lt hlt
  · rw [addMod, Nat.mod_eq_sub_mod (by omega), Nat.mod_eq_of_lt (by omega)]

/-- The wrapped difference leads back from the second word to the first. -/
theorem addMod_subMod {modulus first second : ℕ} (hfirst : first < modulus)
    (hsecond : second < modulus) :
    addMod modulus second (subMod modulus first second) = first := by
  rw [subMod_eq hfirst hsecond]
  split_ifs with hle
  · rw [addMod_eq hsecond (by omega)]
    split_ifs <;> omega
  · rw [addMod_eq hsecond (by omega)]
    split_ifs <;> omega

/-- Advancing the first counter widens the wrapped difference. Assumes: the wider difference is
still below the modulus. -/
theorem subMod_addMod_left {modulus first second count : ℕ} (hfirst : first < modulus)
    (hsecond : second < modulus) (hcount : subMod modulus first second + count < modulus) :
    subMod modulus (addMod modulus first count) second = subMod modulus first second + count := by
  have hlt := addMod_lt (Nat.lt_of_le_of_lt (Nat.zero_le _) hfirst) first count
  rw [subMod_eq hfirst hsecond] at hcount ⊢
  rw [subMod_eq hlt hsecond, addMod_eq hfirst (by split_ifs at hcount <;> omega)]
  split_ifs at hcount ⊢ <;> omega

/-- Advancing the second counter narrows the wrapped difference. Assumes: it does not overtake the
first. -/
theorem subMod_addMod_right {modulus first second count : ℕ} (hfirst : first < modulus)
    (hsecond : second < modulus) (hcount : count ≤ subMod modulus first second) :
    subMod modulus first (addMod modulus second count) = subMod modulus first second - count := by
  have hlt := addMod_lt (Nat.lt_of_le_of_lt (Nat.zero_le _) hfirst) second count
  rw [subMod_eq hfirst hsecond] at hcount ⊢
  rw [subMod_eq hfirst hlt, addMod_eq hsecond (by split_ifs at hcount <;> omega)]
  split_ifs at hcount ⊢ <;> omega

/-- The bits of a word inside a mask and those outside it are disjoint. -/
theorem and_and_and_not {width : ℕ} (word mask : BitVec width) :
    (word &&& mask) &&& (word &&& ~~~ mask) = BitVec.zero width := by
  ext i hi
  simp only [BitVec.getElem_and, BitVec.getElem_not, BitVec.zero_eq, BitVec.getElem_zero]
  cases mask[i] <;> simp

/-- The bits of a word inside a mask and those outside it make up the word. -/
theorem and_or_and_not {width : ℕ} (word mask : BitVec width) :
    (word &&& mask) ||| (word &&& ~~~ mask) = word := by
  ext i hi
  simp only [BitVec.getElem_and, BitVec.getElem_or, BitVec.getElem_not]
  cases mask[i] <;> simp

/-- The bits of a word inside a mask and those outside it add up to the word. -/
theorem and_add_and_not {width word mask : ℕ} (hword : word < 2 ^ width)
    (hmask : mask < 2 ^ width) :
    (word &&& mask) + (word &&& (2 ^ width - 1 - mask)) = word := by
  have hdisjoint := and_and_and_not (BitVec.ofNat width word) (BitVec.ofNat width mask)
  have hsum := BitVec.add_eq_or_of_and_eq_zero _ _ hdisjoint
  rw [and_or_and_not] at hsum
  have htoNat := congrArg BitVec.toNat hsum
  rw [BitVec.toNat_add_of_and_eq_zero hdisjoint] at htoNat
  simpa [Nat.mod_eq_of_lt hword, Nat.mod_eq_of_lt hmask] using htoNat

end GameEngine.Library.MachineWord
