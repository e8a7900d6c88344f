import GameEngine.Library.DecimalText
import GameEngine.Library.RadixRounding
import Mathlib.Data.List.DropRight

/-!
# Printing numbers with a number of significant digits

`DecimalNumeral.printed` is what the conversion `%g` prints: the number rounded to the nearest one
with as many significant digits as there are to be, with an exponent if that is below -4 or not
below the number of digits, and without the zeros at the end of the digits behind the point.

`value_printed` says that the numeral stands for the rounded number.
-/

set_option autoImplicit false
set_option relaxedAutoImplicit false

namespace GameEngine.Library

/-- The decimal numbers with a number of significant digits. -/
def decimalFormat (precision : ℕ) [NeZero precision] : RadixFormat where
  radix := 10
  precision := precision
  least := none
  one_lt_radix := by decide
  precision_pos := NeZero.pos precision

/-! ### Zeros -/

/-- Digits without the zeros at their end. -/
def withoutZeros (digits : List UInt8) : List UInt8 := digits.rdropWhile (· == 48)

theorem numberOf_replicate (count : ℕ) : numberOf (List.replicate count 48) = 0 := by
  induction count with
  | zero => rfl
  | succ count ih =>
    rw [List.replicate_succ', numberOf_append, ih, Nat.zero_mul, Nat.zero_add]
    rfl

theorem isDigit_of_mem_replicate {count : ℕ} {byte : UInt8}
    (hbyte : byte ∈ List.replicate count 48) : isDigit byte = true := by
  rw [List.eq_of_mem_replicate hbyte]
  decide

/-- Zeros have been left out. -/
theorem exists_append_zeros (digits : List UInt8) :
    ∃ count, digits = withoutZeros digits ++ List.replicate count 48 := by
  induction digits using List.reverseRecOn with
  | nil => exact ⟨0, rfl⟩
  | append_singleton digits byte ih =>
    obtain ⟨count, hcount⟩ := ih
    by_cases hbyte : byte = 48
    · refine ⟨count + 1, ?_⟩
      rw [withoutZeros, List.rdropWhile_concat_pos _ _ _ (by simp [hbyte]), List.replicate_succ',
        ← List.append_assoc, hbyte]
      exact congrArg (· ++ [48]) hcount
    · refine ⟨0, ?_⟩
      rw [withoutZeros, List.rdropWhile_concat_neg _ _ _ (by simp [hbyte]), List.replicate_zero,
        List.append_nil]

theorem isDigit_of_mem_withoutZeros {digits : List UInt8}
    (hdigits : ∀ byte ∈ digits, isDigit byte = true) :
    ∀ byte ∈ withoutZeros digits, isDigit byte = true :=
  fun byte hbyte ↦ hdigits byte ((List.rdropWhile_prefix _ digits).subset hbyte)

namespace DecimalNumeral

/-- The digits, with the point behind some of them, and without the zeros at the end. -/
def ofDigits (negative : Bool) (digits : List UInt8) (point : ℕ)
    (exponent : Option (Bool × List UInt8)) (hdigits : ∀ byte ∈ digits, isDigit byte = true)
    (hpoint : 0 < point) (hne : digits ≠ [])
    (hexponent : ∀ sign digits, exponent = some (sign, digits) →
      digits ≠ [] ∧ ∀ byte ∈ digits, isDigit byte = true) : DecimalNumeral where
  negative := negative
  whole := digits.take point
  fraction := withoutZeros (digits.drop point)
  exponent := exponent
  whole_ne_nil := by simp [hne, hpoint.ne']
  isDigit_whole byte hbyte := hdigits byte (List.mem_of_mem_take hbyte)
  isDigit_fraction :=
    isDigit_of_mem_withoutZeros fun byte hbyte ↦ hdigits byte (List.mem_of_mem_drop hbyte)
  isDigit_exponent := hexponent

/-- The zeros that are left out are not missed. -/
theorem value_ofDigits {negative : Bool} {digits : List UInt8} {point : ℕ}
    {exponent : Option (Bool × List UInt8)} (hdigits : ∀ byte ∈ digits, isDigit byte = true)
    (hpoint : 0 < point) (hne : digits ≠ [])
    (hexponent : ∀ sign digits, exponent = some (sign, digits) →
      digits ≠ [] ∧ ∀ byte ∈ digits, isDigit byte = true) (hlength : point ≤ digits.length) :
    (ofDigits negative digits point exponent hdigits hpoint hne hexponent).value =
      (if negative then -1 else 1) * numberOf digits *
        10 ^ ((ofDigits negative digits point exponent hdigits hpoint hne hexponent).exponentValue -
          (digits.length - point : ℤ)) := by
  obtain ⟨count, hcount⟩ := exists_append_zeros (digits.drop point)
  obtain ⟨fraction, hfraction⟩ : ∃ fraction, fraction = withoutZeros (digits.drop point) := ⟨_, rfl⟩
  rw [← hfraction] at hcount
  have hnumber : (numberOf digits : ℚ) = numberOf (digits.take point ++ fraction) * 10 ^ count := by
    have hsplit : digits = (digits.take point ++ fraction) ++ List.replicate count 48 := by
      rw [List.append_assoc, ← hcount, List.take_append_drop]
    have happend := numberOf_append (digits.take point ++ fraction) (List.replicate count 48)
    rw [← hsplit, numberOf_replicate, List.length_replicate, Nat.add_zero] at happend
    exact_mod_cast happend
  have hdrop : (digits.length : ℤ) - point = fraction.length + count := by
    have heq := congrArg List.length hcount
    rw [List.length_drop, List.length_append, List.length_replicate] at heq
    omega
  generalize hwritten :
    (ofDigits negative digits point exponent hdigits hpoint hne hexponent).exponentValue = written
  have hvalue : (ofDigits negative digits point exponent hdigits hpoint hne hexponent).value =
      (if negative then -1 else 1) * numberOf (digits.take point ++ fraction) *
        10 ^ (written - fraction.length) := by
    rw [hfraction, ← hwritten]
    rfl
  rw [hvalue, hnumber, hdrop, ← Int.sub_sub, zpow_sub₀ (by norm_num : (10 : ℚ) ≠ 0) _ (count : ℤ),
    zpow_natCast]
  field_simp

end DecimalNumeral

/-! ### Rounded numbers -/

section Printing

variable (precision : ℕ) [NeZero precision] (number : ℚ)

/-- The exponent of the first digit of the rounded number. -/
def firstExponent : ℤ := Int.log 10 |(decimalFormat precision).nearest number|

/-- The digits of the rounded number, as a natural number. -/
def roundedDigits : ℕ :=
  ⌊|(decimalFormat precision).nearest number| /
    10 ^ (firstExponent precision number - precision + 1)⌋₊

/-- The rounded number has as many digits as there are to be. -/
theorem abs_nearest_eq :
    |(decimalFormat precision).nearest number| =
      roundedDigits precision number * 10 ^ (firstExponent precision number - precision + 1) := by
  obtain ⟨rounded, hrounded⟩ : ∃ rounded, rounded = (decimalFormat precision).nearest number :=
    ⟨_, rfl⟩
  have hvalue : (decimalFormat precision).IsValue rounded :=
    hrounded ▸ (decimalFormat precision).isValue_nearest number
  have hpower : (0 : ℚ) < 10 ^ (firstExponent precision number - precision + 1) :=
    zpow_pos (by norm_num) _
  have hmultiple : ∃ digits : ℕ,
      |rounded| = digits * 10 ^ (firstExponent precision number - precision + 1) := by
    rcases hvalue.multiple_or_lt rounded with ⟨integer, hinteger⟩ | ⟨hlt, -⟩
    · refine ⟨integer.natAbs, ?_⟩
      have hlast : (decimalFormat precision).lastExponent rounded =
          firstExponent precision number - precision + 1 := by
        rw [firstExponent, ← hrounded]
        rfl
      have habs := congrArg abs hinteger
      rw [hlast, abs_mul, abs_of_pos ((decimalFormat precision).power_pos _)] at habs
      rw [Nat.cast_natAbs, Int.cast_abs]
      exact habs
    · by_cases hzero : rounded = 0
      · exact ⟨0, by rw [hzero, abs_zero, Nat.cast_zero, zero_mul]⟩
      · exact absurd (Int.zpow_log_le_self (decimalFormat precision).one_lt_radix
          (abs_pos.mpr hzero)) hlt.not_ge
  obtain ⟨digits, hdigits⟩ := hmultiple
  rw [roundedDigits, ← hrounded, hdigits, mul_div_cancel_right₀ _ hpower.ne', Nat.floor_natCast]

theorem roundedDigits_lt : roundedDigits precision number < 10 ^ precision := by
  have hlt := Int.lt_zpow_succ_log_self (by decide : 1 < 10)
    |(decimalFormat precision).nearest number|
  have hpower : (0 : ℚ) < 10 ^ (firstExponent precision number - precision + 1) :=
    zpow_pos (by norm_num) _
  have hsplit : (10 : ℚ) ^ (firstExponent precision number + 1) =
      10 ^ precision * 10 ^ (firstExponent precision number - precision + 1) := by
    rw [← zpow_natCast, ← zpow_add₀ (by norm_num : (10 : ℚ) ≠ 0)]
    congr 1
    omega
  rw [← firstExponent, abs_nearest_eq, Nat.cast_ofNat, hsplit] at hlt
  exact_mod_cast lt_of_mul_lt_mul_right hlt hpower.le

/-- A number and the rounded number have the same sign. -/
theorem sign_mul_abs_nearest :
    (if decide (number < 0) then -1 else 1) * |(decimalFormat precision).nearest number| =
      (decimalFormat precision).nearest number := by
  have hzero : (decimalFormat precision).IsValue 0 :=
    ⟨0, 0, by simp [decimalFormat], by simp [decimalFormat], by simp⟩
  -- The rounded number is at least as near as zero.
  have hnear := hzero.abs_nearest_sub_le number
  obtain ⟨hlower, hupper⟩ := abs_le.mp hnear
  rw [zero_sub, abs_neg] at hlower hupper
  by_cases hneg : number < 0
  · rw [abs_of_neg hneg] at hupper
    rw [if_pos (decide_eq_true hneg), abs_of_nonpos (by linarith)]
    ring
  · rw [abs_of_nonneg (not_lt.mp hneg)] at hlower
    rw [if_neg (by simpa using hneg), abs_of_nonneg (by linarith), one_mul]

/-- The digits of an exponent, at least two. -/
def exponentDigits (exponent : ℤ) : List UInt8 :=
  fixedText (max 2 (Nat.log 10 exponent.natAbs + 1)) exponent.natAbs

theorem numberOf_exponentDigits (exponent : ℤ) :
    numberOf (exponentDigits exponent) = exponent.natAbs := by
  rw [exponentDigits, numberOf_fixedText]
  refine Nat.mod_eq_of_lt ?_
  calc exponent.natAbs < 10 ^ (Nat.log 10 exponent.natAbs + 1) :=
        Nat.lt_pow_succ_log_self (by decide) _
    _ ≤ 10 ^ max 2 (Nat.log 10 exponent.natAbs + 1) :=
        Nat.pow_le_pow_right (by decide) (le_max_right _ _)

/-- What `%g` prints, with as many significant digits as there are to be. -/
def DecimalNumeral.printed : DecimalNumeral :=
  let exponent := firstExponent precision number
  let digits := fixedText precision (roundedDigits precision number)
  if -4 ≤ exponent ∧ exponent < precision then
    ofDigits (number < 0) (List.replicate (-exponent).toNat 48 ++ digits) (exponent.toNat + 1) none
      (by
        intro byte hbyte
        rcases List.mem_append.mp hbyte with hzero | hdigit
        · exact isDigit_of_mem_replicate hzero
        · exact isDigit_of_mem_fixedText hdigit)
      (Nat.succ_pos _)
      (fun hnil ↦ fixedText_ne_nil (NeZero.pos precision) _ (List.append_eq_nil_iff.mp hnil).2)
      (by simp)
  else
    ofDigits (number < 0) digits 1 (some (decide (exponent < 0), exponentDigits exponent))
      (fun _ ↦ isDigit_of_mem_fixedText) Nat.one_pos (fixedText_ne_nil (NeZero.pos precision) _)
      (by
        rintro sign written heq
        obtain ⟨-, rfl⟩ := Prod.mk.inj (Option.some.inj heq)
        exact ⟨fixedText_ne_nil (by omega) _, fun _ ↦ isDigit_of_mem_fixedText⟩)

/-- What is printed stands for the nearest number with as many digits. -/
theorem DecimalNumeral.value_printed :
    (printed precision number).value = (decimalFormat precision).nearest number := by
  have hpos := NeZero.pos precision
  have hdigits : numberOf (fixedText precision (roundedDigits precision number)) =
      roundedDigits precision number := by
    rw [numberOf_fixedText]
    exact Nat.mod_eq_of_lt (roundedDigits_lt precision number)
  rw [← sign_mul_abs_nearest, abs_nearest_eq, ← mul_assoc]
  unfold printed
  dsimp only
  by_cases hfixed : -4 ≤ firstExponent precision number ∧ firstExponent precision number < precision
  · have hlength : (firstExponent precision number).toNat + 1 ≤
        (List.replicate (-firstExponent precision number).toNat 48 ++
          fixedText precision (roundedDigits precision number)).length := by
      rw [List.length_append, List.length_replicate, length_fixedText]
      omega
    rw [if_pos hfixed, value_ofDigits _ _ _ _ hlength, numberOf_append, numberOf_replicate, hdigits,
      Nat.zero_mul, Nat.zero_add, List.length_append, List.length_replicate, length_fixedText]
    congr 2
    simp only [exponentValue, ofDigits]
    omega
  · have hlength : 1 ≤ (fixedText precision (roundedDigits precision number)).length := by
      rwa [length_fixedText]
    rw [if_neg hfixed, value_ofDigits _ _ _ _ hlength, hdigits, length_fixedText]
    congr 2
    simp only [exponentValue, ofDigits, numberOf_exponentDigits, decide_eq_true_eq]
    split_ifs with hneg <;> omega

end Printing

end GameEngine.Library
