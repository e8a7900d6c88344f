import GameEngine.Library.DecimalPrinting

/-!
# Floating-point numbers as text

A `FloatingFormat` is a radix format with a greatest value, and `Floating` its numbers: a finite one
is taken as the rational number that it is. `Floating.ofRat` rounds to the nearest one, and beyond
the greatest to infinity.

`Floating.ofRat_printed_iff` says which finite numbers are the same after they have been printed
with a number of significant digits and read again: those that are nearest to a number with as many
digits.
-/

set_option autoImplicit false
set_option relaxedAutoImplicit false

namespace GameEngine.Library

/-- A radix format whose finite values do not go beyond a greatest one. -/
structure FloatingFormat extends RadixFormat where
  greatest : ℚ

/-- The format of 32 bits. -/
def binary32 : FloatingFormat where
  radix := 2
  precision := 24
  least := some (-149)
  one_lt_radix := by decide
  precision_pos := by decide
  greatest := (2 ^ 24 - 1) * 2 ^ 104

/-- The format of 64 bits. -/
def binary64 : FloatingFormat where
  radix := 2
  precision := 53
  least := some (-1074)
  one_lt_radix := by decide
  precision_pos := by decide
  greatest := (2 ^ 53 - 1) * 2 ^ 971

/-- A finite number of a format. -/
@[ext]
structure FiniteNumber (format : FloatingFormat) where
  number : ℚ
  isValue : format.IsValue number
  le_greatest : |number| ≤ format.greatest

/-- A number of a format. -/
inductive Floating (format : FloatingFormat)
  | finite (value : FiniteNumber format)
  | infinite (negative : Bool)
  | nan

namespace Floating

variable {format : FloatingFormat}

/-- The number is finite. -/
def IsFinite : Floating format → Prop
  | finite _ => True
  | infinite _ => False
  | nan => False

/-- The nearest number of the format. -/
def ofRat (number : ℚ) : Floating format :=
  if hle : |format.nearest number| ≤ format.greatest then
    finite ⟨format.nearest number, format.isValue_nearest number, hle⟩
  else infinite (number < 0)

/-- The nearest number of the format to some number with as many significant digits. -/
def HasDigits (precision : ℕ) [NeZero precision] (value : Floating format) : Prop :=
  ∃ decimal, (decimalFormat precision).IsValue decimal ∧ ofRat decimal = value

theorem ofRat_eq_finite_iff {number : ℚ} {value : FiniteNumber format} :
    ofRat number = finite value ↔ format.nearest number = value.number := by
  unfold ofRat
  split_ifs with hle
  · rw [finite.injEq, FiniteNumber.ext_iff]
  · refine iff_of_false (by simp) fun heq ↦ hle ?_
    rw [heq]
    exact value.le_greatest

/-- A finite number is the same after it has been printed and read if and only if it is the nearest
to some number with as many digits. Assumes: the format tells the numbers with as many digits
apart. -/
theorem ofRat_printed_iff (precision : ℕ) [NeZero precision] (value : FiniteNumber format)
    (hprecision : 10 ^ precision + 1 ≤ format.radix ^ (format.precision - 1)) :
    ofRat (DecimalNumeral.printed precision value.number).value = finite value ↔
      HasDigits precision (finite value) := by
  rw [DecimalNumeral.value_printed]
  constructor
  · intro heq
    exact ⟨_, (decimalFormat precision).isValue_nearest value.number, heq⟩
  · rintro ⟨decimal, hdecimal, heq⟩
    rw [ofRat_eq_finite_iff] at heq ⊢
    rw [← heq]
    exact RadixFormat.nearest_nearest hdecimal hprecision

end Floating

end GameEngine.Library
