import Mathlib.Algebra.Order.Floor.Ring
import Mathlib.Algebra.Order.Ring.Abs
import Mathlib.Data.Int.Log
import Mathlib.Data.Rat.Floor
import Mathlib.Tactic.Linarith
import Mathlib.Tactic.Positivity
import Mathlib.Tactic.Ring

/-!
# Rounding to a number of digits

The values of a floating-point format are the numbers with a number of significant digits in a
radix, and with exponents that may have a lower bound. `nearest` rounds a number to the nearest
value, and a number in the middle between two values to the even one.

`nearest_nearest` is about two formats. A value of a coarse one that is rounded to a fine one, then
to the coarse one and again to the fine one gives the same value of the fine one twice, although
the coarse value may be another one: where the fine format has all its digits, it tells the values
of the coarse one apart, and where its exponent is at the bound, the nearer value is rounded back
too.
-/

set_option autoImplicit false
set_option relaxedAutoImplicit false

namespace GameEngine.Library

/-! ### Rounding to an integer -/

/-- The nearest integer, the even one of two. -/
def roundHalfEven (number : ℚ) : ℤ :=
  let below := ⌊number⌋
  if number - below < 1 / 2 then below
  else if 1 / 2 < number - below then below + 1
  else if below % 2 = 0 then below
  else below + 1

/-- An integer that is nearer than one half, or as near as that and even, is the nearest. -/
theorem roundHalfEven_eq {number : ℚ} {integer : ℤ}
    (hnear : |number - integer| < 1 / 2 ∨ |number - integer| = 1 / 2 ∧ integer % 2 = 0) :
    roundHalfEven number = integer := by
  have hfloor := Int.floor_le number
  have hlt := Int.lt_floor_add_one number
  have hbounds : |number - integer| ≤ 1 / 2 := by
    rcases hnear with hlt | heq
    · exact hlt.le
    · exact heq.1.le
  obtain ⟨hlower, hupper⟩ := abs_le.mp hbounds
  have hcases : integer = ⌊number⌋ ∨ integer = ⌊number⌋ + 1 := by
    have hge : ⌊number⌋ ≤ integer := by
      have hcast : ((⌊number⌋ : ℤ) : ℚ) < ((integer + 1 : ℤ) : ℚ) := by
        push_cast
        linarith
      have := Int.cast_lt.mp hcast
      omega
    have hle : integer ≤ ⌊number⌋ + 1 := by
      have hcast : ((integer : ℤ) : ℚ) < ((⌊number⌋ + 2 : ℤ) : ℚ) := by
        push_cast
        linarith
      have := Int.cast_lt.mp hcast
      omega
    omega
  unfold roundHalfEven
  dsimp only
  rcases hcases with rfl | rfl
  · rw [abs_of_nonneg (by linarith)] at hnear
    split_ifs with hless hmore heven
    · rfl
    · rcases hnear with h | h <;> linarith
    · rfl
    · rcases hnear with h | h
      · exact absurd h hless
      · exact absurd h.2 heven
  · push_cast at hnear
    rw [abs_of_nonpos (by linarith)] at hnear
    split_ifs with hless hmore heven
    · rcases hnear with h | h <;> linarith
    · rfl
    · rcases hnear with h | h
      · linarith
      · omega
    · rfl

/-- The nearest integer is nearer than one half, or as near as that and even. -/
theorem roundHalfEven_near (number : ℚ) :
    |number - roundHalfEven number| < 1 / 2 ∨
      |number - roundHalfEven number| = 1 / 2 ∧ roundHalfEven number % 2 = 0 := by
  have hfloor := Int.floor_le number
  have hlt := Int.lt_floor_add_one number
  unfold roundHalfEven
  dsimp only
  split_ifs with hless hmore heven
  · left
    rwa [abs_of_nonneg (by linarith)]
  · left
    push_cast
    rw [abs_of_nonpos (by linarith)]
    linarith
  · right
    rw [abs_of_nonneg (by linarith)]
    exact ⟨by linarith, heven⟩
  · right
    push_cast
    rw [abs_of_nonpos (by linarith)]
    exact ⟨by linarith, by omega⟩

theorem abs_sub_roundHalfEven_le (number : ℚ) : |number - roundHalfEven number| ≤ 1 / 2 := by
  rcases roundHalfEven_near number with hlt | heq
  · exact hlt.le
  · exact heq.1.le

/-- A number that is at least as near to the nearest integer of another one has the same. -/
theorem roundHalfEven_eq_of_le {number other : ℚ}
    (hle : |other - roundHalfEven number| ≤ |number - roundHalfEven number|) :
    roundHalfEven other = roundHalfEven number := by
  refine roundHalfEven_eq ?_
  rcases roundHalfEven_near number with hlt | ⟨heq, heven⟩
  · exact .inl (hle.trans_lt hlt)
  · rcases (heq ▸ hle).lt_or_eq with hless | hsame
    · exact .inl hless
    · exact .inr ⟨hsame, heven⟩

theorem roundHalfEven_intCast (integer : ℤ) : roundHalfEven (integer : ℚ) = integer :=
  roundHalfEven_eq (.inl (by simp))

/-- No integer is nearer than the nearest. -/
theorem abs_roundHalfEven_sub_le (number : ℚ) (integer : ℤ) :
    |(roundHalfEven number : ℚ) - number| ≤ |(integer : ℚ) - number| := by
  by_cases heq : integer = roundHalfEven number
  · rw [heq]
  · -- Two integers are at least one apart, so that one of them is at least one half away.
    have hhalf := abs_sub_roundHalfEven_le number
    have hone : (1 : ℚ) ≤ |(integer : ℚ) - roundHalfEven number| := by
      have hpos : 0 < |integer - roundHalfEven number| := abs_pos.mpr (sub_ne_zero.mpr heq)
      exact_mod_cast Int.add_one_le_iff.mpr hpos
    have htriangle := abs_sub_le (integer : ℚ) number (roundHalfEven number)
    rw [abs_sub_comm (roundHalfEven number : ℚ)]
    linarith

/-! ### Formats -/

/-- A radix, a number of significant digits, and a least exponent, if there is one. -/
structure RadixFormat where
  radix : ℕ
  precision : ℕ
  least : Option ℤ
  one_lt_radix : 1 < radix
  precision_pos : 0 < precision

namespace RadixFormat

variable {format : RadixFormat}

/-- The numbers of the format. -/
def IsValue (format : RadixFormat) (number : ℚ) : Prop :=
  ∃ significand exponent : ℤ, |significand| < (format.radix : ℤ) ^ format.precision ∧
    (∀ least ∈ format.least, least ≤ exponent) ∧
    number = significand * (format.radix : ℚ) ^ exponent

/-- The exponent of the last digit of a number. -/
def lastExponent (format : RadixFormat) (number : ℚ) : ℤ :=
  let exponent := Int.log format.radix |number| - format.precision + 1
  match format.least with
  | none => exponent
  | some least => if number = 0 then least else max exponent least

/-- The nearest value, the even one of two. -/
def nearest (format : RadixFormat) (number : ℚ) : ℚ :=
  roundHalfEven (number / (format.radix : ℚ) ^ format.lastExponent number) *
    (format.radix : ℚ) ^ format.lastExponent number

theorem radix_pos (format : RadixFormat) : (0 : ℚ) < format.radix := by
  exact_mod_cast Nat.zero_lt_of_lt format.one_lt_radix

theorem one_lt_radix' (format : RadixFormat) : (1 : ℚ) < format.radix := by
  exact_mod_cast format.one_lt_radix

theorem power_pos (format : RadixFormat) (exponent : ℤ) : (0 : ℚ) < (format.radix : ℚ) ^ exponent :=
  zpow_pos format.radix_pos exponent

/-- The last digit of a number is not below the bound. -/
theorem least_le_lastExponent (number : ℚ) : ∀ least ∈ format.least,
    least ≤ format.lastExponent number := by
  intro least hleast
  unfold lastExponent
  rw [Option.mem_def.mp hleast]
  dsimp only
  split_ifs
  · exact le_rfl
  · exact le_max_right _ _

theorem log_le_lastExponent {number : ℚ} (hnumber : number ≠ 0) :
    Int.log format.radix |number| - format.precision + 1 ≤ format.lastExponent number := by
  unfold lastExponent
  cases format.least with
  | none => exact le_rfl
  | some least =>
    dsimp only
    rw [if_neg hnumber]
    exact le_max_left _ _

/-- The last digit is at the number of digits, or at the bound. -/
theorem lastExponent_cases (number : ℚ) :
    format.lastExponent number = Int.log format.radix |number| - format.precision + 1 ∨
      format.least = some (format.lastExponent number) := by
  unfold lastExponent
  cases format.least with
  | none => exact .inl rfl
  | some least =>
    dsimp only
    split_ifs
    · exact .inr rfl
    · rcases max_choice (Int.log format.radix |number| - format.precision + 1) least with h | h
      · exact .inl h
      · exact .inr (congrArg some h.symm)

/-- A multiple of a power is one of a smaller power. -/
theorem mul_power_eq {smaller larger : ℤ} (hle : smaller ≤ larger) (integer : ℤ) :
    (integer : ℚ) * (format.radix : ℚ) ^ larger =
      ((integer * (format.radix : ℤ) ^ (larger - smaller).toNat : ℤ) : ℚ) *
        (format.radix : ℚ) ^ smaller := by
  have hsplit : (format.radix : ℚ) ^ larger =
      (format.radix : ℚ) ^ (larger - smaller).toNat * (format.radix : ℚ) ^ smaller := by
    rw [← zpow_natCast, ← zpow_add₀ format.radix_pos.ne']
    congr 1
    omega
  rw [hsplit]
  push_cast
  ring

/-- A multiple of the last digit of a number stays as it is. -/
theorem nearest_of_multiple {number : ℚ} {integer : ℤ}
    (hnumber : number = integer * (format.radix : ℚ) ^ format.lastExponent number) :
    format.nearest number = number := by
  have hpower := (format.power_pos (format.lastExponent number)).ne'
  have hdiv : number / (format.radix : ℚ) ^ format.lastExponent number = integer := by
    rw [div_eq_iff hpower]
    exact hnumber
  rw [nearest, hdiv, roundHalfEven_intCast]
  exact hnumber.symm

theorem nearest_zero (format : RadixFormat) : format.nearest 0 = 0 :=
  nearest_of_multiple (show (0 : ℚ) = (0 : ℤ) * _ by rw [Int.cast_zero, zero_mul])

/-- The nearest value is no farther than half of the last digit. -/
theorem two_mul_abs_nearest_sub_le (number : ℚ) :
    2 * |format.nearest number - number| ≤ (format.radix : ℚ) ^ format.lastExponent number := by
  have hpower := format.power_pos (format.lastExponent number)
  have hround := abs_sub_roundHalfEven_le (number / (format.radix : ℚ) ^ format.lastExponent number)
  have hscale : format.nearest number - number =
      -((number / (format.radix : ℚ) ^ format.lastExponent number -
        roundHalfEven (number / (format.radix : ℚ) ^ format.lastExponent number)) *
          (format.radix : ℚ) ^ format.lastExponent number) := by
    rw [nearest, sub_mul, div_mul_cancel₀ _ hpower.ne']
    ring
  rw [hscale, abs_neg, abs_mul, abs_of_pos hpower]
  have hmul := mul_le_mul_of_nonneg_right hround hpower.le
  linarith

/-- A value is a multiple of the last digit of a number, or smaller than the power of the radix that
is not above the number. -/
theorem IsValue.multiple_or_lt {value : ℚ} (hvalue : format.IsValue value) (number : ℚ) :
    (∃ integer : ℤ, value = integer * (format.radix : ℚ) ^ format.lastExponent number) ∨
      |value| < (format.radix : ℚ) ^ Int.log format.radix |number| ∧
        Int.log format.radix |number| ≥ format.lastExponent number := by
  obtain ⟨significand, exponent, hsignificand, hleast, rfl⟩ := hvalue
  by_cases hle : format.lastExponent number ≤ exponent
  · exact .inl ⟨_, mul_power_eq hle significand⟩
  · right
    have hprecision := format.precision_pos
    have hlast : format.lastExponent number =
        Int.log format.radix |number| - format.precision + 1 := by
      rcases format.lastExponent_cases number with heq | hbound
      · exact heq
      · exact absurd (hleast _ hbound) hle
    refine ⟨?_, by omega⟩
    have habs : |(significand : ℚ)| < (format.radix : ℚ) ^ format.precision := by
      exact_mod_cast hsignificand
    calc |(significand : ℚ) * (format.radix : ℚ) ^ exponent|
        = |(significand : ℚ)| * (format.radix : ℚ) ^ exponent := by
          rw [abs_mul, abs_of_pos (format.power_pos exponent)]
      _ < (format.radix : ℚ) ^ format.precision * (format.radix : ℚ) ^ exponent :=
          mul_lt_mul_of_pos_right habs (format.power_pos exponent)
      _ = (format.radix : ℚ) ^ (format.precision + exponent) := by
          rw [zpow_add₀ format.radix_pos.ne', zpow_natCast]
      _ ≤ (format.radix : ℚ) ^ Int.log format.radix |number| :=
          zpow_le_zpow_right₀ format.one_lt_radix'.le (by omega)

/-- A value is its own nearest value. -/
theorem IsValue.nearest_eq {value : ℚ} (hvalue : format.IsValue value) :
    format.nearest value = value := by
  rcases hvalue.multiple_or_lt value with ⟨integer, hinteger⟩ | ⟨hlt, -⟩
  · exact nearest_of_multiple hinteger
  · by_cases hzero : value = 0
    · rw [hzero, format.nearest_zero]
    · exact absurd (Int.zpow_log_le_self format.one_lt_radix (abs_pos.mpr hzero)) hlt.not_ge

/-- No multiple of the last digit is nearer than the nearest value. -/
theorem abs_nearest_sub_le_multiple (number : ℚ) (integer : ℤ) :
    |format.nearest number - number| ≤
      |integer * (format.radix : ℚ) ^ format.lastExponent number - number| := by
  have hpower := format.power_pos (format.lastExponent number)
  have hscale : ∀ integer : ℤ,
      integer * (format.radix : ℚ) ^ format.lastExponent number - number =
        (integer - number / (format.radix : ℚ) ^ format.lastExponent number) *
          (format.radix : ℚ) ^ format.lastExponent number := by
    intro integer
    rw [sub_mul, div_mul_cancel₀ _ hpower.ne']
  rw [nearest, hscale, hscale, abs_mul, abs_mul]
  exact mul_le_mul_of_nonneg_right (abs_roundHalfEven_sub_le _ _) (abs_nonneg _)

/-- No value is nearer than the nearest value. -/
theorem IsValue.abs_nearest_sub_le {value : ℚ} (hvalue : format.IsValue value) (number : ℚ) :
    |format.nearest number - number| ≤ |value - number| := by
  rcases hvalue.multiple_or_lt number with ⟨integer, rfl⟩ | ⟨hlt, hlog⟩
  · exact abs_nearest_sub_le_multiple number integer
  · by_cases hzero : number = 0
    · -- Zero is rounded to zero.
      rw [hzero, format.nearest_zero, sub_self, abs_zero]
      exact abs_nonneg _
    · -- The power of the radix on the side of the number is nearer than the value.
      have hle := Int.zpow_log_le_self format.one_lt_radix (abs_pos.mpr hzero)
      have hmultiple : ∀ sign : ℤ, |format.nearest number - number| ≤
          |sign * (format.radix : ℚ) ^ Int.log format.radix |number| - number| := by
        intro sign
        rw [mul_power_eq hlog sign]
        exact abs_nearest_sub_le_multiple number _
      generalize (format.radix : ℚ) ^ Int.log format.radix |number| = power at hlt hle hmultiple
      obtain ⟨hlower, hupper⟩ := abs_lt.mp hlt
      rcases le_or_gt 0 number with hpos | hneg
      · refine (hmultiple 1).trans ?_
        rw [abs_of_nonneg hpos] at hle
        rw [Int.cast_one, one_mul, abs_of_nonpos (by linarith), abs_of_nonpos (by linarith)]
        linarith
      · refine (hmultiple (-1)).trans ?_
        rw [abs_of_neg hneg] at hle
        rw [Int.cast_neg, Int.cast_one, neg_one_mul, abs_of_nonneg (by linarith),
          abs_of_nonneg (by linarith)]
        linarith

/-! ### Nearest values are values -/

theorem abs_lt_power (number : ℚ) :
    |number| < (format.radix : ℚ) ^ (format.lastExponent number + format.precision) := by
  rcases eq_or_ne number 0 with rfl | hnumber
  · rw [abs_zero]
    exact format.power_pos _
  have hlog := format.log_le_lastExponent hnumber
  calc |number| < (format.radix : ℚ) ^ (Int.log format.radix |number| + 1) :=
        Int.lt_zpow_succ_log_self format.one_lt_radix _
    _ ≤ (format.radix : ℚ) ^ (format.lastExponent number + format.precision) :=
        zpow_le_zpow_right₀ format.one_lt_radix'.le (by omega)

/-- The nearest value is a value. Its digits may have been carried into one more. -/
theorem isValue_nearest (number : ℚ) : format.IsValue (format.nearest number) := by
  obtain ⟨last, hlast⟩ : ∃ last, last = format.lastExponent number := ⟨_, rfl⟩
  obtain ⟨integer, hinteger⟩ : ∃ integer, integer =
    roundHalfEven (number / (format.radix : ℚ) ^ last) := ⟨_, rfl⟩
  have hnearest : format.nearest number = integer * (format.radix : ℚ) ^ last := by
    rw [nearest, ← hlast, ← hinteger]
  have hleast := format.least_le_lastExponent number
  rw [← hlast] at hleast
  have hdiv : |number / (format.radix : ℚ) ^ last| < (format.radix : ℚ) ^ format.precision := by
    have hlt := format.abs_lt_power number
    rw [← hlast, Int.add_comm, zpow_add₀ format.radix_pos.ne', zpow_natCast] at hlt
    rwa [abs_div, abs_of_pos (format.power_pos last), div_lt_iff₀ (format.power_pos last)]
  -- The bound is an integer, so that the nearest integer is not above it.
  have hle : |integer| ≤ (format.radix : ℤ) ^ format.precision := by
    have hhalf := abs_sub_roundHalfEven_le (number / (format.radix : ℚ) ^ last)
    rw [← hinteger] at hhalf
    have htriangle := abs_sub_abs_le_abs_sub (integer : ℚ) (number / (format.radix : ℚ) ^ last)
    rw [abs_sub_comm] at htriangle
    have hlt : ((|integer| : ℤ) : ℚ) < (((format.radix : ℤ) ^ format.precision + 1 : ℤ) : ℚ) := by
      push_cast
      linarith
    have := Int.cast_lt.mp hlt
    omega
  rcases hle.lt_or_eq with hlt | heq
  · exact ⟨integer, last, hlt, hleast, hnearest⟩
  · refine ⟨integer.sign, last + format.precision, ?_, fun least h ↦ ?_, ?_⟩
    · have hone : (1 : ℤ) < (format.radix : ℤ) ^ format.precision := by
        exact_mod_cast Nat.one_lt_pow format.precision_pos.ne' format.one_lt_radix
      have hsign : |integer.sign| ≤ 1 := by
        rcases lt_trichotomy integer 0 with h | h | h
        · simp [Int.sign_eq_neg_one_of_neg h]
        · simp [h]
        · simp [Int.sign_eq_one_of_pos h]
      omega
    · have := hleast least h
      omega
    · rw [hnearest, zpow_add₀ format.radix_pos.ne', zpow_natCast]
      have hsplit : (integer : ℚ) = integer.sign * (format.radix : ℚ) ^ format.precision := by
        have hsign := Int.sign_mul_abs integer
        rw [heq] at hsign
        exact_mod_cast hsign.symm
      rw [hsplit]
      ring

/-! ### Two formats -/

/-- Two values of a format are not too near to each other. -/
theorem IsValue.abs_lt_mul {value other : ℚ} (hvalue : format.IsValue value)
    (hother : format.IsValue other) (hne : value ≠ other) :
    |value| < ((format.radix : ℚ) ^ format.precision + 1) * |value - other| := by
  have hapart : ∀ {first second : ℚ}, format.IsValue first → first ≠ second →
      (∃ significand exponent : ℤ, |significand| < (format.radix : ℤ) ^ format.precision ∧
        first = significand * (format.radix : ℚ) ^ exponent ∧
        ∃ integer : ℤ, second = integer * (format.radix : ℚ) ^ exponent) →
      |first| < (format.radix : ℚ) ^ format.precision * |first - second| := by
    rintro first second - hne ⟨significand, exponent, hsignificand, rfl, integer, rfl⟩
    have hpower := format.power_pos exponent
    have hdiff : (1 : ℚ) ≤ |(significand : ℚ) - integer| := by
      have hpos : 0 < |significand - integer| := by
        refine abs_pos.mpr (sub_ne_zero.mpr fun heq ↦ hne ?_)
        rw [heq]
      exact_mod_cast Int.add_one_le_iff.mpr hpos
    have habs : |(significand : ℚ)| < (format.radix : ℚ) ^ format.precision := by
      exact_mod_cast hsignificand
    rw [← sub_mul, abs_mul, abs_mul, abs_of_pos hpower, ← mul_assoc]
    refine mul_lt_mul_of_pos_right (habs.trans_le ?_) hpower
    exact le_mul_of_one_le_right (abs_nonneg _ |>.trans habs.le) hdiff
  have hradix : (0 : ℚ) < (format.radix : ℚ) ^ format.precision := pow_pos format.radix_pos _
  obtain ⟨significand, exponent, hsignificand, hleast, hdef⟩ := hvalue
  obtain ⟨significand', exponent', hsignificand', hleast', hdef'⟩ := hother
  rcases le_total exponent exponent' with hle | hle
  · have hlt := hapart ⟨significand, exponent, hsignificand, hleast, hdef⟩ hne
      ⟨significand, exponent, hsignificand, hdef, _, hdef'.trans (mul_power_eq hle significand')⟩
    have hnonneg := abs_nonneg (value - other)
    linarith
  · have hlt := hapart ⟨significand', exponent', hsignificand', hleast', hdef'⟩ hne.symm
      ⟨significand', exponent', hsignificand', hdef', _, hdef.trans (mul_power_eq hle significand)⟩
    rw [abs_sub_comm] at hlt
    have htriangle := abs_sub_abs_le_abs_sub value other
    linarith

/-- Where the exponent of the last digit is at the bound, a number that is at least as near to the
nearest value of another one has the same nearest value. -/
theorem nearest_eq_of_le {number other : ℚ}
    (hlast : format.lastExponent other = format.lastExponent number)
    (hle : |other - format.nearest number| ≤ |number - format.nearest number|) :
    format.nearest other = format.nearest number := by
  have hpower := format.power_pos (format.lastExponent number)
  have hscale : ∀ x : ℚ, x - format.nearest number =
      (x / (format.radix : ℚ) ^ format.lastExponent number -
        roundHalfEven (number / (format.radix : ℚ) ^ format.lastExponent number)) *
          (format.radix : ℚ) ^ format.lastExponent number := by
    intro x
    rw [nearest, sub_mul, div_mul_cancel₀ _ hpower.ne']
  rw [hscale, hscale, abs_mul, abs_mul] at hle
  have hround := roundHalfEven_eq_of_le
    (le_of_mul_le_mul_right hle (abs_pos.mpr hpower.ne'))
  rw [nearest, hlast, hround, nearest]

/-- The exponent of the last digit of a small number is at the bound. -/
theorem lastExponent_eq_least {least : ℤ} (hleast : format.least = some least) {number : ℚ}
    (hlt : |number| < (format.radix : ℚ) ^ (least + format.precision)) :
    format.lastExponent number = least := by
  unfold lastExponent
  rw [hleast]
  dsimp only
  split_ifs with hzero
  · rfl
  · refine max_eq_right ?_
    have := (Int.lt_zpow_iff_log_lt format.one_lt_radix (abs_pos.mpr hzero)).mp hlt
    omega

/-- The exponent of the last digit of a number that is not small is at the number of digits. -/
theorem lastExponent_eq_log {number : ℚ} (hnumber : number ≠ 0)
    (hle : ∀ least ∈ format.least,
      (format.radix : ℚ) ^ (least + format.precision - 1) ≤ |number|) :
    format.lastExponent number = Int.log format.radix |number| - format.precision + 1 := by
  rcases format.lastExponent_cases number with heq | hbound
  · exact heq
  · have hlog := (Int.zpow_le_iff_le_log format.one_lt_radix (abs_pos.mpr hnumber)).mp
      (hle _ hbound)
    have hge := format.log_le_lastExponent hnumber
    omega

section TwoFormats

variable {fine coarse : RadixFormat} {value back : ℚ}

/-- Where the exponent of the fine format is at its bound, a number that is at least as near to the
nearest value is rounded to it too. -/
theorem nearest_eq_of_small {least : ℤ} (hleast : least ∈ fine.least)
    (hsmall : |value| < (fine.radix : ℚ) ^ (least + fine.precision - 1))
    (hnear : |back - fine.nearest value| ≤ |value - fine.nearest value|)
    (hdistance : |value - back| ≤ (fine.radix : ℚ) ^ fine.lastExponent value) :
    fine.nearest back = fine.nearest value := by
  have hprecision := fine.precision_pos
  have hradix : (2 : ℚ) ≤ fine.radix := by exact_mod_cast fine.one_lt_radix
  have hpower : (fine.radix : ℚ) ^ (least + fine.precision) =
      fine.radix * (fine.radix : ℚ) ^ (least + fine.precision - 1) := by
    rw [← zpow_one_add₀ fine.radix_pos.ne']
    congr 1
    omega
  have hdouble : 2 * (fine.radix : ℚ) ^ (least + fine.precision - 1) ≤
      (fine.radix : ℚ) ^ (least + fine.precision) := by
    rw [hpower]
    exact mul_le_mul_of_nonneg_right hradix (fine.power_pos _).le
  have hpos := fine.power_pos (least + fine.precision - 1)
  have hlast : fine.lastExponent value = least := lastExponent_eq_least hleast (by linarith)
  have hunit : (fine.radix : ℚ) ^ least ≤ (fine.radix : ℚ) ^ (least + fine.precision - 1) :=
    zpow_le_zpow_right₀ fine.one_lt_radix'.le (by omega)
  have hback : |back| < (fine.radix : ℚ) ^ (least + fine.precision) := by
    have htriangle := abs_sub_abs_le_abs_sub back value
    rw [abs_sub_comm] at htriangle
    rw [hlast] at hdistance
    linarith
  exact nearest_eq_of_le ((lastExponent_eq_least hleast hback).trans hlast.symm) hnear

/-- Where the fine format has all its digits, two values of the coarse one that are no farther from
each other than the last digit are one. -/
theorem IsValue.eq_of_near (hvalue : coarse.IsValue value) (hback : coarse.IsValue back)
    (hprecision : coarse.radix ^ coarse.precision + 1 ≤ fine.radix ^ (fine.precision - 1))
    (hnonzero : value ≠ 0)
    (hlarge : ∀ least ∈ fine.least, (fine.radix : ℚ) ^ (least + fine.precision - 1) ≤ |value|)
    (hdistance : |value - back| ≤ (fine.radix : ℚ) ^ fine.lastExponent value) : back = value := by
  by_contra hne
  have hapart := hvalue.abs_lt_mul hback (Ne.symm hne)
  have hlog := Int.zpow_log_le_self fine.one_lt_radix (abs_pos.mpr hnonzero)
  have hprecision' : (coarse.radix : ℚ) ^ coarse.precision + 1 ≤
      (fine.radix : ℚ) ^ (fine.precision - 1) := by exact_mod_cast hprecision
  have hpower : (fine.radix : ℚ) ^ (fine.precision - 1) *
      (fine.radix : ℚ) ^ fine.lastExponent value =
        (fine.radix : ℚ) ^ Int.log fine.radix |value| := by
    have hpos := fine.precision_pos
    rw [lastExponent_eq_log hnonzero hlarge, ← zpow_natCast, ← zpow_add₀ fine.radix_pos.ne']
    congr 1
    omega
  have hproduct : ((coarse.radix : ℚ) ^ coarse.precision + 1) * |value - back| ≤
      (fine.radix : ℚ) ^ (fine.precision - 1) * (fine.radix : ℚ) ^ fine.lastExponent value :=
    mul_le_mul hprecision' hdistance (abs_nonneg _) (pow_pos fine.radix_pos _).le
  rw [hpower] at hproduct
  linarith

/-- Rounding a value of a coarse format to a fine one, then to the coarse one and to the fine one
again gives the same value of the fine one twice. Assumes: one digit less than the fine format has
tells the values of the coarse one apart. -/
theorem nearest_nearest (hvalue : coarse.IsValue value)
    (hprecision : coarse.radix ^ coarse.precision + 1 ≤ fine.radix ^ (fine.precision - 1)) :
    fine.nearest (coarse.nearest (fine.nearest value)) = fine.nearest value := by
  obtain ⟨once, honce⟩ : ∃ once, once = fine.nearest value := ⟨_, rfl⟩
  obtain ⟨back, hback⟩ : ∃ back, back = coarse.nearest once := ⟨_, rfl⟩
  rw [← honce, ← hback]
  have hnear : |back - once| ≤ |value - once| := hback ▸ hvalue.abs_nearest_sub_le once
  have hdistance : |value - back| ≤ (fine.radix : ℚ) ^ fine.lastExponent value := by
    have herror := fine.two_mul_abs_nearest_sub_le value
    have htriangle := abs_sub_le value once back
    rw [← honce, abs_sub_comm] at herror
    rw [abs_sub_comm once back] at htriangle
    linarith
  by_cases hsmall : ∃ least ∈ fine.least,
      |value| < (fine.radix : ℚ) ^ (least + fine.precision - 1)
  · obtain ⟨least, hleast, hlt⟩ := hsmall
    rw [honce] at hnear ⊢
    exact nearest_eq_of_small hleast hlt hnear hdistance
  · have hsame : back = value := by
      by_cases hzero : value = 0
      · -- Zero is rounded to zero, and zero is back.
        rw [hback, honce, hzero, fine.nearest_zero, coarse.nearest_zero]
      · exact hvalue.eq_of_near (hback ▸ coarse.isValue_nearest once) hprecision hzero
          (fun least hleast ↦ not_lt.mp fun hlt ↦ hsmall ⟨least, hleast, hlt⟩) hdistance
    rw [hsame, ← honce]

end TwoFormats

end RadixFormat

end GameEngine.Library
