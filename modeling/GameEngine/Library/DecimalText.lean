import Mathlib.Data.Nat.Log
import Mathlib.Data.Rat.Defs
import Mathlib.Algebra.Order.Field.Basic
import Mathlib.Tactic.FieldSimp
import Mathlib.Tactic.Ring

/-!
# Decimal numbers as text

Texts are lists of bytes. `natText` writes a natural number in decimal digits, `intText` an integer
with a sign in front if it is negative, and `numberOf` reads digits. A `DecimalNumeral` is a number
with a point and an exponent, as it is written; `text` and `value` are its text and the number it
stands for. `readDecimal` reads the longest such number at the beginning of a text, and
`DecimalNumeral.readDecimal_text` says that it reads back what is written.
-/

set_option autoImplicit false
set_option relaxedAutoImplicit false

namespace GameEngine.Library

/-! ### Digits -/

/-- The byte is a decimal digit. -/
def isDigit (byte : UInt8) : Bool := 48 ≤ byte && byte ≤ 57

/-- The byte of a decimal digit. -/
def digitByte (digit : ℕ) : UInt8 := UInt8.ofNat (48 + digit)

/-- The number that decimal digits stand for. -/
def numberOf (digits : List UInt8) : ℕ :=
  digits.foldl (fun number byte ↦ 10 * number + (byte.toNat - 48)) 0

/-- The last digits of a number, as many as there are to be. -/
def fixedText : ℕ → ℕ → List UInt8
  | 0, _ => []
  | width + 1, number => fixedText width (number / 10) ++ [digitByte (number % 10)]

/-- A natural number in decimal digits. -/
def natText (number : ℕ) : List UInt8 := fixedText (Nat.log 10 number + 1) number

/-- An integer in decimal digits. -/
def intText (number : ℤ) : List UInt8 :=
  if number < 0 then 45 :: natText number.natAbs else natText number.natAbs

theorem toNat_digitByte {digit : ℕ} (hdigit : digit < 10) :
    (digitByte digit).toNat = 48 + digit := by
  rw [digitByte, UInt8.toNat_ofNat']
  omega

theorem isDigit_digitByte {digit : ℕ} (hdigit : digit < 10) : isDigit (digitByte digit) = true := by
  have hbyte := toNat_digitByte hdigit
  simp only [isDigit, Bool.and_eq_true, decide_eq_true_eq, UInt8.le_iff_toNat_le, hbyte]
  exact ⟨Nat.le_add_right 48 digit, by
    change 48 + digit ≤ 57
    omega⟩

theorem numberOf_append (first second : List UInt8) :
    numberOf (first ++ second) = numberOf first * 10 ^ second.length + numberOf second := by
  have hfold : ∀ start, second.foldl (fun number byte ↦ 10 * number + (byte.toNat - 48)) start =
      start * 10 ^ second.length + numberOf second := by
    induction second with
    | nil => intro start; simp [numberOf]
    | cons byte rest ih =>
      intro start
      have hcons : numberOf (byte :: rest) =
          (byte.toNat - 48) * 10 ^ rest.length + numberOf rest := by
        rw [numberOf, List.foldl_cons, Nat.mul_zero, Nat.zero_add]
        exact ih _
      rw [List.foldl_cons, ih, hcons, List.length_cons, pow_succ]
      ring
  rw [numberOf, List.foldl_append, hfold]
  rfl

@[simp]
theorem length_fixedText (width number : ℕ) : (fixedText width number).length = width := by
  induction width generalizing number with
  | zero => rfl
  | succ width ih => rw [fixedText, List.length_append, ih, List.length_singleton]

theorem isDigit_of_mem_fixedText {width number : ℕ} {byte : UInt8}
    (hbyte : byte ∈ fixedText width number) : isDigit byte = true := by
  induction width generalizing number with
  | zero => simp [fixedText] at hbyte
  | succ width ih =>
    rw [fixedText, List.mem_append, List.mem_singleton] at hbyte
    rcases hbyte with hrest | rfl
    · exact ih hrest
    · exact isDigit_digitByte (Nat.mod_lt _ (by decide))

theorem numberOf_fixedText (width number : ℕ) :
    numberOf (fixedText width number) = number % 10 ^ width := by
  induction width generalizing number with
  | zero => simp [fixedText, numberOf, Nat.mod_one]
  | succ width ih =>
    have hdigit : numberOf [digitByte (number % 10)] = number % 10 := by
      have hbyte := toNat_digitByte (Nat.mod_lt number (by decide : 0 < 10))
      simp [numberOf, hbyte]
    rw [fixedText, numberOf_append, ih, hdigit, List.length_singleton, pow_one, pow_succ',
      Nat.mod_mul, Nat.add_comm, Nat.mul_comm]

theorem numberOf_natText (number : ℕ) : numberOf (natText number) = number := by
  rw [natText, numberOf_fixedText]
  exact Nat.mod_eq_of_lt (Nat.lt_pow_succ_log_self (by decide) number)

theorem fixedText_ne_nil {width : ℕ} (hwidth : 0 < width) (number : ℕ) :
    fixedText width number ≠ [] := by
  intro hnil
  have hlength := length_fixedText width number
  rw [hnil, List.length_nil] at hlength
  omega

theorem natText_ne_nil (number : ℕ) : natText number ≠ [] :=
  fixedText_ne_nil (Nat.succ_pos _) number

theorem isDigit_of_mem_natText {number : ℕ} {byte : UInt8} (hbyte : byte ∈ natText number) :
    isDigit byte = true := isDigit_of_mem_fixedText hbyte

/-! ### Numbers with a point and an exponent -/

/-- A decimal number as it is written: the digits before and behind the point, and the sign and the
digits of the exponent, if there is one. -/
structure DecimalNumeral where
  negative : Bool
  whole : List UInt8
  fraction : List UInt8
  exponent : Option (Bool × List UInt8)
  whole_ne_nil : whole ≠ []
  isDigit_whole : ∀ byte ∈ whole, isDigit byte = true
  isDigit_fraction : ∀ byte ∈ fraction, isDigit byte = true
  isDigit_exponent : ∀ sign digits, exponent = some (sign, digits) →
    digits ≠ [] ∧ ∀ byte ∈ digits, isDigit byte = true

namespace DecimalNumeral

/-- The number as text. -/
def text (numeral : DecimalNumeral) : List UInt8 :=
  (if numeral.negative then [45] else []) ++ numeral.whole ++
    (if numeral.fraction = [] then [] else 46 :: numeral.fraction) ++
    match numeral.exponent with
    | none => []
    | some (negative, digits) => 101 :: (if negative then 45 else 43) :: digits

/-- The exponent that is written, or zero. -/
def exponentValue (numeral : DecimalNumeral) : ℤ :=
  match numeral.exponent with
  | none => 0
  | some (negative, digits) => if negative then -numberOf digits else numberOf digits

/-- The number. -/
def value (numeral : DecimalNumeral) : ℚ :=
  (if numeral.negative then -1 else 1) * numberOf (numeral.whole ++ numeral.fraction) *
    10 ^ (numeral.exponentValue - numeral.fraction.length)

/-- The bytes of a number: digits, signs, the point and the letter of the exponent. -/
theorem mem_text {numeral : DecimalNumeral} {byte : UInt8} (hbyte : byte ∈ numeral.text) :
    isDigit byte = true ∨ byte ∈ [45, 46, 101, 43] := by
  unfold text at hbyte
  simp only [List.mem_append] at hbyte
  rcases hbyte with ((hsign | hwhole) | hfraction) | hexponent
  · split_ifs at hsign <;> simp_all
  · exact .inl (numeral.isDigit_whole byte hwhole)
  · split_ifs at hfraction
    · simp at hfraction
    · rcases List.mem_cons.mp hfraction with rfl | hdigit
      · exact .inr (by decide)
      · exact .inl (numeral.isDigit_fraction byte hdigit)
  · split at hexponent
    · simp at hexponent
    · rename_i negative digits hdigits
      rcases List.mem_cons.mp hexponent with rfl | hrest
      · exact .inr (by decide)
      · rcases List.mem_cons.mp hrest with hsign | hdigit
        · right
          cases negative <;> simp_all
        · exact .inl ((numeral.isDigit_exponent negative digits hdigits).2 byte hdigit)

theorem text_ne_nil (numeral : DecimalNumeral) : numeral.text ≠ [] := by
  unfold text
  simp [numeral.whole_ne_nil]

end DecimalNumeral

/-! ### Reading -/

/-- White space, as C has it. -/
def isSpace (byte : UInt8) : Bool := byte == 32 || 9 ≤ byte && byte ≤ 13

/-- Whether there is a minus, and what follows the sign. -/
def readSign (text : List UInt8) : Bool × List UInt8 :=
  if text.head? = some 45 then (true, text.tail)
  else if text.head? = some 43 then (false, text.tail)
  else (false, text)

/-- The digits at the beginning, and what follows them. -/
def readDigits (text : List UInt8) : List UInt8 × List UInt8 := text.span isDigit

/-- The digits behind a point, and what follows them. -/
def readFraction (text : List UInt8) : List UInt8 × List UInt8 :=
  if text.head? = some 46 then readDigits text.tail else ([], text)

/-- The exponent, and what follows it. A letter without digits is none. -/
def readExponent (text : List UInt8) : ℤ × List UInt8 :=
  if text.head? = some 101 ∨ text.head? = some 69 then
    let (negative, unsigned) := readSign text.tail
    let (digits, rest) := readDigits unsigned
    if digits = [] then (0, text)
    else (if negative then -numberOf digits else numberOf digits, rest)
  else (0, text)

/-- Reads the longest decimal number at the beginning of a text, behind white space: how many bytes
there are up to its end, and the number. Without a number they are both zero. -/
def readDecimal (text : List UInt8) : ℕ × ℚ :=
  let (negative, unsigned) := readSign (text.dropWhile isSpace)
  let (whole, afterWhole) := readDigits unsigned
  let (fraction, afterFraction) := readFraction afterWhole
  if whole = [] ∧ fraction = [] then (0, 0)
  else
    let (exponent, rest) := readExponent afterFraction
    (text.length - rest.length,
      (if negative then -1 else 1) * numberOf (whole ++ fraction) *
        10 ^ (exponent - fraction.length))

theorem readDecimal_le (text : List UInt8) : (readDecimal text).1 ≤ text.length := by
  unfold readDecimal
  dsimp only
  by_cases hnone : (readDigits (readSign (text.dropWhile isSpace)).2).1 = [] ∧
      (readFraction (readDigits (readSign (text.dropWhile isSpace)).2).2).1 = []
  · rw [if_pos hnone]
    exact Nat.zero_le _
  · rw [if_neg hnone]
    exact Nat.sub_le _ _

/-- The text does not begin with a digit. -/
def EndsDigits (text : List UInt8) : Prop := ∀ byte ∈ text.head?, isDigit byte = false

theorem readDigits_append {digits rest : List UInt8}
    (hdigits : ∀ byte ∈ digits, isDigit byte = true) (hrest : EndsDigits rest) :
    readDigits (digits ++ rest) = (digits, rest) := by
  rw [readDigits, List.span_eq_takeWhile_dropWhile, List.takeWhile_append_of_pos hdigits,
    List.dropWhile_append_of_pos hdigits]
  cases rest with
  | nil => simp
  | cons byte rest =>
    have hbyte : ¬ isDigit byte = true := by simp [hrest byte rfl]
    rw [List.takeWhile_cons_of_neg hbyte, List.dropWhile_cons_of_neg hbyte, List.append_nil]

/-- A digit is none of the bytes that have another meaning. -/
theorem ne_of_isDigit {byte : UInt8} (hbyte : isDigit byte = true) :
    byte ≠ 45 ∧ byte ≠ 43 ∧ isSpace byte = false := by
  refine ⟨?_, ?_, ?_⟩
  · rintro rfl
    exact absurd hbyte (by decide)
  · rintro rfl
    exact absurd hbyte (by decide)
  · simp only [isDigit, Bool.and_eq_true, decide_eq_true_eq, UInt8.le_iff_toNat_le] at hbyte
    simp only [isSpace, Bool.or_eq_false_iff, Bool.and_eq_false_iff, beq_eq_false_iff_ne, ne_eq,
      decide_eq_false_iff_not, UInt8.le_iff_toNat_le, ← UInt8.toNat_inj]
    have hlower : 48 ≤ byte.toNat := hbyte.1
    exact ⟨by
      change byte.toNat ≠ 32
      omega, .inr (by
      change ¬ byte.toNat ≤ 13
      omega)⟩

theorem readSign_digits {digits : List UInt8} (hne : digits ≠ [])
    (hdigits : ∀ byte ∈ digits, isDigit byte = true) (rest : List UInt8) :
    readSign (digits ++ rest) = (false, digits ++ rest) := by
  obtain ⟨byte, others, rfl⟩ := List.exists_cons_of_ne_nil hne
  obtain ⟨hminus, hplus, -⟩ := ne_of_isDigit (hdigits byte List.mem_cons_self)
  simp [readSign, hminus, hplus]

namespace DecimalNumeral

variable (numeral : DecimalNumeral)

/-- The text of the exponent. -/
def exponentText : List UInt8 :=
  match numeral.exponent with
  | none => []
  | some (negative, digits) => 101 :: (if negative then 45 else 43) :: digits

/-- The text of the point and of what is behind it. -/
def fractionText : List UInt8 :=
  if numeral.fraction = [] then [] else 46 :: numeral.fraction

theorem exponentText_cases : numeral.exponentText = [] ∨
    ∃ rest, numeral.exponentText = 101 :: rest := by
  unfold exponentText
  split
  · exact .inl rfl
  · exact .inr ⟨_, rfl⟩

theorem endsDigits_exponentText : EndsDigits numeral.exponentText := by
  rcases numeral.exponentText_cases with heq | ⟨rest, heq⟩
  · simp [EndsDigits, heq]
  · simp only [EndsDigits, heq, List.head?_cons, Option.mem_some_iff, forall_eq']
    decide

theorem readExponent_exponentText :
    readExponent numeral.exponentText = (numeral.exponentValue, []) := by
  unfold exponentText exponentValue
  cases hexponent : numeral.exponent with
  | none => rfl
  | some exponent =>
    obtain ⟨negative, digits⟩ := exponent
    obtain ⟨hne, hdigits⟩ := numeral.isDigit_exponent negative digits hexponent
    have hread : readDigits digits = (digits, []) := by
      have happend := @readDigits_append digits [] hdigits (by simp [EndsDigits])
      rwa [List.append_nil] at happend
    cases negative <;> simp [readExponent, readSign, hread, hne]

theorem readFraction_fractionText :
    readFraction (numeral.fractionText ++ numeral.exponentText) =
      (numeral.fraction, numeral.exponentText) := by
  have hexponent := numeral.exponentText_cases
  unfold fractionText
  split_ifs with hnil
  · rw [hnil, List.nil_append]
    rcases hexponent with heq | ⟨rest, heq⟩ <;> simp [readFraction, heq]
  · have hdigits := readDigits_append numeral.isDigit_fraction numeral.endsDigits_exponentText
    simpa [readFraction] using hdigits

/-- A number as text is read back. -/
theorem readDecimal_text :
    readDecimal numeral.text = (numeral.text.length, numeral.value) := by
  have htext : numeral.text = (if numeral.negative then [45] else []) ++
      (numeral.whole ++ (numeral.fractionText ++ numeral.exponentText)) := by
    unfold text fractionText exponentText
    simp only [List.append_assoc]
  have hends : EndsDigits (numeral.fractionText ++ numeral.exponentText) := by
    unfold fractionText
    split_ifs
    · exact numeral.endsDigits_exponentText
    · simp only [EndsDigits, List.cons_append, List.head?_cons, Option.mem_some_iff, forall_eq']
      decide
  have hdigits := readDigits_append numeral.isDigit_whole hends
  obtain ⟨first, others, hwhole⟩ := List.exists_cons_of_ne_nil numeral.whole_ne_nil
  have hspace : numeral.text.dropWhile isSpace = numeral.text := by
    rw [htext, hwhole]
    split_ifs
    · exact List.dropWhile_cons_of_neg (by decide)
    · refine List.dropWhile_cons_of_neg ?_
      have hfirst := numeral.isDigit_whole first (by simp [hwhole])
      simp [(ne_of_isDigit hfirst).2.2]
  have hsign : readSign numeral.text =
      (numeral.negative, numeral.whole ++ (numeral.fractionText ++ numeral.exponentText)) := by
    rw [htext]
    cases numeral.negative with
    | true => rfl
    | false => exact readSign_digits numeral.whole_ne_nil numeral.isDigit_whole _
  unfold readDecimal
  simp only [hspace, hsign, hdigits, readFraction_fractionText, readExponent_exponentText,
    numeral.whole_ne_nil, false_and, if_false, List.length_nil, Nat.sub_zero]
  rfl

end DecimalNumeral

end GameEngine.Library
