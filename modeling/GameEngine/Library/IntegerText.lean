import GameEngine.Library.DecimalText

/-!
# Reading integers from text

`strtoull` and `strtol` of the C library, to the base ten and for 64-bit words: white space, a sign
and digits at the beginning of a text are read as a number, whatever follows. A number that does not
fit is replaced by the nearest limit, and `strtoull` takes a negative number modulo the word. A text
that was printed from a number is read back (`strtoull_intText`, `strtol_intText`).
-/

set_option autoImplicit false
set_option relaxedAutoImplicit false

namespace GameEngine.Library

/-- The sign and the digits at the beginning of a text: whether there is a minus, and the number. -/
def readInteger (text : List UInt8) : Bool × ℕ :=
  let (negative, unsigned) := readSign (text.dropWhile isSpace)
  (negative, numberOf (readDigits unsigned).1)

/-- `std::strtoull`. -/
def strtoull (text : List UInt8) : ℕ :=
  let (negative, number) := readInteger text
  if 2 ^ 64 ≤ number then 2 ^ 64 - 1
  else if negative then (2 ^ 64 - number) % 2 ^ 64
  else number

/-- `std::strtol`. -/
def strtol (text : List UInt8) : ℤ :=
  let (negative, number) := readInteger text
  if negative then max (-2 ^ 63) (-number) else min (2 ^ 63 - 1) number

theorem readInteger_intText (value : ℤ) :
    readInteger (intText value) = (decide (value < 0), value.natAbs) := by
  have hdigits : ∀ byte ∈ natText value.natAbs, isDigit byte = true :=
    fun byte hbyte ↦ isDigit_of_mem_natText hbyte
  have hread : readDigits (natText value.natAbs) = (natText value.natAbs, []) := by
    have hends : EndsDigits [] := by simp [EndsDigits]
    have happend := readDigits_append hdigits hends
    rwa [List.append_nil] at happend
  obtain ⟨first, others, hfirst⟩ := List.exists_cons_of_ne_nil (natText_ne_nil value.natAbs)
  have hspace := (ne_of_isDigit (hdigits first (hfirst ▸ List.mem_cons_self))).2.2
  by_cases hneg : value < 0
  · have htext : intText value = 45 :: natText value.natAbs := if_pos hneg
    have hdrop : (intText value).dropWhile isSpace = 45 :: natText value.natAbs := by
      rw [htext, List.dropWhile_cons_of_neg (by decide)]
    have hsign : readSign (45 :: natText value.natAbs) = (true, natText value.natAbs) := rfl
    rw [readInteger, hdrop, hsign]
    simp [hread, numberOf_natText, hneg]
  · have htext : intText value = natText value.natAbs := if_neg hneg
    have hdrop : (intText value).dropWhile isSpace = natText value.natAbs := by
      rw [htext, hfirst, List.dropWhile_cons_of_neg (by simp [hspace])]
    have hsign : readSign (natText value.natAbs) = (false, natText value.natAbs) := by
      have happend := readSign_digits (natText_ne_nil value.natAbs) hdigits []
      rwa [List.append_nil] at happend
    rw [readInteger, hdrop, hsign]
    simp [hread, numberOf_natText, hneg]

/-- A number that fits into a word is read back, a negative one modulo the word. -/
theorem strtoull_intText {value : ℤ} (hvalue : value.natAbs < 2 ^ 64) :
    (strtoull (intText value) : ℤ) = value % 2 ^ 64 := by
  rw [strtoull, readInteger_intText]
  dsimp only
  rw [if_neg (by omega)]
  by_cases hneg : value < 0
  · rw [decide_eq_true hneg, if_pos rfl]
    omega
  · rw [decide_eq_false hneg, if_neg (by decide)]
    omega

/-- A number that fits into a signed word is read back. -/
theorem strtol_intText {value : ℤ} (hlower : -2 ^ 63 ≤ value) (hupper : value < 2 ^ 63) :
    strtol (intText value) = value := by
  rw [strtol, readInteger_intText]
  dsimp only
  by_cases hneg : value < 0
  · rw [decide_eq_true hneg, if_pos rfl]
    omega
  · rw [decide_eq_false hneg, if_neg (by decide)]
    omega

end GameEngine.Library
