import Mathlib.Data.Nat.Notation
import Mathlib.Tactic.SplitIfs
import Mathlib.Data.List.Basic

/-!
# Strings of JSON

A string of JSON is a quotation mark, characters, and a quotation mark. A character stands for
itself unless it is a control character, a quotation mark or a backslash; a backslash starts an
escape, which is a letter or the letter u with four hexadecimal digits. Texts are lists of code
points, and the value of a string is the list of its UTF-16 code units, which is what the escapes
with four digits stand for.

`JsonChars.unique` says that a string has one value, and `JsonChars.not_control` that no control
character stands in a string.
-/

set_option autoImplicit false
set_option relaxedAutoImplicit false

namespace GameEngine.Library

/-- The code point of the quotation mark. -/
def quotationMark : ℕ := 34

/-- The code point of the backslash. -/
def backslash : ℕ := 92

/-- The characters that may stand for themselves. -/
def IsUnescaped (c : ℕ) : Prop := 32 ≤ c ∧ c ≠ quotationMark ∧ c ≠ backslash ∧ c ≤ 0x10FFFF

/-- What a letter after a backslash stands for. -/
def escaped : ℕ → Option ℕ
  | 34 => some 34
  | 92 => some 92
  | 47 => some 47
  | 98 => some 8
  | 102 => some 12
  | 110 => some 10
  | 114 => some 13
  | 116 => some 9
  | _ => none

/-- The value of a hexadecimal digit. -/
def hexDigit (c : ℕ) : Option ℕ :=
  if 48 ≤ c ∧ c ≤ 57 then some (c - 48)
  else if 65 ≤ c ∧ c ≤ 70 then some (c - 55)
  else if 97 ≤ c ∧ c ≤ 102 then some (c - 87)
  else none

/-- The UTF-16 code units of a code point. -/
def utf16 (c : ℕ) : List ℕ :=
  if c < 0x10000 then [c] else [0xD800 + (c - 0x10000) / 0x400, 0xDC00 + (c - 0x10000) % 0x400]

/-- The characters between the quotation marks, with the code units they stand for. -/
inductive JsonChars : List ℕ → List ℕ → Prop
  | nil : JsonChars [] []
  | unescaped {c : ℕ} {text value : List ℕ} : IsUnescaped c → JsonChars text value →
      JsonChars (c :: text) (utf16 c ++ value)
  | escape {letter c : ℕ} {text value : List ℕ} : escaped letter = some c → JsonChars text value →
      JsonChars (backslash :: letter :: text) (c :: value)
  | hex {first second third fourth a b c d : ℕ} {text value : List ℕ} :
      hexDigit first = some a → hexDigit second = some b → hexDigit third = some c →
      hexDigit fourth = some d → JsonChars text value →
      JsonChars (backslash :: 117 :: first :: second :: third :: fourth :: text)
        ((((a * 16 + b) * 16 + c) * 16 + d) :: value)

/-- A string with its value. -/
def JsonString (text value : List ℕ) : Prop :=
  ∃ chars, text = quotationMark :: chars ++ [quotationMark] ∧ JsonChars chars value

/-- Characters have one value. -/
theorem JsonChars.unique {text first second : List ℕ} (hfirst : JsonChars text first)
    (hsecond : JsonChars text second) : first = second := by
  induction hfirst generalizing second with
  | nil => cases hsecond; rfl
  | unescaped hself _ ih =>
    cases hsecond with
    | unescaped _ hrest => rw [ih hrest]
    | escape => exact absurd rfl hself.2.2.1
    | hex => exact absurd rfl hself.2.2.1
  | escape hletter _ ih =>
    cases hsecond with
    | unescaped hself => exact absurd rfl hself.2.2.1
    | escape hletter' hrest =>
      rw [ih hrest, Option.some.inj (hletter.symm.trans hletter')]
    | hex => simp [escaped] at hletter
  | hex ha hb hc hd _ ih =>
    cases hsecond with
    | unescaped hself => exact absurd rfl hself.2.2.1
    | escape hletter => simp [escaped] at hletter
    | hex ha' hb' hc' hd' hrest =>
      rw [ih hrest, Option.some.inj (ha.symm.trans ha'), Option.some.inj (hb.symm.trans hb'),
        Option.some.inj (hc.symm.trans hc'), Option.some.inj (hd.symm.trans hd')]

theorem not_control_of_escaped {letter c : ℕ} (hletter : escaped letter = some c) :
    32 ≤ letter := by
  revert hletter
  unfold escaped
  split
  case h_9 => exact fun hnone ↦ absurd hnone (by simp)
  all_goals exact fun _ ↦ by decide

theorem not_control_of_hexDigit {c digit : ℕ} (hdigit : hexDigit c = some digit) : 32 ≤ c := by
  unfold hexDigit at hdigit
  split_ifs at hdigit <;> omega

/-- No control character stands in a string. -/
theorem JsonChars.not_control {text value : List ℕ} (hchars : JsonChars text value) :
    ∀ c ∈ text, 32 ≤ c := by
  induction hchars with
  | nil => simp
  | unescaped hself _ ih => simpa using ⟨hself.1, ih⟩
  | escape hletter _ ih => simpa [backslash] using ⟨not_control_of_escaped hletter, ih⟩
  | hex ha hb hc hd _ ih =>
    simpa [backslash] using ⟨not_control_of_hexDigit ha, not_control_of_hexDigit hb,
      not_control_of_hexDigit hc, not_control_of_hexDigit hd, ih⟩

/-- The characters of a string are between its quotation marks. -/
theorem jsonString_iff {chars value : List ℕ} :
    JsonString (quotationMark :: chars ++ [quotationMark]) value ↔ JsonChars chars value := by
  constructor
  · rintro ⟨chars', htext, hchars⟩
    have heq : chars = chars' := by simpa using htext
    exact heq ▸ hchars
  · exact fun hchars ↦ ⟨chars, rfl, hchars⟩

end GameEngine.Library
