import GameEngine.Core.PropertyRegistry
import GameEngine.Library.FloatingNumbers
import Mathlib.Tactic.NormNum

/-!
# Values that come back

`get_as_string` prints the value of a property, and `set_from_string` reads it again. Truth values,
integers and strings are read as what they were. The default format of a stream prints six
significant digits of a floating-point number, which are enough for some values and not for others,
while `strtof` and `strtod` read all digits that there are.

`round_trip_iff` says that a finite value comes back if and only if each of its floating-point
numbers is the nearest one to some number with six significant digits. `large_float_changed` is a
`float` that is not, 2 ^ 24.
-/

set_option autoImplicit false
set_option relaxedAutoImplicit false

namespace GameEngine.Core

open GameEngine.Library

/-! ### Floating-point numbers in the locale C -/

/-- What the functions for floating-point numbers do in the locale C with finite numbers and their
texts: the default format of a stream is `%g` with six digits, and what is read is rounded to the
nearest number. -/
structure Platform.InLocaleC (platform : Platform (Floating binary32) (Floating binary64)) :
    Prop where
  printFloat_eq : ∀ value, platform.printFloat (.finite value) =
    (DecimalNumeral.printed 6 value.number).text
  printDouble_eq : ∀ value, platform.printDouble (.finite value) =
    (DecimalNumeral.printed 6 value.number).text
  strtof_text : ∀ numeral : DecimalNumeral,
    platform.strtof.strto numeral.text = (numeral.text.length, .ofRat numeral.value)
  strtod_text : ∀ numeral : DecimalNumeral,
    platform.strtod.strto numeral.text = (numeral.text.length, .ofRat numeral.value)

/-- The floating-point numbers of a value are finite, and it is of a type that can be printed. -/
def PropertyValue.IsFinite : PropertyValue (Floating binary32) (Floating binary64) → Prop
  | .bool _ => True
  | .int32 _ => True
  | .int64 _ => True
  | .float value => value.IsFinite
  | .double value => value.IsFinite
  | .string _ => True
  | .vec3 value => value.x.IsFinite ∧ value.y.IsFinite ∧ value.z.IsFinite
  | .raw => False

/-- The floating-point numbers of a value are nearest to numbers with six significant digits. -/
def PropertyValue.HasSixDigits : PropertyValue (Floating binary32) (Floating binary64) → Prop
  | .bool _ => True
  | .int32 _ => True
  | .int64 _ => True
  | .float value => value.HasDigits 6
  | .double value => value.HasDigits 6
  | .string _ => True
  | .vec3 value => value.x.HasDigits 6 ∧ value.y.HasDigits 6 ∧ value.z.HasDigits 6
  | .raw => True

/-- What `get_as_string` prints. -/
def PropertyValue.text {F D : Type} (platform : Platform F D) : PropertyValue F D → Text
  | .bool value => bytesOf (if value then ['t', 'r', 'u', 'e'] else ['f', 'a', 'l', 's', 'e'])
  | .int32 value => intText value.toInt
  | .int64 value => intText value.toInt
  | .float value => platform.printFloat value
  | .double value => platform.printDouble value
  | .string value => value
  | .vec3 value =>
    platform.printFloat value.x ++ comma :: (platform.printFloat value.y ++
      comma :: platform.printFloat value.z)
  | .raw => []

/-- A call of `get_as_string` for a name that is bound to an object of its type. -/
theorem PropertyRegistry.getAsString_eq {F D : Type} (platform : Platform F D)
    {registry : PropertyRegistry} {memory : Memory F D} {name : Text} {desc : PropertyDesc}
    {address : ℕ} (hfind : registry.find name = some desc) (haddress : desc.address = some address)
    (htype : (memory address).type = desc.type) (hraw : desc.type ≠ .raw) (out : Text) :
    registry.getAsString platform memory name out = ((memory address).text platform, true) := by
  simp only [getAsString, hfind, haddress, ← htype]
  rw [← htype] at hraw
  cases hvalue : memory address with
  | raw => simp [hvalue, PropertyValue.type] at hraw
  | _ => rfl

/-! ### Integers -/

/-- An integer of the type is read as what it was. -/
theorem fromChars_intText {least greatest value : ℤ} (hleast : least ≤ value)
    (hgreatest : value ≤ greatest) :
    fromChars least greatest (intText value) = some (value, (intText value).length) := by
  obtain ⟨digits, hdigits⟩ : ∃ digits, digits = natText value.natAbs := ⟨_, rfl⟩
  have hne : digits ≠ [] := hdigits ▸ natText_ne_nil _
  have hnumber : numberOf digits = value.natAbs := by rw [hdigits, numberOf_natText]
  have hall : digits.takeWhile isDigit = digits := by
    refine List.takeWhile_eq_self_iff.mpr fun byte hbyte ↦ ?_
    rw [hdigits] at hbyte
    exact isDigit_of_mem_natText hbyte
  rcases lt_or_ge value 0 with hneg | hpos
  · have htext : intText value = 45 :: digits := by rw [intText, if_pos hneg, hdigits]
    have hvalue : -(numberOf digits : ℤ) = value := by omega
    have hsign : ((45 :: digits).takeWhile (· == 45)).take 1 = [45] := by simp
    have hrest : ((45 :: digits).drop [(45 : UInt8)].length).takeWhile isDigit = digits := hall
    simp only [fromChars, htext, hsign, hrest, hne, List.cons_ne_nil, if_false, hvalue, hleast,
      hgreatest, and_self, if_true]
    rw [List.length_singleton, List.length_cons, Nat.add_comm]
  · have htext : intText value = digits := by rw [intText, if_neg (not_lt.mpr hpos), hdigits]
    have hvalue : (numberOf digits : ℤ) = value := by omega
    have hsign : (digits.takeWhile (· == 45)).take 1 = [] := by
      obtain ⟨first, others, hcons⟩ := List.exists_cons_of_ne_nil hne
      have hfirst : isDigit first = true := by
        refine @isDigit_of_mem_natText value.natAbs first ?_
        rw [← hdigits, hcons]
        exact List.mem_cons_self
      simp [hcons, (ne_of_isDigit hfirst).1]
    simp only [fromChars, htext, hsign, List.length_nil, List.drop_zero, hall, hne, if_true,
      if_false, hvalue, hleast, hgreatest, and_self, Nat.zero_add]

theorem parseInt_intText {α : Type} {least greatest value : ℤ} (ofInt : ℤ → α)
    (hleast : least ≤ value) (hgreatest : value ≤ greatest) (out : α) :
    parseInt least greatest ofInt (intText value) out = (ofInt value, true) := by
  rw [parseInt, fromChars_intText hleast hgreatest]
  simp

/-! ### Floating-point numbers -/

section Numbers

variable {format : FloatingFormat} {numerals : Numerals (Floating format)}

/-- The text of a number contains neither a comma nor a zero byte. -/
theorem not_mem_text (numeral : DecimalNumeral) : comma ∉ numeral.text ∧ 0 ∉ numeral.text := by
  constructor
  · intro hmem
    exact absurd (DecimalNumeral.mem_text hmem) (by decide)
  · intro hmem
    exact absurd (DecimalNumeral.mem_text hmem) (by decide)

theorem numeral?_text (htext : ∀ numeral : DecimalNumeral,
      numerals.strto numeral.text = (numeral.text.length, .ofRat numeral.value))
    (numeral : DecimalNumeral) :
    numerals.numeral? numeral.text = some (.ofRat numeral.value) := by
  rw [Numerals.numeral?, cString_eq (not_mem_text numeral).2, htext,
    if_pos ⟨numeral.text_ne_nil, rfl⟩]

/-- What is read for a finite number that has been printed, and when it is the number. -/
theorem exists_numeral?_print {print : Floating format → Text}
    (hprint : ∀ value, print (.finite value) = (DecimalNumeral.printed 6 value.number).text)
    (htext : ∀ numeral : DecimalNumeral,
      numerals.strto numeral.text = (numeral.text.length, .ofRat numeral.value))
    (hprecision : 10 ^ 6 + 1 ≤ format.radix ^ (format.precision - 1))
    {value : Floating format} (hfinite : value.IsFinite) :
    ∃ read, numerals.numeral? (print value) = some read ∧ comma ∉ print value ∧
      (read = value ↔ value.HasDigits 6) := by
  cases value with
  | finite value =>
    rw [hprint]
    exact ⟨_, numeral?_text htext _, (not_mem_text _).1,
      Floating.ofRat_printed_iff 6 value hprecision⟩
  | infinite negative => exact hfinite.elim
  | nan => exact hfinite.elim

end Numbers

/-! ### All types -/

section RoundTrip

variable {platform : Platform (Floating binary32) (Floating binary64)}

/-- A finite value that has been printed is read, and as what it was if and only if its
floating-point numbers are nearest to numbers with six significant digits. -/
theorem read?_text_iff (hplatform : platform.InLocaleC)
    {value : PropertyValue (Floating binary32) (Floating binary64)} (hfinite : value.IsFinite) :
    PropertyRegistry.read? platform value.type (value.text platform) = some value ↔
      value.HasSixDigits := by
  cases value with
  | bool value => cases value <;> exact iff_of_true rfl trivial
  | int32 value =>
    have hread := parseInt_intText Int32.ofInt value.le_toInt
      (Int.le_sub_one_of_lt value.toInt_lt) 0
    refine iff_of_true ?_ trivial
    simp only [PropertyRegistry.read?, PropertyValue.type, PropertyValue.text, hread, if_true,
      Int32.ofInt_toInt]
  | int64 value =>
    have hread := parseInt_intText Int64.ofInt value.le_toInt
      (Int.le_sub_one_of_lt value.toInt_lt) 0
    refine iff_of_true ?_ trivial
    simp only [PropertyRegistry.read?, PropertyValue.type, PropertyValue.text, hread, if_true,
      Int64.ofInt_toInt]
  | float value =>
    obtain ⟨read, hread, -, hiff⟩ := exists_numeral?_print hplatform.printFloat_eq
      hplatform.strtof_text (by decide) hfinite
    simp only [PropertyRegistry.read?, PropertyValue.type, PropertyValue.text, hread,
      Option.map_some, Option.some.injEq, PropertyValue.float.injEq]
    exact hiff
  | double value =>
    obtain ⟨read, hread, -, hiff⟩ := exists_numeral?_print hplatform.printDouble_eq
      hplatform.strtod_text (by decide) hfinite
    simp only [PropertyRegistry.read?, PropertyValue.type, PropertyValue.text, hread,
      Option.map_some, Option.some.injEq, PropertyValue.double.injEq]
    exact hiff
  | string value => exact iff_of_true rfl trivial
  | vec3 value =>
    obtain ⟨value_x, value_y, value_z⟩ := value
    obtain ⟨x, hx, hcomma_x, hiff_x⟩ := exists_numeral?_print hplatform.printFloat_eq
      hplatform.strtof_text (by decide) hfinite.1
    obtain ⟨y, hy, hcomma_y, hiff_y⟩ := exists_numeral?_print hplatform.printFloat_eq
      hplatform.strtof_text (by decide) hfinite.2.1
    obtain ⟨z, hz, hcomma_z, hiff_z⟩ := exists_numeral?_print hplatform.printFloat_eq
      hplatform.strtof_text (by decide) hfinite.2.2
    have hfields := fields_comma hcomma_x (platform.printFloat value_y ++
      comma :: platform.printFloat value_z)
    rw [fields_comma hcomma_y, fields_of_not_mem hcomma_z] at hfields
    simp only [PropertyRegistry.read?, PropertyValue.type, PropertyValue.text, vec3?, hfields, hx,
      hy, hz, Option.bind_some, Option.map_some, Option.some.injEq, PropertyValue.vec3.injEq,
      Vec3f.mk.injEq]
    exact and_congr hiff_x (and_congr hiff_y hiff_z)
  | raw => exact hfinite.elim

/-- For every registry and every name that is bound to an object that may be edited, and that holds
a finite value: what `get_as_string` prints is read by `set_from_string`, and leaves the value as it
was, if and only if the floating-point numbers of the value are nearest to numbers with six
significant digits. Assumes: the locale is C, and the objects are of the types that the names are
bound with. -/
theorem round_trip_iff (hplatform : platform.InLocaleC) {registry : PropertyRegistry}
    {memory : Memory (Floating binary32) (Floating binary64)} (htyped : registry.WellTyped memory)
    {name : Text} {desc : PropertyDesc} {address : ℕ} (hfind : registry.find name = some desc)
    (haddress : desc.address = some address) (heditable : desc.editable = true)
    (hraw : desc.type ≠ .raw) (hfinite : (memory address).IsFinite) (out : Text) :
    (∃ text, registry.getAsString platform memory name out = (text, true) ∧
      registry.setFromString platform memory name text = (memory, true)) ↔
        (memory address).HasSixDigits := by
  have htype := htyped desc (List.mem_of_find?_eq_some hfind) hraw address haddress
  rw [PropertyRegistry.getAsString_eq platform hfind haddress htype hraw]
  simp only [Prod.mk.injEq, and_true, exists_eq_left']
  rw [PropertyRegistry.setFromString_eq platform memory _ hfind haddress heditable, ← htype,
    ← read?_text_iff hplatform hfinite]
  cases PropertyRegistry.read? platform (memory address).type ((memory address).text platform) with
  | none => simp
  | some read => simp [Function.update_eq_self_iff]

end RoundTrip

/-! ### A platform -/

/-- The function that reads decimal numbers as those of a format. -/
def decimalNumerals (format : FloatingFormat) : Numerals (Floating format) where
  zero := .ofRat 0
  strto text := ((readDecimal text).1, .ofRat (readDecimal text).2)
  consumed_le := readDecimal_le

/-- The default format of a stream. -/
def printDefault {format : FloatingFormat} : Floating format → Text
  | .finite value => (DecimalNumeral.printed 6 value.number).text
  | .infinite negative => if negative then bytesOf ['-', 'i', 'n', 'f'] else bytesOf ['i', 'n', 'f']
  | .nan => bytesOf ['n', 'a', 'n']

/-- The functions of the libraries for decimal numbers. -/
def decimalPlatform : Platform (Floating binary32) (Floating binary64) where
  strtof := decimalNumerals binary32
  strtod := decimalNumerals binary64
  printFloat := printDefault
  printDouble := printDefault

theorem decimalPlatform_inLocaleC : decimalPlatform.InLocaleC := by
  have htext : ∀ (format : FloatingFormat) (numeral : DecimalNumeral),
      (decimalNumerals format).strto numeral.text =
        (numeral.text.length, .ofRat numeral.value) := by
    intro format numeral
    change ((readDecimal numeral.text).1, Floating.ofRat (readDecimal numeral.text).2) = _
    rw [numeral.readDecimal_text]
  exact ⟨fun _ ↦ rfl, fun _ ↦ rfl, htext binary32, htext binary64⟩

/-! ### One property -/

/-- The name of the property. -/
def scaleName : Text := bytesOf ['s', 'c', 'a', 'l', 'e']

/-- A registry with one property, the `float` at the address 0. -/
def scaleRegistry : PropertyRegistry :=
  (PropertyRegistry.new.bind (some scaleName) .float 0 true).1

theorem find_scale : scaleRegistry.find scaleName = some ⟨scaleName, .float, some 0, true⟩ := rfl

/-- The value of the property is a finite number. -/
def scaleMemory (value : FiniteNumber binary32) : Memory (Floating binary32) (Floating binary64) :=
  fun _ ↦ .float (.finite value)

theorem scaleRegistry_wellTyped (value : FiniteNumber binary32) :
    scaleRegistry.WellTyped (scaleMemory value) := by
  intro desc hdesc _ address _
  have hdesc : desc ∈ [⟨scaleName, .float, some 0, true⟩] := hdesc
  rw [List.mem_singleton.mp hdesc]
  rfl

/-- The number 2.5, which comes back. -/
def twoAndHalf : FiniteNumber binary32 where
  number := 5 / 2
  isValue := ⟨5, -1, by norm_num [binary32], by norm_num [binary32], by norm_num [binary32]⟩
  le_greatest := by norm_num [binary32]

theorem round_trip_iff_scale :
    ∃ text, scaleRegistry.getAsString decimalPlatform (scaleMemory twoAndHalf) scaleName [] =
        (text, true) ∧
      scaleRegistry.setFromString decimalPlatform (scaleMemory twoAndHalf) scaleName text =
        (scaleMemory twoAndHalf, true) := by
  refine (round_trip_iff decimalPlatform_inLocaleC (scaleRegistry_wellTyped twoAndHalf) find_scale
    rfl rfl (by decide) trivial []).mpr ⟨5 / 2, ?_, ?_⟩
  · exact ⟨25, -1, by norm_num [decimalFormat], by simp [decimalFormat],
      by norm_num [decimalFormat]⟩
  · exact Floating.ofRat_eq_finite_iff.mpr twoAndHalf.isValue.nearest_eq

/-- The number 2 ^ 24. -/
def largeFloat : FiniteNumber binary32 where
  number := 16777216
  isValue := ⟨1, 24, by norm_num [binary32], by norm_num [binary32], by norm_num [binary32]⟩
  le_greatest := by norm_num [binary32]

/-- The number that 2 ^ 24 becomes. -/
def changedFloat : FiniteNumber binary32 where
  number := 16777200
  isValue := ⟨16777200, 0, by norm_num [binary32], by norm_num [binary32], by norm_num [binary32]⟩
  le_greatest := by norm_num [binary32]

theorem log_of_eight_digits {number : ℕ} (hlower : 10 ^ 7 ≤ number) (hupper : number < 10 ^ 8) :
    Int.log 10 |(number : ℚ)| = 7 := by
  rw [Nat.abs_cast, Int.log_natCast, Nat.log_eq_of_pow_le_of_lt_pow hlower hupper]
  rfl

theorem nearest_largeFloat : (decimalFormat 6).nearest largeFloat.number = 16777200 := by
  have hlast : (decimalFormat 6).lastExponent largeFloat.number = 2 := by
    have hlog := @log_of_eight_digits 16777216 (by norm_num) (by norm_num)
    rw [Nat.cast_ofNat] at hlog
    change Int.log 10 |(16777216 : ℚ)| - 6 + 1 = 2
    rw [hlog]
    rfl
  have hround : roundHalfEven (largeFloat.number / ((decimalFormat 6).radix : ℚ) ^ (2 : ℤ)) =
      167772 :=
    roundHalfEven_eq (.inl (by norm_num [largeFloat, decimalFormat, abs_lt]))
  rw [RadixFormat.nearest, hlast, hround]
  norm_num [decimalFormat]

/-- The number is printed with six digits. -/
theorem printed_largeFloat : (DecimalNumeral.printed 6 largeFloat.number).text =
    bytesOf ['1', '.', '6', '7', '7', '7', '2', 'e', '+', '0', '7'] := by
  have hexponent : firstExponent 6 largeFloat.number = 7 := by
    have hlog := @log_of_eight_digits 16777200 (by norm_num) (by norm_num)
    rw [firstExponent, nearest_largeFloat, ← Nat.cast_ofNat]
    exact hlog
  have hdigits : roundedDigits 6 largeFloat.number = 167772 := by
    rw [roundedDigits, hexponent, nearest_largeFloat]
    norm_num
  have hexponentDigits : exponentDigits 7 = bytesOf ['0', '7'] := by
    rw [exponentDigits, show Nat.log 10 (Int.natAbs 7) = 0 from Nat.log_of_lt (by decide)]
    decide
  unfold DecimalNumeral.printed
  simp only [hexponent, hdigits]
  rw [if_neg (by decide)]
  change (if decide (largeFloat.number < 0) then [45] else []) ++ _ = _
  rw [if_neg (by norm_num [largeFloat])]
  simp only [DecimalNumeral.ofDigits, hexponentDigits]
  decide

/-- The `float` 2 ^ 24 is printed as `1.67772e+07`, and read as the number 16777200. -/
theorem large_float_changed :
    scaleRegistry.getAsString decimalPlatform (scaleMemory largeFloat) scaleName [] =
      (bytesOf ['1', '.', '6', '7', '7', '7', '2', 'e', '+', '0', '7'], true) ∧
    scaleRegistry.setFromString decimalPlatform (scaleMemory largeFloat) scaleName
        (bytesOf ['1', '.', '6', '7', '7', '7', '2', 'e', '+', '0', '7']) =
      (Function.update (scaleMemory largeFloat) 0 (.float (.finite changedFloat)), true) ∧
    Function.update (scaleMemory largeFloat) 0 (.float (.finite changedFloat)) ≠
      scaleMemory largeFloat := by
  rw [← printed_largeFloat]
  refine ⟨?_, ?_, ?_⟩
  · exact PropertyRegistry.getAsString_eq decimalPlatform find_scale rfl rfl (by decide) []
  · have hread : PropertyRegistry.read? decimalPlatform .float
        (DecimalNumeral.printed 6 largeFloat.number).text =
          some (.float (.finite changedFloat)) := by
      rw [PropertyRegistry.read?, numeral?_text decimalPlatform_inLocaleC.strtof_text,
        DecimalNumeral.value_printed, nearest_largeFloat, Option.map_some]
      exact congrArg (some ∘ PropertyValue.float)
        (Floating.ofRat_eq_finite_iff.mpr changedFloat.isValue.nearest_eq)
    rw [PropertyRegistry.setFromString_eq decimalPlatform _ _ find_scale rfl rfl, hread]
  · intro heq
    have hvalue := congrFun heq 0
    rw [Function.update_self] at hvalue
    have hnumber := congrArg FiniteNumber.number
      (Floating.finite.inj (PropertyValue.float.inj hvalue))
    norm_num [changedFloat, largeFloat] at hnumber

end GameEngine.Core
