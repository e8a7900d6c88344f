import GameEngine.Library.DecimalText
import Mathlib.Data.List.TakeWhile
import Mathlib.Data.Int.Notation
import Mathlib.Logic.Function.Basic
import Mathlib.Tactic.SplitIfs

/-!
# The texts of properties

The functions of `core/module_interface` that read a value from a text: `parse_bool`, `parse_int`,
`parse_float`, `parse_double` and `parse_vec3`. A text is a sequence of any bytes with its length.
The functions for floating-point numbers pass it to `strtof` and `strtod`, which know nothing of the
length and stop at the first byte that is zero. These two are a parameter, `Numerals`.

A function returns what its output parameter then holds, and whether it has succeeded.

`parseNumber_eq` and `parseVec3_eq` say what the functions do with any text: `parse_vec3` takes the
texts between the commas, if there are three, and reads each as `parse_float` does.
-/

set_option autoImplicit false
set_option relaxedAutoImplicit false

namespace GameEngine.Core

open GameEngine.Library

/-- A sequence of bytes. -/
abbrev Text := List UInt8

/-- The bytes of ASCII characters. -/
def bytesOf (chars : List Char) : Text := chars.map Char.toUInt8

/-- The byte `,`. -/
def comma : UInt8 := 44

/-! ### Truth values -/

/-- An upper-case letter as the lower-case one. -/
def lowerByte (byte : UInt8) : UInt8 := if 65 ≤ byte ∧ byte ≤ 90 then byte - 65 + 97 else byte

/-- `iequals`. -/
def iequals (first second : Text) : Bool :=
  first.length == second.length &&
    (first.zip second).all fun bytes ↦ lowerByte bytes.1 == lowerByte bytes.2

/-- `parse_bool`. -/
def parseBool (text : Text) (out : Bool) : Bool × Bool :=
  if iequals text (bytesOf ['t', 'r', 'u', 'e']) || text == bytesOf ['1'] then (true, true)
  else if iequals text (bytesOf ['f', 'a', 'l', 's', 'e']) || text == bytesOf ['0'] then
    (false, true)
  else (out, false)

/-! ### Integers -/

/-- `std::from_chars` to the base ten for a type with a least and a greatest value: the number, and
how many bytes it takes, or nothing if there is no number or the number is not of the type. -/
def fromChars (least greatest : ℤ) (text : Text) : Option (ℤ × ℕ) :=
  let sign := text.takeWhile (· == 45) |>.take 1
  let digits := (text.drop sign.length).takeWhile isDigit
  let value : ℤ := if sign = [] then numberOf digits else -numberOf digits
  if digits = [] then none
  else if least ≤ value ∧ value ≤ greatest then some (value, sign.length + digits.length)
  else none

/-- `parse_int`. -/
def parseInt {α : Type} (least greatest : ℤ) (ofInt : ℤ → α) (text : Text) (out : α) : α × Bool :=
  match fromChars least greatest text with
  | none => (out, false)
  | some (value, consumed) => if consumed ≠ text.length then (out, false) else (ofInt value, true)

/-! ### Floating-point numbers -/

/-- `strtof` or `strtod`: how many bytes of a string it reads, and the value. `zero` is zero in the
type of the values. -/
structure Numerals (F : Type) where
  zero : F
  strto : Text → ℕ × F
  consumed_le : ∀ text, (strto text).1 ≤ text.length

/-- The string that a C function sees: the bytes up to the first that is zero. -/
def cString (text : Text) : Text := text.takeWhile (· != 0)

/-- `parse_float` and `parse_double`. The byte behind the last one is zero. -/
def parseNumber {F : Type} (numerals : Numerals F) (text : Text) (out : F) : F × Bool :=
  if text = [] then (out, false)
  else
    let (consumed, value) := numerals.strto (cString text)
    if consumed = 0 ∨ text.getD consumed 0 ≠ 0 then (out, false) else (value, true)

/-- `parse_float`. -/
def parseFloat {F : Type} (strtof : Numerals F) (text : Text) (out : F) : F × Bool :=
  parseNumber strtof text out

/-- `parse_double`. -/
def parseDouble {D : Type} (strtod : Numerals D) (text : Text) (out : D) : D × Bool :=
  parseNumber strtod text out

/-- `Vec3f`. -/
structure Vec3f (F : Type) where
  x : F
  y : F
  z : F
deriving DecidableEq

/-- The variables of `parse_vec3`: the values that have been read, their number, and where the
current field starts. -/
structure Vec3Scan (F : Type) where
  vals : ℕ → F
  index : ℕ
  start : ℕ

section Vec3

variable {F : Type} (strtof : Numerals F)

/-- The loop of `parse_vec3` at `i`. There is no result if the function returns false. -/
def vec3Step (text : Text) (scan : Vec3Scan F) (i : ℕ) : Option (Vec3Scan F) :=
  if i = text.length ∨ text[i]? = some comma then
    if 3 ≤ scan.index then none
    else
      match parseFloat strtof ((text.drop scan.start).take (i - scan.start))
        (scan.vals scan.index) with
      | (_, false) => none
      | (value, true) =>
        some ⟨Function.update scan.vals scan.index value, scan.index + 1, i + 1⟩
  else some scan

/-- `parse_vec3`. -/
def parseVec3 (text : Text) (out : Vec3f F) : Vec3f F × Bool :=
  match (List.range (text.length + 1)).foldlM (vec3Step strtof text)
      ⟨fun _ ↦ strtof.zero, 0, 0⟩ with
  | none => (out, false)
  | some scan =>
    if scan.index ≠ 3 then (out, false) else (⟨scan.vals 0, scan.vals 1, scan.vals 2⟩, true)

end Vec3

/-! ### What is read -/

/-- A text without a zero byte is the string that a C function sees. -/
theorem cString_eq {text : Text} (hzero : 0 ∉ text) : cString text = text := by
  refine List.takeWhile_eq_self_iff.mpr fun byte hbyte ↦ ?_
  simp only [bne_iff_ne]
  rintro rfl
  exact hzero hbyte

section Number

variable {F : Type} (numerals : Numerals F)

/-- The value of a text that is read up to its first zero byte, if there is one. -/
def Numerals.numeral? (text : Text) : Option F :=
  if cString text ≠ [] ∧ (numerals.strto (cString text)).1 = (cString text).length then
    some (numerals.strto (cString text)).2
  else none

/-- The string is a beginning of the text, and a zero byte follows it. -/
theorem getD_cString (text : Text) {consumed : ℕ} (hconsumed : consumed ≤ (cString text).length) :
    text.getD consumed 0 = 0 ↔ consumed = (cString text).length := by
  have hsplit : cString text ++ text.dropWhile (· != 0) = text := List.takeWhile_append_dropWhile ..
  have hget : text[consumed]? = (cString text ++ text.dropWhile (· != 0))[consumed]? := by
    rw [hsplit]
  rw [List.getD_eq_getElem?_getD, hget]
  rcases Nat.lt_or_eq_of_le hconsumed with hlt | rfl
  · refine ⟨fun hzero ↦ ?_, fun heq ↦ absurd heq hlt.ne⟩
    rw [List.getElem?_append_left hlt, List.getElem?_eq_getElem hlt, Option.getD_some] at hzero
    have hne := List.mem_takeWhile_imp (List.getElem_mem hlt)
    simp [hzero] at hne
  · refine iff_of_true ?_ rfl
    rw [List.getElem?_append_right le_rfl, Nat.sub_self]
    cases hrest : text.dropWhile (· != 0) with
    | nil => rfl
    | cons byte rest =>
      have hne : text.dropWhile (· != 0) ≠ [] := by simp [hrest]
      have hzero := List.head_dropWhile_not (· != 0) hne
      simpa [hrest] using hzero

/-- What the functions for floating-point numbers do with any text. -/
theorem parseNumber_eq (text : Text) (out : F) :
    parseNumber numerals text out =
      ((numerals.numeral? text).getD out, (numerals.numeral? text).isSome) := by
  have hle := numerals.consumed_le (cString text)
  unfold parseNumber Numerals.numeral?
  by_cases hempty : text = []
  · subst hempty
    simp [cString]
  · rw [if_neg hempty]
    have hend := getD_cString text hle
    generalize numerals.strto (cString text) = result at hend ⊢
    obtain ⟨consumed, value⟩ := result
    dsimp only at hend ⊢
    by_cases hwhole : consumed = (cString text).length
    · by_cases hnil : cString text = []
      · simp [hwhole, hnil]
      · have hpos : consumed ≠ 0 := by
          rw [hwhole]
          simpa using hnil
        rw [if_neg (not_or.mpr ⟨hpos, not_not.mpr (hend.mpr hwhole)⟩), if_pos ⟨hnil, hwhole⟩]
        rfl
    · rw [if_pos (.inr fun hzero ↦ hwhole (hend.mp hzero)), if_neg fun h ↦ hwhole h.2]
      rfl

end Number

/-! ### Fields -/

/-- The texts between the commas. -/
def fields : Text → List Text
  | [] => [[]]
  | byte :: rest =>
    if byte = comma then [] :: fields rest
    else
      match fields rest with
      | [] => [[byte]]
      | field :: others => (byte :: field) :: others

theorem fields_ne_nil (text : Text) : fields text ≠ [] := by
  cases text with
  | nil => simp [fields]
  | cons byte rest =>
    unfold fields
    split_ifs
    · simp
    · split <;> simp

/-- Bytes other than the comma belong to the first field. -/
theorem fields_append {first : Text} (hfirst : comma ∉ first) (rest : Text) :
    ∃ field others, fields rest = field :: others ∧
      fields (first ++ rest) = (first ++ field) :: others := by
  obtain ⟨field, others, hfields⟩ := List.exists_cons_of_ne_nil (fields_ne_nil rest)
  refine ⟨field, others, hfields, ?_⟩
  induction first with
  | nil => exact hfields
  | cons byte first ih =>
    rw [List.mem_cons, not_or] at hfirst
    rw [List.cons_append, fields, if_neg (Ne.symm hfirst.1), ih hfirst.2]
    rfl

theorem fields_of_not_mem {text : Text} (htext : comma ∉ text) : fields text = [text] := by
  obtain ⟨field, others, hnil, hfields⟩ := fields_append htext []
  obtain ⟨rfl, rfl⟩ := List.cons.inj hnil
  simpa using hfields

/-- A comma ends a field. -/
theorem fields_comma {first : Text} (hfirst : comma ∉ first) (rest : Text) :
    fields (first ++ comma :: rest) = first :: fields rest := by
  obtain ⟨field, others, hcons, hfields⟩ := fields_append hfirst (comma :: rest)
  rw [fields, if_pos rfl] at hcons
  obtain ⟨rfl, rfl⟩ := List.cons.inj hcons
  simpa using hfields

section Vec3

variable {F : Type} (strtof : Numerals F)

/-- What `parse_vec3` does with the fields of a text, one after the other. -/
def scanFields : List Text → (ℕ → F) → ℕ → Option ((ℕ → F) × ℕ)
  | [], vals, index => some (vals, index)
  | field :: others, vals, index =>
    if 3 ≤ index then none
    else (strtof.numeral? field).bind fun value ↦
      scanFields others (Function.update vals index value) (index + 1)

/-- The end of a field, whatever text is left. -/
theorem vec3Step_end {text : Text} {scan : Vec3Scan F} {i : ℕ}
    (hend : i = text.length ∨ text[i]? = some comma) :
    vec3Step strtof text scan i =
      if 3 ≤ scan.index then none
      else (strtof.numeral? ((text.drop scan.start).take (i - scan.start))).map fun value ↦
        ⟨Function.update scan.vals scan.index value, scan.index + 1, i + 1⟩ := by
  rw [vec3Step, if_pos hend]
  split_ifs
  · rfl
  · rw [parseFloat, parseNumber_eq]
    cases strtof.numeral? ((text.drop scan.start).take (i - scan.start)) <;> rfl

/-- The loop, from a position in a field on, does what is to be done with the fields that are left.
The induction is on the number of positions that are left. -/
theorem foldlM_vec3Step (text : Text) (left : ℕ) (scan : Vec3Scan F) (i : ℕ)
    (hleft : i + left = text.length) (hstart : scan.start ≤ i)
    (hcomma : comma ∉ (text.drop scan.start).take (i - scan.start)) :
    ((List.range' i (left + 1)).foldlM (vec3Step strtof text) scan).map
        (fun scan ↦ (scan.vals, scan.index)) =
      scanFields strtof (fields (text.drop scan.start)) scan.vals scan.index := by
  induction left generalizing scan i with
  | zero =>
    have htake : (text.drop scan.start).take (i - scan.start) = text.drop scan.start := by
      refine List.take_of_length_le ?_
      rw [List.length_drop]
      omega
    rw [htake] at hcomma
    rw [fields_of_not_mem hcomma, scanFields, List.range'_one, List.foldlM_cons,
      vec3Step_end strtof (.inl (by omega)), htake]
    split_ifs
    · rfl
    · cases strtof.numeral? (text.drop scan.start) <;> rfl
  | succ left ih =>
    have hlt : i < text.length := by omega
    obtain ⟨byte, hbyte⟩ : ∃ byte, byte = text[i] := ⟨_, rfl⟩
    have hsplit : text.drop scan.start =
        (text.drop scan.start).take (i - scan.start) ++ byte :: text.drop (i + 1) := by
      have hdrop : (text.drop scan.start).drop (i - scan.start) = text.drop i := by
        rw [List.drop_drop, Nat.add_sub_cancel' hstart]
      rw [hbyte, List.getElem_cons_drop, ← hdrop, List.take_append_drop]
    rw [List.range'_succ, List.foldlM_cons]
    by_cases hend : byte = comma
    · rw [vec3Step_end strtof (.inr (by rw [List.getElem?_eq_getElem hlt, ← hbyte, hend]))]
      rw [hend] at hsplit
      rw [hsplit, fields_comma hcomma, ← hsplit, scanFields]
      split_ifs with hindex
      · rfl
      · cases strtof.numeral? ((text.drop scan.start).take (i - scan.start)) with
        | none => rfl
        | some value =>
          exact ih ⟨Function.update scan.vals scan.index value, scan.index + 1, i + 1⟩ (i + 1)
            (by omega) le_rfl (by simp)
    · have hskip : vec3Step strtof text scan i = some scan := by
        rw [vec3Step, if_neg]
        rw [List.getElem?_eq_getElem hlt, ← hbyte]
        simp only [Option.some.injEq, hend, or_false]
        omega
      rw [hskip]
      refine ih scan (i + 1) (by omega) (by omega) ?_
      have htake : (text.drop scan.start).take (i + 1 - scan.start) =
          (text.drop scan.start).take (i - scan.start) ++ [byte] := by
        rw [show i + 1 - scan.start = i - scan.start + 1 by omega, List.take_add_one,
          List.getElem?_drop, Nat.add_sub_cancel' hstart, List.getElem?_eq_getElem hlt, hbyte]
        rfl
      rw [htake, List.mem_append, not_or]
      exact ⟨hcomma, by simpa using Ne.symm hend⟩

/-- `parse_vec3` in terms of the fields. -/
theorem parseVec3_scanFields (text : Text) (out : Vec3f F) :
    parseVec3 strtof text out =
      match scanFields strtof (fields text) (fun _ ↦ strtof.zero) 0 with
      | none => (out, false)
      | some (vals, index) =>
        if index ≠ 3 then (out, false) else (⟨vals 0, vals 1, vals 2⟩, true) := by
  have hloop := foldlM_vec3Step strtof text text.length ⟨fun _ ↦ strtof.zero, 0, 0⟩ 0
    (Nat.zero_add _) le_rfl (by simp)
  rw [List.drop_zero] at hloop
  rw [parseVec3, List.range_eq_range', ← hloop]
  generalize (List.range' 0 (text.length + 1)).foldlM (vec3Step strtof text) _ = result
  cases result <;> rfl

/-- The value of a text with three fields that are read. -/
def vec3? (text : Text) : Option (Vec3f F) :=
  match fields text with
  | [first, second, third] =>
    (strtof.numeral? first).bind fun x ↦ (strtof.numeral? second).bind fun y ↦
      (strtof.numeral? third).map fun z ↦ ⟨x, y, z⟩
  | _ => none

/-- What `parse_vec3` does with any text. -/
theorem parseVec3_eq (text : Text) (out : Vec3f F) :
    parseVec3 strtof text out = ((vec3? strtof text).getD out, (vec3? strtof text).isSome) := by
  rw [parseVec3_scanFields, vec3?]
  match fields text with
  | [] => rfl
  | [first] =>
    cases hfirst : strtof.numeral? first <;> simp [scanFields, hfirst]
  | [first, second] =>
    cases hfirst : strtof.numeral? first <;> cases hsecond : strtof.numeral? second <;>
      simp [scanFields, hfirst, hsecond]
  | [first, second, third] =>
    cases hfirst : strtof.numeral? first <;> cases hsecond : strtof.numeral? second <;>
      cases hthird : strtof.numeral? third <;> simp [scanFields, hfirst, hsecond, hthird]
  | first :: second :: third :: fourth :: others =>
    cases hfirst : strtof.numeral? first <;> cases hsecond : strtof.numeral? second <;>
      cases hthird : strtof.numeral? third <;> simp [scanFields, hfirst, hsecond, hthird]

end Vec3

end GameEngine.Core
