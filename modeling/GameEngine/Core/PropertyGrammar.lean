import GameEngine.Core.PropertyRegistry

/-!
# What the texts of numbers may be

A text is a number if `strtof` or `strtod` reads all of it (`Numerals.Whole`), and a vector if it
has three fields between its commas that are numbers (`Vec3Whole`). A text that contains a zero byte
is neither, as no C function can read beyond that byte. `parse_float` and the others take it for a
number nevertheless if the bytes before the zero byte are one.

`number_grammar_iff` says that this is the only text for which they do not follow the grammar.
`cut_number_accepted` is the text `1` with a zero byte and an `x` behind it.
-/

set_option autoImplicit false
set_option relaxedAutoImplicit false

namespace GameEngine.Core

open GameEngine.Library

variable {F D : Type}

/-! ### The grammar -/

/-- All of a text is read as a number. -/
def Numerals.Whole (numerals : Numerals F) (text : Text) (value : F) : Prop :=
  text ≠ [] ∧ 0 ∉ text ∧ numerals.strto text = (text.length, value)

/-- A text has three fields, and all of each is read as a number. -/
def Vec3Whole (strtof : Numerals F) (text : Text) (value : Vec3f F) : Prop :=
  ∃ first second third, fields text = [first, second, third] ∧ strtof.Whole first value.x ∧
    strtof.Whole second value.y ∧ strtof.Whole third value.z

/-- A function that reads a text, whatever its output parameter holds, succeeds with the values that
the grammar gives to the text, and leaves the parameter as it is if it fails. -/
structure FollowsGrammar {α : Type} (parse : α → α × Bool) (grammar : α → Prop) : Prop where
  succeeds_iff : ∀ out value, parse out = (value, true) ↔ grammar value
  failed_eq : ∀ out, (parse out).2 = false → (parse out).1 = out

/-- The bytes before a zero byte are a number. -/
def CutNumber (numerals : Numerals F) (text : Text) : Prop :=
  0 ∈ text ∧ ∃ value, numerals.Whole (cString text) value

/-- There is a zero byte, and three fields each of which is a number up to its first zero byte, or
as a whole. -/
def CutVec3 (strtof : Numerals F) (text : Text) : Prop :=
  0 ∈ text ∧ ∃ first second third, fields text = [first, second, third] ∧
    ∀ field ∈ [first, second, third], ∃ value, strtof.Whole (cString field) value

/-! ### Zero bytes -/

theorem not_mem_cString (text : Text) : 0 ∉ cString text := by
  intro hmem
  simpa using List.mem_takeWhile_imp hmem

/-- What the functions read is a number, up to the first zero byte. -/
theorem numeral?_eq_some {numerals : Numerals F} {text : Text} {value : F} :
    numerals.numeral? text = some value ↔ numerals.Whole (cString text) value := by
  unfold Numerals.numeral? Numerals.Whole
  constructor
  · intro hvalue
    split_ifs at hvalue with hwhole
    exact ⟨hwhole.1, not_mem_cString text, Prod.ext hwhole.2 (Option.some.inj hvalue)⟩
  · rintro ⟨hne, -, hvalue⟩
    rw [hvalue, if_pos ⟨hne, rfl⟩]

/-- The bytes of a text are those of its fields, and commas. -/
theorem mem_fields_iff {text : Text} {byte : UInt8} (hbyte : byte ≠ comma) :
    byte ∈ text ↔ ∃ field ∈ fields text, byte ∈ field := by
  induction text with
  | nil => simp [fields]
  | cons first rest ih =>
    obtain ⟨field, others, hfields⟩ := List.exists_cons_of_ne_nil (fields_ne_nil rest)
    rw [hfields] at ih
    rw [List.mem_cons, ih, fields, hfields]
    split_ifs with hcomma
    · subst hcomma
      simp [hbyte]
    · simp [or_assoc]

/-- A vector contains no zero byte, as its fields contain none. -/
theorem Vec3Whole.not_mem {strtof : Numerals F} {text : Text} {value : Vec3f F}
    (hwhole : Vec3Whole strtof text value) : 0 ∉ text := by
  obtain ⟨first, second, third, hfields, hx, hy, hz⟩ := hwhole
  rw [mem_fields_iff (by decide), hfields]
  simp [hx.2.1, hy.2.1, hz.2.1]

/-! ### The functions -/

theorem parseNumber_follows_iff (numerals : Numerals F) (text : Text) :
    FollowsGrammar (parseNumber numerals text) (numerals.Whole text) ↔
      ¬ CutNumber numerals text := by
  have hsome : ∀ out value, parseNumber numerals text out = (value, true) ↔
      numerals.Whole (cString text) value := by
    intro out value
    rw [parseNumber_eq, ← numeral?_eq_some]
    cases numerals.numeral? text <;> simp
  constructor
  · rintro hfollows ⟨hzero, value, hvalue⟩
    have hwhole := (hfollows.succeeds_iff value value).mp ((hsome value value).mpr hvalue)
    exact hwhole.2.1 hzero
  · intro hcut
    refine ⟨fun out value ↦ (hsome out value).trans ?_, fun out hfailed ↦ ?_⟩
    · by_cases hzero : 0 ∈ text
      · exact iff_of_false (fun hvalue ↦ hcut ⟨hzero, value, hvalue⟩) fun hwhole ↦ hwhole.2.1 hzero
      · rw [cString_eq hzero]
    · rw [parseNumber_eq] at hfailed ⊢
      cases hvalue : numerals.numeral? text with
      | none => rfl
      | some value => simp [hvalue] at hfailed

theorem vec3?_eq_some {strtof : Numerals F} {text : Text} {value : Vec3f F} :
    vec3? strtof text = some value ↔ ∃ first second third, fields text = [first, second, third] ∧
      strtof.Whole (cString first) value.x ∧ strtof.Whole (cString second) value.y ∧
      strtof.Whole (cString third) value.z := by
  simp only [← numeral?_eq_some]
  unfold vec3?
  split
  · rename_i first second third hfields
    simp only [Option.bind_eq_some_iff, Option.map_eq_some_iff]
    constructor
    · rintro ⟨x, hx, y, hy, z, hz, rfl⟩
      exact ⟨first, second, third, hfields, hx, hy, hz⟩
    · rintro ⟨first', second', third', heq, hx, hy, hz⟩
      obtain ⟨rfl, rfl, rfl⟩ : first = first' ∧ second = second' ∧ third = third' := by
        simpa using hfields.symm.trans heq
      exact ⟨value.x, hx, value.y, hy, value.z, hz, rfl⟩
  · rename_i hnot
    refine iff_of_false (by simp) ?_
    rintro ⟨first, second, third, hfields, -⟩
    exact hnot first second third hfields

theorem parseVec3_follows_iff (strtof : Numerals F) (text : Text) :
    FollowsGrammar (parseVec3 strtof text) (Vec3Whole strtof text) ↔ ¬ CutVec3 strtof text := by
  have hsome : ∀ out value, parseVec3 strtof text out = (value, true) ↔
      vec3? strtof text = some value := by
    intro out value
    rw [parseVec3_eq]
    cases vec3? strtof text <;> simp
  constructor
  · rintro hfollows ⟨hzero, first, second, third, hfields, hvalues⟩
    obtain ⟨x, hx⟩ := hvalues first (by simp)
    obtain ⟨y, hy⟩ := hvalues second (by simp)
    obtain ⟨z, hz⟩ := hvalues third (by simp)
    have hread : vec3? strtof text = some ⟨x, y, z⟩ :=
      vec3?_eq_some.mpr ⟨first, second, third, hfields, hx, hy, hz⟩
    exact ((hfollows.succeeds_iff ⟨x, y, z⟩ ⟨x, y, z⟩).mp ((hsome _ _).mpr hread)).not_mem hzero
  · intro hcut
    refine ⟨fun out value ↦ (hsome out value).trans ?_, fun out hfailed ↦ ?_⟩
    · rw [vec3?_eq_some]
      by_cases hzero : 0 ∈ text
      · refine iff_of_false ?_ fun hwhole ↦ hwhole.not_mem hzero
        rintro ⟨first, second, third, hfields, hx, hy, hz⟩
        refine hcut ⟨hzero, first, second, third, hfields, ?_⟩
        simp only [List.mem_cons, List.not_mem_nil, or_false, forall_eq_or_imp, forall_eq]
        exact ⟨⟨_, hx⟩, ⟨_, hy⟩, ⟨_, hz⟩⟩
      · have hstring : ∀ field ∈ fields text, cString field = field := fun field hfield ↦
          cString_eq fun hmem ↦ hzero ((mem_fields_iff (by decide)).mpr ⟨field, hfield, hmem⟩)
        refine exists_congr fun first ↦ exists_congr fun second ↦ exists_congr fun third ↦
          and_congr_right fun hfields ↦ ?_
        rw [hfields] at hstring
        rw [hstring first (by simp), hstring second (by simp), hstring third (by simp)]
    · rw [parseVec3_eq] at hfailed ⊢
      cases hvalue : vec3? strtof text with
      | none => rfl
      | some value => simp [hvalue] at hfailed

/-- For every `strtof` and `strtod` and every text: `parse_float` and `parse_double` read exactly
the texts that are numbers, with their values, and leave the output as it is otherwise, if and only
if the text is not one with a zero byte behind a number; `parse_vec3` does so for vectors if and
only if the text does not contain a zero byte and consist of three fields that are numbers up to
their zero bytes. A call of `set_from_string` that fails leaves all properties as they are. -/
theorem number_grammar_iff (platform : Platform F D) :
    (∀ text, FollowsGrammar (parseFloat platform.strtof text) (platform.strtof.Whole text) ↔
      ¬ CutNumber platform.strtof text) ∧
    (∀ text, FollowsGrammar (parseDouble platform.strtod text) (platform.strtod.Whole text) ↔
      ¬ CutNumber platform.strtod text) ∧
    (∀ text, FollowsGrammar (parseVec3 platform.strtof text) (Vec3Whole platform.strtof text) ↔
      ¬ CutVec3 platform.strtof text) ∧
    ∀ (registry : PropertyRegistry) memory name value,
      (registry.setFromString platform memory name value).2 = false →
        (registry.setFromString platform memory name value).1 = memory :=
  ⟨parseNumber_follows_iff platform.strtof, parseNumber_follows_iff platform.strtod,
    parseVec3_follows_iff platform.strtof,
    fun _ _ _ _ hfailed ↦ PropertyRegistry.setFromString_of_failed platform hfailed⟩

/-- A `strtof` that reads decimal digits. -/
def digitNumerals : Numerals ℕ where
  zero := 0
  strto text := ((text.takeWhile isDigit).length, numberOf (text.takeWhile isDigit))
  consumed_le _ := (List.takeWhile_sublist _).length_le

/-- A one with a zero byte and an `x` behind it is read as a one, and is not a number. -/
theorem cut_number_accepted :
    parseFloat digitNumerals [49, 0, 120] 7 = (1, true) ∧
      ¬ digitNumerals.Whole [49, 0, 120] 1 ∧
      parseVec3 digitNumerals [49, 0, 120, 44, 50, 44, 51] ⟨7, 7, 7⟩ = (⟨1, 2, 3⟩, true) ∧
      ¬ Vec3Whole digitNumerals [49, 0, 120, 44, 50, 44, 51] ⟨1, 2, 3⟩ := by
  exact ⟨by decide, fun hwhole ↦ absurd hwhole.2.1 (by decide), by decide,
    fun hwhole ↦ absurd hwhole.not_mem (by decide)⟩

end GameEngine.Core
