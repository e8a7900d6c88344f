import GameEngine.Core.PropertyParsing

/-!
# The registry of properties

`PropertyRegistry` of `core/module_interface` binds names to objects, each with its type, so that an
editor can read and write the objects as texts. `Memory` gives the value of the object at an
address. The functions that print and read floating-point numbers are a parameter, `Platform`.

`setFromString_eq` says what a call of `set_from_string` does, for any registry: it writes the value
that the text is read as to the object that the name is bound to, or it fails and writes nothing.
-/

set_option autoImplicit false
set_option relaxedAutoImplicit false

namespace GameEngine.Core

open GameEngine.Library

/-- `PropertyType`. -/
inductive PropertyType
  | bool
  | int32
  | int64
  | float
  | double
  | string
  | vec3
  | raw
deriving DecidableEq

/-- `PropertyDesc`. The address is null, or that of an object. -/
structure PropertyDesc where
  name : Text
  type : PropertyType
  address : Option ℕ
  editable : Bool
deriving DecidableEq

/-- `PropertyRegistry`. -/
structure PropertyRegistry where
  bindings : List PropertyDesc

/-- The value of an object. -/
inductive PropertyValue (F D : Type)
  | bool (value : Bool)
  | int32 (value : Int32)
  | int64 (value : Int64)
  | float (value : F)
  | double (value : D)
  | string (value : Text)
  | vec3 (value : Vec3f F)
  | raw
deriving DecidableEq

/-- The functions of the C and C++ libraries for floating-point numbers. -/
structure Platform (F D : Type) where
  strtof : Numerals F
  strtod : Numerals D
  printFloat : F → Text
  printDouble : D → Text

/-- The value of the object at each address. -/
abbrev Memory (F D : Type) := ℕ → PropertyValue F D

/-- The type of a value. -/
def PropertyValue.type {F D : Type} : PropertyValue F D → PropertyType
  | .bool _ => .bool
  | .int32 _ => .int32
  | .int64 _ => .int64
  | .float _ => .float
  | .double _ => .double
  | .string _ => .string
  | .vec3 _ => .vec3
  | .raw => .raw

namespace PropertyRegistry

variable {F D : Type}

/-- A new registry. -/
def new : PropertyRegistry := ⟨[]⟩

/-- `find`. -/
def find (registry : PropertyRegistry) (name : Text) : Option PropertyDesc :=
  registry.bindings.find? fun desc ↦ desc.name == name

/-- `add_desc`. -/
def addDesc (registry : PropertyRegistry) (desc : PropertyDesc) : PropertyRegistry × Bool :=
  if desc.name = [] ∨ desc.address = none then (registry, false)
  else if (registry.find desc.name).isSome then (registry, false)
  else (⟨registry.bindings ++ [desc]⟩, true)

/-- `bind`, to the object of a type at an address. A name that is a null pointer is an empty one. -/
def bind (registry : PropertyRegistry) (name : Option Text) (type : PropertyType) (address : ℕ)
    (editable : Bool) : PropertyRegistry × Bool :=
  registry.addDesc ⟨name.getD [], type, some address, editable⟩

/-- `bind_raw`. -/
def bindRaw (registry : PropertyRegistry) (name : Option Text) (address : Option ℕ)
    (editable : Bool) : PropertyRegistry × Bool :=
  registry.addDesc ⟨name.getD [], .raw, address, editable⟩

/-- Writes what has been read from a text to an object, or fails. -/
def assign {α : Type} (memory : Memory F D) (address : ℕ) (make : α → PropertyValue F D)
    (parsed : α × Bool) : Memory F D × Bool :=
  if parsed.2 then (Function.update memory address (make parsed.1), true) else (memory, false)

/-- `set_from_string`. -/
def setFromString (platform : Platform F D) (registry : PropertyRegistry) (memory : Memory F D)
    (name value : Text) : Memory F D × Bool :=
  match registry.find name with
  | none => (memory, false)
  | some desc =>
    match desc.address with
    | none => (memory, false)
    | some address =>
      if desc.editable = false then (memory, false)
      else
        match desc.type with
        | .bool => assign memory address .bool (parseBool value false)
        | .int32 =>
          assign memory address .int32 (parseInt (-2 ^ 31) (2 ^ 31 - 1) Int32.ofInt value 0)
        | .int64 =>
          assign memory address .int64 (parseInt (-2 ^ 63) (2 ^ 63 - 1) Int64.ofInt value 0)
        | .float =>
          assign memory address .float (parseFloat platform.strtof value platform.strtof.zero)
        | .double =>
          assign memory address .double (parseDouble platform.strtod value platform.strtod.zero)
        | .string => (Function.update memory address (.string value), true)
        | .vec3 =>
          assign memory address .vec3 (parseVec3 platform.strtof value
            ⟨platform.strtof.zero, platform.strtof.zero, platform.strtof.zero⟩)
        | .raw => (memory, false)

/-- `get_as_string`. Returns what its output parameter then holds, and whether it has succeeded. The
object at the address is of the type that it was bound with. -/
def getAsString (platform : Platform F D) (registry : PropertyRegistry) (memory : Memory F D)
    (name out : Text) : Text × Bool :=
  match registry.find name with
  | none => (out, false)
  | some desc =>
    match desc.address with
    | none => (out, false)
    | some address =>
      match desc.type, memory address with
      | .bool, .bool value =>
        (bytesOf (if value then ['t', 'r', 'u', 'e'] else ['f', 'a', 'l', 's', 'e']), true)
      | .int32, .int32 value => (intText value.toInt, true)
      | .int64, .int64 value => (intText value.toInt, true)
      | .float, .float value => (platform.printFloat value, true)
      | .double, .double value => (platform.printDouble value, true)
      | .string, .string value => (value, true)
      | .vec3, .vec3 value =>
        (platform.printFloat value.x ++ comma :: (platform.printFloat value.y ++
          comma :: platform.printFloat value.z), true)
      | _, _ => (out, false)

/-- `clear`. -/
def clear (_ : PropertyRegistry) : PropertyRegistry := new

/-! ### What a text is read as -/

/-- The value of a type that a text is read as. -/
def read? (platform : Platform F D) (type : PropertyType) (value : Text) :
    Option (PropertyValue F D) :=
  match type with
  | .bool => if (parseBool value false).2 then some (.bool (parseBool value false).1) else none
  | .int32 =>
    let parsed := parseInt (-2 ^ 31) (2 ^ 31 - 1) Int32.ofInt value 0
    if parsed.2 then some (.int32 parsed.1) else none
  | .int64 =>
    let parsed := parseInt (-2 ^ 63) (2 ^ 63 - 1) Int64.ofInt value 0
    if parsed.2 then some (.int64 parsed.1) else none
  | .float => (platform.strtof.numeral? value).map .float
  | .double => (platform.strtod.numeral? value).map .double
  | .string => some (.string value)
  | .vec3 => (vec3? platform.strtof value).map .vec3
  | .raw => none

theorem assign_eq {α : Type} (memory : Memory F D) (address : ℕ) (make : α → PropertyValue F D)
    (parsed : Option α) (default : α) :
    assign memory address make (parsed.getD default, parsed.isSome) =
      match parsed.map make with
      | none => (memory, false)
      | some value => (Function.update memory address value, true) := by
  cases parsed <;> rfl

/-- A call of `set_from_string` for a name that is bound to an object that may be edited. -/
theorem setFromString_eq (platform : Platform F D) {registry : PropertyRegistry}
    (memory : Memory F D) {name : Text} (value : Text) {desc : PropertyDesc} {address : ℕ}
    (hfind : registry.find name = some desc) (haddress : desc.address = some address)
    (heditable : desc.editable = true) :
    registry.setFromString platform memory name value =
      match read? platform desc.type value with
      | none => (memory, false)
      | some read => (Function.update memory address read, true) := by
  have hassign : ∀ {α : Type} (make : α → PropertyValue F D) (parsed : α × Bool),
      assign memory address make parsed =
        match (if parsed.2 then some (make parsed.1) else none) with
        | none => (memory, false)
        | some read => (Function.update memory address read, true) := by
    intro α make parsed
    unfold assign
    split_ifs <;> rfl
  simp only [setFromString, hfind, haddress, heditable, Bool.true_eq_false, if_false]
  cases desc.type with
  | bool => exact hassign ..
  | int32 => exact hassign ..
  | int64 => exact hassign ..
  | float =>
    simp only [parseFloat, parseNumber_eq, assign_eq]
    rfl
  | double =>
    simp only [parseDouble, parseNumber_eq, assign_eq]
    rfl
  | string => rfl
  | vec3 =>
    simp only [parseVec3_eq, assign_eq]
    rfl
  | raw => rfl

/-- A call of `set_from_string` that fails writes nothing. -/
theorem setFromString_of_failed (platform : Platform F D) {registry : PropertyRegistry}
    {memory : Memory F D} {name value : Text}
    (hfailed : (registry.setFromString platform memory name value).2 = false) :
    (registry.setFromString platform memory name value).1 = memory := by
  cases hfind : registry.find name with
  | none => simp only [setFromString, hfind]
  | some desc =>
    cases haddress : desc.address with
    | none => simp only [setFromString, hfind, haddress]
    | some address =>
      cases heditable : desc.editable with
      | false => simp only [setFromString, hfind, haddress, heditable, if_true]
      | true =>
        rw [setFromString_eq platform memory value hfind haddress heditable] at hfailed ⊢
        split at hfailed
        · rfl
        · exact absurd hfailed (by simp)

/-! ### Types -/

/-- The object that a name is bound to is of the type that it was bound with. -/
def WellTyped (registry : PropertyRegistry) (memory : Memory F D) : Prop :=
  ∀ desc ∈ registry.bindings, desc.type ≠ .raw → ∀ address ∈ desc.address,
    (memory address).type = desc.type

theorem type_of_read? {platform : Platform F D} {type : PropertyType} {value : Text}
    {read : PropertyValue F D} (hread : read? platform type value = some read) :
    read.type = type := by
  cases type with
  | bool | int32 | int64 =>
    simp only [read?] at hread
    split_ifs at hread
    rw [← Option.some.inj hread]
    rfl
  | float | double | vec3 =>
    obtain ⟨parsed, -, rfl⟩ := Option.map_eq_some_iff.mp hread
    rfl
  | string =>
    rw [← Option.some.inj hread]
    rfl
  | raw => simp [read?] at hread

/-- `set_from_string` keeps the types of the objects. -/
theorem WellTyped.setFromString {registry : PropertyRegistry} {memory : Memory F D}
    (htyped : registry.WellTyped memory) (platform : Platform F D) (name value : Text) :
    registry.WellTyped (registry.setFromString platform memory name value).1 := by
  cases hset : (registry.setFromString platform memory name value).2 with
  | false => rwa [setFromString_of_failed platform hset]
  | true =>
    cases hfind : registry.find name with
    | none => simp [PropertyRegistry.setFromString, hfind] at hset
    | some desc =>
      cases haddress : desc.address with
      | none => simp [PropertyRegistry.setFromString, hfind, haddress] at hset
      | some address =>
        cases heditable : desc.editable with
        | false => simp [PropertyRegistry.setFromString, hfind, haddress, heditable] at hset
        | true =>
          rw [setFromString_eq platform memory value hfind haddress heditable] at hset ⊢
          cases hread : read? platform desc.type value with
          | none => simp [hread] at hset
          | some read =>
            intro other hother hraw place hplace
            by_cases heq : place = address
            · subst heq
              have hmem : desc ∈ registry.bindings := List.mem_of_find?_eq_some hfind
              have htype : desc.type ≠ .raw := by
                intro hraw
                simp [read?, hraw] at hread
              -- Both names are bound to the object, so that they have the type of the object.
              have hsame := (htyped desc hmem htype place haddress).symm.trans
                (htyped other hother hraw place hplace)
              simp only [Function.update_self]
              exact (type_of_read? hread).trans hsame
            · simp only [Function.update_of_ne heq]
              exact htyped other hother hraw place hplace

end PropertyRegistry

end GameEngine.Core
