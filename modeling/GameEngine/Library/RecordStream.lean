import Mathlib.Data.List.Basic
import Mathlib.Algebra.Order.Ring.Nat

/-!
# Streams of length-prefixed records

A record is laid out as a header of fixed length followed by a body whose length the header tells.
A stream is the concatenation of complete records and, behind them, at most the header of one more
record whose body is still missing.

`Framing.exists_cons_of_le` is the fact a reader of such a stream relies on: when the stream is as
long as its first header says, its first record is complete and the header is that record's.
`ofBytes_toBytes` is the round trip of the little-endian integers that headers are made of.
`take_flatMap_of_length` is about a stream of records that all have one size: cut between two
records, it is the stream of the records in front.
-/

set_option autoImplicit false
set_option relaxedAutoImplicit false

namespace GameEngine.Library.RecordStream

/-! ### Little-endian integers -/

/-- The lowest `count` bytes of a number, lowest first. -/
def toBytes : ℕ → ℕ → List UInt8
  | 0, _ => []
  | count + 1, value => UInt8.ofNat value :: toBytes count (value / 256)

/-- The number with the given bytes, lowest first. -/
def ofBytes : List UInt8 → ℕ
  | [] => 0
  | byte :: rest => byte.toNat + 256 * ofBytes rest

@[simp] theorem length_toBytes (count value : ℕ) : (toBytes count value).length = count := by
  induction count generalizing value with
  | zero => rfl
  | succ count ih => rw [toBytes, List.length_cons, ih]

theorem ofBytes_lt (bytes : List UInt8) : ofBytes bytes < 256 ^ bytes.length := by
  induction bytes with
  | nil => exact Nat.one_pos
  | cons byte rest ih =>
    have hbyte : byte.toNat < 256 := byte.toNat_lt
    rw [ofBytes, List.length_cons, Nat.pow_succ]
    omega

/-- Reading back the lowest bytes of a number gives its remainder. -/
theorem ofBytes_toBytes (count value : ℕ) :
    ofBytes (toBytes count value) = value % 256 ^ count := by
  induction count generalizing value with
  | zero => rw [toBytes, ofBytes, Nat.pow_zero, Nat.mod_one]
  | succ count ih =>
    have hbyte : (UInt8.ofNat value).toNat = value % 256 := UInt8.toNat_ofNat'
    rw [toBytes, ofBytes, ih, hbyte, Nat.pow_succ, Nat.mul_comm (256 ^ count), Nat.mod_mul]

/-! ### Records of one size -/

/-- The length of a stream of records that all have one size. -/
theorem length_flatMap_of_length {ρ β : Type*} {encode : ρ → List β} {size : ℕ}
    (hsize : ∀ record, (encode record).length = size) (records : List ρ) :
    (records.flatMap encode).length = records.length * size := by
  induction records with
  | nil => simp
  | cons record rest ih =>
    rw [List.flatMap_cons, List.length_append, ih, hsize, List.length_cons, Nat.succ_mul,
      Nat.add_comm]

/-- The front of a stream of records that all have one size. -/
theorem take_flatMap_of_length {ρ β : Type*} {encode : ρ → List β} {size : ℕ}
    (hsize : ∀ record, (encode record).length = size) (records : List ρ) (count : ℕ) :
    (records.flatMap encode).take (count * size) = (records.take count).flatMap encode := by
  induction records generalizing count with
  | nil => simp
  | cons record rest ih =>
    cases count with
    | zero => simp
    | succ count =>
      rw [List.flatMap_cons, List.take_succ_cons, List.flatMap_cons, ← ih, Nat.succ_mul,
        Nat.add_comm, ← hsize record, List.take_length_add_append]

/-- A record of a stream of records that all have one size. -/
theorem take_drop_flatMap_of_length {ρ β : Type*} {encode : ρ → List β} {size : ℕ}
    (hsize : ∀ record, (encode record).length = size) {records : List ρ} {k : ℕ}
    (hk : k < records.length) :
    ((records.flatMap encode).drop (k * size)).take size = encode records[k] := by
  induction records generalizing k with
  | nil => exact absurd hk (Nat.not_lt_zero k)
  | cons record rest ih =>
    cases k with
    | zero =>
      rw [Nat.zero_mul, List.drop_zero, List.flatMap_cons, List.take_left' (hsize record)]
      rfl
    | succ k =>
      rw [Nat.succ_mul, Nat.add_comm, ← List.drop_drop, List.flatMap_cons,
        List.drop_left' (hsize record), ih (Nat.lt_of_succ_lt_succ hk)]
      rfl

/-! ### Framed records -/

/-- A layout of records: a header of fixed length, then a body whose length a reader computes from
the header. -/
structure Framing (ρ β : Type*) where
  header : ρ → List β
  body : ρ → List β
  headerLength : ℕ
  bodyLength : List β → ℕ
  length_header : ∀ record, (header record).length = headerLength
  headerLength_pos : 0 < headerLength

namespace Framing

variable {ρ β : Type*} (framing : Framing ρ β)

/-- The bytes of a record. -/
def encode (record : ρ) : List β := framing.header record ++ framing.body record

/-- A record whose header tells the length of its body, which is not empty. -/
structure Fits (record : ρ) : Prop where
  nonempty : framing.body record ≠ []
  bodyLength_eq : framing.bodyLength (framing.header record) = (framing.body record).length

/-- What may stand behind the complete records of a stream: nothing, or the header of a record. -/
def IsPartial (rest : List β) : Prop :=
  rest = [] ∨ ∃ record, framing.Fits record ∧ rest = framing.header record

variable {framing}

theorem encode_ne_nil (record : ρ) : framing.encode record ≠ [] := by
  intro hnil
  have hlength := congrArg List.length hnil
  rw [encode, List.length_append, framing.length_header] at hlength
  have hpos := framing.headerLength_pos
  simp only [List.length_nil] at hlength
  omega

/-- The first bytes of a stream that starts with a complete record are its header. -/
theorem take_encode_append (record : ρ) (rest : List β) :
    (framing.encode record ++ rest).take framing.headerLength = framing.header record := by
  rw [encode, List.append_assoc, List.take_left' (framing.length_header record)]

/-- What follows the first header of a stream that starts with a complete record is its body. -/
theorem drop_encode_append (record : ρ) (rest : List β) :
    (framing.encode record ++ rest).drop framing.headerLength = framing.body record ++ rest := by
  rw [encode, List.append_assoc, List.drop_left' (framing.length_header record)]

/-- A stream that is as long as its first header says starts with a complete record. -/
theorem exists_cons_of_le {complete : List ρ} {rest stream : List β}
    (hrest : framing.IsPartial rest)
    (hstream : stream = complete.flatMap framing.encode ++ rest)
    (hlength : framing.headerLength + framing.bodyLength (stream.take framing.headerLength) ≤
      stream.length) :
    ∃ first others, complete = first :: others := by
  cases complete with
  | cons first others => exact ⟨first, others, rfl⟩
  | nil =>
    have hpos := framing.headerLength_pos
    rw [List.flatMap_nil, List.nil_append] at hstream
    subst hstream
    rcases hrest with rfl | ⟨record, hfits, rfl⟩
    · rw [List.length_nil] at hlength
      omega
    · have hbody := List.length_pos_iff.mpr hfits.nonempty
      rw [List.take_of_length_le (Nat.le_of_eq (framing.length_header record)), hfits.bodyLength_eq,
        framing.length_header] at hlength
      omega

end Framing

end GameEngine.Library.RecordStream
