import Mathlib.Data.List.Basic
import Join.Library.ByteOrder

/-!
# Records at aligned places

A record begins with a header of a fixed size, whose first bytes give the size of the whole
record, the least significant first. Records stand one behind the other, each filled up to a
multiple of four bytes. Whoever reads them takes records from the front as long as what is left
holds one: so a sequence of records is cut into what it was put together from.

An attribute is a record whose header has two bytes for the size and two for the type.
-/

set_option autoImplicit false

namespace Join.Library

/-- A size, rounded up to a multiple of four. -/
def aligned (size : ℕ) : ℕ := (size + 3) / 4 * 4

theorem le_aligned (size : ℕ) : size ≤ aligned size := by
  rw [aligned]
  omega

/-- A record, filled up. -/
def padded (record : List UInt8) : List UInt8 :=
  record ++ List.replicate (aligned record.length - record.length) 0

@[simp]
theorem length_padded (record : List UInt8) : (padded record).length = aligned record.length := by
  rw [padded, List.length_append, List.length_replicate]
  exact Nat.add_sub_of_le (le_aligned _)

/-- The size that the first bytes give. -/
def statedSize (width : ℕ) (bytes : List UInt8) : ℕ := leValue (bytes.take width)

/-- What is in front is a whole record. -/
def RecordInFront (header width : ℕ) (bytes : List UInt8) : Prop :=
  header ≤ bytes.length ∧ header ≤ statedSize width bytes ∧ statedSize width bytes ≤ bytes.length

instance (header width : ℕ) (bytes : List UInt8) : Decidable (RecordInFront header width bytes) :=
  inferInstanceAs (Decidable (_ ∧ _ ∧ _))

/-- At most so many records from the front. -/
def cutRecords (header width : ℕ) : ℕ → List UInt8 → List (List UInt8)
  | 0, _ => []
  | fuel + 1, bytes =>
      if RecordInFront header width bytes then
        bytes.take (statedSize width bytes) ::
          cutRecords header width fuel (bytes.drop (aligned (statedSize width bytes)))
      else []

/-- The records in a sequence of bytes, which are not more than the bytes. -/
def records (header width : ℕ) (bytes : List UInt8) : List (List UInt8) :=
  cutRecords header width bytes.length bytes

/-- A record that gives its own size. -/
structure WellSized (header width : ℕ) (record : List UInt8) : Prop where
  width_le : width ≤ header
  header_le : header ≤ record.length
  stated : statedSize width record = record.length

variable {header width : ℕ} {record : List UInt8}

/-- What stands behind a record does not change the size that it gives. -/
theorem WellSized.statedSize_append (sized : WellSized header width record)
    (rest : List UInt8) : statedSize width (padded record ++ rest) = record.length := by
  have inside : width ≤ record.length := sized.width_le.trans sized.header_le
  rw [statedSize, padded, List.append_assoc, List.take_append_of_le_length inside]
  exact sized.stated

/-- A record in front is cut off. -/
theorem WellSized.cut (sized : WellSized header width record) (fuel : ℕ) (rest : List UInt8) :
    cutRecords header width (fuel + 1) (padded record ++ rest) =
      record :: cutRecords header width fuel rest := by
  have stated := sized.statedSize_append rest
  have long : record.length ≤ (padded record ++ rest).length := by
    rw [List.length_append, length_padded]
    exact (le_aligned _).trans (Nat.le_add_right _ _)
  have front : RecordInFront header width (padded record ++ rest) := by
    refine ⟨sized.header_le.trans long, ?_, ?_⟩
    · rw [stated]
      exact sized.header_le
    · rw [stated]
      exact long
  have taken : (padded record ++ rest).take record.length = record := by
    rw [padded, List.append_assoc, List.take_left']
    rfl
  have dropped : (padded record ++ rest).drop (aligned record.length) = rest := by
    rw [List.drop_left']
    exact length_padded record
  rw [cutRecords, if_pos front, stated, taken, dropped]

/-- A sequence of records is cut into them. -/
theorem cutRecords_flatMap {items : List (List UInt8)}
    (sized : ∀ record ∈ items, WellSized header width record) {fuel : ℕ}
    (enough : items.length ≤ fuel) (positive : 0 < header) :
    cutRecords header width fuel (items.flatMap padded) = items := by
  induction items generalizing fuel with
  | nil =>
      cases fuel with
      | zero => rfl
      | succ fuel =>
          have empty : ¬ RecordInFront header width [] := by
            intro front
            exact absurd front.1 (Nat.not_le_of_gt positive)
          rw [List.flatMap_nil, cutRecords, if_neg empty]
  | cons record items inductionHypothesis =>
      cases fuel with
      | zero => exact absurd enough (Nat.not_succ_le_zero _)
      | succ fuel =>
          have first := sized record (List.mem_cons_self ..)
          have others : ∀ record ∈ items, WellSized header width record := by
            intro other member
            exact sized other (List.mem_cons_of_mem _ member)
          rw [List.flatMap_cons, first.cut,
            inductionHypothesis others (Nat.le_of_succ_le_succ enough)]

/-- Records are not more than their bytes. -/
theorem length_le_flatMap {items : List (List UInt8)}
    (sized : ∀ record ∈ items, WellSized header width record) (positive : 0 < header) :
    items.length ≤ (items.flatMap padded).length := by
  induction items with
  | nil => exact Nat.zero_le _
  | cons record items inductionHypothesis =>
      have first := (sized record (List.mem_cons_self ..)).header_le
      have others := inductionHypothesis fun other member =>
        sized other (List.mem_cons_of_mem _ member)
      have padding := le_aligned record.length
      rw [List.flatMap_cons, List.length_append, length_padded, List.length_cons]
      omega

/-- A sequence of bytes is cut into the records that it was put together from. -/
theorem records_flatMap {items : List (List UInt8)}
    (sized : ∀ record ∈ items, WellSized header width record) (positive : 0 < header) :
    records header width (items.flatMap padded) = items :=
  cutRecords_flatMap sized (length_le_flatMap sized positive) positive

/-! ## Attributes -/

/-- An attribute: its type and its data. -/
structure Attribute where
  type : UInt16
  data : List UInt8
deriving DecidableEq

namespace Attribute

/-- The record of an attribute. -/
def encode (attr : Attribute) : List UInt8 :=
  leBytes 2 (attr.data.length + 4) ++ (leBytes 2 attr.type.toNat ++ attr.data)

/-- The attribute that a record holds. -/
def ofRecord (record : List UInt8) : Attribute :=
  ⟨UInt16.ofNat (leValue ((record.drop 2).take 2)), record.drop 4⟩

/-- The size of the record fits into its header. -/
def Fits (attr : Attribute) : Prop := attr.data.length + 4 < 65536

theorem length_encode (attr : Attribute) :
    attr.encode.length = attr.data.length + 4 := by
  rw [encode, List.length_append, List.length_append, length_leBytes, length_leBytes]
  omega

theorem Fits.wellSized {attr : Attribute} (fits : attr.Fits) :
    WellSized 4 2 attr.encode := by
  refine ⟨by omega, ?_, ?_⟩
  · rw [length_encode]
    omega
  · rw [length_encode, statedSize, encode, List.take_left' (length_leBytes _ _), leValue_leBytes]
    exact Nat.mod_eq_of_lt fits

/-- The record of an attribute holds it. -/
theorem ofRecord_encode (attr : Attribute) : ofRecord attr.encode = attr := by
  have behind : attr.encode.drop 2 = leBytes 2 attr.type.toNat ++ attr.data := by
    rw [encode, List.drop_left' (length_leBytes _ _)]
  have small : attr.type.toNat < 65536 := attr.type.toNat_lt
  have type : leValue (leBytes 2 attr.type.toNat) = attr.type.toNat := by
    rw [leValue_leBytes]
    exact Nat.mod_eq_of_lt small
  have data : attr.encode.drop 4 = attr.data := by
    rw [show (4 : ℕ) = 2 + 2 from rfl, ← List.drop_drop, behind,
      List.drop_left' (length_leBytes _ _)]
  rw [ofRecord, behind, List.take_left' (length_leBytes _ _), type, data, UInt16.ofNat_toNat]

end Attribute

/-- The attributes in a sequence of bytes. -/
def attributes (bytes : List UInt8) : List Attribute :=
  (records 4 2 bytes).map Attribute.ofRecord

/-- The bytes of some attributes. -/
def attributeBytes (list : List Attribute) : List UInt8 :=
  (list.map Attribute.encode).flatMap padded

/-- The attributes that were put together are read. -/
theorem attributes_attributeBytes {list : List Attribute}
    (fits : ∀ attr ∈ list, attr.Fits) : attributes (attributeBytes list) = list := by
  have sized : ∀ record ∈ list.map Attribute.encode, WellSized 4 2 record := by
    intro record member
    obtain ⟨attr, given, rfl⟩ := List.mem_map.mp member
    exact (fits attr given).wellSized
  have same : Attribute.ofRecord ∘ Attribute.encode = id := by
    funext attr
    exact Attribute.ofRecord_encode attr
  rw [attributes, attributeBytes, records_flatMap sized (by omega), List.map_map, same,
    List.map_id]

end Join.Library
