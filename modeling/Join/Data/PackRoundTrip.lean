import Join.Data.PackItems
import Join.Data.PackMeaning

/-!
# Writing and reading back a MessagePack document

`received` is the value that the reader builds from the items of a value. It has the
same shape; numbers may have moved to another alternative, which `operator==` does not
tell apart, except that an integer of two signed bytes may have become another number.
-/

set_option autoImplicit false

namespace Join

open Library StreamReader

namespace PackWriter

open PackReader

/-! ## The value that is read -/

mutual
/-- The value that the reader builds for a value that was written. -/
def received : Value → Value
  | .integer value => receivedInteger value.toInt
  | .unsigned value => receivedInteger value.toNat
  | .integer64 value => receivedInteger value.toInt
  | .unsigned64 value => receivedInteger value.toNat
  | .real value => .real (receivedDouble value)
  | .array elements => .array (receivedElements elements)
  | .object members => .object (receivedMembers members)
  | value => value

def receivedElements : List Value → List Value
  | [] => []
  | element :: elements => received element :: receivedElements elements

def receivedMembers : List (Value × Value) → List (Value × Value)
  | [] => []
  | (key, value) :: members => (received key, received value) :: receivedMembers members
end

mutual
/-- No real number is a NaN, every size fits 32 bits and no key is a container. -/
def Packable : Value → Prop
  | .real value => value.isNaN = false
  | .string value => value.length < 2 ^ 32
  | .array elements => elements.length < 2 ^ 32 ∧ PackableElements elements
  | .object members => members.length < 2 ^ 32 ∧ PackableMembers members
  | _ => True

def PackableElements : List Value → Prop
  | [] => True
  | element :: elements => Packable element ∧ PackableElements elements

def PackableMembers : List (Value × Value) → Prop
  | [] => True
  | (key, value) :: members =>
      (key.isContainer = false ∧ Packable key) ∧ Packable value ∧ PackableMembers members
end

/-- An integer that two signed bytes do not bring back: it is written in that format and
its low byte is taken for negative. -/
def spoiled (value : ℤ) : Bool := -2 ^ 15 ≤ value && value < -2 ^ 7 && 0x80 ≤ value % 256

mutual
/-- No integer of the value, keys included, is spoiled. -/
def intact : Value → Bool
  | .integer value => !spoiled value.toInt
  | .integer64 value => !spoiled value.toInt
  | .array elements => elementsIntact elements
  | .object members => membersIntact members
  | _ => true

def elementsIntact : List Value → Bool
  | [] => true
  | element :: elements => intact element && elementsIntact elements

def membersIntact : List (Value × Value) → Bool
  | [] => true
  | (key, value) :: members => intact key && intact value && membersIntact members
end

/-! ## The reader builds it -/

theorem scalarItem_token {value : Value} (scalar : value.isContainer = false)
    (packable : Packable value) : (scalarItem value).token = .scalar (received value) := by
  cases value with
  | string value =>
      have size : value.length < 2 ^ 32 := packable
      simp only [scalarItem, received]
      rw [Nat.mod_eq_of_lt size, List.take_length]
  | array elements => cases scalar
  | object members => cases scalar
  | _ => simp only [scalarItem, received]

theorem key_scalarItem {value : Value} (scalar : value.isContainer = false)
    (packable : Packable value) (rest : Bytes) :
    key ((scalarItem value).bytes ++ rest) = some (received value, rest) := by
  rw [key_eq, next_scalarItem, scalarItem_token scalar packable]
  rfl

theorem parse_scalar {value : Value} (scalar : value.isContainer = false)
    (packable : Packable value) (room : ℕ) (rest : Bytes) :
    parse room true (render (items value) ++ rest) = some (received value, rest) := by
  rw [items_scalar scalar, render, List.flatMap_singleton]
  cases room <;> rw [parse, parseWith, next_scalarItem, scalarItem_token scalar packable] <;> rfl

mutual
/-- A value is parsed from its items, whatever follows them. -/
theorem parse_items : ∀ (value : Value) (room : ℕ) (nested : Bool) (rest : Bytes),
    Packable value → value.depth ≤ room → (nested || value.isContainer) = true →
    parse room nested (render (items value) ++ rest) = some (received value, rest)
  | .array elements, room, nested, rest, packable, shallow, _ => by
      rw [Value.depth] at shallow
      obtain ⟨room, rfl⟩ : ∃ inner, room = inner + 1 := ⟨room - 1, by omega⟩
      rw [items, render_cons, List.append_assoc, parse, parseWith, next_arrayItem]
      have collected := collect_elements elements room rest packable.2 (by omega)
      simp only [arrayItem, Nat.mod_eq_of_lt packable.1, Option.bind_some, content, collected,
        received]
      rfl
  | .object members, room, nested, rest, packable, shallow, _ => by
      rw [Value.depth] at shallow
      obtain ⟨room, rfl⟩ : ∃ inner, room = inner + 1 := ⟨room - 1, by omega⟩
      rw [items, render_cons, List.append_assoc, parse, parseWith, next_objectItem]
      have collected := collect_members members room rest packable.2 (by omega)
      simp only [objectItem, Nat.mod_eq_of_lt packable.1, Option.bind_some, content, collected,
        received]
      rfl
  | .null, room, nested, rest, packable, _, inside
  | .boolean _, room, nested, rest, packable, _, inside
  | .integer _, room, nested, rest, packable, _, inside
  | .unsigned _, room, nested, rest, packable, _, inside
  | .integer64 _, room, nested, rest, packable, _, inside
  | .unsigned64 _, room, nested, rest, packable, _, inside
  | .real _, room, nested, rest, packable, _, inside
  | .string _, room, nested, rest, packable, _, inside => by
      obtain rfl : nested = true := by simpa [Value.isContainer, Value.isArray, Value.isObject]
        using inside
      exact parse_scalar rfl packable room rest

theorem collect_elements : ∀ (elements : List Value) (room : ℕ) (rest : Bytes),
    PackableElements elements → Value.elementsDepth elements ≤ room →
    collect (parse room true) elements.length (render (elementItems elements) ++ rest) =
      some (receivedElements elements, rest)
  | [], _, _, _, _ => rfl
  | element :: elements, room, rest, packable, shallow => by
      rw [Value.elementsDepth] at shallow
      have first := parse_items element room true (render (elementItems elements) ++ rest)
        packable.1 (by omega) rfl
      have others := collect_elements elements room rest packable.2 (by omega)
      rw [elementItems, render_append, List.append_assoc, List.length_cons, collect, first]
      simp only [Option.bind_some, others, receivedElements]
      rfl

theorem collect_members : ∀ (members : List (Value × Value)) (room : ℕ) (rest : Bytes),
    PackableMembers members → Value.membersDepth members ≤ room →
    collect (member (parse room true)) members.length (render (memberItems members) ++ rest) =
      some (receivedMembers members, rest)
  | [], _, _, _, _ => rfl
  | (name, value) :: members, room, rest, packable, shallow => by
      rw [Value.membersDepth] at shallow
      have named := key_scalarItem packable.1.1 packable.1.2
        (render (items value) ++ (render (memberItems members) ++ rest))
      have first := parse_items value room true (render (memberItems members) ++ rest)
        packable.2.1 (by omega) rfl
      have others := collect_members members room rest packable.2.2 (by omega)
      rw [memberItems, render_cons, render_append, List.append_assoc, List.append_assoc,
        List.length_cons, collect, member, named]
      simp only [Option.bind_some, first, Option.map_some, Prod.map_apply, id, others,
        receivedMembers]
end

/-- A value that is a container of at most 19 levels is what its items mean. -/
theorem document_items {value : Value} (packable : Packable value)
    (container : value.isContainer = true) (shallow : value.depth ≤ maxdepth) :
    document (render (items value)) = some (received value) := by
  have parsed := parse_items value maxdepth false [] packable shallow container
  rw [List.append_nil] at parsed
  rw [document, parsed]

/-! ## It is equal to the value that was written -/

theorem receivedInteger_integral (value : ℤ) : (receivedInteger value).isIntegral = true := by
  unfold receivedInteger
  split_ifs <;> rfl

/-- An integer that is not spoiled keeps its number. -/
theorem getInteger_received {value : ℤ} (lower : -2 ^ 63 ≤ value) (upper : value < 2 ^ 64)
    (good : spoiled value = false) : (receivedInteger value).getInteger = value := by
  have small (lower : -2 ^ 31 ≤ value) (upper : value < 2 ^ 31) :
      (Int32.ofInt value).toInt = value := Int32.toInt_ofInt_of_le lower upper
  unfold receivedInteger
  split
  case isTrue range => exact Int64.toInt_ofInt_of_le lower (by omega)
  case isFalse =>
  split
  case isTrue range => exact small (by omega) (by omega)
  case isFalse =>
  split
  case isTrue range =>
      have kept : swapped16 value = value := by
        rw [swapped16, if_neg]
        intro negative
        simp only [spoiled, Bool.and_eq_false_iff, decide_eq_false_iff_not] at good
        omega
      rw [kept]
      exact small (by omega) (by omega)
  case isFalse =>
  split
  case isTrue range => exact small (by omega) (by omega)
  case isFalse =>
  split
  case isTrue range =>
      show ((UInt32.ofInt value).toNat : ℤ) = value
      rw [UInt32.ofInt, UInt32.toNat_ofNat']
      omega
  case isFalse =>
      show ((UInt64.ofInt value).toNat : ℤ) = value
      rw [UInt64.ofInt, UInt64.toNat_ofNat']
      omega

/-- A spoiled integer becomes another one. -/
theorem receivedInteger_spoiled {value : ℤ} (bad : spoiled value = true) :
    receivedInteger value = .integer (Int32.ofInt (value % 256 - 256)) ∧
      (Int32.ofInt (value % 256 - 256)).toInt = value % 256 - 256 ∧ value % 256 - 256 ≠ value ∧
      -2 ^ 15 ≤ value ∧ value < 0 := by
  simp only [spoiled, Bool.and_eq_true, decide_eq_true_eq] at bad
  refine ⟨?_, Int32.toInt_ofInt_of_le (by omega) (by omega), by omega, by omega, by omega⟩
  rw [receivedInteger, if_neg (by omega), if_neg (by omega), if_pos (by omega), swapped16,
    if_pos bad.2]

/-- Two different integers of few bits, one in each signed alternative, are not equal. -/
theorem numericEq_signed {lhs : Int32} {rhs : Int64} (left : lhs.toInt < 0)
    (right : rhs.toInt < 0) (few : -2 ^ 15 ≤ rhs.toInt) (other : lhs.toInt ≠ rhs.toInt) :
    Value.numericEq (.integer lhs) (.integer64 rhs) = false := by
  have notLeft : Value.isUint64 (.integer lhs) = false := decide_eq_false (by omega)
  have notRight : Value.isUint64 (.integer64 rhs) = false := decide_eq_false (by omega)
  have lower := lhs.le_toInt
  rw [Value.numericEq, notLeft, notRight, Bool.and_false, Bool.false_and,
    if_neg Bool.false_ne_true, if_neg Bool.false_ne_true, Bool.eq_false_iff]
  intro equal
  exact other (Double.eq_of_ofInt (by omega) (by omega) equal)

/-- An integer is read back equal exactly when it is not spoiled. -/
theorem eq_receivedInteger {value : Value} (integral : value.isIntegral = true) :
    (receivedInteger value.getInteger).eq value = !spoiled value.getInteger := by
  have bounds := Value.getInteger_bounds integral
  cases bad : spoiled value.getInteger with
  | false =>
      exact Value.eq_of_getInteger (receivedInteger_integral _) integral
        (getInteger_received bounds.1 bounds.2 bad)
  | true =>
      obtain ⟨same, number, other, lower, negative⟩ := receivedInteger_spoiled bad
      have below : value.getInteger % 256 - 256 < 0 := by omega
      rw [same]
      cases value with
      | integer value =>
          refine beq_false_of_ne fun equal => other ?_
          rw [← number, equal]
          rfl
      | integer64 value =>
          have numeric := numericEq_signed (number.trans_lt below) negative lower
            (fun equal => other (number.symm.trans equal))
          simpa [Value.eq, Value.isNumber, Value.index] using numeric
      | unsigned value =>
          have natural : (0 : ℤ) ≤ value.toNat := Int.natCast_nonneg _
          exact absurd negative (not_lt.mpr natural)
      | unsigned64 value =>
          have natural : (0 : ℤ) ≤ value.toNat := Int.natCast_nonneg _
          exact absurd negative (not_lt.mpr natural)
      | _ => cases integral

/-- Numbers that are not negative are never spoiled. -/
theorem spoiled_natCast (value : ℕ) : spoiled value = false := by
  have above : ¬ (value : ℤ) < -2 ^ 7 := by omega
  simp only [spoiled, decide_eq_false above, Bool.and_false, Bool.false_and]

theorem eq_receivedDouble {value : Double} (number : value.isNaN = false) :
    (receivedDouble value).eq value = true := by
  unfold receivedDouble
  split
  case isTrue survives => exact (Bool.and_eq_true_iff.mp survives).2
  case isFalse => exact Double.eq_self number

mutual
/-- The value that is read is equal to the value that was written exactly when no integer
was spoiled. -/
theorem eq_received : ∀ value : Value, Packable value → (received value).eq value = intact value
  | .null, _ => rfl
  | .boolean _, _ => beq_self_eq_true _
  | .integer value, _ => eq_receivedInteger (rfl : (Value.integer value).isIntegral = true)
  | .unsigned value, _ => by
      have equal := eq_receivedInteger (rfl : (Value.unsigned value).isIntegral = true)
      rw [Value.getInteger, spoiled_natCast] at equal
      rw [received, intact, equal]
      all_goals simp
  | .integer64 value, _ => eq_receivedInteger (rfl : (Value.integer64 value).isIntegral = true)
  | .unsigned64 value, _ => by
      have equal := eq_receivedInteger (rfl : (Value.unsigned64 value).isIntegral = true)
      rw [Value.getInteger, spoiled_natCast] at equal
      rw [received, intact, equal]
      all_goals simp
  | .real _, number => eq_receivedDouble number
  | .string _, _ => beq_self_eq_true _
  | .array elements, packable => eq_receivedElements elements packable.2
  | .object members, packable => eq_receivedMembers members packable.2

theorem eq_receivedElements : ∀ elements : List Value, PackableElements elements →
    Value.eqArray (receivedElements elements) elements = elementsIntact elements
  | [], _ => rfl
  | element :: elements, packable => by
      rw [receivedElements, Value.eqArray, eq_received element packable.1,
        eq_receivedElements elements packable.2, elementsIntact]

theorem eq_receivedMembers : ∀ members : List (Value × Value), PackableMembers members →
    Value.eqObject (receivedMembers members) members = membersIntact members
  | [], _ => rfl
  | (key, value) :: members, packable => by
      rw [receivedMembers, Value.eqObject, eq_received key packable.1.2,
        eq_received value packable.2.1, eq_receivedMembers members packable.2.2, membersIntact]
end

mutual
theorem keysScalar_of_packable : ∀ value : Value, Packable value → keysScalar value = true
  | .array elements, packable => elementKeysScalar_of_packable elements packable.2
  | .object members, packable => memberKeysScalar_of_packable members packable.2
  | .null, _ | .boolean _, _ | .integer _, _ | .unsigned _, _ | .integer64 _, _ | .unsigned64 _, _
  | .real _, _ | .string _, _ => by simp only [keysScalar]

theorem elementKeysScalar_of_packable : ∀ elements : List Value, PackableElements elements →
    elementKeysScalar elements = true
  | [], _ => rfl
  | element :: elements, packable => by
      rw [elementKeysScalar, keysScalar_of_packable element packable.1,
        elementKeysScalar_of_packable elements packable.2, Bool.and_self]

theorem memberKeysScalar_of_packable : ∀ members : List (Value × Value),
    PackableMembers members → memberKeysScalar members = true
  | [], _ => rfl
  | (key, value) :: members, packable => by
      rw [memberKeysScalar, packable.1.1, keysScalar_of_packable value packable.2.1,
        memberKeysScalar_of_packable members packable.2.2]
      rfl
end

end PackWriter

open PackWriter in
/-- A container of at most 19 levels without a NaN, whose sizes fit 32 bits and whose keys
are no containers, is written and read back, and it is read back equal to itself exactly
when it holds no integer from `-32768` to `-129` whose low byte is at least `0x80`. -/
theorem pack_round_trip_iff (kind : ViewKind) (root : Value) {value : Value}
    (container : value.isContainer = true) (shallow : value.depth ≤ 19)
    (packable : Packable value) :
    ∃ bytes, serialize value = (0, bytes) ∧
      ((PackReader.deserialize kind bytes (.fresh root)).1 = 0 ∧
        (PackReader.deserialize kind bytes (.fresh root)).2.root.eq value = true ↔
        intact value = true) := by
  have returns := PackReader.deserialize_returns kind (render (items value))
    (rfl : (StreamReader.fresh root).stack = [])
  rw [document_items packable container shallow] at returns
  refine ⟨_, serialize_eq (keysScalar_of_packable value packable), ?_⟩
  rw [returns.2.1, eq_received value packable]
  exact and_iff_right returns.1

/-- An object with integers of several formats, a string and a real number comes back. -/
theorem pack_round_trip_nested :
    ∃ bytes, PackWriter.serialize (.object [(.integer (-5), .array [.integer64 (-4294967296),
        .integer (-400), .string [0x61], .real ⟨0x3FF0000000000000⟩])]) = (0, bytes) ∧
      (PackReader.deserialize .stream bytes (.fresh .null)).1 = 0 ∧
      (PackReader.deserialize .stream bytes (.fresh .null)).2.root.eq
        (.object [(.integer (-5), .array [.integer64 (-4294967296), .integer (-400),
          .string [0x61], .real ⟨0x3FF0000000000000⟩])]) = true := by
  have string : PackWriter.Packable (.string [0x61]) := show _ < _ by decide
  have real : PackWriter.Packable (.real ⟨0x3FF0000000000000⟩) := show _ = _ by decide +kernel
  have packable : PackWriter.Packable (.object [(.integer (-5), .array [.integer64 (-4294967296),
      .integer (-400), .string [0x61], .real ⟨0x3FF0000000000000⟩])]) :=
    ⟨by decide, ⟨rfl, trivial⟩, ⟨by decide, trivial, trivial, string, real, trivial⟩, trivial⟩
  obtain ⟨bytes, written, back⟩ :=
    pack_round_trip_iff .stream .null rfl (by decide) packable
  exact ⟨bytes, written, back.mpr (by decide)⟩

/-- The array of the one element `-300` is read back as the array of `-44`. -/
theorem pack_round_trip_spoils :
    ∃ bytes, PackWriter.serialize (.array [.integer (-300)]) = (0, bytes) ∧
      (PackReader.deserialize .string bytes (.fresh .null)).1 = 0 ∧
      (PackReader.deserialize .string bytes (.fresh .null)).2.root.eq (.array [.integer (-300)]) =
        false :=
  ⟨[0x91, 0xd1, 0xfe, 0xd4], rfl, by decide +kernel⟩

end Join
