import Join.Data.PackRoundTrip
import Join.Library.MessagePack
import Join.Library.IeeeOrder

/-!
# The writer conforms to MessagePack

What the writer appends for a value, read by the decoder of the format. The reader of
the repository plays no part here.

Integers of the four alternatives are one kind of object. A real number is a `float 32`
object when it is finite and survives the conversion to a float, and a `float 64` object
otherwise; widened, both denote the number itself.
-/

set_option autoImplicit false
set_option maxRecDepth 1024

namespace Join

open Library

namespace PackWriter

open Library.MessagePack (Object formatOf decode decodeDocument shortest)

/-! ## The object of a value -/

mutual
/-- The object that a value is, with the object of a real number left open. -/
def objectWith (float : Double → Object) : Value → Object
  | .null => .nil
  | .boolean value => .boolean value
  | .integer value => .integer value.toInt
  | .unsigned value => .integer value.toNat
  | .integer64 value => .integer value.toInt
  | .unsigned64 value => .integer value.toNat
  | .real value => float value
  | .string value => .string value
  | .array elements => .array (objectElements float elements)
  | .object members => .map (objectMembers float members)

def objectElements (float : Double → Object) : List Value → List Object
  | [] => []
  | element :: elements => objectWith float element :: objectElements float elements

def objectMembers (float : Double → Object) : List (Value × Value) → List (Object × Object)
  | [] => []
  | (key, value) :: members =>
      (objectWith float key, objectWith float value) :: objectMembers float members
end

/-- A real number with all its bits. -/
def exactFloat (value : Double) : Object := .float64 value.bits.toNat

/-- A real number in single precision if it survives. -/
def narrowFloat (value : Double) : Object :=
  if value.isFinite && value.toSingle.toDouble.eq value then .float32 value.toSingle.bits.toNat
  else .float64 value.bits.toNat

mutual
/-- An object with its single-precision numbers in double precision. -/
def widen : Object → Object
  | .float32 pattern => exactFloat (Single.toDouble ⟨UInt32.ofNat pattern⟩)
  | .array elements => .array (widenElements elements)
  | .map entries => .map (widenEntries entries)
  | object => object

def widenElements : List Object → List Object
  | [] => []
  | element :: elements => widen element :: widenElements elements

def widenEntries : List (Object × Object) → List (Object × Object)
  | [] => []
  | (key, value) :: entries => (widen key, widen value) :: widenEntries entries
end

/-! ## Decoding the items -/

section Items

variable {depth : ℕ} {rest : Bytes}

theorem number_beBytes {width value : ℕ} (small : value < 256 ^ width) (rest : Bytes) :
    MessagePack.number width (beBytes width value ++ rest) = some (value, rest) := by
  have enough : width ≤ (beBytes width value ++ rest).length := by
    rw [List.length_append, length_beBytes]
    omega
  rw [MessagePack.number, MessagePack.take, if_pos enough,
    List.take_left' (length_beBytes width value), List.drop_left' (length_beBytes width value),
    Option.map_some, Prod.map_apply, beValue_beBytes, Nat.mod_eq_of_lt small, id]

theorem number_byte (byte : UInt8) (rest : Bytes) :
    MessagePack.number 1 (byte :: rest) = some (byte.toNat, rest) := by
  have spelled : beBytes 1 byte.toNat = [byte] := by
    rw [beBytes, leBytes, leBytes, UInt8.ofNat_toNat, List.reverse_singleton]
  have read := number_beBytes (show byte.toNat < 256 ^ 1 from byte.toNat_lt) rest
  rwa [spelled] at read

theorem number_wire (width : ℕ) (value : ℤ) (rest : Bytes) :
    MessagePack.number width (wire width value ++ rest) =
      some ((value % 2 ^ (8 * width)).toNat, rest) := by
  refine number_beBytes ?_ rest
  have positive : (0 : ℤ) < 2 ^ (8 * width) := by positivity
  have bound := Int.emod_lt_of_pos value positive
  have powers : (256 : ℤ) ^ width = 2 ^ (8 * width) := by rw [pow_mul]; norm_num
  zify
  rw [Int.toNat_of_nonneg (Int.emod_nonneg value positive.ne'), powers]
  exact bound

/-- Two's complement brings an integer of the range back. -/
theorem twosComplement_wire {width : ℕ} (wide : width ∈ [1, 2, 4, 8]) {value : ℤ}
    (lower : -2 ^ (8 * width - 1) ≤ value) (upper : value < 2 ^ (8 * width - 1)) :
    MessagePack.twosComplement width (value % 2 ^ (8 * width)).toNat = value := by
  unfold MessagePack.twosComplement
  simp only [List.mem_cons, List.not_mem_nil, or_false] at wide
  rcases wide with rfl | rfl | rfl | rfl <;> norm_num at lower upper ⊢ <;> split_ifs <;> omega

/-- A first byte that is an integer. -/
theorem formatOf_fixint {value : ℤ} (lower : -2 ^ 5 ≤ value) (upper : value < 2 ^ 7) :
    formatOf (UInt8.ofInt value) = .fixint value := by
  have table : ∀ low < 160, formatOf (UInt8.ofInt ((low : ℕ) - 32 : ℤ)) = .fixint (low - 32) := by
    decide
  have found := table (value + 32).toNat (by omega)
  rwa [Int.toNat_of_nonneg (by omega), add_sub_cancel_right] at found

theorem decode_signed {head : UInt8} {width : ℕ} (format : formatOf head = .signed width)
    (wide : width ∈ [1, 2, 4, 8]) {value : ℤ} (lower : -2 ^ (8 * width - 1) ≤ value)
    (upper : value < 2 ^ (8 * width - 1)) (depth : ℕ) (rest : Bytes) :
    decode (depth + 1) (head :: wire width value ++ rest) = some (.integer value, rest) := by
  rw [List.cons_append, decode, format]
  simp only [number_wire, Option.map_some, Prod.map_apply, id, twosComplement_wire wide lower upper]

theorem decode_natural {head : UInt8} {width : ℕ} (format : formatOf head = .natural width)
    {value : ℤ} (lower : 0 ≤ value) (upper : value < 2 ^ (8 * width)) (depth : ℕ) (rest : Bytes) :
    decode (depth + 1) (head :: wire width value ++ rest) = some (.integer value, rest) := by
  rw [List.cons_append, decode, format]
  simp only [number_wire, Option.map_some, Prod.map_apply, id, Int.emod_eq_of_lt lower upper,
    Int.toNat_of_nonneg lower]

theorem wire_byte (value : ℤ) : wire 1 value = [UInt8.ofInt value] := by
  rw [wire, beBytes, leBytes, leBytes, List.reverse_singleton]
  congr 1

/-- Every format of an integer is decoded to the integer. -/
theorem decode_integerBytes {value : ℤ} (lower : -2 ^ 63 ≤ value) (upper : value < 2 ^ 64)
    (depth : ℕ) (rest : Bytes) :
    decode (depth + 1) (integerBytes value ++ rest) = some (.integer value, rest) := by
  unfold integerBytes
  by_cases long : value < -2 ^ 31
  · rw [if_pos long]
    exact decode_signed (by decide) (by decide) (by omega) (by omega) depth rest
  rw [if_neg long]
  by_cases word : value < -2 ^ 15
  · rw [if_pos word]
    exact decode_signed (by decide) (by decide) (by omega) (by omega) depth rest
  rw [if_neg word]
  by_cases short : value < -2 ^ 7
  · rw [if_pos short]
    exact decode_signed (by decide) (by decide) (by omega) (by omega) depth rest
  rw [if_neg short]
  by_cases byte : value < -2 ^ 5
  · rw [if_pos byte, ← wire_byte]
    exact decode_signed (by decide) (by decide) (by omega) (by omega) depth rest
  rw [if_neg byte]
  by_cases fix : value < 2 ^ 7
  · rw [if_pos fix, List.singleton_append, decode, formatOf_fixint (by omega) fix]
  rw [if_neg fix]
  by_cases byte : value < 2 ^ 8
  · rw [if_pos byte, ← wire_byte]
    exact decode_natural (by decide) (by omega) (by omega) depth rest
  rw [if_neg byte]
  by_cases short : value < 2 ^ 16
  · rw [if_pos short]
    exact decode_natural (by decide) (by omega) (by omega) depth rest
  rw [if_neg short]
  by_cases word : value < 2 ^ 32
  · rw [if_pos word]
    exact decode_natural (by decide) (by omega) (by omega) depth rest
  · rw [if_neg word]
    exact decode_natural (by decide) (by omega) upper depth rest

theorem decode_doubleBytes (value : Double) (depth : ℕ) (rest : Bytes) :
    decode (depth + 1) (doubleBytes value ++ rest) = some (narrowFloat value, rest) := by
  have single : value.toSingle.bits.toNat < 256 ^ 4 := value.toSingle.bits.toNat_lt
  have double : value.bits.toNat < 256 ^ 8 := value.bits.toNat_lt
  unfold doubleBytes narrowFloat
  by_cases survives : (value.isFinite && value.toSingle.toDouble.eq value) = true
  · rw [if_pos survives, if_pos survives, List.cons_append, decode,
      show formatOf 0xca = .float32 by decide]
    simp only [number_beBytes single, Option.map_some, Prod.map_apply, id]
  · rw [if_neg survives, if_neg survives, List.cons_append, decode,
      show formatOf 0xcb = .float64 by decide]
    simp only [number_beBytes double, Option.map_some, Prod.map_apply, id]

/-- The head of a string announces its size. -/
theorem stringHead_format {size : ℕ} (small : size < 2 ^ 32) (rest : Bytes) :
    ∃ head tail place, stringHeadBytes size ++ rest = head :: tail ∧
      formatOf head = .string place ∧ MessagePack.size place tail = some (size, rest) := by
  unfold stringHeadBytes
  split_ifs with fixed byte short
  · have table : ∀ size < 32, formatOf (UInt8.ofNat (0xa0 ||| size)) = .string (.fixed size) := by
      decide
    exact ⟨_, _, _, rfl, table size fixed, rfl⟩
  · refine ⟨0xd9, _, .field 1, rfl, by decide, ?_⟩
    have number := number_byte (UInt8.ofNat size) rest
    rwa [UInt8.toNat_ofNat', Nat.mod_eq_of_lt byte] at number
  · exact ⟨0xda, _, .field 2, rfl, by decide, number_beBytes short rest⟩
  · exact ⟨0xdb, _, .field 4, rfl, by decide, number_beBytes small rest⟩

theorem arrayHead_format {size : ℕ} (small : size < 2 ^ 32) (rest : Bytes) :
    ∃ head tail place, arrayBytes size ++ rest = head :: tail ∧
      formatOf head = .array place ∧ MessagePack.size place tail = some (size, rest) := by
  unfold arrayBytes
  split_ifs with fixed short
  · have table : ∀ size < 16, formatOf (UInt8.ofNat (0x90 ||| size)) = .array (.fixed size) := by
      decide
    exact ⟨_, _, _, rfl, table size fixed, rfl⟩
  · exact ⟨0xdc, _, .field 2, rfl, by decide, number_beBytes short rest⟩
  · exact ⟨0xdd, _, .field 4, rfl, by decide, number_beBytes small rest⟩

theorem objectHead_format {size : ℕ} (small : size < 2 ^ 32) (rest : Bytes) :
    ∃ head tail place, objectBytes size ++ rest = head :: tail ∧
      formatOf head = .map place ∧ MessagePack.size place tail = some (size, rest) := by
  unfold objectBytes
  split_ifs with fixed short
  · have table : ∀ size < 16, formatOf (UInt8.ofNat (0x80 ||| size)) = .map (.fixed size) := by
      decide
    exact ⟨_, _, _, rfl, table size fixed, rfl⟩
  · exact ⟨0xde, _, .field 2, rfl, by decide, number_beBytes short rest⟩
  · exact ⟨0xdf, _, .field 4, rfl, by decide, number_beBytes small rest⟩

theorem decode_stringBytes {value : Bytes} (small : value.length < 2 ^ 32) (depth : ℕ)
    (rest : Bytes) :
    decode (depth + 1) (stringBytes value ++ rest) = some (.string value, rest) := by
  rw [stringBytes, Nat.mod_eq_of_lt small, List.take_length, List.append_assoc]
  obtain ⟨head, tail, place, split, format, size⟩ := stringHead_format small (value ++ rest)
  have enough : value.length ≤ (value ++ rest).length := by
    rw [List.length_append]
    omega
  rw [split, decode, format]
  simp only [MessagePack.sized, size, Option.bind_some, MessagePack.take, if_pos enough,
    List.take_left, List.drop_left, Option.map_some, Prod.map_apply, id]

/-- A value that is no container is decoded from its item. -/
theorem decode_scalarItem {value : Value} (scalar : value.isContainer = false)
    (packable : Packable value) (depth : ℕ) (rest : Bytes) :
    decode (depth + 1) ((scalarItem value).bytes ++ rest) =
      some (objectWith narrowFloat value, rest) := by
  cases value with
  | null => rfl
  | boolean value => cases value <;> rfl
  | integer value =>
      have lower := value.le_toInt
      have upper := value.toInt_lt
      exact decode_integerBytes (by omega) (by omega) depth rest
  | unsigned value =>
      have upper := value.toNat_lt
      simp only [scalarItem, objectWith]
      exact decode_integerBytes (by omega) (by omega) depth rest
  | integer64 value =>
      have lower := value.le_toInt
      have upper := value.toInt_lt
      exact decode_integerBytes (by omega) (by omega) depth rest
  | unsigned64 value =>
      have upper := value.toNat_lt
      simp only [scalarItem, objectWith]
      exact decode_integerBytes (by omega) (by omega) depth rest
  | real value => exact decode_doubleBytes value depth rest
  | string value => exact decode_stringBytes packable depth rest
  | array elements => cases scalar
  | object members => cases scalar

mutual
/-- A value is decoded from its items, whatever follows them. -/
theorem decode_items : ∀ (value : Value) (depth : ℕ) (rest : Bytes), Packable value →
    value.depth < depth →
    decode depth (render (items value) ++ rest) = some (objectWith narrowFloat value, rest)
  | .array elements, depth, rest, packable, shallow => by
      rw [Value.depth] at shallow
      obtain ⟨depth, rfl⟩ : ∃ inner, depth = inner + 1 := ⟨depth - 1, by omega⟩
      obtain ⟨head, tail, place, split, format, size⟩ :=
        arrayHead_format packable.1 (render (elementItems elements) ++ rest)
      have parts := many_elements elements depth rest packable.2 (by omega)
      rw [items, render_cons, List.append_assoc, arrayItem, Nat.mod_eq_of_lt packable.1, split,
        decode, format]
      simp only [size, Option.bind_some, parts, Option.map_some, Prod.map_apply, id, objectWith]
  | .object members, depth, rest, packable, shallow => by
      rw [Value.depth] at shallow
      obtain ⟨depth, rfl⟩ : ∃ inner, depth = inner + 1 := ⟨depth - 1, by omega⟩
      obtain ⟨head, tail, place, split, format, size⟩ :=
        objectHead_format packable.1 (render (memberItems members) ++ rest)
      have parts := many_members members depth rest packable.2 (by omega)
      rw [items, render_cons, List.append_assoc, objectItem, Nat.mod_eq_of_lt packable.1, split,
        decode, format]
      simp only [size, Option.bind_some, parts, Option.map_some, Prod.map_apply, id, objectWith]
  | .null, depth, rest, packable, shallow | .boolean _, depth, rest, packable, shallow
  | .integer _, depth, rest, packable, shallow | .unsigned _, depth, rest, packable, shallow
  | .integer64 _, depth, rest, packable, shallow | .unsigned64 _, depth, rest, packable, shallow
  | .real _, depth, rest, packable, shallow | .string _, depth, rest, packable, shallow => by
      obtain ⟨depth, rfl⟩ : ∃ inner, depth = inner + 1 := ⟨depth - 1, by omega⟩
      rw [items_scalar rfl, render, List.flatMap_singleton]
      exact decode_scalarItem rfl packable depth rest

theorem many_elements : ∀ (elements : List Value) (depth : ℕ) (rest : Bytes),
    PackableElements elements → Value.elementsDepth elements < depth →
    MessagePack.many (decode depth) elements.length (render (elementItems elements) ++ rest) =
      some (objectElements narrowFloat elements, rest)
  | [], _, _, _, _ => rfl
  | element :: elements, depth, rest, packable, shallow => by
      rw [Value.elementsDepth] at shallow
      have first := decode_items element depth (render (elementItems elements) ++ rest) packable.1
        (by omega)
      have others := many_elements elements depth rest packable.2 (by omega)
      rw [elementItems, render_append, List.append_assoc, List.length_cons, MessagePack.many, first]
      simp only [Option.bind_some, others, Option.map_some, objectElements]

theorem many_members : ∀ (members : List (Value × Value)) (depth : ℕ) (rest : Bytes),
    PackableMembers members → Value.membersDepth members < depth →
    MessagePack.many (MessagePack.pair (decode depth)) members.length
        (render (memberItems members) ++ rest) =
      some (objectMembers narrowFloat members, rest)
  | [], _, _, _, _ => rfl
  | (name, value) :: members, depth, rest, packable, shallow => by
      rw [Value.membersDepth] at shallow
      obtain ⟨inner, rfl⟩ : ∃ inner, depth = inner + 1 := ⟨depth - 1, by omega⟩
      have named := decode_scalarItem packable.1.1 packable.1.2 inner
        (render (items value) ++ (render (memberItems members) ++ rest))
      have first := decode_items value (inner + 1) (render (memberItems members) ++ rest)
        packable.2.1 (by omega)
      have others := many_members members (inner + 1) rest packable.2.2 (by omega)
      rw [memberItems, render_cons, render_append, List.append_assoc, List.append_assoc,
        List.length_cons, MessagePack.many, MessagePack.pair, named]
      simp only [Option.bind_some, first, Option.map_some, others, objectMembers]
end

/-! ## The length of the items -/

theorem length_integerBytes (value : ℤ) :
    (integerBytes value).length = MessagePack.shortestInteger value := by
  unfold integerBytes MessagePack.shortestInteger
  split_ifs <;> simp only [List.length_cons, length_wire, List.length_nil] <;> omega

theorem length_stringHeadBytes (size : ℕ) :
    (stringHeadBytes size).length = MessagePack.shortestStringHead size := by
  unfold stringHeadBytes MessagePack.shortestStringHead
  split_ifs <;> simp only [List.length_cons, length_beBytes, List.length_nil] <;> omega

theorem length_arrayBytes (size : ℕ) :
    (arrayBytes size).length = MessagePack.shortestContainerHead size := by
  unfold arrayBytes MessagePack.shortestContainerHead
  split_ifs <;> simp only [List.length_cons, length_beBytes, List.length_nil] <;> omega

theorem length_objectBytes (size : ℕ) :
    (objectBytes size).length = MessagePack.shortestContainerHead size := by
  unfold objectBytes MessagePack.shortestContainerHead
  split_ifs <;> simp only [List.length_cons, length_beBytes, List.length_nil] <;> omega

theorem length_scalarItem {value : Value} (scalar : value.isContainer = false)
    (packable : Packable value) :
    (scalarItem value).bytes.length = shortest (objectWith narrowFloat value) := by
  cases value with
  | null => rfl
  | boolean value => cases value <;> rfl
  | integer value => exact length_integerBytes _
  | unsigned value =>
      simp only [scalarItem, objectWith, shortest]
      exact length_integerBytes _
  | integer64 value => exact length_integerBytes _
  | unsigned64 value =>
      simp only [scalarItem, objectWith, shortest]
      exact length_integerBytes _
  | real value =>
      simp only [scalarItem, objectWith, doubleBytes, narrowFloat]
      split_ifs <;> simp only [List.length_cons, length_beBytes, shortest]
  | string value =>
      have small : value.length < 2 ^ 32 := packable
      simp only [scalarItem, objectWith, stringBytes, shortest, List.length_append,
        length_stringHeadBytes, Nat.mod_eq_of_lt small, List.take_length]
  | array elements => cases scalar
  | object members => cases scalar

theorem length_objectElements (elements : List Value) :
    (objectElements narrowFloat elements).length = elements.length := by
  induction elements with
  | nil => rfl
  | cons element elements ih => rw [objectElements, List.length_cons, ih, List.length_cons]

theorem length_objectMembers (members : List (Value × Value)) :
    (objectMembers narrowFloat members).length = members.length := by
  induction members with
  | nil => rfl
  | cons member members ih =>
      obtain ⟨key, value⟩ := member
      rw [objectMembers, List.length_cons, ih, List.length_cons]

mutual
/-- The items of a value take as many bytes as the shortest encoding. -/
theorem length_items : ∀ value : Value, Packable value →
    (render (items value)).length = shortest (objectWith narrowFloat value)
  | .array elements, packable => by
      rw [items, render_cons, List.length_append, length_elementItems elements packable.2, arrayItem,
        length_arrayBytes, Nat.mod_eq_of_lt packable.1, objectWith, shortest,
        length_objectElements]
  | .object members, packable => by
      rw [items, render_cons, List.length_append, length_memberItems members packable.2, objectItem,
        length_objectBytes, Nat.mod_eq_of_lt packable.1, objectWith, shortest,
        length_objectMembers]
  | .null, packable | .boolean _, packable | .integer _, packable | .unsigned _, packable
  | .integer64 _, packable | .unsigned64 _, packable | .real _, packable
  | .string _, packable => by
      rw [items_scalar rfl, render, List.flatMap_singleton]
      exact length_scalarItem rfl packable

theorem length_elementItems : ∀ elements : List Value, PackableElements elements →
    (render (elementItems elements)).length =
      MessagePack.shortestElements (objectElements narrowFloat elements)
  | [], _ => rfl
  | element :: elements, packable => by
      rw [elementItems, render_append, List.length_append, length_items element packable.1,
        length_elementItems elements packable.2, objectElements, MessagePack.shortestElements]

theorem length_memberItems : ∀ members : List (Value × Value), PackableMembers members →
    (render (memberItems members)).length =
      MessagePack.shortestEntries (objectMembers narrowFloat members)
  | [], _ => rfl
  | (name, value) :: members, packable => by
      rw [memberItems, render_cons, render_append, List.length_append, List.length_append,
        length_scalarItem packable.1.1 packable.1.2, length_items value packable.2.1,
        length_memberItems members packable.2.2, objectMembers, MessagePack.shortestEntries,
        Nat.add_assoc]
end

theorem shortestContainerHead_pos (count : ℕ) : 0 < MessagePack.shortestContainerHead count := by
  unfold MessagePack.shortestContainerHead
  split_ifs <;> omega

mutual
/-- Containers are not nested deeper than there are bytes. -/
theorem depth_le_length : ∀ value : Value, value.depth ≤ (render (items value)).length
  | .array elements => by
      have inside := elementsDepth_le_length elements
      have head := shortestContainerHead_pos (elements.length % 2 ^ 32)
      rw [items, render_cons, List.length_append, arrayItem, length_arrayBytes, Value.depth]
      omega
  | .object members => by
      have inside := membersDepth_le_length members
      have head := shortestContainerHead_pos (members.length % 2 ^ 32)
      rw [items, render_cons, List.length_append, objectItem, length_objectBytes, Value.depth]
      omega
  | .null | .boolean _ | .integer _ | .unsigned _ | .integer64 _ | .unsigned64 _ | .real _
  | .string _ => by
      exact Nat.zero_le _

theorem elementsDepth_le_length : ∀ elements : List Value,
    Value.elementsDepth elements ≤ (render (elementItems elements)).length
  | [] => le_rfl
  | element :: elements => by
      have first := depth_le_length element
      have others := elementsDepth_le_length elements
      rw [elementItems, render_append, List.length_append, Value.elementsDepth]
      omega

theorem membersDepth_le_length : ∀ members : List (Value × Value),
    Value.membersDepth members ≤ (render (memberItems members)).length
  | [] => le_rfl
  | (_, value) :: members => by
      have first := depth_le_length value
      have others := membersDepth_le_length members
      rw [memberItems, render_cons, render_append, List.length_append, List.length_append,
        Value.membersDepth]
      omega
end

end Items

/-! ## Numbers that survive the conversion to a float -/

section Narrowing

open Library.Ieee

variable {source target : Format}

/-- Sign and magnitude of a pattern that is not a NaN. -/
theorem signed_pattern {magnitude : ℕ} (number : magnitude ≤ target.infinity) (negative : Bool) :
    target.isNegative ((if negative then target.signBit else 0) + magnitude) = negative ∧
      target.isNaN ((if negative then target.signBit else 0) + magnitude) = false ∧
      (if negative then target.signBit else 0) + magnitude < 2 * target.signBit := by
  have small := number.trans_lt target.infinity_lt_signBit
  have positive : 0 < target.signBit := by unfold Format.signBit; positivity
  cases negative <;>
    simp [Format.isNegative, Format.isNaN, Format.magnitudePattern, Nat.div_eq_of_lt small,
      Nat.add_div_left _ positive, Nat.mod_eq_of_lt small, number] <;> omega

/-- A pattern is its sign bit and its magnitude pattern. -/
theorem pattern_eq {pattern : ℕ} (fits : pattern < 2 * target.signBit) :
    pattern = (if target.isNegative pattern then target.signBit else 0) +
      target.magnitudePattern pattern := by
  have positive : 0 < target.signBit := by unfold Format.signBit; positivity
  have whole := Nat.div_add_mod pattern target.signBit
  have bit : pattern / target.signBit < 2 := Nat.div_lt_of_lt_mul (by rwa [Nat.mul_comm])
  unfold Format.isNegative Format.magnitudePattern
  rcases Nat.lt_succ_iff_lt_or_eq.mp bit with low | high
  · have zero : pattern / target.signBit = 0 := Nat.lt_one_iff.mp low
    rw [zero, Nat.mul_zero] at whole
    rw [zero, if_neg (by simp)]
    omega
  · rw [high, Nat.mul_one] at whole
    rw [high, if_pos (by simp)]
    omega

/-- A conversion keeps the sign and does not make a NaN. -/
theorem convertPattern_signed {pattern : ℕ} (number : source.isNaN pattern = false) :
    ∃ magnitude ≤ target.infinity, convertPattern source target pattern =
      (if source.isNegative pattern then target.signBit else 0) + magnitude := by
  unfold convertPattern
  rw [if_neg (by simp [number])]
  split
  · exact ⟨_, target.round_le_infinity _, rfl⟩
  · exact ⟨_, le_rfl, rfl⟩

theorem toSingle_bits {value : Double} (number : value.isNaN = false) :
    value.toSingle.bits.toNat = convertPattern binary64 binary32 value.bits.toNat ∧
      binary32.isNaN value.toSingle.bits.toNat = false ∧
      binary32.isNegative value.toSingle.bits.toNat = binary64.isNegative value.bits.toNat := by
  obtain ⟨magnitude, bound, same⟩ := convertPattern_signed number
  obtain ⟨sign, notNaN, small⟩ := signed_pattern bound (binary64.isNegative value.bits.toNat)
  have fits : convertPattern binary64 binary32 value.bits.toNat < 2 ^ 32 := by
    rw [same]
    exact small
  have bits : value.toSingle.bits.toNat = convertPattern binary64 binary32 value.bits.toNat := by
    rw [Double.toSingle, UInt32.toNat_ofNat', Nat.mod_eq_of_lt fits]
  exact ⟨bits, by rw [bits, same, notNaN], by rw [bits, same, sign]⟩

/-- A number that survives the conversion to a float comes back with its bits. -/
theorem toDouble_toSingle {value : Double} (number : value.isNaN = false)
    (survives : value.toSingle.toDouble.eq value = true) : value.toSingle.toDouble = value := by
  obtain ⟨-, notNaN, sign⟩ := toSingle_bits number
  obtain ⟨magnitude, bound, same⟩ := convertPattern_signed notNaN
  obtain ⟨sign', notNaN', small⟩ := signed_pattern bound
    (binary32.isNegative value.toSingle.bits.toNat)
  rw [← same] at sign' notNaN' small
  have bits : value.toSingle.toDouble.bits.toNat =
      convertPattern binary32 binary64 value.toSingle.bits.toNat := by
    have fits : convertPattern binary32 binary64 value.toSingle.bits.toNat < 2 ^ 64 := small
    rw [Single.toDouble, UInt64.toNat_ofNat', Nat.mod_eq_of_lt fits]
  have negative : binary64.isNegative value.toSingle.toDouble.bits.toNat =
      binary64.isNegative value.bits.toNat := by rw [bits, sign', sign]
  simp only [Double.eq, Bool.and_eq_true, beq_iff_eq, signedKey, negative] at survives
  have magnitudes : binary64.magnitudePattern value.toSingle.toDouble.bits.toNat =
      binary64.magnitudePattern value.bits.toNat := by
    have keys := survives.2
    split at keys <;> omega
  have patterns : value.toSingle.toDouble.bits.toNat = value.bits.toNat := by
    rw [pattern_eq (show value.toSingle.toDouble.bits.toNat < 2 * binary64.signBit from
        value.toSingle.toDouble.bits.toNat_lt),
      pattern_eq (show value.bits.toNat < 2 * binary64.signBit from value.bits.toNat_lt), negative,
      magnitudes]
  exact congrArg Double.mk (UInt64.toNat_inj.mp patterns)

theorem widen_narrowFloat {value : Double} (number : value.isNaN = false) :
    widen (narrowFloat value) = exactFloat value := by
  unfold narrowFloat
  split
  case isTrue survives =>
      rw [widen, UInt32.ofNat_toNat]
      exact congrArg exactFloat (toDouble_toSingle number (Bool.and_eq_true_iff.mp survives).2)
  case isFalse => rfl

end Narrowing

mutual
/-- Widened, the object of a value holds every number exactly. -/
theorem widen_objectWith : ∀ value : Value, Packable value →
    widen (objectWith narrowFloat value) = objectWith exactFloat value
  | .array elements, packable => by
      rw [objectWith, widen, widen_objectElements elements packable.2, objectWith]
  | .object members, packable => by
      rw [objectWith, widen, widen_objectMembers members packable.2, objectWith]
  | .real _, packable => widen_narrowFloat packable
  | .null, _ | .boolean _, _ | .integer _, _ | .unsigned _, _ | .integer64 _, _
  | .unsigned64 _, _ | .string _, _ => rfl

theorem widen_objectElements : ∀ elements : List Value, PackableElements elements →
    widenElements (objectElements narrowFloat elements) = objectElements exactFloat elements
  | [], _ => rfl
  | element :: elements, packable => by
      rw [objectElements, widenElements, widen_objectWith element packable.1,
        widen_objectElements elements packable.2, objectElements]

theorem widen_objectMembers : ∀ members : List (Value × Value), PackableMembers members →
    widenEntries (objectMembers narrowFloat members) = objectMembers exactFloat members
  | [], _ => rfl
  | (key, value) :: members, packable => by
      rw [objectMembers, widenEntries, widen_objectWith key packable.1.2,
        widen_objectWith value packable.2.1, widen_objectMembers members packable.2.2,
        objectMembers]
end

/-- The writer accepts the value, and what it has written is decoded to the object of the
value with nothing left over. Widened, that object holds the value exactly, and no
document that is decoded to it is shorter. -/
theorem pack_conforms {value : Value} (packable : Packable value) :
    (serialize value).1 = 0 ∧
      decodeDocument (serialize value).2 = some (objectWith narrowFloat value, []) ∧
      widen (objectWith narrowFloat value) = objectWith exactFloat value ∧
      ∀ document rest, decodeDocument document = some (objectWith narrowFloat value, rest) →
        (serialize value).2.length ≤ document.length := by
  have written := serialize_eq (keysScalar_of_packable value packable)
  rw [written]
  refine ⟨rfl, ?_, widen_objectWith value packable, fun document rest read => ?_⟩
  · have decoded := decode_items value ((render (items value)).length + 1) [] packable
      (Nat.lt_succ_of_le (depth_le_length value))
    rwa [List.append_nil] at decoded
  · have bound := MessagePack.shortest_le read
    have length := length_items value packable
    change (render (items value)).length ≤ document.length
    omega

/-- A map with an integer of two signed bytes, a number in single precision and one that
needs double precision. -/
theorem pack_conforms_nested :
    (serialize (.object [(.string [0x61], .array [.integer (-200), .real ⟨0x3FE0000000000000⟩,
      .real ⟨0x3FF0000000000001⟩])])).1 = 0 := by
  have half : Double.isNaN ⟨0x3FE0000000000000⟩ = false := by decide
  have more : Double.isNaN ⟨0x3FF0000000000001⟩ = false := by decide
  refine (pack_conforms ?_).1
  exact ⟨by decide, ⟨rfl, show 1 < 2 ^ 32 by decide⟩, ⟨by decide, trivial, half, more, trivial⟩,
    trivial⟩

end PackWriter

end Join
