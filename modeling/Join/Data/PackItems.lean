import Join.Data.PackWriter
import Join.Data.PackTokens

/-!
# The items of a value

`items` lists what the writer appends for a value, one item for each event, with the
token that the reader makes of it. Whoever reads the bytes of an item gets its token
and what follows (`next_item`), and whoever is given only a part of the bytes of an
item gets nothing (`next_cut`).

The token of an integer is not always the integer. Two signed bytes are swapped with
the sign of the operand extended, so the integers below `-256` that are written in two
bytes and whose low byte is at least `0x80` are read as that low byte alone.
-/

set_option autoImplicit false
set_option maxRecDepth 1024

namespace Join

open Library

namespace PackWriter

/-! ## What steps append -/

/-- The step appends these bytes and returns 0. -/
def Appends (step : Step) (bytes : Bytes) : Prop :=
  ∀ writer, step writer = some (.ok (), ⟨writer.out ++ bytes⟩)

/-- The step returns `-1`. -/
def Refused (step : Step) : Prop :=
  ∀ writer, ∃ failure after, step writer = some (.error failure, after)

theorem append_appends (bytes : Bytes) : Appends (append bytes) bytes := fun _ => rfl

theorem pure_appends : Appends (pure ()) [] := by
  intro writer
  rw [List.append_nil]
  rfl

theorem Appends.bind {first : Step} {next : Unit → Step} {front back : Bytes}
    (appends : Appends first front) (more : Appends (next ()) back) :
    Appends (first >>= next) (front ++ back) := by
  intro writer
  rw [Program.bind_apply, appends writer, ← List.append_assoc]
  exact more _

theorem Refused.bind {first : Step} (refused : Refused first) (next : Unit → Step) :
    Refused (first >>= next) := by
  intro writer
  obtain ⟨failure, after, run⟩ := refused writer
  exact ⟨failure, after, by rw [Program.bind_apply, run]⟩

theorem Appends.refused {first : Step} {next : Unit → Step} {front : Bytes}
    (appends : Appends first front) (refused : Refused (next ())) : Refused (first >>= next) := by
  intro writer
  rw [Program.bind_apply, appends writer]
  exact refused _

theorem Appends.ite {condition : Prop} [Decidable condition] {yes no : Step} {taken other : Bytes}
    (holds : condition → Appends yes taken) (fails : ¬ condition → Appends no other) :
    Appends (if condition then yes else no) (if condition then taken else other) := by
  split
  case isTrue proof => exact holds proof
  case isFalse proof => exact fails proof

theorem packUint8_appends (value : UInt8) : Appends (packUint8 value) [value] := by
  have byte : leBytes 1 value.toNat = [value] := by
    rw [leBytes, leBytes, UInt8.ofNat_toNat]
  rw [packUint8, byte]
  exact append_appends [value]

theorem packUint16_appends (value : UInt16) :
    Appends (packUint16 value) (beBytes 2 value.toNat) := by
  have swapped := leBytes_byteswap2 (show (false && value.toBitVec.msb) = false from rfl)
  rw [packUint16, swapped]
  exact append_appends _

theorem packUint32_appends (value : UInt32) :
    Appends (packUint32 value) (beBytes 4 value.toNat) := by
  rw [packUint32, leBytes_byteswap4]
  exact append_appends _

theorem packUint64_appends (value : UInt64) :
    Appends (packUint64 value) (beBytes 8 value.toNat) := by
  rw [packUint64, leBytes_byteswap8]
  exact append_appends _

/-! ## The bytes of an event -/

/-- An integer of two's complement in a number of bytes. -/
def wire (width : ℕ) (value : ℤ) : Bytes := beBytes width (value % 2 ^ (8 * width)).toNat

/-- The format of an integer goes by its range alone. -/
def integerBytes (value : ℤ) : Bytes :=
  if value < -2 ^ 31 then 0xd3 :: wire 8 value
  else if value < -2 ^ 15 then 0xd2 :: wire 4 value
  else if value < -2 ^ 7 then 0xd1 :: wire 2 value
  else if value < -2 ^ 5 then [0xd0, UInt8.ofInt value]
  else if value < 2 ^ 7 then [UInt8.ofInt value]
  else if value < 2 ^ 8 then [0xcc, UInt8.ofInt value]
  else if value < 2 ^ 16 then 0xcd :: wire 2 value
  else if value < 2 ^ 32 then 0xce :: wire 4 value
  else 0xcf :: wire 8 value

def doubleBytes (value : Double) : Bytes :=
  if value.isFinite && value.toSingle.toDouble.eq value then
    0xca :: beBytes 4 value.toSingle.bits.toNat
  else 0xcb :: beBytes 8 value.bits.toNat

def stringHeadBytes (size : ℕ) : Bytes :=
  if size < 32 then [UInt8.ofNat (0xa0 ||| size)]
  else if size < 256 then [0xd9, UInt8.ofNat size]
  else if size < 65536 then 0xda :: beBytes 2 size
  else 0xdb :: beBytes 4 size

def stringBytes (value : Bytes) : Bytes :=
  stringHeadBytes value.length ++ value.take (value.length % 2 ^ 32)

def arrayBytes (size : ℕ) : Bytes :=
  if size < 16 then [UInt8.ofNat (0x90 ||| size)]
  else if size < 65536 then 0xdc :: beBytes 2 size
  else 0xdd :: beBytes 4 size

def objectBytes (size : ℕ) : Bytes :=
  if size < 16 then [UInt8.ofNat (0x80 ||| size)]
  else if size < 65536 then 0xde :: beBytes 2 size
  else 0xdf :: beBytes 4 size

/-! ### The events append them -/

/-- A head byte and what a format adds to it. -/
theorem Appends.tagged {pack : Step} {payload : Bytes} (head : UInt8)
    (appends : Appends pack payload) :
    Appends (append [head] >>= fun _ => pack) (head :: payload) :=
  (append_appends [head]).bind appends

theorem ofInt_natCast (value : ℕ) : UInt8.ofInt value = UInt8.ofNat value := by
  apply UInt8.toNat_inj.mp
  rw [UInt8.ofInt, UInt8.toNat_ofNat', UInt8.toNat_ofNat']
  omega

theorem wire16_appends (value : ℤ) : Appends (packUint16 (UInt16.ofInt value)) (wire 2 value) := by
  have bits : (UInt16.ofInt value).toNat = (value % 2 ^ 16).toNat := by
    rw [UInt16.ofInt, UInt16.toNat_ofNat']
    omega
  have appends := packUint16_appends (UInt16.ofInt value)
  rwa [bits] at appends

theorem wire32_appends (value : ℤ) : Appends (packUint32 (UInt32.ofInt value)) (wire 4 value) := by
  have bits : (UInt32.ofInt value).toNat = (value % 2 ^ 32).toNat := by
    rw [UInt32.ofInt, UInt32.toNat_ofNat']
    omega
  have appends := packUint32_appends (UInt32.ofInt value)
  rwa [bits] at appends

theorem wire64_appends (value : ℤ) : Appends (packUint64 (UInt64.ofInt value)) (wire 8 value) := by
  have bits : (UInt64.ofInt value).toNat = (value % 2 ^ 64).toNat := by
    rw [UInt64.ofInt, UInt64.toNat_ofNat']
    omega
  have appends := packUint64_appends (UInt64.ofInt value)
  rwa [bits] at appends

theorem setInt_appends (value : Int32) : Appends (setInt value) (integerBytes value.toInt) := by
  have lower := value.le_toInt
  have upper := value.toInt_lt
  unfold setInt integerBytes
  rw [if_neg (by omega : ¬ value.toInt < -2 ^ 31)]
  refine .ite (fun _ => (wire32_appends _).tagged _) fun _ =>
    .ite (fun _ => (wire16_appends _).tagged _) fun _ =>
    .ite (fun _ => (packUint8_appends _).tagged _) fun _ =>
    .ite (fun _ => append_appends _) fun _ =>
    .ite (fun _ => (packUint8_appends _).tagged _) fun _ =>
    .ite (fun _ => (wire16_appends _).tagged _) fun _ => ?_
  rw [if_pos (by omega : value.toInt < 2 ^ 32)]
  exact (wire32_appends _).tagged _

theorem setInt64_appends (value : Int64) : Appends (setInt64 value) (integerBytes value.toInt) := by
  unfold setInt64 integerBytes
  exact .ite (fun _ => (wire64_appends _).tagged _) fun _ =>
    .ite (fun _ => (wire32_appends _).tagged _) fun _ =>
    .ite (fun _ => (wire16_appends _).tagged _) fun _ =>
    .ite (fun _ => (packUint8_appends _).tagged _) fun _ =>
    .ite (fun _ => append_appends _) fun _ =>
    .ite (fun _ => (packUint8_appends _).tagged _) fun _ =>
    .ite (fun _ => (wire16_appends _).tagged _) fun _ =>
    .ite (fun _ => (wire32_appends _).tagged _) fun _ => (wire64_appends _).tagged _

theorem beBytes_mod (width value : ℕ) :
    beBytes width (value % 2 ^ (8 * width)) = beBytes width value := by
  rw [pow_mul, beBytes, show 2 ^ 8 = 256 from rfl, leBytes_mod, beBytes]

theorem wire_natCast (width value : ℕ) : wire width value = beBytes width value := by
  rw [wire, ← beBytes_mod width value]
  norm_cast

theorem natural16_appends (value : ℕ) :
    Appends (packUint16 (UInt16.ofNat value)) (beBytes 2 value) := by
  have appends := packUint16_appends (UInt16.ofNat value)
  rwa [UInt16.toNat_ofNat', beBytes_mod 2] at appends

theorem natural32_appends (value : ℕ) :
    Appends (packUint32 (UInt32.ofNat value)) (beBytes 4 value) := by
  have appends := packUint32_appends (UInt32.ofNat value)
  rwa [UInt32.toNat_ofNat', beBytes_mod 4] at appends

/-- The formats of a number that is not negative. -/
theorem integerBytes_natCast (value : ℕ) :
    integerBytes value =
      if value < 2 ^ 7 then [UInt8.ofNat value]
      else if value < 2 ^ 8 then [0xcc, UInt8.ofNat value]
      else if value < 2 ^ 16 then 0xcd :: beBytes 2 value
      else if value < 2 ^ 32 then 0xce :: beBytes 4 value
      else 0xcf :: beBytes 8 value := by
  unfold integerBytes
  rw [if_neg (by omega), if_neg (by omega), if_neg (by omega), if_neg (by omega), ofInt_natCast,
    wire_natCast, wire_natCast, wire_natCast]
  norm_cast

theorem setUint_appends (value : UInt32) :
    Appends (setUint value) (integerBytes (value.toNat : ℤ)) := by
  rw [integerBytes_natCast]
  unfold setUint
  refine .ite (fun _ => append_appends _) fun _ =>
    .ite (fun _ => (packUint8_appends _).tagged _) fun _ =>
    .ite (fun _ => (natural16_appends _).tagged _) fun _ => ?_
  rw [if_pos value.toNat_lt]
  exact (packUint32_appends value).tagged _

theorem setUint64_appends (value : UInt64) :
    Appends (setUint64 value) (integerBytes (value.toNat : ℤ)) := by
  rw [integerBytes_natCast]
  unfold setUint64
  exact .ite (fun _ => append_appends _) fun _ =>
    .ite (fun _ => (packUint8_appends _).tagged _) fun _ =>
    .ite (fun _ => (natural16_appends _).tagged _) fun _ =>
    .ite (fun _ => (natural32_appends _).tagged _) fun _ => (packUint64_appends value).tagged _

theorem setDouble_appends (value : Double) : Appends (setDouble value) (doubleBytes value) :=
  .ite (fun _ => (packUint32_appends _).tagged _) fun _ => (packUint64_appends _).tagged _

theorem setString_appends (value : Bytes) : Appends (setString value) (stringBytes value) := by
  refine Appends.bind ?_ (append_appends _)
  exact .ite (fun _ => append_appends _) fun _ =>
    .ite (fun _ => (packUint8_appends _).tagged _) fun _ =>
    .ite (fun _ => (natural16_appends _).tagged _) fun _ => (natural32_appends _).tagged _

theorem startArray_appends (size : UInt32) :
    Appends (startArray size) (arrayBytes size.toNat) :=
  .ite (fun _ => append_appends _) fun _ =>
    .ite (fun _ => (natural16_appends _).tagged _) fun _ => (packUint32_appends size).tagged _

theorem startObject_appends (size : UInt32) :
    Appends (startObject size) (objectBytes size.toNat) :=
  .ite (fun _ => append_appends _) fun _ =>
    .ite (fun _ => (natural16_appends _).tagged _) fun _ => (packUint32_appends size).tagged _

/-! ## The items of a value -/

open PackReader (Token)

/-- What the writer appends for one event, and what the reader makes of it. -/
structure Item where
  bytes : Bytes
  token : Token
deriving Repr

/-- The integer that the reader finds for an integer that is written in two signed bytes. -/
def swapped16 (value : ℤ) : ℤ := if 0x80 ≤ value % 256 then value % 256 - 256 else value

/-- An integer is read in the alternative of its format. -/
def receivedInteger (value : ℤ) : Value :=
  if value < -2 ^ 31 then .integer64 (Int64.ofInt value)
  else if value < -2 ^ 15 then .integer (Int32.ofInt value)
  else if value < -2 ^ 7 then .integer (Int32.ofInt (swapped16 value))
  else if value < 0 then .integer (Int32.ofInt value)
  else if value < 2 ^ 32 then .unsigned (UInt32.ofInt value)
  else .unsigned64 (UInt64.ofInt value)

def receivedDouble (value : Double) : Double :=
  if value.isFinite && value.toSingle.toDouble.eq value then value.toSingle.toDouble else value

/-- The item of a value that is no container. -/
def scalarItem : Value → Item
  | .boolean value => ⟨if value then [0xc3] else [0xc2], .scalar (.boolean value)⟩
  | .integer value => ⟨integerBytes value.toInt, .scalar (receivedInteger value.toInt)⟩
  | .unsigned value => ⟨integerBytes value.toNat, .scalar (receivedInteger value.toNat)⟩
  | .integer64 value => ⟨integerBytes value.toInt, .scalar (receivedInteger value.toInt)⟩
  | .unsigned64 value => ⟨integerBytes value.toNat, .scalar (receivedInteger value.toNat)⟩
  | .real value => ⟨doubleBytes value, .scalar (.real (receivedDouble value))⟩
  | .string value =>
      ⟨stringBytes value, .scalar (.string (value.take (value.length % 2 ^ 32)))⟩
  | _ => ⟨[0xc0], .scalar .null⟩

/-- The size that a container announces is narrowed to 32 bits. -/
def arrayItem (size : ℕ) : Item :=
  ⟨arrayBytes (size % 2 ^ 32), .array (size % 2 ^ 32)⟩

def objectItem (size : ℕ) : Item :=
  ⟨objectBytes (size % 2 ^ 32), .object (size % 2 ^ 32)⟩

mutual
/-- The items of a value, in the order in which they are written. -/
def items : Value → List Item
  | .array elements => arrayItem elements.length :: elementItems elements
  | .object members => objectItem members.length :: memberItems members
  | value => [scalarItem value]

def elementItems : List Value → List Item
  | [] => []
  | element :: elements => items element ++ elementItems elements

def memberItems : List (Value × Value) → List Item
  | [] => []
  | (key, value) :: members => scalarItem key :: (items value ++ memberItems members)
end

/-- The bytes of items. -/
def render (items : List Item) : Bytes := items.flatMap Item.bytes

mutual
/-- No key is a container. -/
def keysScalar : Value → Bool
  | .array elements => elementKeysScalar elements
  | .object members => memberKeysScalar members
  | _ => true

def elementKeysScalar : List Value → Bool
  | [] => true
  | element :: elements => keysScalar element && elementKeysScalar elements

def memberKeysScalar : List (Value × Value) → Bool
  | [] => true
  | (key, value) :: members => !key.isContainer && keysScalar value && memberKeysScalar members
end

theorem items_scalar {value : Value} (scalar : value.isContainer = false) :
    items value = [scalarItem value] := by
  cases value with
  | array elements => cases scalar
  | object members => cases scalar
  | _ => simp only [items]

theorem render_cons (item : Item) (items : List Item) :
    render (item :: items) = item.bytes ++ render items := List.flatMap_cons

theorem render_append (front back : List Item) :
    render (front ++ back) = render front ++ render back := List.flatMap_append

/-- The event of a value that is no container, whoever serves the keys. -/
theorem scalar_appends (setKey : Value → Step) {value : Value}
    (scalar : value.isContainer = false) :
    Appends (StreamWriter.setValue (scalars setKey) value) (scalarItem value).bytes := by
  cases value with
  | null => exact append_appends _
  | boolean value => exact .ite (fun _ => append_appends _) fun _ => append_appends _
  | integer value => exact setInt_appends value
  | unsigned value =>
      simp only [scalarItem]
      exact setUint_appends value
  | integer64 value => exact setInt64_appends value
  | unsigned64 value =>
      simp only [scalarItem]
      exact setUint64_appends value
  | real value => exact setDouble_appends value
  | string value => exact setString_appends value
  | array elements => cases scalar
  | object members => cases scalar

theorem setKey_appends {key : Value} (scalar : key.isContainer = false) :
    Appends (setKey key) (scalarItem key).bytes := by
  have taken : setKey key =
      StreamWriter.setValue (scalars fun _ => Program.fail (.sax .invalidKey)) key :=
    if_neg (Bool.eq_false_iff.mp scalar)
  rw [taken]
  exact scalar_appends _ scalar

/-- A step appends these bytes, or the writer refuses a key. -/
def Writes (step : Step) (accepted : Bool) (bytes : Bytes) : Prop :=
  if accepted then Appends step bytes else Refused step

theorem Writes.bind {first : Step} {next : Unit → Step} {front back : Bytes} {good better : Bool}
    (writes : Writes first good front) (more : Writes (next ()) better back) :
    Writes (first >>= next) (good && better) (front ++ back) := by
  cases good with
  | false => exact Refused.bind writes next
  | true =>
      cases better with
      | false => exact Appends.refused writes more
      | true => exact Appends.bind writes more

theorem Appends.writes {step : Step} {bytes : Bytes} (appends : Appends step bytes) :
    Writes step true bytes := appends

theorem setKey_writes (key : Value) :
    Writes (setKey key) (!key.isContainer) (scalarItem key).bytes := by
  cases container : key.isContainer with
  | false => exact setKey_appends container
  | true =>
      have taken : setKey key = Program.fail (.sax .invalidKey) := if_pos container
      rw [taken]
      exact fun writer => ⟨_, writer, rfl⟩

mutual
/-- The walk over a value appends its items, unless a key is a container. -/
theorem setValue_writes : ∀ value : Value,
    Writes (StreamWriter.setValue handler value) (keysScalar value) (render (items value))
  | .array elements => by
      have opened := (startArray_appends (UInt32.ofNat elements.length)).writes
      have closed : Writes (StreamWriter.setElements handler elements >>= fun _ => pure ()) _ _ :=
        (setElements_writes elements).bind pure_appends.writes
      have walk : Writes (StreamWriter.setValue handler (.array elements)) _ _ :=
        opened.bind closed
      rw [UInt32.toNat_ofNat', List.append_nil, Bool.and_true, Bool.true_and] at walk
      exact walk
  | .object members => by
      have opened := (startObject_appends (UInt32.ofNat members.length)).writes
      have closed : Writes (StreamWriter.setMembers handler members >>= fun _ => pure ()) _ _ :=
        (setMembers_writes members).bind pure_appends.writes
      have walk : Writes (StreamWriter.setValue handler (.object members)) _ _ :=
        opened.bind closed
      rw [UInt32.toNat_ofNat', List.append_nil, Bool.and_true, Bool.true_and] at walk
      exact walk
  | .null | .boolean _ | .integer _ | .unsigned _ | .integer64 _ | .unsigned64 _ | .real _
  | .string _ => by
      rw [items_scalar rfl, keysScalar, render, List.flatMap_singleton]
      · exact scalar_appends setKey rfl
      all_goals simp

theorem setElements_writes : ∀ elements : List Value,
    Writes (StreamWriter.setElements handler elements) (elementKeysScalar elements)
      (render (elementItems elements))
  | [] => pure_appends
  | element :: elements => by
      rw [elementItems, render_append]
      exact (setValue_writes element).bind (setElements_writes elements)

theorem setMembers_writes : ∀ members : List (Value × Value),
    Writes (StreamWriter.setMembers handler members) (memberKeysScalar members)
      (render (memberItems members))
  | [] => pure_appends
  | (key, value) :: members => by
      have more : Writes (StreamWriter.setValue handler value >>=
          fun _ => StreamWriter.setMembers handler members) _ _ :=
        (setValue_writes value).bind (setMembers_writes members)
      have walk : Writes (StreamWriter.setMembers handler ((key, value) :: members)) _ _ :=
        (setKey_writes key).bind more
      rw [← Bool.and_assoc, ← render_append, ← render_cons] at walk
      exact walk
end

/-- `serialize` returns 0 with the items of the value exactly when no key is a container. -/
theorem serialize_eq {value : Value} (keys : keysScalar value = true) :
    serialize value = (0, render (items value)) := by
  have writes := setValue_writes value
  rw [keys] at writes
  unfold serialize
  rw [writes ⟨[]⟩, List.nil_append]

theorem keysScalar_of_serialize {value : Value} (accepted : (serialize value).1 = 0) :
    keysScalar value = true := by
  by_contra refused
  have writes := setValue_writes value
  rw [Bool.not_eq_true] at refused
  rw [refused] at writes
  obtain ⟨failure, after, run⟩ := writes ⟨[]⟩
  rw [serialize, run] at accepted
  cases accepted

/-! ## The reader finds the items -/

open PackReader

theorem next_number {head : UInt8} (isNumber : isNumber head = true) (rest : Bytes) :
    next (head :: rest) = (number head rest).map (Prod.map .scalar id) := by
  have disjoint : ∀ head : UInt8, PackReader.isNumber head → isArray head = false ∧
      isObject head = false ∧ isBin head = false ∧ isNull head = false ∧ isFalse head = false ∧
      isTrue head = false ∧ isString head = false := by decide
  obtain ⟨array, object, bin, null, no, yes, string⟩ := disjoint head isNumber
  have first : next (head :: rest) = item head rest := rfl
  simp only [first, item, scalar, array, object, bin, null, no, yes, string, isNumber,
    Bool.false_eq_true, if_false, if_true]

theorem next_string {head : UInt8} (isString : isString head = true) (rest : Bytes) :
    next (head :: rest) =
      (characters (stringCount head rest)).map (Prod.map (fun bytes => .scalar (.string bytes)) id) := by
  have disjoint : ∀ head : UInt8, PackReader.isString head → isArray head = false ∧
      isObject head = false ∧ isBin head = false ∧ isNull head = false ∧ isFalse head = false ∧
      isTrue head = false := by decide
  obtain ⟨array, object, bin, null, no, yes⟩ := disjoint head isString
  have first : next (head :: rest) = item head rest := rfl
  simp only [first, item, scalar, array, object, bin, null, no, yes, isString,
    Bool.false_eq_true, if_false, if_true, Option.map_map]
  rfl

theorem next_array {head : UInt8} (isArray : isArray head = true) (rest : Bytes) :
    next (head :: rest) =
      (arrayCount head rest).map (Prod.map (fun len => .array len.toNat) id) := if_pos isArray

theorem next_object {head : UInt8} (isObject : isObject head = true) (rest : Bytes) :
    next (head :: rest) =
      (objectCount head rest).map (Prod.map (fun len => .object len.toNat) id) := by
  have disjoint : ∀ head : UInt8, PackReader.isObject head → isArray head = false := by
    decide
  have first : next (head :: rest) = item head rest := rfl
  simp only [first, item, disjoint head isObject, isObject, Bool.false_eq_true, if_false, if_true]

theorem field_append {α : Type} {size : ℕ} {front : Bytes} (exact : front.length = size)
    (convert : Bytes → α) (rest : Bytes) :
    field size convert (front ++ rest) = some (convert front, rest) := by
  subst exact
  rw [field, if_pos (by simp), List.take_left, List.drop_left]

/-! ### Fields -/

theorem length_wire (width : ℕ) (value : ℤ) : (wire width value).length = width :=
  length_beBytes width _

theorem bits8_byte (byte : UInt8) : (⟨bits8 [byte]⟩ : UInt8) = byte := by
  apply UInt8.toNat_inj.mp
  have small := byte.toNat_lt
  simp only [bits8, leValue, UInt8.toNat, BitVec.toNat_ofNat]
  omega

theorem bits16_beBytes (value : ℕ) :
    bits16 false (beBytes 2 value) = BitVec.ofNat 16 value := by
  apply BitVec.eq_of_toNat_eq
  rw [bits16, toNat_byteswap2 (length_beBytes 2 value) rfl, beValue_beBytes, BitVec.toNat_ofNat]
  rfl

theorem bits32_beBytes (value : ℕ) : bits32 (beBytes 4 value) = BitVec.ofNat 32 value := by
  apply BitVec.eq_of_toNat_eq
  rw [bits32, toNat_byteswap4 (length_beBytes 4 value), beValue_beBytes, BitVec.toNat_ofNat]
  rfl

theorem bits64_beBytes (value : ℕ) : bits64 (beBytes 8 value) = BitVec.ofNat 64 value := by
  apply BitVec.eq_of_toNat_eq
  rw [bits64, toNat_byteswap8 (length_beBytes 8 value), beValue_beBytes, BitVec.toNat_ofNat]
  rfl

theorem bits32_wire (value : ℤ) : bits32 (wire 4 value) = BitVec.ofInt 32 value := by
  apply BitVec.eq_of_toNat_eq
  rw [wire, bits32_beBytes, BitVec.toNat_ofNat, BitVec.toNat_ofInt]
  omega

theorem bits64_wire (value : ℤ) : bits64 (wire 8 value) = BitVec.ofInt 64 value := by
  apply BitVec.eq_of_toNat_eq
  rw [wire, bits64_beBytes, BitVec.toNat_ofNat, BitVec.toNat_ofInt]
  omega

/-- Two signed bytes are not always read back. -/
theorem bits16_wire (value : ℤ) :
    bits16 true (wire 2 value) = BitVec.ofInt 16 (swapped16 value) := by
  have split : wire 2 value = [UInt8.ofInt (value / 256), UInt8.ofInt value] := by
    simp only [wire, beBytes, leBytes, List.reverse_cons, List.reverse_nil, List.nil_append,
      List.cons_append]
    congr 1
    · apply UInt8.toNat_inj.mp
      rw [UInt8.ofInt, UInt8.toNat_ofNat', UInt8.toNat_ofNat']
      omega
    · congr 1
      apply UInt8.toNat_inj.mp
      rw [UInt8.ofInt, UInt8.toNat_ofNat', UInt8.toNat_ofNat']
      omega
  have low : (UInt8.ofInt value).toNat = (value % 256).toNat := by
    rw [UInt8.ofInt, UInt8.toNat_ofNat']
    omega
  apply BitVec.eq_of_toNat_eq
  unfold swapped16
  split
  case isTrue negative =>
      rw [bits16, split, toNat_byteswap2_negative (by omega), low, BitVec.toNat_ofInt]
      omega
  case isFalse plain =>
      have sign : (true && (BitVec.ofNat 16 (leValue (wire 2 value))).msb) = false := by
        rw [split, msb_leValue, Bool.true_and, decide_eq_false_iff_not, low]
        omega
      rw [bits16, toNat_byteswap2 (length_wire 2 value) sign, wire, beValue_beBytes,
        BitVec.toNat_ofInt]
      omega

/-- A signed byte of the range is widened to the integer. -/
theorem toInt32_byte {value : ℤ} (lower : -2 ^ 7 ≤ value) (upper : value < 2 ^ 7) :
    (UInt8.ofInt value).toInt8.toInt32 = Int32.ofInt value := by
  have byte : (UInt8.ofInt value).toInt8 = Int8.ofInt value := by
    apply Int8.toBitVec_inj.mp
    apply BitVec.eq_of_toNat_eq
    show (UInt8.ofInt value).toNat = (BitVec.ofInt 8 value).toNat
    rw [UInt8.ofInt, UInt8.toNat_ofNat', BitVec.toNat_ofInt]
    omega
  apply Int32.toInt.inj
  rw [byte, Int8.toInt_toInt32, Int8.toInt_ofInt_of_le lower upper,
    Int32.toInt_ofInt_of_le (by omega) (by omega)]

theorem toUInt32_byte {value : ℤ} (lower : 0 ≤ value) (upper : value < 2 ^ 8) :
    (UInt8.ofInt value).toUInt32 = UInt32.ofInt value := by
  apply UInt32.toNat_inj.mp
  rw [UInt8.toNat_toUInt32, UInt8.ofInt, UInt32.ofInt, UInt8.toNat_ofNat', UInt32.toNat_ofNat']
  omega

/-! ### Scalars -/

theorem next_fixint {value : ℤ} (lower : -2 ^ 5 ≤ value) (upper : value < 2 ^ 7) (rest : Bytes) :
    next (UInt8.ofInt value :: rest) = some (.scalar (receivedInteger value), rest) := by
  have byte : (UInt8.ofInt value).toNat = (value % 256).toNat := by
    rw [UInt8.ofInt, UInt8.toNat_ofNat']
    omega
  have table : ∀ head : UInt8, head ≤ 0x7f ∨ head ≥ 0xe0 → isNumber head := by decide
  unfold receivedInteger
  rw [if_neg (by omega), if_neg (by omega), if_neg (by omega)]
  by_cases negative : value < 0
  · have high : UInt8.ofInt value ≥ 0xe0 := by
      rw [ge_iff_le, UInt8.le_iff_toNat_le, byte]
      show 224 ≤ _
      omega
    have notLow : ¬ UInt8.ofInt value ≤ 0x7f := by
      rw [UInt8.le_iff_toNat_le, byte]
      show ¬ _ ≤ 127
      omega
    rw [next_number (table _ (.inr high)), number, if_neg notLow, if_pos high, if_pos negative,
      toInt32_byte (by omega) upper]
    rfl
  · have low : UInt8.ofInt value ≤ 0x7f := by
      rw [UInt8.le_iff_toNat_le, byte]
      show _ ≤ 127
      omega
    rw [next_number (table _ (.inl low)), number, if_pos low, if_neg negative, if_pos (by omega),
      toUInt32_byte (by omega) (by omega)]
    rfl

/-- A number of a format with a payload. -/
theorem next_payload {head : UInt8} {size : ℕ} (convert : Bytes → Value) {payload : Bytes}
    (isNumber : isNumber head = true) (format : ∀ rest, number head rest = field size convert rest)
    (length : payload.length = size) (rest : Bytes) :
    next (head :: payload ++ rest) = some (.scalar (convert payload), rest) := by
  rw [List.cons_append, next_number isNumber, format, field_append length]
  rfl

theorem next_integer {value : ℤ} (lower : -2 ^ 63 ≤ value) (upper : value < 2 ^ 64)
    (rest : Bytes) :
    next (integerBytes value ++ rest) = some (.scalar (receivedInteger value), rest) := by
  unfold integerBytes
  split
  case isTrue range =>
      rw [next_payload (fun memory => .integer64 ⟨⟨bits64 memory⟩⟩) rfl (fun _ => rfl)
        (length_wire 8 value), receivedInteger, if_pos range, bits64_wire]
      rfl
  case isFalse above31 =>
  split
  case isTrue range =>
      rw [next_payload (fun memory => .integer ⟨⟨bits32 memory⟩⟩) rfl (fun _ => rfl)
        (length_wire 4 value), receivedInteger, if_neg above31, if_pos range, bits32_wire]
      rfl
  case isFalse above15 =>
  split
  case isTrue range =>
      have bounds : -2 ^ 15 ≤ swapped16 value ∧ swapped16 value < 2 ^ 15 := by
        unfold swapped16
        split <;> omega
      have widened : Int16.toInt32 (Int16.ofInt (swapped16 value)) =
          Int32.ofInt (swapped16 value) := by
        apply Int32.toInt.inj
        rw [Int16.toInt_toInt32, Int16.toInt_ofInt_of_le bounds.1 bounds.2,
          Int32.toInt_ofInt_of_le (by omega) (by omega)]
      rw [next_payload (fun memory => .integer (Int16.toInt32 ⟨⟨bits16 true memory⟩⟩)) rfl
        (fun _ => rfl) (length_wire 2 value), receivedInteger, if_neg above31, if_neg above15,
        if_pos range, bits16_wire, ← widened]
      rfl
  case isFalse above7 =>
  split
  case isTrue range =>
      have byte : Int8.toInt32 ⟨⟨bits8 [UInt8.ofInt value]⟩⟩ = Int32.ofInt value := by
        rw [← toInt32_byte (by omega) (by omega)]
        exact congrArg (fun byte => (UInt8.toInt8 byte).toInt32) (bits8_byte _)
      rw [next_payload (fun memory => .integer (Int8.toInt32 ⟨⟨bits8 memory⟩⟩)) rfl (fun _ => rfl)
        rfl, receivedInteger, if_neg above31, if_neg above15, if_neg above7, if_pos (by omega), byte]
  case isFalse above5 =>
  split
  case isTrue range => exact next_fixint (by omega) range rest
  case isFalse above =>
  have received : receivedInteger value =
      if value < 2 ^ 32 then .unsigned (UInt32.ofInt value) else .unsigned64 (UInt64.ofInt value) := by
    rw [receivedInteger, if_neg above31, if_neg above15, if_neg above7, if_neg (by omega)]
  rw [received]
  split
  case isTrue range =>
      rw [next_payload (fun memory => .unsigned (UInt8.toUInt32 ⟨bits8 memory⟩)) rfl (fun _ => rfl)
        rfl, if_pos (by omega), bits8_byte, toUInt32_byte (by omega) range]
  case isFalse above8 =>
  split
  case isTrue range =>
      have widened : UInt16.toUInt32 ⟨bits16 false (wire 2 value)⟩ = UInt32.ofInt value := by
        apply UInt32.toNat_inj.mp
        rw [UInt16.toNat_toUInt32, wire, bits16_beBytes, UInt32.ofInt, UInt32.toNat_ofNat']
        show (BitVec.ofNat 16 _).toNat = _
        rw [BitVec.toNat_ofNat]
        omega
      rw [next_payload (fun memory => .unsigned (UInt16.toUInt32 ⟨bits16 false memory⟩)) rfl
        (fun _ => rfl) (length_wire 2 value), if_pos (by omega), widened]
  case isFalse above16 =>
  split
  case isTrue range =>
      rw [next_payload (fun memory => .unsigned ⟨bits32 memory⟩) rfl (fun _ => rfl)
        (length_wire 4 value), wire, bits32_beBytes]
      rfl
  case isFalse above32 =>
      rw [next_payload (fun memory => .unsigned64 ⟨bits64 memory⟩) rfl (fun _ => rfl)
        (length_wire 8 value), wire, bits64_beBytes]
      rfl

theorem next_double (value : Double) (rest : Bytes) :
    next (doubleBytes value ++ rest) = some (.scalar (.real (receivedDouble value)), rest) := by
  unfold doubleBytes receivedDouble
  split
  case isTrue =>
      rw [next_payload (fun memory => .real (Single.toDouble ⟨⟨bits32 memory⟩⟩)) rfl (fun _ => rfl)
        (length_beBytes 4 _), bits32_beBytes]
      exact congrArg (fun bits => some (Token.scalar (.real (Single.toDouble ⟨bits⟩)), rest))
        (UInt32.ofNat_toNat)
  case isFalse =>
      rw [next_payload (fun memory => .real ⟨⟨bits64 memory⟩⟩) rfl (fun _ => rfl)
        (length_beBytes 8 _), bits64_beBytes]
      exact congrArg (fun bits => some (Token.scalar (.real ⟨bits⟩), rest)) (UInt64.ofNat_toNat)

/-! ### Strings and containers -/

theorem uint8Field_byte {size : ℕ} (small : size < 2 ^ 8) (rest : Bytes) :
    uint8Field ([UInt8.ofNat size] ++ rest) = some (UInt32.ofNat size, rest) := by
  have widened : (UInt8.ofNat size).toUInt32 = UInt32.ofNat size := by
    apply UInt32.toNat_inj.mp
    rw [UInt8.toNat_toUInt32, UInt8.toNat_ofNat', UInt32.toNat_ofNat']
    omega
  have single : [UInt8.ofNat size].length = 1 := rfl
  rw [uint8Field, field_append single, bits8_byte, widened]

theorem uint16Field_beBytes {size : ℕ} (small : size < 2 ^ 16) (rest : Bytes) :
    uint16Field (beBytes 2 size ++ rest) = some (UInt32.ofNat size, rest) := by
  have widened : UInt16.toUInt32 ⟨bits16 false (beBytes 2 size)⟩ = UInt32.ofNat size := by
    apply UInt32.toNat_inj.mp
    rw [UInt16.toNat_toUInt32, bits16_beBytes, UInt32.toNat_ofNat']
    show (BitVec.ofNat 16 _).toNat = _
    rw [BitVec.toNat_ofNat]
    omega
  rw [uint16Field, field_append (length_beBytes 2 size), widened]

theorem uint32Field_beBytes (size : ℕ) (rest : Bytes) :
    uint32Field (beBytes 4 size ++ rest) = some (UInt32.ofNat size, rest) := by
  rw [uint32Field, field_append (length_beBytes 4 size), bits32_beBytes]
  rfl

theorem next_stringBytes (value rest : Bytes) :
    next (stringBytes value ++ rest) =
      some (.scalar (.string (value.take (value.length % 2 ^ 32))), rest) := by
  have payload : field (UInt32.ofNat value.length).toNat id
      (value.take (value.length % 2 ^ 32) ++ rest) =
        some (value.take (value.length % 2 ^ 32), rest) := by
    refine field_append ?_ id rest
    rw [UInt32.toNat_ofNat', List.length_take]
    omega
  -- every head announces the length, narrowed to 32 bits
  have announce {head : UInt8} {size : Bytes} (isString : isString head = true)
      (count : ∀ rest, stringCount head (size ++ rest) = some (UInt32.ofNat value.length, rest)) :
      next (head :: size ++ value.take (value.length % 2 ^ 32) ++ rest) =
        some (.scalar (.string (value.take (value.length % 2 ^ 32))), rest) := by
    rw [List.append_assoc, List.cons_append, next_string isString, count, characters]
    simp only [Option.bind_some, payload, Option.map_some, Prod.map_apply, id]
  unfold stringBytes stringHeadBytes
  split
  case isTrue range =>
      have table : ∀ size : Fin 32, isString (UInt8.ofNat (0xa0 ||| size)) = true ∧
          UInt8.ofNat (0xa0 ||| size) ≠ 0xdb ∧ UInt8.ofNat (0xa0 ||| size) ≠ 0xda ∧
          UInt8.ofNat (0xa0 ||| size) ≠ 0xd9 ∧
          (UInt8.ofNat (0xa0 ||| size)).toUInt32 &&& ~~~0xa0 = UInt32.ofNat size := by
        decide
      obtain ⟨string, notWide, notMedium, notNarrow, masked⟩ := table ⟨value.length, range⟩
      refine announce string fun rest => ?_
      rw [stringCount, if_neg notWide, if_neg notMedium, if_neg notNarrow, masked]
      rfl
  case isFalse above5 =>
  split
  case isTrue range => exact announce rfl (uint8Field_byte range)
  case isFalse above8 =>
  split
  case isTrue range => exact announce rfl (uint16Field_beBytes range)
  case isFalse above16 => exact announce rfl (uint32Field_beBytes _)

theorem next_arrayItem (size : ℕ) (rest : Bytes) :
    next ((arrayItem size).bytes ++ rest) = some ((arrayItem size).token, rest) := by
  have narrow : size % 2 ^ 32 < 2 ^ 32 := Nat.mod_lt _ (by decide)
  simp only [arrayItem]
  generalize size % 2 ^ 32 = size at *
  have length : (UInt32.ofNat size).toNat = size := by
    rw [UInt32.toNat_ofNat']
    omega
  have announce {head : UInt8} {count : Bytes} (isArray : isArray head = true)
      (counts : ∀ rest, arrayCount head (count ++ rest) = some (UInt32.ofNat size, rest)) :
      next (head :: count ++ rest) = some (.array size, rest) := by
    rw [List.cons_append, next_array isArray, counts, Option.map_some, Prod.map_apply, length]
    rfl
  unfold arrayBytes
  split
  case isTrue range =>
      have table : ∀ size : Fin 16, isArray (UInt8.ofNat (0x90 ||| size)) = true ∧
          UInt8.ofNat (0x90 ||| size) ≠ 0xdd ∧ UInt8.ofNat (0x90 ||| size) ≠ 0xdc ∧
          (UInt8.ofNat (0x90 ||| size)).toUInt32 &&& ~~~0x90 = UInt32.ofNat size := by
        decide
      obtain ⟨array, notWide, notMedium, masked⟩ := table ⟨size, range⟩
      refine announce array fun rest => ?_
      rw [arrayCount, if_neg notWide, if_neg notMedium, masked]
      rfl
  case isFalse =>
  split
  case isTrue range => exact announce rfl (uint16Field_beBytes range)
  case isFalse => exact announce rfl (uint32Field_beBytes _)

theorem next_objectItem (size : ℕ) (rest : Bytes) :
    next ((objectItem size).bytes ++ rest) = some ((objectItem size).token, rest) := by
  have narrow : size % 2 ^ 32 < 2 ^ 32 := Nat.mod_lt _ (by decide)
  simp only [objectItem]
  generalize size % 2 ^ 32 = size at *
  have length : (UInt32.ofNat size).toNat = size := by
    rw [UInt32.toNat_ofNat']
    omega
  have announce {head : UInt8} {count : Bytes} (isObject : isObject head = true)
      (counts : ∀ rest, objectCount head (count ++ rest) = some (UInt32.ofNat size, rest)) :
      next (head :: count ++ rest) = some (.object size, rest) := by
    rw [List.cons_append, next_object isObject, counts, Option.map_some, Prod.map_apply, length]
    rfl
  unfold objectBytes
  split
  case isTrue range =>
      have table : ∀ size : Fin 16, isObject (UInt8.ofNat (0x80 ||| size)) = true ∧
          UInt8.ofNat (0x80 ||| size) ≠ 0xdf ∧ UInt8.ofNat (0x80 ||| size) ≠ 0xde ∧
          (UInt8.ofNat (0x80 ||| size)).toUInt32 &&& ~~~0x80 = UInt32.ofNat size := by
        decide
      obtain ⟨object, notWide, notMedium, masked⟩ := table ⟨size, range⟩
      refine announce object fun rest => ?_
      rw [objectCount, if_neg notWide, if_neg notMedium, masked]
      rfl
  case isFalse =>
  split
  case isTrue range => exact announce rfl (uint16Field_beBytes range)
  case isFalse => exact announce rfl (uint32Field_beBytes _)

theorem next_scalarItem (value : Value) (rest : Bytes) :
    next ((scalarItem value).bytes ++ rest) = some ((scalarItem value).token, rest) := by
  cases value with
  | boolean value => cases value <;> rfl
  | integer value =>
      have lower := value.le_toInt
      have upper := value.toInt_lt
      exact next_integer (by omega) (by omega) rest
  | unsigned value =>
      have upper := value.toNat_lt
      simp only [scalarItem]
      exact next_integer (by omega) (by omega) rest
  | integer64 value =>
      have lower := value.le_toInt
      have upper := value.toInt_lt
      exact next_integer (by omega) (by omega) rest
  | unsigned64 value =>
      have upper := value.toNat_lt
      simp only [scalarItem]
      exact next_integer (by omega) (by omega) rest
  | real value => exact next_double value rest
  | string value => exact next_stringBytes value rest
  | null | array | object => rfl

/-- Each item of a value is read as its token, wherever it stands. -/
def Item.Readable (item : Item) : Prop :=
  ∀ rest, next (item.bytes ++ rest) = some (item.token, rest)

mutual
theorem items_readable : ∀ value : Value, ∀ item ∈ items value, item.Readable
  | .array elements => by
      rw [items, List.forall_mem_cons]
      exact ⟨next_arrayItem _, elementItems_readable elements⟩
  | .object members => by
      rw [items, List.forall_mem_cons]
      exact ⟨next_objectItem _, memberItems_readable members⟩
  | .null | .boolean _ | .integer _ | .unsigned _ | .integer64 _ | .unsigned64 _ | .real _
  | .string _ => by
      rw [items_scalar rfl, List.forall_mem_singleton]
      exact next_scalarItem _

theorem elementItems_readable : ∀ elements : List Value,
    ∀ item ∈ elementItems elements, item.Readable
  | [] => List.forall_mem_nil _
  | element :: elements => by
      rw [elementItems, List.forall_mem_append]
      exact ⟨items_readable element, elementItems_readable elements⟩

theorem memberItems_readable : ∀ members : List (Value × Value),
    ∀ item ∈ memberItems members, item.Readable
  | [] => List.forall_mem_nil _
  | (key, value) :: members => by
      rw [memberItems, List.forall_mem_cons, List.forall_mem_append]
      exact ⟨next_scalarItem key, items_readable value, memberItems_readable members⟩
end

end PackWriter

end Join
