import Join.Data.PackViews
import Join.Library.Byte

/-!
# MessagePack items

A document is a sequence of items. `next` takes the first item of an input apart: a
scalar, binary data, or the head of a container with the number of values that it
announces. It fails when the head byte names no format and when the input ends inside
the item. In front of no item at all it answers as the reader does, with the integer
that the head `0xFF` stands for.

The functions of the reader decode and deliver what `next` describes.
-/

set_option autoImplicit false
set_option maxRecDepth 1024

namespace Join.PackReader

open Library

/-- What an item tells the reader. -/
inductive Token where
  | scalar (value : Value)
  | binary (bytes : Bytes)
  | array (count : ℕ)
  | object (count : ℕ)
deriving Repr

/-! ## Items of an input -/

section Decoding

variable {α : Type}

/-- A field of fixed size. -/
def field (size : ℕ) (convert : Bytes → α) (input : Bytes) : Option (α × Bytes) :=
  if size ≤ input.length then some (convert (input.take size), input.drop size) else none

theorem field_map {β : Type} (size : ℕ) (convert : Bytes → α) (wrap : α → β) (input : Bytes) :
    (field size convert input).map (Prod.map wrap id) =
      field size (fun memory => wrap (convert memory)) input := by
  unfold field
  split <;> rfl

def uint8Field (input : Bytes) : Option (UInt32 × Bytes) :=
  field 1 (fun memory => (⟨bits8 memory⟩ : UInt8).toUInt32) input

def uint16Field (input : Bytes) : Option (UInt32 × Bytes) :=
  field 2 (fun memory => (⟨bits16 false memory⟩ : UInt16).toUInt32) input

def uint32Field (input : Bytes) : Option (UInt32 × Bytes) :=
  field 4 (fun memory => ⟨bits32 memory⟩) input

/-- The length that the head of a string announces. -/
def stringCount (head : UInt8) (rest : Bytes) : Option (UInt32 × Bytes) :=
  if head = 0xdb then uint32Field rest
  else if head = 0xda then uint16Field rest
  else if head = 0xd9 then uint8Field rest
  else some (head.toUInt32 &&& ~~~0xa0, rest)

/-- The length that the head of binary data announces. -/
def binCount (head : UInt8) (rest : Bytes) : Option (UInt32 × Bytes) :=
  if head = 0xc6 then uint32Field rest
  else if head = 0xc5 then uint16Field rest
  else uint8Field rest

def arrayCount (head : UInt8) (rest : Bytes) : Option (UInt32 × Bytes) :=
  if head = 0xdd then uint32Field rest
  else if head = 0xdc then uint16Field rest
  else some (head.toUInt32 &&& ~~~0x90, rest)

def objectCount (head : UInt8) (rest : Bytes) : Option (UInt32 × Bytes) :=
  if head = 0xdf then uint32Field rest
  else if head = 0xde then uint16Field rest
  else some (head.toUInt32 &&& ~~~0x80, rest)

/-- As many characters as announced. -/
def characters (count : Option (UInt32 × Bytes)) : Option (Bytes × Bytes) :=
  count.bind fun (len, rest) => field len.toNat id rest

/-- The number behind a head. -/
def number (head : UInt8) (rest : Bytes) : Option (Value × Bytes) :=
  if head ≤ 0x7f then some (.unsigned head.toUInt32, rest)
  else if head ≥ 0xe0 then some (.integer head.toInt8.toInt32, rest)
  else if head = 0xd3 then field 8 (fun memory => .integer64 ⟨⟨bits64 memory⟩⟩) rest
  else if head = 0xcf then field 8 (fun memory => .unsigned64 ⟨bits64 memory⟩) rest
  else if head = 0xcb then field 8 (fun memory => .real ⟨⟨bits64 memory⟩⟩) rest
  else if head = 0xd2 then field 4 (fun memory => .integer ⟨⟨bits32 memory⟩⟩) rest
  else if head = 0xce then field 4 (fun memory => .unsigned ⟨bits32 memory⟩) rest
  else if head = 0xca then
    field 4 (fun memory => .real (Single.toDouble ⟨⟨bits32 memory⟩⟩)) rest
  else if head = 0xd1 then
    field 2 (fun memory => .integer (Int16.toInt32 ⟨⟨bits16 true memory⟩⟩)) rest
  else if head = 0xcd then
    field 2 (fun memory => .unsigned (UInt16.toUInt32 ⟨bits16 false memory⟩)) rest
  else if head = 0xd0 then
    field 1 (fun memory => .integer (Int8.toInt32 ⟨⟨bits8 memory⟩⟩)) rest
  else if head = 0xcc then
    field 1 (fun memory => .unsigned (UInt8.toUInt32 ⟨bits8 memory⟩)) rest
  else none

/-- The scalar behind a head. -/
def scalar (head : UInt8) (rest : Bytes) : Option (Value × Bytes) :=
  if isNull head then some (.null, rest)
  else if isFalse head then some (.boolean false, rest)
  else if isTrue head then some (.boolean true, rest)
  else if isString head then (characters (stringCount head rest)).map (Prod.map .string id)
  else if isNumber head then number head rest
  else none

/-- The item behind a head. -/
def item (head : UInt8) (rest : Bytes) : Option (Token × Bytes) :=
  if isArray head then (arrayCount head rest).map (Prod.map (fun len => .array len.toNat) id)
  else if isObject head then
    (objectCount head rest).map (Prod.map (fun len => .object len.toNat) id)
  else if isBin head then (characters (binCount head rest)).map (Prod.map .binary id)
  else (scalar head rest).map (Prod.map .scalar id)

/-- The first item of an input. -/
def next (input : Bytes) : Option (Token × Bytes) :=
  item (Character.toByte input.head?) input.tail

end Decoding

/-! ## What the reader decodes -/

/-- In front of `input` the program returns what was decoded, or refuses. -/
def Decodes {α : Type} (input : Bytes) (program : Reader PlainView α) :
    Option (α × Bytes) → Prop
  | some (value, rest) => Advances input rest program value
  | none => ∃ failure, Refuses input program failure

/-- The event of a scalar. -/
def deliverEvents (isKey : Bool) (value : Value) : Program StreamReader Failure Unit :=
  if isKey then StreamReader.setKey value else StreamReader.setValue value

/-- In front of `input` the program delivers what was decoded, or refuses. -/
def Sends (isKey : Bool) (input : Bytes) (program : Reader PlainView Unit) :
    Option (Value × Bytes) → Prop
  | some (value, rest) => Follows input rest program (deliverEvents isKey value)
  | none => ∃ failure, Refuses input program failure

section Rules

variable {α β : Type} {input : Bytes} {program : Reader PlainView α} {isKey : Bool}

theorem Decodes.advance {middle : Bytes} {first : Reader PlainView β} {value : β}
    {next : β → Reader PlainView α} {result : Option (α × Bytes)}
    (start : Advances input middle first value) (rest : Decodes middle (next value) result) :
    Decodes input (first >>= next) result := by
  cases result with
  | none =>
      obtain ⟨failure, refuses⟩ := rest
      exact ⟨failure, start.refuses refuses⟩
  | some final => exact Advances.bind start rest

theorem Sends.advance {middle : Bytes} {first : Reader PlainView α} {value : α}
    {next : α → Reader PlainView Unit} {result : Option (Value × Bytes)}
    (start : Advances input middle first value) (rest : Sends isKey middle (next value) result) :
    Sends isKey input (first >>= next) result := by
  cases result with
  | none =>
      obtain ⟨failure, refuses⟩ := rest
      exact ⟨failure, start.refuses refuses⟩
  | some final => exact Advances.follows start rest

theorem Decodes.map {result : Option (α × Bytes)} (decodes : Decodes input program result)
    (convert : α → β) :
    Decodes input (program >>= fun value => pure (convert value))
      (result.map (Prod.map convert id)) := by
  cases result with
  | none =>
      obtain ⟨failure, refuses⟩ := decodes
      exact ⟨failure, refuses.bind _⟩
  | some found => exact Advances.bind decodes (Advances.pure _ _)

theorem Decodes.sends {result : Option (α × Bytes)} (decodes : Decodes input program result)
    {next : α → Reader PlainView Unit} {after : α → Bytes → Option (Value × Bytes)}
    (rest : ∀ value remaining, Sends isKey remaining (next value) (after value remaining)) :
    Sends isKey input (program >>= next)
      (result.bind fun (value, remaining) => after value remaining) := by
  cases result with
  | none =>
      obtain ⟨failure, refuses⟩ := decodes
      exact ⟨failure, refuses.bind next⟩
  | some found => exact Sends.advance decodes (rest found.1 found.2)

theorem Sends.ite {condition : Prop} [Decidable condition] {yes no : Reader PlainView Unit}
    {taken other : Option (Value × Bytes)} (holds : condition → Sends isKey input yes taken)
    (fails : ¬ condition → Sends isKey input no other) :
    Sends isKey input (if condition then yes else no) (if condition then taken else other) := by
  split
  case isTrue proof => exact holds proof
  case isFalse proof => exact fails proof

theorem deliver_sends (isKey : Bool) (input : Bytes) (value : Value) :
    Sends isKey input (deliver isKey value) (some (value, input)) := by
  cases isKey with
  | false => exact Follows.event input (StreamReader.setValue value)
  | true => exact Follows.event input (StreamReader.setKey value)

theorem Decodes.delivers {result : Option (α × Bytes)} (decodes : Decodes input program result)
    (wrap : α → Value) :
    Sends isKey input (program >>= fun value => deliver isKey (wrap value))
      (result.map (Prod.map wrap id)) := by
  cases result with
  | none =>
      obtain ⟨failure, refuses⟩ := decodes
      exact ⟨failure, refuses.bind _⟩
  | some found => exact Sends.advance decodes (deliver_sends _ _ _)

theorem fail_sends (isKey : Bool) (input : Bytes) (failure : Failure) :
    Sends isKey input (Program.fail failure) none :=
  ⟨failure, Refuses.fail input failure⟩

theorem unpack_decodes (size : ℕ) (convert : Bytes → α) (input : Bytes) :
    Decodes input (unpack size convert) (field size convert input) := by
  have start : Advances input (input.drop size) (Reader.read size) (input.take size) :=
    fun _ => rfl
  unfold field
  by_cases enough : size ≤ input.length
  · rw [if_pos enough]
    have full : ¬ (input.take size).length ≠ size := by
      rw [List.length_take]
      omega
    exact start.bind (.ifNeg full (.pure _ _))
  · rw [if_neg enough]
    have short : (input.take size).length ≠ size := by
      rw [List.length_take]
      omega
    exact ⟨.thrown, start.refuses (.ifPos short (.fail _ _))⟩

/-- The byte in front is taken when it is the expected one. -/
theorem getIf_decodes {head expected : UInt8} {rest : Bytes} {yes no : Reader PlainView α}
    {taken other : Option (α × Bytes)} (holds : head = expected → Decodes rest yes taken)
    (fails : head ≠ expected → Decodes (head :: rest) no other) :
    Decodes (head :: rest) (Reader.getIf expected >>= fun found => if found then yes else no)
      (if head = expected then taken else other) := by
  split
  case isTrue same =>
      subst same
      exact Decodes.advance (Advances.getIf_true head rest) (holds rfl)
  case isFalse differs =>
      have other : (head :: rest).head? ≠ some expected := fun same => differs (Option.some.inj same)
      exact Decodes.advance (Advances.getIf_false other) (fails differs)

end Rules

/-! ## The functions of the reader -/

section Functions

variable {head : UInt8} {rest : Bytes}

/-- The head itself, when it carries the length. -/
theorem head_decodes (head : UInt8) (rest : Bytes) (mask : UInt32) :
    Decodes (head :: rest)
      (unpackUint8 >>= fun head => (pure (head.toUInt32 &&& mask) : Reader PlainView UInt32))
      (some (head.toUInt32 &&& mask, rest)) := by
  have taken := (unpack_decodes 1 (fun memory => (⟨bits8 memory⟩ : UInt8)) (head :: rest)).map
    fun head => head.toUInt32 &&& mask
  have byte : (⟨bits8 [head]⟩ : UInt8) = head := by
    apply UInt8.toNat_inj.mp
    have small := head.toNat_lt
    simp only [bits8, leValue, UInt8.toNat, BitVec.toNat_ofNat]
    omega
  unfold unpackUint8
  simpa [field, byte] using taken

theorem uint8_decodes (rest : Bytes) :
    Decodes rest (unpackUint8 >>= fun len => (pure len.toUInt32 : Reader PlainView UInt32))
      (uint8Field rest) := by
  have taken := (unpack_decodes 1 (fun memory => (⟨bits8 memory⟩ : UInt8)) rest).map UInt8.toUInt32
  rwa [field_map] at taken

theorem uint16_decodes (rest : Bytes) :
    Decodes rest (unpackUint16 >>= fun len => (pure len.toUInt32 : Reader PlainView UInt32))
      (uint16Field rest) := by
  have taken := (unpack_decodes 2 (fun memory => (⟨bits16 false memory⟩ : UInt16)) rest).map
    UInt16.toUInt32
  rwa [field_map] at taken

theorem stringLength_decodes (head : UInt8) (rest : Bytes) :
    Decodes (head :: rest) stringLength (stringCount head rest) :=
  getIf_decodes (fun _ => unpack_decodes 4 _ rest) fun _ =>
    getIf_decodes (fun _ => uint16_decodes rest) fun _ =>
      getIf_decodes (fun _ => uint8_decodes rest) fun _ => head_decodes head rest _

theorem arrayLength_decodes (head : UInt8) (rest : Bytes) :
    Decodes (head :: rest) arrayLength (arrayCount head rest) :=
  getIf_decodes (fun _ => unpack_decodes 4 _ rest) fun _ =>
    getIf_decodes (fun _ => uint16_decodes rest) fun _ => head_decodes head rest _

theorem objectLength_decodes (head : UInt8) (rest : Bytes) :
    Decodes (head :: rest) objectLength (objectCount head rest) :=
  getIf_decodes (fun _ => unpack_decodes 4 _ rest) fun _ =>
    getIf_decodes (fun _ => uint16_decodes rest) fun _ => head_decodes head rest _

theorem binLength_decodes (bin : isBin head = true) (rest : Bytes) :
    Decodes (head :: rest) binLength (binCount head rest) := by
  refine getIf_decodes (fun _ => unpack_decodes 4 _ rest) fun notWide =>
    getIf_decodes (fun _ => uint16_decodes rest) fun notMedium => ?_
  have narrow : head = 0xc4 := by simpa [isBin, notWide, notMedium] using bin
  have none : Decodes (head :: rest) (pure 0) (some ((0 : UInt32), head :: rest)) :=
    Advances.pure _ _
  have taken := getIf_decodes (fun _ : head = 0xc4 => uint8_decodes rest) fun _ => none
  rwa [if_pos narrow] at taken

theorem readOutput_sends (isKey : Bool) (len : UInt32) (rest : Bytes) :
    Sends isKey rest (readOutput isKey len)
      ((field len.toNat id rest).map (Prod.map .string id)) := by
  have start : Advances rest (rest.drop len.toNat) (Reader.read len.toNat) (rest.take len.toNat) :=
    fun _ => rfl
  refine Sends.advance start ?_
  unfold field
  by_cases enough : len.toNat ≤ rest.length
  · rw [if_pos enough, if_neg (by rw [List.length_take]; omega)]
    exact deliver_sends isKey _ _
  · rw [if_neg enough, if_pos (by rw [List.length_take]; omega)]
    exact fail_sends isKey _ _

/-- Characters behind a length. -/
theorem characters_sends {isKey : Bool} {length : Reader PlainView UInt32} {input : Bytes}
    {count : Option (UInt32 × Bytes)} (decodes : Decodes input length count) :
    Sends isKey input (length >>= readOutput isKey)
      ((characters count).map (Prod.map .string id)) := by
  have sends := decodes.sends fun len rest => readOutput_sends isKey len rest
  unfold characters
  cases count <;> exact sends

theorem readNumber_sends (isKey : Bool) (input : Bytes) :
    Sends isKey input (readNumber isKey) (number (Character.toByte input.head?) input.tail) := by
  refine Sends.advance (Advances.get input) ?_
  unfold number
  refine .ite (fun _ => deliver_sends _ _ _) fun _ => .ite (fun _ => deliver_sends _ _ _)
    fun _ => ?_
  -- ten formats with a payload
  have payload {α : Type} (size : ℕ) (convert : Bytes → α) (wrap : α → Value) :
      Sends isKey input.tail
        (unpack size convert >>= fun number => deliver isKey (wrap number))
        (field size (fun memory => wrap (convert memory)) input.tail) := by
    rw [← field_map]
    exact (unpack_decodes size convert input.tail).delivers wrap
  iterate 10 refine .ite (fun _ => payload _ _ _) fun _ => ?_
  exact fail_sends _ _ _

/-- The scalar branches of `readKey` and `readValue`, with what follows the strings. -/
theorem scalars_send {isKey : Bool} {input : Bytes} {others : Reader PlainView Unit}
    (numbers : isNumber (Character.toByte input.head?) = true →
      Sends isKey input others (number (Character.toByte input.head?) input.tail))
    (unknown : isNumber (Character.toByte input.head?) = false → Sends isKey input others none) :
    Sends isKey input
      (if isNull (Character.toByte input.head?) then readNull isKey
      else if isFalse (Character.toByte input.head?) then readFalse isKey
      else if isTrue (Character.toByte input.head?) then readTrue isKey
      else if isString (Character.toByte input.head?) then readString isKey
      else others) (scalar (Character.toByte input.head?) input.tail) := by
  unfold scalar
  refine .ite (fun _ => Sends.advance (Advances.get input) (deliver_sends _ _ _)) fun _ =>
    .ite (fun _ => Sends.advance (Advances.get input) (deliver_sends _ _ _)) fun _ =>
    .ite (fun _ => Sends.advance (Advances.get input) (deliver_sends _ _ _)) fun _ =>
    .ite (fun string => ?_) fun _ => ?_
  · cases input with
    | nil => cases string
    | cons head rest => exact characters_sends (stringLength_decodes head rest)
  · split
    case isTrue isNumber => exact numbers isNumber
    case isFalse other => exact unknown (Bool.not_eq_true _ ▸ other)

end Functions

/-! ## Keys and values that are no containers -/

/-- The first item of an input, read as a key. -/
def key (input : Bytes) : Option (Value × Bytes) := scalar (Character.toByte input.head?) input.tail

/-- A key is an item that is a scalar. -/
def Token.key? : Token → Option Value
  | .scalar value => some value
  | _ => none

/-- The head of a container or of binary data is the head of no scalar. -/
theorem scalar_eq_none {head : UInt8}
    (other : isArray head || isObject head || isBin head) (rest : Bytes) :
    scalar head rest = none := by
  have disjoint : ∀ head : UInt8, isArray head || isObject head || isBin head →
      isNull head = false ∧ isFalse head = false ∧ isTrue head = false ∧ isString head = false ∧
        isNumber head = false := by decide
  obtain ⟨null, no, yes, string, number⟩ := disjoint head other
  simp only [scalar, null, no, yes, string, number, Bool.false_eq_true, if_false]

theorem key_eq (input : Bytes) :
    key input = (next input).bind fun (token, rest) => token.key?.map (·, rest) := by
  unfold key next item
  split
  case isTrue array =>
      rw [scalar_eq_none (by rw [array]; rfl), Option.bind_map]
      simp [Function.comp_def, Token.key?]
  case isFalse =>
      split
      case isTrue object =>
          rw [scalar_eq_none (by rw [object, Bool.or_true]; rfl), Option.bind_map]
          simp [Function.comp_def, Token.key?]
      case isFalse =>
          split
          case isTrue bin =>
              rw [scalar_eq_none (by rw [bin, Bool.or_true]), Option.bind_map]
              simp [Function.comp_def, Token.key?]
          case isFalse =>
              rw [Option.bind_map]
              simp [Function.comp_def, Token.key?]

/-- A key can be delivered and no exception is raised by that. -/
theorem Sends.caught {input : Bytes} {program : Reader PlainView Unit}
    {result : Option (Value × Bytes)} (sends : Sends true input program result) :
    Sends true input (program.mapFailure caught) result := by
  cases result with
  | none =>
      obtain ⟨failure, refuses⟩ := sends
      refine ⟨PackReader.caught failure, fun handler => ?_⟩
      obtain ⟨document, run⟩ := refuses handler
      exact ⟨document, by rw [Program.mapFailure, run]⟩
  | some found => exact Simulates.mapFailure sends PackReader.caught

theorem readKey_sends (input : Bytes) : Sends true input readKey (key input) := by
  refine Sends.advance (Advances.peek input) (Sends.caught (scalars_send (fun isNumber => ?_) ?_))
  · rw [if_pos isNumber]
    exact readNumber_sends true input
  · intro other
    rw [if_neg (by rw [other]; exact Bool.false_ne_true)]
    exact fail_sends true input _

/-- A value that is no container. -/
def leaf (input : Bytes) : Option (Value × Bytes) :=
  let head := Character.toByte input.head?
  if isBin head then (characters (binCount head input.tail)).map (Prod.map .string id)
  else scalar head input.tail

/-- The branches of `readValue` for values that are no containers. -/
theorem leaf_sends (input : Bytes) :
    Sends false input
      (if isNull (Character.toByte input.head?) then readNull false
      else if isFalse (Character.toByte input.head?) then readFalse false
      else if isTrue (Character.toByte input.head?) then readTrue false
      else if isString (Character.toByte input.head?) then readString false
      else if isBin (Character.toByte input.head?) then readBin
      else if isNumber (Character.toByte input.head?) then readNumber false
      else Reader.saxError .invalidValue) (leaf input) := by
  have disjoint : ∀ head : UInt8, isBin head → isNull head = false ∧ isFalse head = false ∧
      isTrue head = false ∧ isString head = false := by decide
  by_cases bin : isBin (Character.toByte input.head?) = true
  · obtain ⟨null, no, yes, string⟩ := disjoint _ bin
    simp only [leaf, null, no, yes, string, bin, Bool.false_eq_true, if_false, if_true]
    cases input with
    | nil => cases bin
    | cons head rest => exact characters_sends (binLength_decodes bin rest)
  · simp only [leaf, if_neg bin]
    refine scalars_send (fun isNumber => ?_) fun other => ?_
    · rw [if_pos isNumber]
      exact readNumber_sends false input
    · rw [if_neg (by rw [other]; exact Bool.false_ne_true)]
      exact fail_sends false input _

end Join.PackReader
