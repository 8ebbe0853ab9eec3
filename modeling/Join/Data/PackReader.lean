import Join.Data.Reading
import Join.Core.ByteSwap

/-!
# PackReader

The MessagePack reader looks at the head byte of an item and branches by its format.
A container announces how many items it holds, and the reader asks for as many; at
the end of the input `peek` and `get` answer with the character that converts to
`0xFF`, the head of the integer `-1`.

The body of `readValue` and of `readKey` is guarded: an exception becomes
`InvalidValue`. The one exception that the reader itself raises is that of `unpack`
on an input that is too short.
-/

set_option autoImplicit false

namespace Join

open Library

namespace PackReader

/-! ## Formats -/

def isNull (c : UInt8) : Bool := c == 0xc0

def isFalse (c : UInt8) : Bool := c == 0xc2

def isTrue (c : UInt8) : Bool := c == 0xc3

def isInt (c : UInt8) : Bool :=
  (c ≤ 0x7f || c ≥ 0xe0) || c == 0xd0 || c == 0xd1 || c == 0xd2

def isUint (c : UInt8) : Bool := c == 0xcc || c == 0xcd || c == 0xce

def isInt64 (c : UInt8) : Bool := c == 0xd3

def isUint64 (c : UInt8) : Bool := c == 0xcf

def isReal (c : UInt8) : Bool := c == 0xca || c == 0xcb

def isNumber (c : UInt8) : Bool := isInt c || isUint c || isInt64 c || isUint64 c || isReal c

def isString (c : UInt8) : Bool :=
  (c ≥ 0xa0 && c ≤ 0xbf) || c == 0xd9 || c == 0xda || c == 0xdb

def isBin (c : UInt8) : Bool := c == 0xc4 || c == 0xc5 || c == 0xc6

def isArray (c : UInt8) : Bool := (c ≥ 0x90 && c ≤ 0x9f) || c == 0xdc || c == 0xdd

def isObject (c : UInt8) : Bool := (c ≥ 0x80 && c ≤ 0x8f) || c == 0xde || c == 0xdf

/-! ## Numbers in network order -/

/-- The value that bytes in memory have as a number of one byte, which is not swapped. -/
def bits8 (memory : Bytes) : BitVec 8 := .ofNat 8 (leValue memory)

/-- The value after `swap` of two bytes that were read into memory. -/
def bits16 (signed : Bool) (memory : Bytes) : BitVec 16 :=
  byteswap2 signed (.ofNat 16 (leValue memory))

def bits32 (memory : Bytes) : BitVec 32 := byteswap4 (.ofNat 32 (leValue memory))

def bits64 (memory : Bytes) : BitVec 64 := byteswap8 (.ofNat 64 (leValue memory))

section

variable {V α : Type} [View V]

open Reader

/-- `unpack`: the bytes of a number and what they are converted to. -/
def unpack (size : ℕ) (convert : Bytes → α) : Reader V α := do
  let memory ← Reader.read size
  if memory.length ≠ size then Program.fail .thrown else pure (convert memory)

def unpackUint8 : Reader V UInt8 := unpack 1 fun memory => ⟨bits8 memory⟩

def unpackUint16 : Reader V UInt16 := unpack 2 fun memory => ⟨bits16 false memory⟩

def unpackUint32 : Reader V UInt32 := unpack 4 fun memory => ⟨bits32 memory⟩

def unpackUint64 : Reader V UInt64 := unpack 8 fun memory => ⟨bits64 memory⟩

def unpackInt8 : Reader V Int8 := unpack 1 fun memory => ⟨⟨bits8 memory⟩⟩

def unpackInt16 : Reader V Int16 := unpack 2 fun memory => ⟨⟨bits16 true memory⟩⟩

def unpackInt32 : Reader V Int32 := unpack 4 fun memory => ⟨⟨bits32 memory⟩⟩

def unpackInt64 : Reader V Int64 := unpack 8 fun memory => ⟨⟨bits64 memory⟩⟩

def unpackFloat : Reader V Single := unpack 4 fun memory => ⟨⟨bits32 memory⟩⟩

def unpackDouble : Reader V Double := unpack 8 fun memory => ⟨⟨bits64 memory⟩⟩

/-! ## Scalars -/

/-- Hand a scalar to the handler, as the key of a member or as a value. -/
def deliver (isKey : Bool) (value : Value) : Reader V Unit :=
  if isKey then event (StreamReader.setKey value) else setValue value

def readNull (isKey : Bool) : Reader V Unit := do
  let _ ← get
  deliver isKey .null

def readFalse (isKey : Bool) : Reader V Unit := do
  let _ ← get
  deliver isKey (.boolean false)

def readTrue (isKey : Bool) : Reader V Unit := do
  let _ ← get
  deliver isKey (.boolean true)

/-- The characters of a string or of binary data. -/
def readOutput (isKey : Bool) (len : UInt32) : Reader V Unit := do
  let output ← Reader.read len.toNat
  if output.length ≠ len.toNat then saxError .invalidValue else deliver isKey (.string output)

/-- The length of a string. -/
def stringLength : Reader V UInt32 := do
  let wide ← getIf 0xdb
  if wide then unpackUint32
  else do
    let medium ← getIf 0xda
    if medium then do
      let len ← unpackUint16
      pure len.toUInt32
    else do
      let narrow ← getIf 0xd9
      if narrow then do
        let len ← unpackUint8
        pure len.toUInt32
      else do
        let head ← unpackUint8
        pure (head.toUInt32 &&& ~~~0xa0)

def readString (isKey : Bool) : Reader V Unit := do
  let len ← stringLength
  readOutput isKey len

/-- The length of binary data. -/
def binLength : Reader V UInt32 := do
  let wide ← getIf 0xc6
  if wide then unpackUint32
  else do
    let medium ← getIf 0xc5
    if medium then do
      let len ← unpackUint16
      pure len.toUInt32
    else do
      let narrow ← getIf 0xc4
      if narrow then do
        let len ← unpackUint8
        pure len.toUInt32
      else pure 0

def readBin : Reader V Unit := do
  let len ← binLength
  readOutput false len

def readNumber (isKey : Bool) : Reader V Unit := do
  let character ← get
  let head := character.toByte
  if head ≤ 0x7f then deliver isKey (.unsigned head.toUInt32)
  else if head ≥ 0xe0 then deliver isKey (.integer head.toInt8.toInt32)
  else if head = 0xd3 then do
    let number ← unpackInt64
    deliver isKey (.integer64 number)
  else if head = 0xcf then do
    let number ← unpackUint64
    deliver isKey (.unsigned64 number)
  else if head = 0xcb then do
    let number ← unpackDouble
    deliver isKey (.real number)
  else if head = 0xd2 then do
    let number ← unpackInt32
    deliver isKey (.integer number)
  else if head = 0xce then do
    let number ← unpackUint32
    deliver isKey (.unsigned number)
  else if head = 0xca then do
    let number ← unpackFloat
    deliver isKey (.real number.toDouble)
  else if head = 0xd1 then do
    let number ← unpackInt16
    deliver isKey (.integer number.toInt32)
  else if head = 0xcd then do
    let number ← unpackUint16
    deliver isKey (.unsigned number.toUInt32)
  else if head = 0xd0 then do
    let number ← unpackInt8
    deliver isKey (.integer number.toInt32)
  else if head = 0xcc then do
    let number ← unpackUint8
    deliver isKey (.unsigned number.toUInt32)
  else saxError .invalidValue

/-! ## Values -/

/-- What `catch (...)` makes of a failure. -/
def caught : Failure → Failure
  | .thrown => .sax .invalidValue
  | failure => failure

/-- `readKey`. -/
def readKey : Reader V Unit := do
  let character ← peek
  let head := character.toByte
  Program.mapFailure (
    if isNull head then readNull true
    else if isFalse head then readFalse true
    else if isTrue head then readTrue true
    else if isString head then readString true
    else if isNumber head then readNumber true
    else saxError .invalidValue) caught

/-- The number of elements of an array. -/
def arrayLength : Reader V UInt32 := do
  let wide ← getIf 0xdd
  if wide then unpackUint32
  else do
    let medium ← getIf 0xdc
    if medium then do
      let len ← unpackUint16
      pure len.toUInt32
    else do
      let head ← unpackUint8
      pure (head.toUInt32 &&& ~~~0x90)

/-- The number of members of an object. -/
def objectLength : Reader V UInt32 := do
  let wide ← getIf 0xdf
  if wide then unpackUint32
  else do
    let medium ← getIf 0xde
    if medium then do
      let len ← unpackUint16
      pure len.toUInt32
    else do
      let head ← unpackUint8
      pure (head.toUInt32 &&& ~~~0x80)

/-- `while (len) { ...; --len; }`. -/
def times (round : Reader V Unit) : ℕ → Reader V Unit
  | 0 => pure ()
  | len + 1 => do
      round
      times round len

/-- `readArray`, given how an element is read. -/
def readArray (readValue : Reader V Unit) : Reader V Unit := do
  let len ← arrayLength
  event StreamReader.startArray
  times readValue len.toNat
  event StreamReader.stopContainer

/-- A round of the loop of `readObject`. -/
def readMember (readValue : Reader V Unit) : Reader V Unit := do
  readKey
  readValue

/-- `readObject`, given how the value of a member is read. -/
def readObject (readValue : Reader V Unit) : Reader V Unit := do
  let len ← objectLength
  event StreamReader.startObject
  times (readMember readValue) len.toNat
  event StreamReader.stopContainer

/-- `readValue`. The fuel bounds how deep the calls are nested. -/
def readValue : ℕ → Reader V Unit
  | 0 => Program.exhausted
  | fuel + 1 => do
      let character ← peek
      let head := character.toByte
      Program.mapFailure (
        if isArray head then readArray (readValue fuel)
        else if isObject head then readObject (readValue fuel)
        else if isNull head then readNull false
        else if isFalse head then readFalse false
        else if isTrue head then readTrue false
        else if isString head then readString false
        else if isBin head then readBin
        else if isNumber head then readNumber false
        else saxError .invalidValue) caught

/-- `PackReader::read`. -/
def read (fuel : ℕ) : Reader V Unit := do
  readValue fuel
  let character ← peek
  if character ≠ none then saxError .extraData else pure ()

end

/-- Every nested call is made behind a container that the handler has opened, and the
handler opens no more than `maxdepth`. -/
def fuel : ℕ := StreamReader.maxdepth + 1

/-- `PackReader::deserialize` of a byte string through a view: the returned code and the
state of the reader object after the call. -/
def deserialize (kind : ViewKind) (bytes : Bytes) (handler : StreamReader) : ℤ × StreamReader :=
  match kind with
  | .string => Reader.outcome handler (read fuel ⟨StringView.ofBytes bytes, handler⟩)
  | .seekableStream =>
      Reader.outcome handler (read fuel ⟨(⟨StreamBuf.ofBytes bytes⟩ : SeekableStreamView), handler⟩)
  | .stream =>
      Reader.outcome handler (read fuel ⟨(⟨StreamBuf.ofBytes bytes⟩ : StreamView), handler⟩)

end PackReader

end Join
