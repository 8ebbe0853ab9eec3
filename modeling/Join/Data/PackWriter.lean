import Join.Data.Sax
import Join.Core.ByteSwap

/-!
# PackWriter

The MessagePack writer appends one item for every event of a value walk: a head byte
that names a format, and what the format adds to it. A number of several bytes is
swapped to network order and appended as it lies in memory.
-/

set_option autoImplicit false

namespace Join

open Library

/-- `PackWriter`, by what it has appended to its output stream. -/
structure PackWriter where
  out : Bytes
deriving Repr

namespace PackWriter

/-- A step of the writer. -/
abbrev Step := Program PackWriter Failure Unit

def append (bytes : Bytes) : Step :=
  Program.change fun writer => { writer with out := writer.out ++ bytes }

/-! ## Numbers in network order -/

def packUint8 (value : UInt8) : Step := append (leBytes 1 value.toNat)

def packUint16 (value : UInt16) : Step := append (leBytes 2 (byteswap2 false value.toBitVec).toNat)

def packUint32 (value : UInt32) : Step := append (leBytes 4 (byteswap4 value.toBitVec).toNat)

def packUint64 (value : UInt64) : Step := append (leBytes 8 (byteswap8 value.toBitVec).toNat)

/-- A `float` is swapped as the integer of its bits. -/
def packFloat (value : Single) : Step := packUint32 value.bits

def packDouble (value : Double) : Step := packUint64 value.bits

/-! ## Events -/

def setNull : Step := append [0xc0]

def setBool (value : Bool) : Step := if value then append [0xc3] else append [0xc2]

def setInt (value : Int32) : Step :=
  if value.toInt < -2 ^ 15 then do
    append [0xd2]
    packUint32 (UInt32.ofInt value.toInt)
  else if value.toInt < -2 ^ 7 then do
    append [0xd1]
    packUint16 (UInt16.ofInt value.toInt)
  else if value.toInt < -2 ^ 5 then do
    append [0xd0]
    packUint8 (UInt8.ofInt value.toInt)
  else if value.toInt < 2 ^ 7 then append [UInt8.ofInt value.toInt]
  else if value.toInt < 2 ^ 8 then do
    append [0xcc]
    packUint8 (UInt8.ofInt value.toInt)
  else if value.toInt < 2 ^ 16 then do
    append [0xcd]
    packUint16 (UInt16.ofInt value.toInt)
  else do
    append [0xce]
    packUint32 (UInt32.ofInt value.toInt)

def setUint (value : UInt32) : Step :=
  if value.toNat < 2 ^ 7 then append [UInt8.ofNat value.toNat]
  else if value.toNat < 2 ^ 8 then do
    append [0xcc]
    packUint8 (UInt8.ofNat value.toNat)
  else if value.toNat < 2 ^ 16 then do
    append [0xcd]
    packUint16 (UInt16.ofNat value.toNat)
  else do
    append [0xce]
    packUint32 value

def setInt64 (value : Int64) : Step :=
  if value.toInt < -2 ^ 31 then do
    append [0xd3]
    packUint64 (UInt64.ofInt value.toInt)
  else if value.toInt < -2 ^ 15 then do
    append [0xd2]
    packUint32 (UInt32.ofInt value.toInt)
  else if value.toInt < -2 ^ 7 then do
    append [0xd1]
    packUint16 (UInt16.ofInt value.toInt)
  else if value.toInt < -2 ^ 5 then do
    append [0xd0]
    packUint8 (UInt8.ofInt value.toInt)
  else if value.toInt < 2 ^ 7 then append [UInt8.ofInt value.toInt]
  else if value.toInt < 2 ^ 8 then do
    append [0xcc]
    packUint8 (UInt8.ofInt value.toInt)
  else if value.toInt < 2 ^ 16 then do
    append [0xcd]
    packUint16 (UInt16.ofInt value.toInt)
  else if value.toInt < 2 ^ 32 then do
    append [0xce]
    packUint32 (UInt32.ofInt value.toInt)
  else do
    append [0xcf]
    packUint64 (UInt64.ofInt value.toInt)

def setUint64 (value : UInt64) : Step :=
  if value.toNat < 2 ^ 7 then append [UInt8.ofNat value.toNat]
  else if value.toNat < 2 ^ 8 then do
    append [0xcc]
    packUint8 (UInt8.ofNat value.toNat)
  else if value.toNat < 2 ^ 16 then do
    append [0xcd]
    packUint16 (UInt16.ofNat value.toNat)
  else if value.toNat < 2 ^ 32 then do
    append [0xce]
    packUint32 (UInt32.ofNat value.toNat)
  else do
    append [0xcf]
    packUint64 value

/-- A double that survives the conversion to a float is written as one. -/
def setDouble (value : Double) : Step :=
  if value.isFinite && value.toSingle.toDouble.eq value then do
    append [0xca]
    packFloat value.toSingle
  else do
    append [0xcb]
    packDouble value

/-- The head of a string. -/
def stringHead (size : ℕ) : Step :=
  if size < 32 then append [UInt8.ofNat (0xa0 ||| size)]
  else if size < 256 then do
    append [0xd9]
    packUint8 (UInt8.ofNat size)
  else if size < 65536 then do
    append [0xda]
    packUint16 (UInt16.ofNat size)
  else do
    append [0xdb]
    packUint32 (UInt32.ofNat size)

/-- The size is narrowed to 32 bits, in the head and for the copy of the characters. -/
def setString (value : Bytes) : Step := do
  stringHead value.length
  append (value.take (value.length % 2 ^ 32))

def startArray (size : UInt32) : Step :=
  if size.toNat < 16 then append [UInt8.ofNat (0x90 ||| size.toNat)]
  else if size.toNat < 65536 then do
    append [0xdc]
    packUint16 (UInt16.ofNat size.toNat)
  else do
    append [0xdd]
    packUint32 size

def startObject (size : UInt32) : Step :=
  if size.toNat < 16 then append [UInt8.ofNat (0x80 ||| size.toNat)]
  else if size.toNat < 65536 then do
    append [0xde]
    packUint16 (UInt16.ofNat size.toNat)
  else do
    append [0xdf]
    packUint32 size

/-- The events but `setKey`, which calls back into the walk. -/
def scalars (setKey : Value → Step) : SaxHandler PackWriter where
  setNull := setNull
  setBool := setBool
  setInt := setInt
  setUint := setUint
  setInt64 := setInt64
  setUint64 := setUint64
  setDouble := setDouble
  setString := setString
  startArray := startArray
  -- the closing events of `SaxHandler` do nothing
  stopArray := pure ()
  startObject := startObject
  setKey := setKey
  stopObject := pure ()

/-- A key is written as a value. It is no container, so no key is written inside it. -/
def setKey (key : Value) : Step :=
  if key.isArray || key.isObject then Program.fail (.sax .invalidKey)
  else StreamWriter.setValue (scalars fun _ => Program.fail (.sax .invalidKey)) key

/-- The writer as a handler of events. -/
def handler : SaxHandler PackWriter := scalars setKey

/-- `PackWriter::serialize` with a new writer: the code it returns and the bytes it has
written. -/
def serialize (value : Value) : ℤ × Bytes :=
  match StreamWriter.setValue handler value ⟨[]⟩ with
  | some (.ok (), writer) => (0, writer.out)
  | some (.error _, writer) => (-1, writer.out)
  | none => (-1, [])

end PackWriter

end Join
