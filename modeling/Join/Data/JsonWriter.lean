import Join.Data.Sax

/-!
# JsonWriter

The writer serves the events of a value walk and appends to its output stream. It
keeps a stack that tells arrays from objects, the white space in front of the
next line and whether the next value is the first of its container.

`join::dtoa`, which prints a finite double, is a parameter here.
-/

set_option autoImplicit false

namespace Join

open Library

/-- `JsonWriter`, with what it has appended to its output stream. -/
structure JsonWriter where
  out : Bytes
  stack : List Bool
  indentation : ℕ
  tab : Bytes
  first : Bool
deriving Repr

namespace JsonWriter

/-- A writer that has just been constructed. -/
def fresh (indentation : ℕ) : JsonWriter := ⟨[], [], indentation, [], true⟩

/-- A step of the writer. -/
abbrev Step := Program JsonWriter Failure Unit

/-! ## Output -/

/-- Append characters one by one. -/
def append (bytes : Bytes) : Step :=
  Program.change fun writer => { writer with out := writer.out ++ bytes }

/-- `append (data, size)`, where the size is narrowed to 32 bits. -/
def appendSized (bytes : Bytes) : Step := append (bytes.take (bytes.length % 2 ^ 32))

def comma : Step := do
  let writer ← Program.gets id
  if !writer.stack.isEmpty && !writer.first then append [0x2C] else pure ()

def indent : Step := do
  let writer ← Program.gets id
  if writer.indentation ≠ 0 then appendSized writer.tab else pure ()

def space : Step := do
  let writer ← Program.gets id
  if writer.indentation ≠ 0 then append [0x20] else pure ()

def endLine : Step := do
  let writer ← Program.gets id
  if writer.indentation ≠ 0 then append [0x0A] else pure ()

def array : Step := do
  comma
  let writer ← Program.gets id
  if writer.stack.head? = some true then do
    endLine
    indent
  else pure ()

def setFirst (first : Bool) : Step := Program.change fun writer => { writer with first := first }

/-! ## Integers -/

/-- The two characters of `details::digitPairs` for a number below one hundred. -/
def digitPair (number : ℕ) : Bytes :=
  [UInt8.ofNat (0x30 + number / 10), UInt8.ofNat (0x30 + number % 10)]

/-- The loop of `writeUint64`, which fills its buffer from the end. -/
def fillDigits (value : ℕ) (buffer : Bytes) : Bytes :=
  if value ≥ 100 then fillDigits (value / 100) (digitPair (value % 100) ++ buffer)
  else if value ≥ 10 then digitPair value ++ buffer
  else UInt8.ofNat (0x30 + value) :: buffer
termination_by value
decreasing_by omega

def writeUint64 (value : UInt64) : Step :=
  if value = 0 then append [0x30] else appendSized (fillDigits value.toNat [])

def writeInt (value : Int32) : Step :=
  if value = Int32.minValue then do
    append [0x2D]
    writeUint64 (UInt64.ofInt Int32.maxValue.toInt + 1)
  else if value < 0 then do
    append [0x2D]
    writeUint64 (UInt64.ofInt (-value).toInt)
  else writeUint64 (UInt64.ofInt value.toInt)

def writeUint (value : UInt32) : Step := writeUint64 value.toUInt64

def writeInt64 (value : Int64) : Step :=
  if value = Int64.minValue then do
    append [0x2D]
    writeUint64 (UInt64.ofInt Int64.maxValue.toInt + 1)
  else if value < 0 then do
    append [0x2D]
    writeUint64 (UInt64.ofInt (-value).toInt)
  else writeUint64 (UInt64.ofInt value.toInt)

/-! ## Strings -/

/-- `details::unescapedLookup`: the letter by which a byte is escaped, or zero. -/
def unescapedLookup (byte : UInt8) : UInt8 :=
  if byte = 0x08 then 0x62
  else if byte = 0x09 then 0x74
  else if byte = 0x0A then 0x6E
  else if byte = 0x0C then 0x66
  else if byte = 0x0D then 0x72
  else if byte = 0x22 then 0x22
  else if byte = 0x5C then 0x5C
  else if byte < 32 then 0x75
  else 0

/-- The low bits of a byte. -/
def lowBits (byte : UInt8) (mask : UInt8) : ℕ := (byte &&& mask).toNat

/-- `utf8Codepoint` at the front of what is left of a string, with what follows. -/
def utf8Codepoint : Bytes → Option (ℕ × Bytes)
  | [] => none
  | u0 :: rest =>
      if u0 < 0x80 then some (u0.toNat, rest)
      else
        match rest with
        | [] => none
        | u1 :: rest =>
            if u0 < 0xE0 then
              let codepoint := lowBits u0 0x1F * 2 ^ 6 ||| lowBits u1 0x3F
              if codepoint < 0x80 then none else some (codepoint, rest)
            else
              match rest with
              | [] => none
              | u2 :: rest =>
                  if u0 < 0xF0 then
                    let codepoint :=
                      lowBits u0 0x0F * 2 ^ 12 ||| lowBits u1 0x3F * 2 ^ 6 ||| lowBits u2 0x3F
                    if codepoint > 0xD7FF ∧ codepoint < 0xE000 then none
                    else if codepoint < 0x800 then none
                    else some (codepoint, rest)
                  else
                    match rest with
                    | [] => none
                    | u3 :: rest =>
                        if u0 < 0xF8 then
                          let codepoint :=
                            lowBits u0 0x07 * 2 ^ 18 ||| lowBits u1 0x3F * 2 ^ 12 |||
                              lowBits u2 0x3F * 2 ^ 6 ||| lowBits u3 0x3F
                          if codepoint < 0x10000 then none else some (codepoint, rest)
                        else none

/-- A hexadecimal digit as `snprintf` prints it. -/
def hexLetter (digit : ℕ) : UInt8 := UInt8.ofNat (if digit < 10 then 0x30 + digit else 0x57 + digit)

/-- The format `%04x` of a 16-bit number. -/
def hex4 (number : ℕ) : Bytes :=
  [hexLetter (number / 16 ^ 3 % 16), hexLetter (number / 16 ^ 2 % 16),
    hexLetter (number / 16 % 16), hexLetter (number % 16)]

/-- The escape of a code point, in one code unit or in two. -/
def unicodeEscape (codepoint : ℕ) : Bytes :=
  if codepoint ≤ 0xFFFF then [0x5C, 0x75] ++ hex4 codepoint
  else
    let codepoint := codepoint - 0x10000
    [0x5C, 0x75] ++ hex4 (0xD800 + codepoint / 2 ^ 10 % 2 ^ 10) ++
      ([0x5C, 0x75] ++ hex4 (0xDC00 + codepoint % 2 ^ 10))

/-- A byte that is written as it is. -/
def isPlain (byte : UInt8) : Bool := unescapedLookup byte == 0

/-- A run of bytes that are written as they are. -/
def writePlain (plain : Bytes) : Step := if plain ≠ [] then appendSized plain else pure ()

/-- The loop of `writeEscaped`: a run of plain bytes in one piece, then an escape. -/
def escapeLoop : ℕ → Bytes → Step
  | 0, _ => Program.exhausted
  | fuel + 1, value =>
      if value = [] then pure ()
      else do
        writePlain (value.takeWhile isPlain)
        match value.dropWhile isPlain with
        | [] => pure ()
        | byte :: rest =>
            if unescapedLookup byte = 0x75 then
              match utf8Codepoint (byte :: rest) with
              | none => Program.fail (.json .invalidEncoding)
              | some (codepoint, rest) => do
                  append (unicodeEscape codepoint)
                  escapeLoop fuel rest
            else do
              append [0x5C, unescapedLookup byte]
              escapeLoop fuel rest

def writeEscaped (value : Bytes) : Step := escapeLoop (value.length + 1) value

/-! ## Events -/

/-- What the events of scalars share. -/
def setScalar (write : Step) : Step := do
  array
  write
  setFirst false

def setNull : Step := setScalar (append [0x6E, 0x75, 0x6C, 0x6C])

def setBool (value : Bool) : Step :=
  setScalar (if value then append [0x74, 0x72, 0x75, 0x65]
    else append [0x66, 0x61, 0x6C, 0x73, 0x65])

def setInt (value : Int32) : Step := setScalar (writeInt value)

def setUint (value : UInt32) : Step := setScalar (writeUint value)

def setInt64 (value : Int64) : Step := setScalar (writeInt64 value)

def setUint64 (value : UInt64) : Step := setScalar (writeUint64 value)

/-- `setDouble`, with the text that `dtoa` gives for a finite double. -/
def setDouble (dtoa : Double → Bytes) (value : Double) : Step :=
  let negative := value.bits >>> 63 ≠ 0
  setScalar (
    if (value.bits >>> 52) &&& 0x7FF ≠ 0x7FF then appendSized (dtoa value)
    else if value.bits &&& 0x000FFFFFFFFFFFFF ≠ 0 then
      if negative then append [0x2D, 0x4E, 0x61, 0x4E] else append [0x4E, 0x61, 0x4E]
    else if negative then append [0x2D, 0x49, 0x6E, 0x66]
    else append [0x49, 0x6E, 0x66])

/-- A string with its quotes. -/
def writeQuoted (value : Bytes) : Step := do
  append [0x22]
  writeEscaped value
  append [0x22]

def setString (value : Bytes) : Step := setScalar (writeQuoted value)

/-- What `startArray` and `startObject` share. -/
def startContainer (bracket : UInt8) (isArray : Bool) : Step := do
  array
  append [bracket]
  Program.change fun writer =>
    { writer with
      tab := writer.tab ++ List.replicate writer.indentation 0x20
      first := true
      stack := isArray :: writer.stack }

/-- The line in front of a closing bracket, unless the container is empty. -/
def closeLine : Step := do
  let writer ← Program.gets id
  if !writer.first then do
    endLine
    indent
  else pure ()

/-- What `stopArray` and `stopObject` share. -/
def stopContainer (bracket : UInt8) : Step := do
  Program.change fun writer =>
    { writer with tab := writer.tab.take (writer.tab.length - writer.indentation) }
  closeLine
  append [bracket]
  Program.change fun writer => { writer with first := false, stack := writer.stack.tail }

def startArray : Step := startContainer 0x5B true

def stopArray : Step := stopContainer 0x5D

def startObject : Step := startContainer 0x7B false

def stopObject : Step := stopContainer 0x7D

def setKey (key : Value) : Step :=
  match key with
  | .string name => do
      comma
      endLine
      indent
      writeQuoted name
      append [0x3A]
      space
      setFirst true
  | _ => Program.fail (.sax .invalidKey)

/-- The writer as a handler of events. The sizes of containers are ignored. -/
def handler (dtoa : Double → Bytes) : SaxHandler JsonWriter where
  setNull := setNull
  setBool := setBool
  setInt := setInt
  setUint := setUint
  setInt64 := setInt64
  setUint64 := setUint64
  setDouble := setDouble dtoa
  setString := setString
  startArray _ := startArray
  stopArray := stopArray
  startObject _ := startObject
  setKey := setKey
  stopObject := stopObject

/-- `JsonWriter::serialize` with a new writer: the code it returns and the text it
has written. -/
def serialize (dtoa : Double → Bytes) (indentation : ℕ) (value : Value) : ℤ × Bytes :=
  match StreamWriter.setValue (handler dtoa) value (fresh indentation) with
  | some (.ok (), writer) => (0, writer.out)
  | some (.error _, writer) => (-1, writer.out)
  | none => (-1, [])

end JsonWriter

end Join
