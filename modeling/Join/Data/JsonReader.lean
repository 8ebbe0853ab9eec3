import Join.Data.JsonNumber
import Join.Data.Reading

/-!
# JsonReader

The recursive descent of `JsonReader`, over any view and into the SAX handler.
Functions that return `-1` in the source fail here; the handler they leave is
kept, as the object of the source outlives the call.

The loops of the source have no bound of their own, so every function that loops
or recurses takes fuel; `deserialize` gives it enough for the length of its
input.
-/

set_option autoImplicit false

namespace Join

open Library

/-- `JsonReadMode`, one flag for each bit. -/
structure JsonReadMode where
  parseComments : Bool := false
  validateEncoding : Bool := false
  stopParsingOnDone : Bool := false
deriving DecidableEq, Repr

namespace JsonReader

open Reader

variable {V : Type} [View V]

/-- `isDigit` of what a view returns. -/
def isDigitCharacter (character : Character) : Bool := isDigit character.toByte

/-! ## Literals -/

/-- Extract the characters of a literal, in this case. -/
def expect : Bytes → Reader V Unit
  | [] => pure ()
  | byte :: bytes => do
      let character ← get
      if character = some byte then expect bytes else saxError .invalidValue

/-- Extract the characters of a literal as long as they match, in either case. -/
def expectNoCase : Bytes → Reader V Bool
  | [] => pure true
  | byte :: bytes => do
      let matched ← getIfNoCase byte
      if matched then expectNoCase bytes else pure false

def readNull : Reader V Unit := do
  expect [0x75, 0x6C, 0x6C]
  setValue .null

def readTrue : Reader V Unit := do
  expect [0x72, 0x75, 0x65]
  setValue (.boolean true)

def readFalse : Reader V Unit := do
  expect [0x61, 0x6C, 0x73, 0x65]
  setValue (.boolean false)

/-- The number of a literal that has a sign. -/
def signed (negative : Bool) (value : Double) : Value :=
  .real (if negative then value.neg else value)

def readInf (negative : Bool) : Reader V Unit := do
  let short ← expectNoCase [0x6E, 0x66]
  if short then do
    let long ← getIfNoCase 0x69
    if long then do
      let complete ← expectNoCase [0x6E, 0x69, 0x74, 0x79]
      if complete then setValue (signed negative .infinity) else saxError .invalidValue
    else setValue (signed negative .infinity)
  else saxError .invalidValue

def readNan (negative : Bool) : Reader V Unit := do
  let complete ← expectNoCase [0x61, 0x6E]
  if complete then setValue (signed negative .quietNaN) else saxError .invalidValue

/-! ## Numbers -/

/-- What the scanner has collected of a number. -/
structure Scan where
  u : ℕ
  digits : ℕ
  isDouble : Bool
deriving DecidableEq, Repr

/-- Shift one more digit into the accumulator, modulo `2 ^ 64`. -/
def pushDigit (u : ℕ) (character : Character) : ℕ :=
  (u * 10 + digitValue character.toByte) % 2 ^ 64

/-- The loop over the integer digits, which stops at a digit that would exceed
`max64`. -/
def integerDigits (max64 : ℕ) :
    ℕ → Scan → View.Mark V → Reader V (Scan × View.Mark V)
  | 0, _, _ => Program.exhausted
  | fuel + 1, scan, mark => do
      let character ← peek
      if isDigitCharacter character then
        if scan.u > (max64 - digitValue character.toByte) / 10 then
          pure ({ scan with isDouble := true }, mark)
        else do
          let (character, mark) ← buffered View.bufferedGet mark
          integerDigits max64 fuel
            { scan with u := pushDigit scan.u character, digits := scan.digits + 1 } mark
      else pure (scan, mark)

/-- The loop over the integer digits of a number that does not fit. -/
def overflowDigits : ℕ → Scan → View.Mark V → Reader V (Scan × View.Mark V)
  | 0, _, _ => Program.exhausted
  | fuel + 1, scan, mark => do
      let character ← peek
      if isDigitCharacter character then do
        let (character, mark) ← buffered View.bufferedGet mark
        overflowDigits fuel
          { scan with u := pushDigit scan.u character, digits := scan.digits + 1 } mark
      else pure (scan, mark)

/-- The loop over the fraction digits; zeros in front of the first other digit do
not count. The last result is `frac`. -/
def fractionDigits : ℕ → Scan → ℤ → View.Mark V → Reader V (Scan × ℤ × View.Mark V)
  | 0, _, _, _ => Program.exhausted
  | fuel + 1, scan, frac, mark => do
      let character ← peek
      if isDigitCharacter character then do
        let (character, mark) ← buffered View.bufferedGet mark
        let u := pushDigit scan.u character
        let digits := if u ≠ 0 ∨ scan.digits ≠ 0 then scan.digits + 1 else scan.digits
        fractionDigits fuel { scan with u := u, digits := digits } (frac - 1) mark
      else pure (scan, frac, mark)

/-- One more digit of the exponent, unless it would exceed an `int`. -/
def pushExponent (exponent : ℤ) (character : Character) : ℤ :=
  let digit : ℤ := digitValue character.toByte
  if exponent ≤ (2147483647 - digit) / 10 then exponent * 10 + digit else exponent

/-- The loop over the digits of the exponent after the first. -/
def exponentDigits : ℕ → ℤ → View.Mark V → Reader V (ℤ × View.Mark V)
  | 0, _, _ => Program.exhausted
  | fuel + 1, exponent, mark => do
      let character ← peek
      if isDigitCharacter character then do
        let (character, mark) ← buffered View.bufferedGet mark
        exponentDigits fuel (pushExponent exponent character) mark
      else pure (exponent, mark)

/-- The fraction, if there is a point. -/
def readFraction (fuel : ℕ) (scan : Scan) (mark : View.Mark V) :
    Reader V (Scan × ℤ × View.Mark V) := do
  let (point, mark) ← buffered (View.bufferedGetIf 0x2E) mark
  if point then fractionDigits fuel { scan with isDouble := true } 0 mark
  else pure (scan, 0, mark)

/-- The sign of an exponent, if there is one. -/
def readExponentSign (mark : View.Mark V) : Reader V (Bool × View.Mark V) := do
  let character ← peek
  if isSign character.toByte then do
    let (character, mark) ← buffered View.bufferedGet mark
    pure (character == some 0x2D, mark)
  else pure (false, mark)

/-- The exponent after its mark. -/
def readExponentBody (fuel : ℕ) (mark : View.Mark V) : Reader V (ℤ × View.Mark V) := do
  let (negExp, mark) ← readExponentSign mark
  let character ← peek
  if isDigitCharacter character then do
    let (character, mark) ← buffered View.bufferedGet mark
    let (exponent, mark) ← exponentDigits fuel (digitValue character.toByte) mark
    pure (if negExp then -exponent else exponent, mark)
  else saxError .invalidValue

/-- Whether an exponent mark comes next. -/
def getExponentMark (mark : View.Mark V) : Reader V (Bool × View.Mark V) := do
  let (lower, mark) ← buffered (View.bufferedGetIf 0x65) mark
  if lower then pure (true, mark) else buffered (View.bufferedGetIf 0x45) mark

/-- The exponent, if there is an exponent mark. -/
def readExponent (fuel : ℕ) (scan : Scan) (mark : View.Mark V) :
    Reader V (Scan × ℤ × View.Mark V) := do
  let (found, mark) ← getExponentMark mark
  if found then do
    let (exponent, mark) ← readExponentBody fuel mark
    pure ({ scan with isDouble := true }, exponent, mark)
  else pure (scan, 0, mark)

/-- Deliver the number that was scanned. -/
def finishNumber (negative : Bool) (scan : Scan) (exponent : ℤ) (mark : View.Mark V) :
    Reader V Unit :=
  if scan.isDouble then
    match fastValue negative scan.u scan.digits exponent with
    | some value => setValue value
    | none => do
        let number ← snapshot mark
        match strtodSlow number with
        | some value => setValue (.real value)
        | none => saxError .invalidValue
  else setValue (integerValue negative scan.u)

/-- The digits that did not fit, if there are any. -/
def readOverflow (fuel : ℕ) (scan : Scan) (mark : View.Mark V) :
    Reader V (Scan × View.Mark V) :=
  if scan.isDouble then overflowDigits fuel scan mark else pure (scan, mark)

/-- What follows the integer part. -/
def readScale (fuel : ℕ) (negative : Bool) (scan : Scan) (mark : View.Mark V) :
    Reader V Unit := do
  let (scan, frac, mark) ← readFraction fuel scan mark
  let (scan, exponent, mark) ← readExponent fuel scan mark
  finishNumber negative scan (exponent + frac) mark

/-- What follows the integer digits that fit. -/
def readNumberTail (fuel : ℕ) (negative : Bool) (scan : Scan) (mark : View.Mark V) :
    Reader V Unit := do
  let (scan, mark) ← readOverflow fuel scan mark
  readScale fuel negative scan mark

/-- The literals, which are read from the document itself. -/
def readWord (negative : Bool) : Reader V Unit := do
  let inf ← getIfNoCase 0x69
  if inf then readInf negative
  else do
    let nan ← getIfNoCase 0x6E
    if nan then readNan negative else saxError .invalidValue

/-- The magnitude up to which an integer is delivered as one. -/
def max64 (negative : Bool) : ℕ := if negative then 2 ^ 63 else 2 ^ 64 - 1

/-- `readNumber` after the sign. -/
def readDigits (fuel : ℕ) (negative : Bool) (mark : View.Mark V) : Reader V Unit := do
  let (zero, mark) ← buffered (View.bufferedGetIf 0x30) mark
  if zero then do
    let character ← peek
    if isDigitCharacter character then saxError .invalidValue
    else readNumberTail fuel negative ⟨0, 0, false⟩ mark
  else do
    let character ← peek
    if isDigitCharacter character then do
      let (character, mark) ← buffered View.bufferedGet mark
      let (scan, mark) ←
        integerDigits (max64 negative) fuel ⟨digitValue character.toByte, 1, false⟩ mark
      readNumberTail fuel negative scan mark
    else readWord negative

def readNumber (fuel : ℕ) : Reader V Unit := do
  let mark ← Reader.mark
  let (negative, mark) ← buffered (View.bufferedGetIf 0x2D) mark
  readDigits fuel negative mark

/-! ## Strings -/

def isUpperAlpha (byte : UInt8) : Bool := byte - 0x41 ≤ 5

def isLowerAlpha (byte : UInt8) : Bool := byte - 0x61 ≤ 5

/-- The value of a hexadecimal digit. -/
def hexValue (byte : UInt8) : Option ℕ :=
  if isDigit byte then some (byte - 0x30).toNat
  else if isUpperAlpha byte then some ((byte - 0x41).toNat + 10)
  else if isLowerAlpha byte then some ((byte - 0x61).toNat + 10)
  else none

/-- The loop of `readHex`. -/
def hexDigits : ℕ → ℕ → Reader V ℕ
  | 0, u => pure u
  | count + 1, u => do
      let character ← get
      match hexValue character.toByte with
      | some digit => hexDigits count (u * 16 + digit)
      | none => jsonError .invalidEncoding

def readHex : Reader V ℕ := hexDigits 4 0

def encodeUtf8 (codepoint : ℕ) : Bytes :=
  if codepoint < 0x80 then [UInt8.ofNat codepoint]
  else if codepoint < 0x800 then
    [UInt8.ofNat (0xC0 ||| codepoint / 2 ^ 6), UInt8.ofNat (0x80 ||| codepoint % 2 ^ 6)]
  else if codepoint < 0x10000 then
    [UInt8.ofNat (0xE0 ||| codepoint / 2 ^ 12), UInt8.ofNat (0x80 ||| codepoint / 2 ^ 6 % 2 ^ 6),
      UInt8.ofNat (0x80 ||| codepoint % 2 ^ 6)]
  else
    [UInt8.ofNat (0xF0 ||| codepoint / 2 ^ 18), UInt8.ofNat (0x80 ||| codepoint / 2 ^ 12 % 2 ^ 6),
      UInt8.ofNat (0x80 ||| codepoint / 2 ^ 6 % 2 ^ 6), UInt8.ofNat (0x80 ||| codepoint % 2 ^ 6)]

/-- The code point of a pair of surrogates. -/
def surrogatePair (u v : ℕ) : ℕ := 0x10000 + ((u - 0xD800) * 2 ^ 10 ||| (v - 0xDC00))

/-- The last check of `readUnicode`. -/
def appendCodepoint (u : ℕ) : Reader V Bytes :=
  if u > 0x10FFFF then jsonError .invalidEncoding else pure (encodeUtf8 u)

def readUnicode : Reader V Bytes := do
  let u ← readHex
  if 0xDC00 ≤ u ∧ u ≤ 0xDFFF then jsonError .invalidEncoding
  else if 0xD800 ≤ u ∧ u ≤ 0xDBFF then do
    let backslash ← get
    if backslash ≠ some 0x5C then jsonError .invalidEncoding
    else do
      let letter ← get
      if letter ≠ some 0x75 then jsonError .invalidEncoding
      else do
        let v ← readHex
        if v < 0xDC00 ∨ v > 0xDFFF then jsonError .invalidEncoding
        else appendCodepoint (surrogatePair u v)
  else appendCodepoint u

/-- The byte a one-letter escape stands for. -/
def simpleEscape (letter : UInt8) : Option UInt8 :=
  if letter = 0x22 then some 0x22
  else if letter = 0x5C then some 0x5C
  else if letter = 0x2F then some 0x2F
  else if letter = 0x62 then some 0x08
  else if letter = 0x66 then some 0x0C
  else if letter = 0x6E then some 0x0A
  else if letter = 0x72 then some 0x0D
  else if letter = 0x74 then some 0x09
  else none

def readEscaped : Reader V Bytes := do
  let character ← get
  match character with
  | none => jsonError .invalidEscaping
  | some letter =>
      match simpleEscape letter with
      | some byte => pure [byte]
      | none => if letter = 0x75 then readUnicode else jsonError .invalidEscaping

/-- The loop of `readString`, which returns the string. -/
def stringLoop : ℕ → Bytes → Reader V Bytes
  | 0, _ => Program.exhausted
  | fuel + 1, output => do
      let plain ← doc View.readUntilEscaped
      let character ← peek
      if character = some 0x22 then do
        let _ ← get
        pure (output ++ plain)
      else if character = some 0x5C then do
        let _ ← get
        let escaped ← readEscaped
        stringLoop fuel (output ++ plain ++ escaped)
      else
        match character with
        | none => jsonError .illegalCharacter
        | some byte =>
            if byte < 0x20 then jsonError .illegalCharacter else stringLoop fuel (output ++ plain)

def readString (fuel : ℕ) : Reader V Unit := do
  let output ← stringLoop fuel []
  setValue (.string output)

/-- `readString` for a key. -/
def readKey (fuel : ℕ) : Reader V Unit := do
  let output ← stringLoop fuel []
  event (StreamReader.setKey (.string output))

/-! ## Values -/

variable (mode : JsonReadMode)

def skipWhitespaces : Reader V Unit :=
  if mode.parseComments then do
    let skipped ← doc View.skipWhitespacesAndComments
    if skipped then pure () else Program.fail .unset
  else doc fun document => ((), View.skipWhitespaces document)

/-- The character after an element or a member: white space in front of it is
skipped only if it begins with white space proper. -/
def getSeparator : Reader V Character := do
  let character ← get
  if whitespaceLookup character.toByte then do
    skipWhitespaces mode
    get
  else pure character

/-- The colon after a key: white space is skipped unless the colon comes at once. -/
def getColon : Reader V Character := do
  let next ← peek
  if next ≠ some 0x3A then do
    skipWhitespaces mode
    get
  else get

mutual
def readValue : ℕ → Reader V Unit
  | 0 => Program.exhausted
  | fuel + 1 => do
      let character ← peek
      if character = some 0x5B then do
        let _ ← get
        readArray fuel
      else if character = some 0x7B then do
        let _ ← get
        readObject fuel
      else if character = some 0x22 then do
        let _ ← get
        readString fuel
      else if character = some 0x6E then do
        let _ ← get
        readNull
      else if character = some 0x74 then do
        let _ ← get
        readTrue
      else if character = some 0x66 then do
        let _ ← get
        readFalse
      else readNumber fuel

def readArray : ℕ → Reader V Unit
  | 0 => Program.exhausted
  | fuel + 1 => do
      event StreamReader.startArray
      skipWhitespaces mode
      let closed ← getIf 0x5D
      if closed then event StreamReader.stopContainer else readElements fuel

/-- The loop of `readArray`. -/
def readElements : ℕ → Reader V Unit
  | 0 => Program.exhausted
  | fuel + 1 => do
      readValue fuel
      let character ← getSeparator mode
      if character = some 0x2C then do
        skipWhitespaces mode
        readElements fuel
      else if character = some 0x5D then event StreamReader.stopContainer
      else jsonError .missingComma

def readObject : ℕ → Reader V Unit
  | 0 => Program.exhausted
  | fuel + 1 => do
      event StreamReader.startObject
      skipWhitespaces mode
      let closed ← getIf 0x7D
      if closed then event StreamReader.stopContainer else readMembers fuel

/-- The loop of `readObject`. -/
def readMembers : ℕ → Reader V Unit
  | 0 => Program.exhausted
  | fuel + 1 => do
      let quote ← get
      if quote ≠ some 0x22 then jsonError .missingQuote
      else do
        readKey fuel
        let colon ← getColon mode
        if colon ≠ some 0x3A then jsonError .missingColon
        else do
          skipWhitespaces mode
          readValue fuel
          let character ← getSeparator mode
          if character = some 0x2C then do
            skipWhitespaces mode
            readMembers fuel
          else if character = some 0x7D then event StreamReader.stopContainer
          else jsonError .missingComma
end

/-- `JsonReader::read`. -/
def read (fuel : ℕ) : Reader V Unit := do
  skipWhitespaces mode
  readValue mode fuel
  if mode.stopParsingOnDone then pure ()
  else do
    skipWhitespaces mode
    let character ← peek
    if character ≠ none then saxError .extraData else pure ()

/-- The fuel for an input of a given length. -/
def fuelFor (length : ℕ) : ℕ := 3 * length + 3

end JsonReader

/-- `JsonReader::deserialize` of a byte string through a view: the returned code and
the state of the reader object after the call. -/
def JsonReader.deserialize (kind : ViewKind) (mode : JsonReadMode) (bytes : Bytes)
    (handler : StreamReader) : ℤ × StreamReader :=
  let fuel := JsonReader.fuelFor bytes.length
  match kind with
  | .string => Reader.outcome handler (read mode fuel ⟨StringView.ofBytes bytes, handler⟩)
  | .seekableStream =>
      Reader.outcome handler
        (read mode fuel ⟨(⟨StreamBuf.ofBytes bytes⟩ : SeekableStreamView), handler⟩)
  | .stream =>
      Reader.outcome handler (read mode fuel ⟨(⟨StreamBuf.ofBytes bytes⟩ : StreamView), handler⟩)

end Join
