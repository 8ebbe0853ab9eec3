import Join.Data.Value

/-!
# Conversion of JSON numbers

The scanner of `JsonReader` collects the digits of a number in a 64-bit
accumulator and hands them to the functions of this module: an integer is
delivered as it is, anything else goes through `strtodFast` when it has at most
19 significant digits, and through `strtod` on the text of the number otherwise
or when the fast conversion declines.
-/

set_option autoImplicit false

namespace Join

open Library.Ieee

/-- `isDigit` of the reader: an unsigned byte subtraction and one comparison. -/
def isDigit (byte : UInt8) : Bool := byte - 0x30 ≤ 9

/-- `isSign` of the reader. -/
def isSign (byte : UInt8) : Bool := (byte ^^^ 0x2B) &&& (byte ^^^ 0x2D) == 0

/-- The value of a decimal digit. -/
def digitValue (byte : UInt8) : ℕ := (byte - 0x30).toNat

/-- The number a string of decimal digits denotes, continuing from `start`. -/
def digitsValue (start : ℕ) (digits : Bytes) : ℕ :=
  digits.foldl (fun value digit => value * 10 + digitValue digit) start

namespace Double

/-- The product of two finite doubles. -/
def mul (lhs rhs : Double) : Double :=
  ⟨UInt64.ofNat (binary64.encode
    (binary64.isNegative lhs.bits.toNat ^^ binary64.isNegative rhs.bits.toNat)
    (binary64.magnitude (binary64.magnitudePattern lhs.bits.toNat) *
      binary64.magnitude (binary64.magnitudePattern rhs.bits.toNat)))⟩

/-- The quotient of two finite doubles, the second one not zero. -/
def div (lhs rhs : Double) : Double :=
  ⟨UInt64.ofNat (binary64.encode
    (binary64.isNegative lhs.bits.toNat ^^ binary64.isNegative rhs.bits.toNat)
    (binary64.magnitude (binary64.magnitudePattern lhs.bits.toNat) /
      binary64.magnitude (binary64.magnitudePattern rhs.bits.toNat)))⟩

/-- Unary minus: the sign bit is flipped, also of a NaN. -/
def neg (value : Double) : Double := ⟨value.bits ^^^ 0x8000000000000000⟩

/-- `std::numeric_limits<double>::infinity ()`. -/
def infinity : Double := ⟨0x7FF0000000000000⟩

/-- `std::numeric_limits<double>::quiet_NaN ()`. -/
def quietNaN : Double := ⟨0x7FF8000000000000⟩

end Double

/-- `details::atodpow[exponent + 325]`, high and low words together: the 128 leading
bits of the power of ten, the rest cut off. The 634 entries of the table in the
source, for exponents from -325 to 308, are these numbers. -/
def atodpow (exponent : ℤ) : ℕ :=
  ⌊(10 : ℚ) ^ exponent / (2 : ℚ) ^ (Int.log 2 ((10 : ℚ) ^ exponent) - 127)⌋₊

/-- `umul192`: the three words of the product, the highest first. -/
def umul192 (hi lo significand : ℕ) : ℕ × ℕ × ℕ :=
  let h := hi * significand
  let l := lo * significand
  let s := (h + l / 2 ^ 64) % 2 ^ 128
  (s / 2 ^ 64, s % 2 ^ 64, l % 2 ^ 64)

/-- `__builtin_clzll` of a nonzero 64-bit word. -/
def clz64 (word : ℕ) : ℕ := 63 - Nat.log 2 word

/-- The part of `strtodFast` past the table lookup: normalise the product to 64
bits and round it. -/
def roundProduct (exponent : ℤ) (high middle low : ℕ) : Option Double :=
  if high = 0 ∧ middle = 0 then none
  else
    let lz := if high ≠ 0 then clz64 high else clz64 middle
    let exp := exponent * 217706 / 2 ^ 16 + 1087 - (if high ≠ 0 then (lz : ℤ) else lz + 64)
    if exp ≤ 0 ∨ exp ≥ 2047 then none
    else
      let top :=
        if high = 0 then middle * 2 ^ lz % 2 ^ 64
        else if lz ≠ 0 then high * 2 ^ lz % 2 ^ 64 ||| middle / 2 ^ (64 - lz)
        else high
      let below := if high = 0 then 0 else middle * 2 ^ lz % 2 ^ 64
      let below := below ||| (if low ≠ 0 then 1 else 0)
      let mant := top / 2 ^ 11 % 2 ^ 52
      let bits := exp.toNat * 2 ^ 52 ||| mant
      let frac := top % 2 ^ 11
      let roundUp :=
        frac > 0x400 ∨ (frac = 0x400 ∧ (below ≠ 0 ∨ mant % 2 = 1)) ∨ (frac = 0x3FF ∧ below ≠ 0)
      some ⟨UInt64.ofNat (bits + if roundUp then 1 else 0)⟩

/-- `strtodFast`; `none` when it returns false. -/
def strtodFast (significand : ℕ) (exponent : ℤ) : Option Double :=
  let value := Double.ofInt significand
  let large := exponent > 22 ∧ exponent < 22 + 16
  let value := if large then value.mul (.ofInt (10 ^ (exponent - 22).toNat)) else value
  let exponent := if large then 22 else exponent
  if exponent ≥ -22 ∧ exponent ≤ 22 ∧ value.le (.ofInt 9007199254740991) then
    if exponent < 0 then some (value.div (.ofInt (10 ^ (-exponent).toNat)))
    else some (value.mul (.ofInt (10 ^ exponent.toNat)))
  else if value.eq (.ofInt 0) then some value
  else if exponent < -325 ∨ exponent > 308 then none
  else
    let power := atodpow exponent
    let product := umul192 (power / 2 ^ 64) (power % 2 ^ 64) significand
    roundProduct exponent product.1 product.2.1 product.2.2

/-! ## `strtod` in the C locale -/

/-- The sign `strtod` finds in front of a number, and what follows it. -/
def splitMinus : Bytes → Bool × Bytes
  | 0x2D :: rest => (true, rest)
  | text => (false, text)

/-- The fraction digits after a point, and what follows them. -/
def splitFraction : Bytes → Bytes × Bytes
  | 0x2E :: rest => (rest.takeWhile isDigit, rest.dropWhile isDigit)
  | text => ([], text)

/-- The sign of an exponent, and what follows it. -/
def splitSign : Bytes → Bool × Bytes
  | 0x2D :: digits => (true, digits)
  | 0x2B :: digits => (false, digits)
  | digits => (false, digits)

/-- The exponent `strtod` reads, and what follows it. An exponent mark without
digits behind it is not part of the number. -/
def splitExponent : Bytes → ℤ × Bytes
  | [] => (0, [])
  | mark :: rest =>
      if mark = 0x65 ∨ mark = 0x45 then
        let (negative, digits) := splitSign rest
        if (digits.takeWhile isDigit).isEmpty then (0, mark :: rest)
        else
          let value : ℤ := digitsValue 0 (digits.takeWhile isDigit)
          (if negative then -value else value, digits.dropWhile isDigit)
      else (0, mark :: rest)

/-- `strtod` on a decimal number: the nearest double and what follows the number.
The reader only hands it texts that begin with a digit or with a minus sign and a
digit, so white space, plus signs, hexadecimal numbers, infinities and NaNs do not
occur at the front. -/
def strtod (text : Bytes) : Double × Bytes :=
  let (negative, body) := splitMinus text
  let whole := body.takeWhile isDigit
  let (fraction, tail) := splitFraction (body.dropWhile isDigit)
  let (exponent, rest) := splitExponent tail
  let magnitude : ℚ :=
    (digitsValue 0 (whole ++ fraction) : ℚ) * (10 : ℚ) ^ (exponent - fraction.length)
  (⟨UInt64.ofNat (binary64.encode negative magnitude)⟩, rest)

/-- `strtodSlow`; `none` when the number does not end where the text ends. -/
def strtodSlow (text : Bytes) : Option Double :=
  if (strtod text).2.isEmpty then some (strtod text).1 else none

/-- The integer a scanned number without fraction and exponent is delivered as. The
negation is the two's complement one. -/
def integerValue (negative : Bool) (u : ℕ) : Value :=
  if negative then .integer64 (-(UInt64.ofNat u).toInt64) else .unsigned64 (UInt64.ofNat u)

/-- The fast conversion of a scanned number, tried up to 19 significant digits. -/
def fastValue (negative : Bool) (u digits : ℕ) (exponent : ℤ) : Option Value :=
  if digits ≤ 19 then
    (strtodFast u exponent).map fun value => .real (if negative then value.neg else value)
  else none

end Join
