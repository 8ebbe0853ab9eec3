import Join.Data.Value
import Join.Library.IeeeOrder
import Mathlib.Order.Defs.Unbundled

/-!
# Comparing numbers

`operator<` of `join::Value`, next to the `operator==` of the data model. Two
numbers of different alternatives are compared as integers when one is an
`int64_t` and the other a `uint64_t`, and as doubles otherwise. The second way
rounds an integer that no double holds, so it is exact unless the other number is
the double it is rounded to.
-/

set_option autoImplicit false

namespace Join

open Library.Ieee

/-! ## Doubles as numbers -/

/-- The number a finite double denotes. -/
def Double.number (value : Double) : ℚ := binary64.toRat value.bits.toNat

theorem natAbs_signedKey (pattern : ℕ) :
    (signedKey binary64 pattern).natAbs = binary64.magnitudePattern pattern := by
  unfold signedKey
  split <;> simp

theorem signedMagnitude_signedKey (pattern : ℕ) :
    binary64.signedMagnitude (signedKey binary64 pattern) = binary64.toRat pattern := by
  rw [Format.signedMagnitude, natAbs_signedKey, Format.toRat]
  by_cases negative : binary64.isNegative pattern = true
  · rw [signedKey, if_pos negative, if_pos negative]
    rcases Nat.eq_zero_or_pos (binary64.magnitudePattern pattern) with vanishes | positive
    · simp [vanishes]
    · rw [if_pos (by omega)]
  · rw [signedKey, if_neg negative, if_neg negative, if_neg (by omega)]

namespace Double

variable {lhs rhs value : Double}

theorem natAbs_signedKey_le (number : value.isNaN = false) :
    (signedKey binary64 value.bits.toNat).natAbs ≤ binary64.infinity := by
  rw [natAbs_signedKey]
  simpa only [isNaN, Format.isNaN, decide_eq_false_iff_not, not_lt] using number

theorem isNaN_of_isFinite (finite : value.isFinite = true) : value.isNaN = false := by
  simp only [isFinite, Format.isFinite, decide_eq_true_eq] at finite
  simp only [isNaN, Format.isNaN, decide_eq_false_iff_not, not_lt]
  exact finite.le

/-- The keys of two doubles are ordered as their numbers. -/
theorem signedKey_le_iff (left : lhs.isNaN = false) (right : rhs.isNaN = false) :
    signedKey binary64 lhs.bits.toNat ≤ signedKey binary64 rhs.bits.toNat ↔
      lhs.number ≤ rhs.number := by
  rw [number, number, ← signedMagnitude_signedKey, ← signedMagnitude_signedKey]
  exact (Format.signedMagnitude_le_iff (natAbs_signedKey_le left) (natAbs_signedKey_le right)).symm

theorem le_iff (left : lhs.isNaN = false) (right : rhs.isNaN = false) :
    lhs.le rhs = true ↔ lhs.number ≤ rhs.number := by
  rw [← signedKey_le_iff left right]
  simp [le, left, right]

theorem lt_iff (left : lhs.isNaN = false) (right : rhs.isNaN = false) :
    lhs.lt rhs = true ↔ lhs.number < rhs.number := by
  rw [← not_le, ← signedKey_le_iff right left, not_le]
  simp [lt, left, right]

theorem eq_iff (left : lhs.isNaN = false) (right : rhs.isNaN = false) :
    lhs.eq rhs = true ↔ lhs.number = rhs.number := by
  have keys : signedKey binary64 lhs.bits.toNat = signedKey binary64 rhs.bits.toNat ↔
      lhs.number = rhs.number := by
    simp only [le_antisymm_iff, signedKey_le_iff left right, signedKey_le_iff right left]
  rw [← keys]
  simp [eq, left, right]

/-! ## The double nearest to an integer -/

theorem signedKey_ofInt (size : ℤ) :
    signedKey binary64 (ofInt size).bits.toNat = binary64.signedRound size := by
  have small : binary64.encode (size < 0) (size.natAbs : ℚ) < 2 ^ 64 := encode_lt _ _
  have abs : ((size.natAbs : ℕ) : ℚ) = if size < 0 then -(size : ℚ) else size := by
    rw [Nat.cast_natAbs]
    split
    case isTrue negative => rw [abs_of_neg negative, Int.cast_neg]
    case isFalse natural => rw [abs_of_nonneg (not_lt.mp natural)]
  simp only [signedKey, ofInt, UInt64.toNat_ofNat', Nat.mod_eq_of_lt small,
    binary64.isNegative_encode, binary64.magnitudePattern_encode, decide_eq_true_eq]
  rw [abs, Format.signedRound]
  by_cases negative : size < 0 <;> simp [negative]

variable {size : ℤ}

/-- Rounding does not cross a double from below. -/
theorem number_ofInt_le (number : value.isNaN = false) (below : size ≤ value.number) :
    (ofInt size).number ≤ value.number := by
  rw [← signedKey_le_iff (isNaN_ofInt size) number, signedKey_ofInt,
    ← Format.signedRound_signedMagnitude (natAbs_signedKey_le number), signedMagnitude_signedKey]
  exact Format.signedRound_mono below

/-- Rounding does not cross a double from above. -/
theorem le_number_ofInt (number : value.isNaN = false) (above : value.number ≤ size) :
    value.number ≤ (ofInt size).number := by
  rw [← signedKey_le_iff number (isNaN_ofInt size), signedKey_ofInt,
    ← Format.signedRound_signedMagnitude (natAbs_signedKey_le number), signedMagnitude_signedKey]
  exact Format.signedRound_mono above

/-- A double holds the integers of less than 53 bits. -/
theorem number_ofInt_small (small : size.natAbs < 2 ^ 53) : (ofInt size).number = size := by
  rw [number, ← signedMagnitude_signedKey, signedKey_ofInt]
  apply Format.signedMagnitude_signedRound
  have abs : |(size : ℚ)| = (size.natAbs : ℕ) := by rw [Nat.cast_natAbs, Int.cast_abs]
  rw [abs]
  exact Format.magnitude_round_natCast small

theorem number_two_pow_53 : (ofInt (2 ^ 53)).number = 2 ^ 53 := by
  decide +kernel

theorem number_neg_two_pow_53 : (ofInt (-2 ^ 53)).number = -2 ^ 53 := by
  decide +kernel

/-- The largest `int64_t` is rounded up. -/
theorem number_int64_max : (ofInt (2 ^ 63 - 1)).number = 2 ^ 63 := by
  decide +kernel

theorem number_int64_min : (ofInt (-2 ^ 63)).number = -2 ^ 63 := by
  decide +kernel

/-- The largest `uint64_t` is rounded up. -/
theorem number_uint64_max : (ofInt (2 ^ 64 - 1)).number = 2 ^ 64 := by
  decide +kernel

/-! ## Doubles that are integers -/

theorem number_eq (value : Double) : value.number =
    if binary64.isNegative value.bits.toNat then
      -binary64.magnitude (binary64.magnitudePattern value.bits.toNat)
    else binary64.magnitude (binary64.magnitudePattern value.bits.toNat) := rfl

theorem abs_number (value : Double) :
    |value.number| = binary64.magnitude (binary64.magnitudePattern value.bits.toNat) := by
  have natural := Format.magnitude_nonneg (F := binary64)
    (binary64.magnitudePattern value.bits.toNat)
  rw [number_eq]
  split
  · rw [abs_neg, abs_of_nonneg natural]
  · rw [abs_of_nonneg natural]

theorem magnitudePattern_le (finite : value.isFinite = true) :
    binary64.magnitudePattern value.bits.toNat ≤ binary64.infinity := by
  simp only [isFinite, Format.isFinite, decide_eq_true_eq] at finite
  exact finite.le

/-- A double is its own truncation exactly when its size is an integer. -/
theorem trunc_eq_iff (finite : value.isFinite = true) : value.trunc.eq value = true ↔
    ∃ size : ℕ, binary64.magnitude (binary64.magnitudePattern value.bits.toNat) = size := by
  set pattern := binary64.magnitudePattern value.bits.toNat with patternDef
  set whole := ⌊binary64.magnitude pattern⌋₊ with wholeDef
  have bound : pattern ≤ binary64.infinity := magnitudePattern_le finite
  have number := isNaN_of_isFinite finite
  have small : binary64.encode (binary64.isNegative value.bits.toNat) (whole : ℚ) < 2 ^ 64 :=
    encode_lt _ _
  have truncated : value.trunc.bits.toNat =
      binary64.encode (binary64.isNegative value.bits.toNat) (whole : ℚ) := by
    rw [trunc, if_pos finite, UInt64.toNat_ofNat', Nat.mod_eq_of_lt small]
  have keys : value.trunc.eq value = true ↔ binary64.round (whole : ℚ) = pattern := by
    have notNaN : value.trunc.isNaN = false := by rw [isNaN, truncated, Format.isNaN_encode]
    simp only [eq, notNaN, number, signedKey, truncated, Format.isNegative_encode,
      Format.magnitudePattern_encode, ← patternDef]
    split <;> simp
  rw [keys]
  constructor
  · intro same
    by_cases large : 2 ^ 53 ≤ binary64.magnitude pattern
    · exact Format.magnitude_integer large
    · have below : whole < 2 ^ 53 := by
        rw [wholeDef, Nat.floor_lt (Format.magnitude_nonneg _)]
        exact_mod_cast not_le.mp large
      exact ⟨whole, by rw [← same, Format.magnitude_round_natCast below]⟩
  · rintro ⟨size, integer⟩
    rw [wholeDef, integer, Nat.floor_natCast, ← integer]
    exact Format.round_magnitude bound

/-- The size of a double that is an integer. -/
theorem magnitude_of_number (integer : value.number = size) :
    binary64.magnitude (binary64.magnitudePattern value.bits.toNat) = (size.natAbs : ℕ) := by
  rw [Nat.cast_natAbs, Int.cast_abs, ← integer, abs_number]

theorem trunc_eq_iff_integer (finite : value.isFinite = true) :
    value.trunc.eq value = true ↔ ∃ size : ℤ, value.number = size := by
  rw [trunc_eq_iff finite]
  refine ⟨fun ⟨size, integer⟩ => ?_, fun ⟨size, integer⟩ => ⟨_, magnitude_of_number integer⟩⟩
  rw [number_eq, integer]
  split
  · exact ⟨-size, by push_cast; rfl⟩
  · exact ⟨size, by push_cast; rfl⟩

/-- The integer of a double that is one. -/
theorem toInt_eq (integer : value.number = size) : value.toInt = size := by
  have whole := magnitude_of_number integer
  have cast : ((value.toInt : ℤ) : ℚ) = value.number := by
    rw [toInt, number_eq, whole, Nat.floor_natCast]
    split
    · rw [Int.cast_neg, Int.cast_natCast]
    · rw [Int.cast_natCast]
  exact_mod_cast cast.trans integer

/-- The doubles that are integers of a range. -/
theorem integer_between (value : Double) (low high : ℤ) :
    ((∃ size : ℤ, value.number = size) ∧ low ≤ value.number) ∧ value.number < high ↔
      value.number = value.toInt ∧ low ≤ value.toInt ∧ value.toInt < high := by
  refine ⟨fun ⟨⟨⟨size, integer⟩, lower⟩, upper⟩ => ?_, fun ⟨integer, lower, upper⟩ => ?_⟩
  · rw [integer] at lower upper
    rw [toInt_eq integer]
    exact ⟨integer, by exact_mod_cast lower, by exact_mod_cast upper⟩
  · rw [integer]
    exact ⟨⟨⟨_, rfl⟩, by exact_mod_cast lower⟩, by exact_mod_cast upper⟩

/-- A large integer is rounded to a large double. -/
theorem le_abs_number_ofInt (large : 2 ^ 53 ≤ size.natAbs) : 2 ^ 53 ≤ |(ofInt size).number| := by
  rcases le_or_gt 0 size with natural | negative
  · have above : (ofInt (2 ^ 53)).number ≤ (size : ℚ) := by
      rw [number_two_pow_53]
      exact_mod_cast (show (2 : ℤ) ^ 53 ≤ size by omega)
    have bound := le_number_ofInt (isNaN_ofInt _) above
    rw [number_two_pow_53] at bound
    exact bound.trans (le_abs_self _)
  · have below : (size : ℚ) ≤ (ofInt (-2 ^ 53)).number := by
      rw [number_neg_two_pow_53]
      exact_mod_cast (show size ≤ -2 ^ 53 by omega)
    have bound := number_ofInt_le (isNaN_ofInt _) below
    rw [number_neg_two_pow_53] at bound
    exact (le_neg_of_le_neg bound).trans (neg_le_abs _)

/-- The double nearest to an integer is an integer. -/
theorem number_ofInt_integer (size : ℤ) : ∃ whole : ℤ, (ofInt size).number = whole := by
  by_cases small : size.natAbs < 2 ^ 53
  · exact ⟨size, number_ofInt_small small⟩
  · have large := le_abs_number_ofInt (not_lt.mp small)
    rw [abs_number] at large
    obtain ⟨whole, integer⟩ := Format.magnitude_integer large
    rw [number_eq, integer]
    split
    · exact ⟨-whole, by push_cast; rfl⟩
    · exact ⟨whole, by push_cast; rfl⟩

/-- Rounding takes no other integer to a small one. -/
theorem eq_of_number_ofInt {small : ℤ} (bound : small.natAbs < 2 ^ 53)
    (same : (ofInt size).number = small) : size = small := by
  by_cases fits : size.natAbs < 2 ^ 53
  · rw [number_ofInt_small fits] at same
    exact_mod_cast same
  · have large := le_abs_number_ofInt (not_lt.mp fits)
    rw [same, ← Int.cast_abs, Int.abs_eq_natAbs] at large
    have : (2 : ℤ) ^ 53 ≤ small.natAbs := by exact_mod_cast large
    omega

end Double

namespace Value

/-! ## `operator<` -/

/-- The branch of `operator<` for two numbers of different alternatives. -/
def numericLt (lhs rhs : Value) : Bool :=
  if lhs.isInt64 && rhs.isUint64 then
    lhs.getInteger < 0 || lhs.getInteger < rhs.getInteger
  else if lhs.isUint64 && rhs.isInt64 then
    0 ≤ rhs.getInteger && lhs.getInteger < rhs.getInteger
  else lhs.getDouble.lt rhs.getDouble

mutual
/-- `operator<`. -/
def lt : Value → Value → Bool
  | boolean lhs, boolean rhs => !lhs && rhs
  | integer lhs, integer rhs => lhs < rhs
  | unsigned lhs, unsigned rhs => lhs < rhs
  | integer64 lhs, integer64 rhs => lhs < rhs
  | unsigned64 lhs, unsigned64 rhs => lhs < rhs
  | real lhs, real rhs => lhs.lt rhs
  | string lhs, string rhs => lhs < rhs
  | array lhs, array rhs => ltArray lhs rhs
  | object lhs, object rhs => ltObject lhs rhs
  -- values of different alternatives that are not both numbers go by the alternative
  | lhs, rhs =>
      if lhs.isNumber && rhs.isNumber && lhs.index != rhs.index then numericLt lhs rhs
      else lhs.index < rhs.index
termination_by lhs rhs => sizeOf lhs + sizeOf rhs

/-- The lexicographical comparison of two vectors. -/
def ltArray : List Value → List Value → Bool
  | [], rights => !rights.isEmpty
  | _ :: _, [] => false
  | lhs :: lefts, rhs :: rights => lt lhs rhs || (!lt rhs lhs && ltArray lefts rights)
termination_by lhs rhs => sizeOf lhs + sizeOf rhs

def ltObject : List (Value × Value) → List (Value × Value) → Bool
  | [], rights => !rights.isEmpty
  | _ :: _, [] => false
  | (lkey, lhs) :: lefts, (rkey, rhs) :: rights =>
      (lt lkey rkey || (!lt rkey lkey && lt lhs rhs)) ||
        (!(lt rkey lkey || (!lt lkey rkey && lt rhs lhs)) && ltObject lefts rights)
termination_by lhs rhs => sizeOf lhs + sizeOf rhs
end

/-! ## The number a value holds -/

/-- A value that holds a number other than an infinity or a NaN. -/
def isFiniteNumber : Value → Bool
  | real value => value.isFinite
  | value => value.isNumber

/-- The number a value holds. -/
def number : Value → ℚ
  | real value => value.number
  | value => value.getInteger

section Range

variable {value : Value}

theorem number_integral (integral : value.isIntegral = true) :
    value.number = value.getInteger := by
  cases value <;> first | rfl | cases integral

theorem isIntegral_or_real (finite : value.isFiniteNumber = true) :
    value.isIntegral = true ∨ ∃ held : Double, value = real held ∧ held.isFinite = true := by
  cases value <;> simp_all [isFiniteNumber, isNumber, isIntegral]

/-- `isInt64` admits the integers of its range. -/
theorem isInt64_iff (finite : value.isFiniteNumber = true) : value.isInt64 = true ↔
    value.number = value.getInteger ∧ -2 ^ 63 ≤ value.getInteger ∧
      value.getInteger < 2 ^ 63 := by
  rcases isIntegral_or_real finite with integral | ⟨held, rfl, finite⟩
  · have bounds := getInteger_bounds integral
    rw [isInt64_integral integral, number_integral integral]
    exact ⟨fun below => ⟨rfl, bounds.1, by omega⟩, fun ⟨_, _, below⟩ => by omega⟩
  · have number := Double.isNaN_of_isFinite finite
    simp only [isInt64, Bool.and_eq_true, Double.trunc_eq_iff_integer finite,
      Double.le_iff (Double.isNaN_ofInt _) number, Double.lt_iff number (Double.isNaN_ofInt _),
      Double.number_int64_min, Double.number_int64_max]
    have range := Double.integer_between held (-2 ^ 63 : ℤ) (2 ^ 63 : ℤ)
    push_cast at range
    exact range

/-- `isUint64` admits the integers of its range. -/
theorem isUint64_iff (finite : value.isFiniteNumber = true) : value.isUint64 = true ↔
    value.number = value.getInteger ∧ 0 ≤ value.getInteger ∧ value.getInteger < 2 ^ 64 := by
  rcases isIntegral_or_real finite with integral | ⟨held, rfl, finite⟩
  · have bounds := getInteger_bounds integral
    rw [isUint64_integral integral, number_integral integral]
    exact ⟨fun natural => ⟨rfl, natural, bounds.2⟩, fun ⟨_, natural, _⟩ => natural⟩
  · have number := Double.isNaN_of_isFinite finite
    have zero : (Double.ofInt 0).number = 0 := Double.number_ofInt_small (by norm_num)
    simp only [isUint64, Bool.and_eq_true, Double.trunc_eq_iff_integer finite,
      Double.le_iff (Double.isNaN_ofInt _) number, Double.lt_iff number (Double.isNaN_ofInt _),
      zero, Double.number_uint64_max]
    have range := Double.integer_between held 0 (2 ^ 64 : ℤ)
    push_cast at range
    exact range

end Range

/-! ## The two ways to compare numbers -/

section Comparing

variable {lhs rhs : Value}

/-- Two numbers are compared as integers. -/
def ComparedAsIntegers (lhs rhs : Value) : Prop :=
  (lhs.isInt64 && rhs.isUint64) = true ∨ (lhs.isUint64 && rhs.isInt64) = true

/-- A comparison of two numbers is the mathematical one. -/
def Compares (equal lower : Bool) (lhs rhs : ℚ) : Prop :=
  (equal = true ↔ lhs = rhs) ∧ (lower = true ↔ lhs < rhs)

/-- The comparison as integers is exact. -/
theorem compares_integers (left : lhs.isFiniteNumber = true) (right : rhs.isFiniteNumber = true)
    (integers : ComparedAsIntegers lhs rhs) :
    Compares (numericEq lhs rhs) (numericLt lhs rhs) lhs.number rhs.number := by
  unfold numericEq numericLt Compares
  by_cases first : (lhs.isInt64 && rhs.isUint64) = true
  · rw [if_pos first, if_pos first]
    rw [Bool.and_eq_true, isInt64_iff left, isUint64_iff right] at first
    obtain ⟨⟨leftWhole, -⟩, rightWhole, natural, -⟩ := first
    rw [leftWhole, rightWhole, Int.cast_inj, Int.cast_lt]
    simp only [Bool.and_eq_true, Bool.or_eq_true, decide_eq_true_eq, beq_iff_eq]
    omega
  · have second := integers.resolve_left first
    rw [if_neg first, if_neg first, if_pos second, if_pos second]
    rw [Bool.and_eq_true, isUint64_iff left, isInt64_iff right] at second
    obtain ⟨⟨leftWhole, natural, -⟩, rightWhole, -⟩ := second
    rw [leftWhole, rightWhole, Int.cast_inj, Int.cast_lt]
    simp only [Bool.and_eq_true, decide_eq_true_eq, beq_iff_eq]
    omega

theorem isNaN_getDouble (finite : lhs.isFiniteNumber = true) : lhs.getDouble.isNaN = false := by
  rcases isIntegral_or_real finite with integral | ⟨held, rfl, finite⟩
  · rw [getDouble_integral integral]
    exact Double.isNaN_ofInt _
  · exact Double.isNaN_of_isFinite finite

/-- Every other comparison is that of the nearest doubles. -/
theorem compares_doubles (left : lhs.isFiniteNumber = true) (right : rhs.isFiniteNumber = true)
    (doubles : ¬ComparedAsIntegers lhs rhs) :
    Compares (numericEq lhs rhs) (numericLt lhs rhs) lhs.getDouble.number
      rhs.getDouble.number := by
  obtain ⟨first, second⟩ := not_or.mp doubles
  unfold numericEq numericLt
  rw [if_neg first, if_neg first, if_neg second, if_neg second]
  exact ⟨Double.eq_iff (isNaN_getDouble left) (isNaN_getDouble right),
    Double.lt_iff (isNaN_getDouble left) (isNaN_getDouble right)⟩

/-! ## When rounding shows -/

/-- The left number is an integer that is compared as a double, no double holds it
and the right number is the double nearest to it. -/
def Rounded (lhs rhs : Value) : Prop :=
  lhs.isIntegral = true ∧ (∃ held, rhs = real held) ∧
    (lhs.getInteger < 0 ∨ 2 ^ 63 ≤ lhs.getInteger) ∧
    (Double.ofInt lhs.getInteger).number = rhs.number ∧ lhs.number ≠ rhs.number

theorem number_getDouble_le (left : lhs.isFiniteNumber = true)
    (right : rhs.isFiniteNumber = true) (held : rhs.getDouble.number = rhs.number)
    (below : lhs.number ≤ rhs.number) : lhs.getDouble.number ≤ rhs.number := by
  rcases isIntegral_or_real left with integral | ⟨_, rfl, -⟩
  · rw [getDouble_integral integral, ← held]
    apply Double.number_ofInt_le (isNaN_getDouble right)
    rw [held, ← number_integral integral]
    exact below
  · exact below

theorem le_number_getDouble (left : lhs.isFiniteNumber = true)
    (right : rhs.isFiniteNumber = true) (held : rhs.getDouble.number = rhs.number)
    (above : rhs.number ≤ lhs.number) : rhs.number ≤ lhs.getDouble.number := by
  rcases isIntegral_or_real left with integral | ⟨_, rfl, -⟩
  · rw [getDouble_integral integral, ← held]
    apply Double.le_number_ofInt (isNaN_getDouble right)
    rw [held, ← number_integral integral]
    exact above
  · exact above

/-- A rounded integer is compared as a double. -/
theorem not_integers_of_rounded (right : rhs.isFiniteNumber = true) (rounded : Rounded lhs rhs) :
    ¬ComparedAsIntegers lhs rhs := by
  obtain ⟨integral, -, range, nearest, -⟩ := rounded
  rintro (integers | integers)
  · -- the right number is not negative, so the left one is not below zero
    rw [Bool.and_eq_true, isInt64_integral integral, isUint64_iff right] at integers
    obtain ⟨below, whole, natural, -⟩ := integers
    have negative : lhs.getInteger ≤ -1 := by omega
    have minus : (Double.ofInt (-1)).number = ((-1 : ℤ) : ℚ) :=
      Double.number_ofInt_small (by norm_num)
    have bound : (Double.ofInt lhs.getInteger).number ≤ (Double.ofInt (-1)).number := by
      apply Double.number_ofInt_le (Double.isNaN_ofInt _)
      rw [minus]
      exact_mod_cast negative
    rw [nearest, minus, whole] at bound
    have : rhs.getInteger ≤ -1 := by exact_mod_cast bound
    omega
  · rw [Bool.and_eq_true, isUint64_integral integral, isInt64_iff right] at integers
    obtain ⟨natural, whole, -, below⟩ := integers
    have large : (2 : ℤ) ^ 63 ≤ lhs.getInteger := by omega
    have bound : (Double.ofInt (2 ^ 63 - 1)).number ≤ (Double.ofInt lhs.getInteger).number := by
      apply Double.le_number_ofInt (Double.isNaN_ofInt _)
      rw [Double.number_int64_max]
      exact_mod_cast large
    rw [nearest, Double.number_int64_max, whole] at bound
    have : (2 : ℤ) ^ 63 ≤ rhs.getInteger := by exact_mod_cast bound
    omega

theorem ComparedAsIntegers.symm (integers : ComparedAsIntegers lhs rhs) :
    ComparedAsIntegers rhs lhs := by
  rcases integers with first | second
  · exact .inr (by rwa [Bool.and_comm])
  · exact .inl (by rwa [Bool.and_comm])

/-- Among the comparisons as doubles, those of an integer that is rounded to the
other number. -/
theorem rounded_of_nearest {held : Double} (integral : lhs.isIntegral = true)
    (finite : held.isFinite = true) (doubles : ¬ComparedAsIntegers lhs (real held))
    (nearest : lhs.getDouble.number = held.number) (apart : lhs.number ≠ held.number) :
    Rounded lhs (real held) := by
  rw [getDouble_integral integral] at nearest
  refine ⟨integral, ⟨held, rfl⟩, ?_, nearest, apart⟩
  by_contra inside
  obtain ⟨natural, below⟩ := not_or.mp inside
  apply doubles
  left
  have zero : (Double.ofInt 0).number = ((0 : ℤ) : ℚ) := Double.number_ofInt_small (by norm_num)
  have lower : (0 : ℚ) ≤ held.number := by
    rw [← nearest]
    have bound : (Double.ofInt 0).number ≤ (Double.ofInt lhs.getInteger).number := by
      apply Double.le_number_ofInt (Double.isNaN_ofInt _)
      rw [zero]
      exact_mod_cast not_lt.mp natural
    simpa [zero] using bound
  have upper : held.number ≤ 2 ^ 63 := by
    rw [← nearest, ← Double.number_int64_max]
    apply Double.number_ofInt_le (Double.isNaN_ofInt _)
    rw [Double.number_int64_max]
    exact_mod_cast (not_le.mp below).le
  obtain ⟨whole, integer⟩ := Double.number_ofInt_integer lhs.getInteger
  rw [nearest] at integer
  have same : (real held).getInteger = whole := Double.toInt_eq integer
  have number : (real held).isFiniteNumber = true := finite
  rw [Bool.and_eq_true, isInt64_integral integral, isUint64_iff number, same]
  rw [integer] at lower upper
  have wholeLower : 0 ≤ whole := by exact_mod_cast lower
  have wholeUpper : whole ≤ 2 ^ 63 := by exact_mod_cast upper
  exact ⟨by omega, integer, wholeLower, by omega⟩

theorem not_rounded_real (held : Double) (rhs : Value) : ¬Rounded (real held) rhs :=
  fun ⟨integral, _⟩ => nomatch integral

theorem not_rounded_integral (integral : rhs.isIntegral = true) : ¬Rounded lhs rhs := by
  rintro ⟨-, ⟨held, rfl⟩, -⟩
  cases integral

/-- Of two integers of different alternatives that are compared as doubles one is
small. -/
theorem small_of_doubles (left : lhs.isIntegral = true) (right : rhs.isIntegral = true)
    (differ : lhs.index ≠ rhs.index) (doubles : ¬ComparedAsIntegers lhs rhs) :
    lhs.getInteger.natAbs < 2 ^ 53 ∨ rhs.getInteger.natAbs < 2 ^ 53 := by
  have signed (value : Int32) : (integer value).getInteger.natAbs < 2 ^ 53 := by
    have lower := value.le_toInt
    have upper := value.toInt_lt
    change value.toInt.natAbs < 2 ^ 53
    omega
  have natural (value : UInt32) : (unsigned value).getInteger.natAbs < 2 ^ 53 := by
    have upper := value.toNat_lt
    change (value.toNat : ℤ).natAbs < 2 ^ 53
    omega
  cases lhs with
  | integer value => exact .inl (signed value)
  | unsigned value => exact .inl (natural value)
  | integer64 value =>
      cases rhs with
      | integer other => exact .inr (signed other)
      | unsigned other => exact .inr (natural other)
      | integer64 _ => exact absurd rfl differ
      | unsigned64 _ => exact absurd (.inl rfl) doubles
      | _ => cases right
  | unsigned64 value =>
      cases rhs with
      | integer other => exact .inr (signed other)
      | unsigned other => exact .inr (natural other)
      | integer64 _ => exact absurd (.inr rfl) doubles
      | unsigned64 _ => exact absurd rfl differ
      | _ => cases right
  | _ => cases left

/-- A number that is not rounded past nor to an exact one is compared rightly with
it, from either side. -/
theorem nearest_compares {number nearest other : ℚ} (below : number ≤ other → nearest ≤ other)
    (above : other ≤ number → other ≤ nearest) (kept : nearest = other → number = other) :
    ((nearest = other ↔ number = other) ∧ (nearest < other ↔ number < other)) ∧
      ((other = nearest ↔ other = number) ∧ (other < nearest ↔ other < number)) := by
  rcases lt_trichotomy number other with less | same | more
  · have strict : nearest < other :=
      lt_of_le_of_ne (below less.le) (fun same => less.ne (kept same))
    exact ⟨⟨iff_of_false strict.ne less.ne, iff_of_true strict less⟩,
      iff_of_false strict.ne' less.ne', iff_of_false strict.not_gt less.not_gt⟩
  · have held : nearest = other := le_antisymm (below same.le) (above same.ge)
    rw [held, same]
    exact ⟨⟨Iff.rfl, Iff.rfl⟩, Iff.rfl, Iff.rfl⟩
  · have strict : other < nearest :=
      lt_of_le_of_ne (above more.le) (fun same => more.ne' (kept same.symm))
    exact ⟨⟨iff_of_false strict.ne' more.ne', iff_of_false strict.not_gt more.not_gt⟩,
      iff_of_false strict.ne more.ne, iff_of_true strict more⟩

/-- The comparison as doubles is exact when the right number is held by a double
and the left one is not rounded to it. -/
theorem compares_of_kept {equal lower : Bool} (left : lhs.isFiniteNumber = true)
    (right : rhs.isFiniteNumber = true) (held : rhs.getDouble.number = rhs.number)
    (kept : lhs.getDouble.number = rhs.number → lhs.number = rhs.number)
    (doubles : Compares equal lower lhs.getDouble.number rhs.getDouble.number) :
    Compares equal lower lhs.number rhs.number := by
  have order := (nearest_compares (number_getDouble_le left right held)
    (le_number_getDouble left right held) kept).1
  rw [held] at doubles
  exact ⟨doubles.1.trans order.1, doubles.2.trans order.2⟩

/-- The comparison as doubles is exact when the left number is held by a double
and the right one is not rounded to it. -/
theorem compares_of_kept_right {equal lower : Bool} (left : lhs.isFiniteNumber = true)
    (right : rhs.isFiniteNumber = true) (held : lhs.getDouble.number = lhs.number)
    (kept : rhs.getDouble.number = lhs.number → rhs.number = lhs.number)
    (doubles : Compares equal lower lhs.getDouble.number rhs.getDouble.number) :
    Compares equal lower lhs.number rhs.number := by
  have order := (nearest_compares (number_getDouble_le right left held)
    (le_number_getDouble right left held) kept).2
  rw [held] at doubles
  exact ⟨doubles.1.trans order.1, doubles.2.trans order.2⟩

/-- Integers are compared exactly. -/
theorem compares_integral (left : lhs.isIntegral = true) (right : rhs.isIntegral = true)
    (leftFinite : lhs.isFiniteNumber = true) (rightFinite : rhs.isFiniteNumber = true)
    (differ : lhs.index ≠ rhs.index) (doubles : ¬ComparedAsIntegers lhs rhs) :
    Compares (numericEq lhs rhs) (numericLt lhs rhs) lhs.number rhs.number := by
  have compared := compares_doubles leftFinite rightFinite doubles
  rcases small_of_doubles left right differ doubles with small | small
  · refine compares_of_kept_right leftFinite rightFinite ?_ (fun same => ?_) compared
    · rw [getDouble_integral left, number_integral left]
      exact Double.number_ofInt_small small
    · rw [getDouble_integral right, number_integral left] at same
      rw [number_integral left, number_integral right, Double.eq_of_number_ofInt small same]
  · refine compares_of_kept leftFinite rightFinite ?_ (fun same => ?_) compared
    · rw [getDouble_integral right, number_integral right]
      exact Double.number_ofInt_small small
    · rw [getDouble_integral left, number_integral right] at same
      rw [number_integral left, number_integral right, Double.eq_of_number_ofInt small same]

/-- Numbers of different alternatives are compared exactly unless rounding shows. -/
theorem compares_numeric_iff (left : lhs.isFiniteNumber = true)
    (right : rhs.isFiniteNumber = true) (differ : lhs.index ≠ rhs.index) :
    Compares (numericEq lhs rhs) (numericLt lhs rhs) lhs.number rhs.number ↔
      ¬Rounded lhs rhs ∧ ¬Rounded rhs lhs := by
  by_cases integers : ComparedAsIntegers lhs rhs
  · refine iff_of_true (compares_integers left right integers) ⟨fun rounded => ?_, fun rounded => ?_⟩
    · exact not_integers_of_rounded right rounded integers
    · exact not_integers_of_rounded left rounded integers.symm
  have compared := compares_doubles left right integers
  rcases isIntegral_or_real left with leftIntegral | ⟨leftHeld, rfl, leftFinite⟩
  · rcases isIntegral_or_real right with rightIntegral | ⟨rightHeld, rfl, rightFinite⟩
    · exact iff_of_true
        (compares_integral leftIntegral rightIntegral left right differ integers)
        ⟨not_rounded_integral rightIntegral, not_rounded_integral leftIntegral⟩
    · refine ⟨fun exactly => ⟨fun rounded => ?_, not_rounded_real _ _⟩, fun honest => ?_⟩
      · obtain ⟨-, -, -, nearest, apart⟩ := rounded
        rw [← getDouble_integral leftIntegral] at nearest
        exact apart (exactly.1.mp (compared.1.mpr nearest))
      · refine compares_of_kept left right rfl (fun same => ?_) compared
        by_contra apart
        exact honest.1 (rounded_of_nearest leftIntegral rightFinite integers same apart)
  · rcases isIntegral_or_real right with rightIntegral | ⟨rightHeld, rfl, -⟩
    · refine ⟨fun exactly => ⟨not_rounded_real _ _, fun rounded => ?_⟩, fun honest => ?_⟩
      · obtain ⟨-, -, -, nearest, apart⟩ := rounded
        rw [← getDouble_integral rightIntegral] at nearest
        exact apart (exactly.1.mp (compared.1.mpr nearest.symm)).symm
      · refine compares_of_kept_right left right rfl (fun same => ?_) compared
        by_contra apart
        exact honest.2 (rounded_of_nearest rightIntegral leftFinite
          (fun other => integers other.symm) same apart)
    · exact absurd rfl differ

end Comparing

/-! ## Exact comparison -/

/-- Numbers of one alternative are compared exactly. -/
theorem compares_of_index {lhs rhs : Value} (left : lhs.isFiniteNumber = true)
    (right : rhs.isFiniteNumber = true) (same : lhs.index = rhs.index) :
    Compares (lhs.eq rhs) (lhs.lt rhs) lhs.number rhs.number := by
  cases lhs with
  | integer value =>
      cases rhs with
      | integer other =>
          simp [Compares, eq, lt, number, getInteger, Int32.lt_iff_toInt_lt, Int32.toInt_inj]
      | _ => simp [index] at same
  | unsigned value =>
      cases rhs with
      | unsigned other =>
          simp [Compares, eq, lt, number, getInteger, UInt32.lt_iff_toNat_lt, UInt32.toNat_inj]
      | _ => simp [index] at same
  | integer64 value =>
      cases rhs with
      | integer64 other =>
          simp [Compares, eq, lt, number, getInteger, Int64.lt_iff_toInt_lt, Int64.toInt_inj]
      | _ => simp [index] at same
  | unsigned64 value =>
      cases rhs with
      | unsigned64 other =>
          simp [Compares, eq, lt, number, getInteger, UInt64.lt_iff_toNat_lt, UInt64.toNat_inj]
      | _ => simp [index] at same
  | real value =>
      cases rhs with
      | real other =>
          have first := Double.isNaN_of_isFinite left
          have second := Double.isNaN_of_isFinite right
          simp only [Compares, eq, lt, number]
          exact ⟨Double.eq_iff first second, Double.lt_iff first second⟩
      | _ => simp [index] at same
  | _ => simp [isFiniteNumber, isNumber] at left

/-- Numbers of different alternatives are compared by the numeric branches. -/
theorem eq_lt_of_index {lhs rhs : Value} (left : lhs.isFiniteNumber = true)
    (right : rhs.isFiniteNumber = true) (differ : lhs.index ≠ rhs.index) :
    lhs.eq rhs = numericEq lhs rhs ∧ lhs.lt rhs = numericLt lhs rhs := by
  cases lhs <;> cases rhs <;>
    first
    | exact absurd rfl differ
    | exact absurd left Bool.false_ne_true
    | exact absurd right Bool.false_ne_true
    | exact ⟨by simp [eq, isNumber, index], by simp [lt, isNumber, index]⟩

/-- A value that holds a finite number. -/
abbrev Number := { value : Value // value.isFiniteNumber = true }

/-- `operator==` and `operator<` compare the numbers two values hold. -/
def Exact (lhs rhs : Number) : Prop :=
  (lhs.val.eq rhs.val = true ↔ lhs.val.number = rhs.val.number) ∧
    (lhs.val.lt rhs.val = true ↔ lhs.val.number < rhs.val.number)

/-- Two numbers are compared exactly unless one is an integer that is compared as a
double, no double holds it, and the other is the double nearest to it. -/
theorem exact_iff (lhs rhs : Number) :
    Exact lhs rhs ↔ ¬Rounded lhs.val rhs.val ∧ ¬Rounded rhs.val lhs.val := by
  obtain ⟨lhs, left⟩ := lhs
  obtain ⟨rhs, right⟩ := rhs
  by_cases same : lhs.index = rhs.index
  · refine iff_of_true (compares_of_index left right same) ⟨?_, ?_⟩
    · rintro ⟨integral, ⟨held, rfl⟩, -⟩
      cases lhs <;> first | cases integral; done | simp [index] at same
    · rintro ⟨integral, ⟨held, rfl⟩, -⟩
      cases rhs <;> first | cases integral; done | simp [index] at same
  · obtain ⟨equal, lower⟩ := eq_lt_of_index left right same
    have numeric := compares_numeric_iff left right same
    unfold Compares at numeric
    rw [Exact, equal, lower]
    exact numeric

/-- `==` and `<` on a family of numbers: an equivalence, a strict weak order, and
equal exactly when neither is lower. -/
structure Ordered (family : Set Number) : Prop where
  equivalence : Equivalence fun lhs rhs : family => lhs.val.val.eq rhs.val.val = true
  order : IsStrictWeakOrder family fun lhs rhs => lhs.val.val.lt rhs.val.val = true
  consistent (lhs rhs : family) : lhs.val.val.eq rhs.val.val = true ↔
    ¬lhs.val.val.lt rhs.val.val = true ∧ ¬rhs.val.val.lt lhs.val.val = true

/-- Exact comparisons inherit the laws of the order of the numbers. -/
theorem ordered_of_exact {family : Set Number}
    (exactly : ∀ lhs ∈ family, ∀ rhs ∈ family, Exact lhs rhs) : Ordered family := by
  have equal (lhs rhs : family) := (exactly lhs.val lhs.property rhs.val rhs.property).1
  have lower (lhs rhs : family) := (exactly lhs.val lhs.property rhs.val rhs.property).2
  constructor
  case equivalence =>
    refine ⟨fun one => (equal one one).mpr rfl, fun {one two} same => ?_,
      fun {one two three} first second => ?_⟩
    · exact (equal two one).mpr ((equal one two).mp same).symm
    · exact (equal one three).mpr (((equal one two).mp first).trans ((equal two three).mp second))
  case order =>
    simp only [lower]
    refine ⟨fun one two three first second => ?_⟩
    simp only [not_lt] at first second ⊢
    exact ⟨second.1.trans first.1, first.2.trans second.2⟩
  case consistent =>
    intro lhs rhs
    rw [equal, lower, lower, not_lt, not_lt, and_comm, ← le_antisymm_iff]

/-- Two finite numbers are compared exactly if and only if neither is rounded to the
other; on a family without such a pair the comparisons are an order. -/
theorem numbers_compare_exactly_iff (lhs rhs : Number) (family : Set Number) :
    (Exact lhs rhs ↔ ¬Rounded lhs.val rhs.val ∧ ¬Rounded rhs.val lhs.val) ∧
      ((∀ lhs ∈ family, ∀ rhs ∈ family, ¬Rounded lhs.val rhs.val) → Ordered family) := by
  refine ⟨exact_iff lhs rhs, fun honest => ordered_of_exact fun lhs left rhs right => ?_⟩
  exact (exact_iff lhs rhs).mpr ⟨honest lhs left rhs right, honest rhs right lhs left⟩

/-- Three numbers of three alternatives, none of them rounded to another. -/
theorem numbers_compare_exactly_three :
    Ordered {⟨integer 1, rfl⟩, ⟨unsigned64 (2 ^ 64 - 1), rfl⟩,
      ⟨real ⟨0x3FE0000000000000⟩, by decide⟩} := by
  apply (numbers_compare_exactly_iff ⟨integer 1, rfl⟩ ⟨integer 1, rfl⟩ _).2
  have half : Double.number ⟨0x3FE0000000000000⟩ = 1 / 2 := by decide +kernel
  have top : (unsigned64 (2 ^ 64 - 1)).getInteger = 2 ^ 64 - 1 := by decide +kernel
  rintro lhs (rfl | rfl | rfl) rhs right ⟨integral, ⟨held, real⟩, range, nearest, -⟩
  · simp [getInteger] at range
  · rw [top, Double.number_uint64_max] at nearest
    rcases right with rfl | rfl | rfl
    · cases real
    · cases real
    · change (2 : ℚ) ^ 64 = Double.number ⟨0x3FE0000000000000⟩ at nearest
      rw [half] at nearest
      norm_num at nearest
  · cases integral

/-- The `Integer64` next below `-2 ^ 53` is rounded to the `Real` that holds
`-2 ^ 53`. -/
theorem rounded_integer_not_exact : ¬∀ lhs rhs : Number, Exact lhs rhs := by
  intro exactly
  have finite : (real ⟨0xC340000000000000⟩).isFiniteNumber = true := by decide
  have equal := (exactly ⟨integer64 (-(2 ^ 53) - 1), rfl⟩ ⟨real ⟨0xC340000000000000⟩, finite⟩).1
  have compared : (integer64 (-(2 ^ 53) - 1)).eq (real ⟨0xC340000000000000⟩) = true := by
    decide +kernel
  have numbers : (integer64 (-(2 ^ 53) - 1)).number ≠ (real ⟨0xC340000000000000⟩).number := by
    decide +kernel
  exact numbers (equal.mp compared)

end Value

end Join
