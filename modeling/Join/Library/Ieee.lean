import Mathlib.Data.Rat.Floor
import Mathlib.Data.Int.Log
import Mathlib.Tactic.FieldSimp
import Mathlib.Tactic.Linarith
import Mathlib.Tactic.NormNum
import Mathlib.Tactic.Positivity
import Mathlib.Tactic.Ring

/-!
# Binary floating-point formats

A format is given by the width of its fraction and of its exponent. A datum of
the format is a bit pattern, read as a natural number: the sign bit on top, the
biased exponent below it, the fraction at the bottom. The part of the pattern
below the sign bit is its magnitude pattern.

Finite data denote exact rationals. `round` gives the magnitude pattern nearest
to a non-negative rational, ties to the even pattern. Because the patterns of
one format are ordered as the numbers they denote, a significand that rounds up
to the next power of two carries into the exponent field by itself, and a value
past the largest finite number saturates at infinity.
-/

set_option autoImplicit false

namespace Join.Library.Ieee

/-- The widths of the fraction and of the exponent of a binary format. -/
structure Format where
  fractionBits : ℕ
  exponentBits : ℕ
deriving DecidableEq, Repr

/-- Single precision. -/
def binary32 : Format := ⟨23, 8⟩

/-- Double precision. -/
def binary64 : Format := ⟨52, 11⟩

namespace Format

variable (F : Format)

/-- The magnitude pattern of infinity; the patterns above it are not numbers. -/
def infinity : ℕ := (2 ^ F.exponentBits - 1) * 2 ^ F.fractionBits

/-- The weight of the sign bit. -/
def signBit : ℕ := 2 ^ (F.fractionBits + F.exponentBits)

/-- The exponent of the least positive number of the format. -/
def leastExponent : ℤ := 2 - 2 ^ (F.exponentBits - 1) - F.fractionBits

/-- Whether the sign bit of a pattern is set. -/
def isNegative (pattern : ℕ) : Bool := pattern / F.signBit % 2 == 1

/-- The magnitude pattern of a pattern. -/
def magnitudePattern (pattern : ℕ) : ℕ := pattern % F.signBit

def isNaN (pattern : ℕ) : Bool := F.infinity < F.magnitudePattern pattern

def isFinite (pattern : ℕ) : Bool := F.magnitudePattern pattern < F.infinity

def isZero (pattern : ℕ) : Bool := F.magnitudePattern pattern == 0

/-- The number a finite magnitude pattern denotes. -/
def magnitude (pattern : ℕ) : ℚ :=
  if pattern / 2 ^ F.fractionBits = 0 then
    (pattern % 2 ^ F.fractionBits : ℕ) * (2 : ℚ) ^ F.leastExponent
  else
    (2 ^ F.fractionBits + pattern % 2 ^ F.fractionBits : ℕ) *
      (2 : ℚ) ^ ((pattern / 2 ^ F.fractionBits : ℕ) - 1 + F.leastExponent)

/-- The number a finite pattern denotes. -/
def toRat (pattern : ℕ) : ℚ :=
  if F.isNegative pattern then -F.magnitude (F.magnitudePattern pattern)
  else F.magnitude (F.magnitudePattern pattern)

end Format

/-- The integer nearest to a rational, ties to the even one. -/
def roundHalfEven (value : ℚ) : ℤ :=
  if value - ⌊value⌋ < 1 / 2 then ⌊value⌋
  else if 1 / 2 < value - ⌊value⌋ then ⌊value⌋ + 1
  else if ⌊value⌋ % 2 = 0 then ⌊value⌋ else ⌊value⌋ + 1

theorem roundHalfEven_intCast (value : ℤ) : roundHalfEven value = value := by
  simp [roundHalfEven]

namespace Format

variable (F : Format)

/-- The exponent of the last place of a number of the size of the value. -/
def ulpExponent (value : ℚ) : ℤ := max (Int.log 2 value - F.fractionBits) F.leastExponent

/-- The magnitude pattern nearest to a non-negative value. -/
def round (value : ℚ) : ℕ :=
  if value ≤ 0 then 0
  else
    min ((F.ulpExponent value - F.leastExponent).toNat * 2 ^ F.fractionBits +
      (roundHalfEven (value / (2 : ℚ) ^ F.ulpExponent value)).toNat) F.infinity

/-- The pattern with the given sign and the magnitude nearest to the value. -/
def encode (negative : Bool) (value : ℚ) : ℕ :=
  (if negative then F.signBit else 0) + F.round value

theorem round_le_infinity (value : ℚ) : F.round value ≤ F.infinity := by
  unfold round
  split
  · exact Nat.zero_le _
  · exact Nat.min_le_right _ _

theorem infinity_lt_signBit : F.infinity < F.signBit := by
  have fraction : 0 < 2 ^ F.fractionBits := by positivity
  have exponent : 0 < 2 ^ F.exponentBits := by positivity
  simp only [infinity, signBit, pow_add]
  rw [mul_comm (2 ^ F.fractionBits)]
  exact Nat.mul_lt_mul_of_pos_right (by omega) fraction

theorem magnitudePattern_encode (negative : Bool) (value : ℚ) :
    F.magnitudePattern (F.encode negative value) = F.round value := by
  have small := (F.round_le_infinity value).trans_lt F.infinity_lt_signBit
  cases negative <;> simp [magnitudePattern, encode, Nat.mod_eq_of_lt small]

/-- Rounding never produces a pattern that is not a number. -/
theorem isNaN_encode (negative : Bool) (value : ℚ) : F.isNaN (F.encode negative value) = false := by
  have bound := F.round_le_infinity value
  simp only [isNaN, magnitudePattern_encode, decide_eq_false_iff_not, not_lt]
  exact bound

theorem isNegative_encode (negative : Bool) (value : ℚ) :
    F.isNegative (F.encode negative value) = negative := by
  have small := (F.round_le_infinity value).trans_lt F.infinity_lt_signBit
  have positive : 0 < F.signBit := by unfold signBit; positivity
  cases negative <;>
    simp [isNegative, encode, Nat.div_eq_of_lt small, Nat.add_div_left _ positive]

/-! ## Numbers of the format round to themselves -/

/-- The number with significand `significand` in the binade `binade`, counted from
the subnormal one. -/
def scaled (significand binade : ℕ) : ℚ :=
  (significand : ℚ) * (2 : ℚ) ^ ((binade : ℤ) + F.leastExponent)

variable {F} {significand binade : ℕ}

theorem scaled_pos (positive : 0 < significand) : 0 < F.scaled significand binade :=
  mul_pos (by exact_mod_cast positive) (zpow_pos (by norm_num) _)

theorem log_scaled (positive : 0 < significand) :
    Int.log 2 (F.scaled significand binade) =
      Nat.log 2 significand + (binade + F.leastExponent) := by
  have lower : ((2 : ℕ) ^ Nat.log 2 significand : ℕ) ≤ significand :=
    Nat.pow_log_le_self 2 positive.ne'
  have upper : significand < 2 ^ (Nat.log 2 significand + 1) :=
    Nat.lt_pow_succ_log_self (by norm_num) significand
  have two : (0 : ℚ) < 2 ^ ((binade : ℤ) + F.leastExponent) := zpow_pos (by norm_num) _
  apply le_antisymm
  · apply Int.lt_add_one_iff.mp
    rw [← Int.lt_zpow_iff_log_lt (by norm_num) (scaled_pos positive)]
    have exponents : (Nat.log 2 significand + (binade + F.leastExponent) + 1 : ℤ) =
        ((Nat.log 2 significand + 1 : ℕ) : ℤ) + (binade + F.leastExponent) := by
      push_cast
      ring
    rw [exponents, Nat.cast_ofNat, zpow_add₀ (by norm_num), zpow_natCast, scaled]
    exact mul_lt_mul_of_pos_right (by exact_mod_cast upper) two
  · rw [← Int.zpow_le_iff_le_log (by norm_num) (scaled_pos positive), Nat.cast_ofNat,
      zpow_add₀ (by norm_num), zpow_natCast, scaled]
    exact mul_le_mul_of_nonneg_right (by exact_mod_cast lower) two.le

theorem ulpExponent_scaled (positive : 0 < significand)
    (fits : significand < 2 ^ (F.fractionBits + 1))
    (normal : binade = 0 ∨ 2 ^ F.fractionBits ≤ significand) :
    F.ulpExponent (F.scaled significand binade) = binade + F.leastExponent := by
  have bound : Nat.log 2 significand < F.fractionBits + 1 :=
    Nat.log_lt_of_lt_pow positive.ne' fits
  rw [ulpExponent, log_scaled positive]
  rcases normal with rfl | large
  · have small : ((Nat.log 2 significand : ℕ) : ℤ) ≤ F.fractionBits := by omega
    rw [max_eq_right (by push_cast; omega)]
    push_cast
    ring
  · have top : Nat.log 2 significand = F.fractionBits :=
      le_antisymm (by omega) (Nat.le_log_of_pow_le (by norm_num) large)
    rw [top, max_eq_left (by omega)]
    ring

/-- A number of the format rounds to its own pattern. -/
theorem round_scaled (positive : 0 < significand)
    (fits : significand < 2 ^ (F.fractionBits + 1))
    (normal : binade = 0 ∨ 2 ^ F.fractionBits ≤ significand)
    (finite : binade * 2 ^ F.fractionBits + significand ≤ F.infinity) :
    F.round (F.scaled significand binade) = binade * 2 ^ F.fractionBits + significand := by
  have two : (2 : ℚ) ^ ((binade : ℤ) + F.leastExponent) ≠ 0 :=
    (zpow_pos (by norm_num) _).ne'
  have quotient : F.scaled significand binade / (2 : ℚ) ^ ((binade : ℤ) + F.leastExponent) =
      ((significand : ℤ) : ℚ) := by
    rw [scaled, mul_div_assoc, div_self two, mul_one, Int.cast_natCast]
  rw [round, if_neg (not_le.mpr (scaled_pos positive)),
    ulpExponent_scaled positive fits normal, quotient, roundHalfEven_intCast,
    add_sub_cancel_right, Int.toNat_natCast, Int.toNat_natCast, min_eq_left finite]

/-- The pattern of a number of the format denotes it. -/
theorem magnitude_scaled (fits : significand < 2 ^ (F.fractionBits + 1))
    (normal : binade = 0 ∨ 2 ^ F.fractionBits ≤ significand) :
    F.magnitude (binade * 2 ^ F.fractionBits + significand) = F.scaled significand binade := by
  have unit : 0 < 2 ^ F.fractionBits := by positivity
  rw [pow_succ] at fits
  by_cases small : significand < 2 ^ F.fractionBits
  · obtain rfl : binade = 0 := normal.resolve_right (by omega)
    rw [Nat.zero_mul, Nat.zero_add, magnitude, if_pos (Nat.div_eq_of_lt small),
      Nat.mod_eq_of_lt small, scaled, Nat.cast_zero, zero_add]
  · obtain ⟨rest, split⟩ := Nat.exists_eq_add_of_le (not_lt.mp small)
    have restSmall : rest < 2 ^ F.fractionBits := by omega
    have pattern : binade * 2 ^ F.fractionBits + significand =
        rest + 2 ^ F.fractionBits * (binade + 1) := by
      rw [split]
      ring
    have quotient : (binade * 2 ^ F.fractionBits + significand) / 2 ^ F.fractionBits =
        binade + 1 := by
      rw [pattern, Nat.add_mul_div_left _ _ unit, Nat.div_eq_of_lt restSmall, Nat.zero_add]
    have remainder : (binade * 2 ^ F.fractionBits + significand) % 2 ^ F.fractionBits = rest := by
      rw [pattern, Nat.add_mul_mod_self_left, Nat.mod_eq_of_lt restSmall]
    rw [magnitude, quotient, remainder, if_neg (Nat.succ_ne_zero _), ← split, scaled]
    congr 2
    push_cast
    ring

/-- Rounding a number of the format loses nothing. -/
theorem magnitude_round_scaled (positive : 0 < significand)
    (fits : significand < 2 ^ (F.fractionBits + 1))
    (normal : binade = 0 ∨ 2 ^ F.fractionBits ≤ significand)
    (finite : binade * 2 ^ F.fractionBits + significand ≤ F.infinity) :
    F.magnitude (F.round (F.scaled significand binade)) = F.scaled significand binade := by
  rw [round_scaled positive fits normal finite, magnitude_scaled fits normal]

/-- A double holds the integers below `2 ^ 53` exactly. -/
theorem magnitude_round_natCast {value : ℕ} (fits : value < 2 ^ 53) :
    binary64.magnitude (binary64.round value) = value := by
  rcases Nat.eq_zero_or_pos value with rfl | positive
  · rw [Format.round, if_pos (by norm_num)]
    simp [Format.magnitude]
  · have log : Nat.log 2 value ≤ 52 := Nat.lt_succ_iff.mp (Nat.log_lt_of_lt_pow positive.ne' fits)
    have lower : 2 ^ Nat.log 2 value ≤ value := Nat.pow_log_le_self 2 positive.ne'
    have upper : value < 2 ^ (Nat.log 2 value + 1) := Nat.lt_pow_succ_log_self (by norm_num) value
    generalize Nat.log 2 value = size at *
    have same : binary64.scaled (value * 2 ^ (52 - size)) (size + 1022) = value := by
      have least : binary64.leastExponent = -1074 := rfl
      rw [scaled, least]
      push_cast
      rw [mul_assoc, ← zpow_natCast, ← zpow_add₀ (by norm_num),
        show ((52 - size : ℕ) : ℤ) + ((size : ℤ) + 1022 + -1074) = 0 by omega, zpow_zero, mul_one]
    have power : 2 ^ size * 2 ^ (52 - size) = 2 ^ 52 := by
      rw [← pow_add]
      congr 1
      omega
    have significandFits : value * 2 ^ (52 - size) < 2 ^ 53 := by
      calc value * 2 ^ (52 - size) < 2 ^ (size + 1) * 2 ^ (52 - size) :=
            Nat.mul_lt_mul_of_pos_right upper (by positivity)
        _ = 2 ^ 53 := by rw [pow_succ, mul_right_comm, power]; norm_num
    have normal : 2 ^ 52 ≤ value * 2 ^ (52 - size) := by
      rw [← power]
      exact Nat.mul_le_mul_right _ lower
    have finite : (size + 1022) * 2 ^ 52 + value * 2 ^ (52 - size) ≤ binary64.infinity := by
      have infinity : binary64.infinity = 2047 * 2 ^ 52 := rfl
      rw [infinity]
      omega
    have kept : binary64.magnitude (binary64.round
        (binary64.scaled (value * 2 ^ (52 - size)) (size + 1022))) = _ :=
      magnitude_round_scaled (by omega) significandFits (.inr normal) finite
    rwa [same] at kept

end Format

end Join.Library.Ieee
