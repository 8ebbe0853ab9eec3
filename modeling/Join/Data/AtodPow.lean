import Join.Data.DtoaPow
import Join.Data.JsonNumber
import Mathlib.Algebra.Order.Floor.Semifield
import Mathlib.Data.Nat.Cast.Field
import Mathlib.Data.Nat.Factorization.Basic

/-!
# The powers of ten of the number reader

`atodpow` holds the 128 leading bits of the powers of ten from `10 ^ -325` to `10 ^ 308`. On the
scale of its entry a power lies less than one unit above it, and is equal to it when no bit was
cut off. The entries that were cut are checked not to end in many zeros, so that the product
with a word does not end in as many as a number half way between two doubles.
-/

set_option autoImplicit false

namespace Join

/-- The binary logarithm of a power of ten, as the reader computes it. -/
def powerLog (exponent : ℤ) : ℤ := exponent * 217706 / 2 ^ 16

/-- The numerator of a power of ten on the scale of its entry. -/
def powerNumerator (exponent : ℤ) : ℕ := 10 ^ exponent.toNat * 2 ^ (127 - powerLog exponent).toNat

/-- The denominator of a power of ten on the scale of its entry. -/
def powerDenominator (exponent : ℤ) : ℕ :=
  10 ^ (-exponent).toNat * 2 ^ (powerLog exponent - 127).toNat

/-- The logarithm is right, and an entry that is not the power itself does not end in
eleven zeros. -/
def goodPower (exponent : ℤ) : Bool :=
  2 ^ 127 * powerDenominator exponent ≤ powerNumerator exponent &&
    powerNumerator exponent < 2 ^ 128 * powerDenominator exponent &&
    (powerNumerator exponent % powerDenominator exponent == 0 ||
      powerNumerator exponent / powerDenominator exponent % 2 ^ 11 != 0)

theorem powers_good :
    ((List.range 634).all fun index => goodPower ((index : ℤ) - 325)) = true := by
  decide +kernel

theorem goodPower_of_bounds {exponent : ℤ} (lower : -325 ≤ exponent) (upper : exponent ≤ 308) :
    goodPower exponent = true := by
  have good := List.all_eq_true.mp powers_good (exponent + 325).toNat
    (List.mem_range.mpr (by omega))
  rwa [show (((exponent + 325).toNat : ℕ) : ℤ) - 325 = exponent by omega] at good

theorem powerDenominator_pos (exponent : ℤ) : 0 < powerDenominator exponent := by
  unfold powerDenominator
  positivity

/-- A power of ten on the scale of its entry. -/
def scaledPower (exponent : ℤ) : ℚ := (10 : ℚ) ^ exponent / (2 : ℚ) ^ (powerLog exponent - 127)

theorem scaledPower_eq (exponent : ℤ) :
    scaledPower exponent = (powerNumerator exponent : ℚ) / powerDenominator exponent := by
  have opposite : -(powerLog exponent - 127) = 127 - powerLog exponent := by ring
  rw [scaledPower, zpow_eq_div 10, zpow_eq_div 2, opposite, powerNumerator, powerDenominator]
  push_cast
  field_simp

/-- What the reader relies on of the entry for a power. -/
structure LeadingBits (exponent : ℤ) : Prop where
  log : Int.log 2 ((10 : ℚ) ^ exponent) = powerLog exponent
  full : 2 ^ 127 ≤ atodpow exponent
  fits : atodpow exponent < 2 ^ 128
  below : (atodpow exponent : ℚ) ≤ scaledPower exponent
  above : scaledPower exponent < atodpow exponent + 1
  exactly : scaledPower exponent = atodpow exponent ∨ ¬ 2 ^ 11 ∣ atodpow exponent

/-- Every power within the table has its entry. -/
theorem atodpow_leading {exponent : ℤ} (lower : -325 ≤ exponent) (upper : exponent ≤ 308) :
    LeadingBits exponent := by
  have good := goodPower_of_bounds lower upper
  have positive := powerDenominator_pos exponent
  have quotient := scaledPower_eq exponent
  rw [goodPower, Bool.and_eq_true, Bool.and_eq_true, Bool.or_eq_true, decide_eq_true_eq,
    decide_eq_true_eq, beq_iff_eq, bne_iff_ne] at good
  obtain ⟨⟨least, most⟩, ending⟩ := good
  have unit : (0 : ℚ) < 2 ^ (powerLog exponent - 127) := zpow_pos (by norm_num) _
  have power : (0 : ℚ) < 10 ^ exponent := zpow_pos (by norm_num) _
  have positive' : (0 : ℚ) < powerDenominator exponent := by exact_mod_cast positive
  have least' : (2 : ℚ) ^ 127 ≤ scaledPower exponent := by
    rw [quotient, le_div_iff₀ positive']
    exact_mod_cast least
  have most' : scaledPower exponent < 2 ^ 128 := by
    rw [quotient, div_lt_iff₀ positive']
    exact_mod_cast most
  have scale : (10 : ℚ) ^ exponent =
      scaledPower exponent * 2 ^ (powerLog exponent - 127) := by
    rw [scaledPower, div_mul_cancel₀ _ unit.ne']
  have log : Int.log 2 ((10 : ℚ) ^ exponent) = powerLog exponent := by
    apply le_antisymm
    · apply Int.lt_add_one_iff.mp
      rw [← Int.lt_zpow_iff_log_lt (by norm_num) power, Nat.cast_ofNat,
        show powerLog exponent + 1 = (128 : ℕ) + (powerLog exponent - 127) by push_cast; ring,
        zpow_add₀ (by norm_num), zpow_natCast, scale]
      exact mul_lt_mul_of_pos_right most' unit
    · rw [← Int.zpow_le_iff_le_log (by norm_num) power, Nat.cast_ofNat,
        ← add_sub_cancel (127 : ℤ) (powerLog exponent), zpow_add₀ (by norm_num), scale]
      exact mul_le_mul_of_nonneg_right least' unit.le
  have entry : atodpow exponent = ⌊scaledPower exponent⌋₊ := by
    rw [atodpow, log, scaledPower]
  have whole : atodpow exponent = powerNumerator exponent / powerDenominator exponent := by
    rw [entry, quotient, Nat.floor_div_eq_div]
  refine ⟨log, ?_, ?_, ?_, ?_, ?_⟩
  · rw [whole]
    exact (Nat.le_div_iff_mul_le positive).mpr least
  · rw [whole]
    exact (Nat.div_lt_iff_lt_mul positive).mpr most
  · rw [entry]
    exact Nat.floor_le (le_trans (by positivity) least')
  · rw [entry]
    exact Nat.lt_floor_add_one _
  · rcases ending with divides | zeros
    · left
      rw [quotient, whole, Nat.cast_div (Nat.dvd_of_mod_eq_zero divides) positive'.ne']
    · right
      rw [whole]
      exact fun divides => zeros (Nat.mod_eq_zero_of_dvd divides)

/-- The product of an entry that was cut and a word does not end in as many zeros as the
middle of two doubles. -/
theorem exact_of_trailing_zeros {exponent : ℤ} (entry : LeadingBits exponent) {significand : ℕ}
    (positive : 0 < significand) (few : significand < 2 ^ 64) {zeros : ℕ} (many : 74 ≤ zeros)
    (divides : 2 ^ zeros ∣ atodpow exponent * significand) :
    scaledPower exponent = atodpow exponent := by
  apply entry.exactly.resolve_right
  intro cut
  obtain ⟨trailing, odd, isOdd, rfl⟩ := Nat.exists_eq_two_pow_mul_odd positive.ne'
  have short : trailing < 64 := by
    have leading : 2 ^ trailing < 2 ^ 64 :=
      (Nat.le_mul_of_pos_right _ isOdd.pos).trans_lt few
    exact (Nat.pow_lt_pow_iff_right (by norm_num)).mp leading
  have coprime : Nat.Coprime (2 ^ zeros) odd := (Nat.coprime_two_left.mpr isOdd).pow_left zeros
  rw [← Nat.mul_assoc] at divides
  have powers : 2 ^ zeros ∣ atodpow exponent * 2 ^ trailing := coprime.dvd_of_dvd_mul_right divides
  have split : zeros = (zeros - trailing) + trailing := by omega
  rw [split, pow_add] at powers
  have rest := Nat.dvd_of_mul_dvd_mul_right (by positivity) powers
  exact cut ((pow_dvd_pow 2 (by omega)).trans rest)

end Join
