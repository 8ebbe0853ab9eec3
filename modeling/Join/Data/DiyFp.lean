import Join.Data.JsonNumber
import Join.Data.WideProduct

/-!
# Boundaries of a double

The double printer takes a double as a `DiyFp`, a word and a binary exponent. The
boundaries of the double are the middles between it and its neighbours, brought to the
exponent at which the word of the upper one is full.

A full word is the mantissa shifted by its leading zeros. All three words, of the double
and of its boundaries, are exact and have one exponent: they are `2 * m`, `2 * m + 1` and
`2 * m - 1` shifted alike, or `4 * m - 1` shifted by one place less under a power of two.
-/

set_option autoImplicit false

namespace Join

open Library.Ieee

namespace DiyFp

/-- `_mantissaMask`. -/
def mantissaMask : UInt64 := 0x000FFFFFFFFFFFFF

/-- `_exponentMask`. -/
def exponentMask : UInt64 := 0x7FF0000000000000

/-- `_hiddenBit`. -/
def hiddenBit : UInt64 := 0x0010000000000000

/-- `_diyMantissaSize`. -/
def diyMantissaSize : ℤ := 64

/-- `_mantissaSize`. -/
def mantissaSize : ℤ := 52

/-- `_exponentBias`. -/
def exponentBias : ℤ := 0x3FF + mantissaSize

/-- The constructor from a double. -/
def ofDouble (value : Double) : DiyFp :=
  let u64 := value.bits
  let mantissa := u64 &&& mantissaMask
  let exponent := ((u64 &&& exponentMask) >>> 52).toNat
  if exponent ≠ 0 then ⟨mantissa + hiddenBit, exponent - exponentBias⟩
  else ⟨mantissa, 1 - exponentBias⟩

/-- `_mantissa <<= shift; _exponent -= shift`. -/
def shift (fp : DiyFp) (places : ℤ) : DiyFp :=
  ⟨fp.mantissa <<< UInt64.ofNat places.toNat, fp.exponent - places⟩

def normalize (fp : DiyFp) : DiyFp :=
  if fp.mantissa = 0 then fp else fp.shift (clz64 fp.mantissa.toNat)

def normalizeBoundary (fp : DiyFp) : DiyFp :=
  let places : ℤ := clz64 fp.mantissa.toNat - (64 - mantissaSize - 2)
  let aligned := if fp.mantissa ≠ 0 ∧ places > 0 then fp.shift places else fp
  aligned.shift (diyMantissaSize - mantissaSize - 2)

/-- `normalizedBoundaries`: the lower boundary and the upper one. -/
def normalizedBoundaries (fp : DiyFp) : DiyFp × DiyFp :=
  let plus := normalizeBoundary ⟨(fp.mantissa <<< 1) + 1, fp.exponent - 1⟩
  let special := fp.mantissa = hiddenBit
  let mantissa := (fp.mantissa <<< (if special then 2 else 1)) - 1
  let exponent := fp.exponent - (if special then 2 else 1)
  let diff := exponent - plus.exponent
  (⟨mantissa <<< UInt64.ofNat diff.toNat, plus.exponent⟩, plus)

/-- `operator-`. -/
def sub (lhs rhs : DiyFp) : DiyFp := ⟨lhs.mantissa - rhs.mantissa, lhs.exponent⟩

/-! ## The number of a double -/

theorem toNat_mantissaMask (u64 : UInt64) :
    (u64 &&& mantissaMask).toNat = u64.toNat % 2 ^ 52 := by
  rw [UInt64.toNat_and]
  exact Nat.and_two_pow_sub_one_eq_mod u64.toNat 52

theorem toNat_exponentMask (u64 : UInt64) :
    ((u64 &&& exponentMask) >>> 52).toNat = u64.toNat / 2 ^ 52 % 2 ^ 11 := by
  rw [UInt64.toNat_shiftRight, UInt64.toNat_and, show (52 : UInt64).toNat % 64 = 52 from rfl,
    Nat.shiftRight_and_distrib, show exponentMask.toNat >>> 52 = 2 ^ 11 - 1 from rfl,
    Nat.and_two_pow_sub_one_eq_mod, Nat.shiftRight_eq_div_pow]

/-- A finite positive double is a significand in a binade, and the number that is made of
it has the significand as its mantissa. -/
theorem ofDouble_spec {value : Double} (positive : 0 < value.bits.toNat)
    (finite : value.bits.toNat < binary64.infinity) :
    ∃ significand binade : ℕ, value.bits.toNat = binade * 2 ^ 52 + significand ∧
      0 < significand ∧ significand < 2 ^ 53 ∧ (binade = 0 ∨ 2 ^ 52 ≤ significand) ∧
      (ofDouble value).mantissa.toNat = significand ∧
      (ofDouble value).exponent = binade - 1074 := by
  have infinity : binary64.infinity = 2047 * 2 ^ 52 := rfl
  have bias : exponentBias = 1075 := rfl
  have hidden : hiddenBit.toNat = 2 ^ 52 := rfl
  have low := toNat_mantissaMask value.bits
  have high := toNat_exponentMask value.bits
  unfold ofDouble
  dsimp only
  generalize value.bits &&& mantissaMask = mantissa at *
  rw [high]
  generalize value.bits.toNat = u64 at *
  by_cases subnormal : u64 / 2 ^ 52 % 2 ^ 11 = 0
  · refine ⟨u64, 0, by omega, positive, by omega, .inl rfl, ?_, ?_⟩
    · rw [if_neg (not_not.mpr subnormal), low]
      omega
    · rw [if_neg (not_not.mpr subnormal), bias]
      rfl
  · refine ⟨u64 % 2 ^ 52 + 2 ^ 52, u64 / 2 ^ 52 - 1, by omega, by omega, by omega,
      .inr (by omega), ?_, ?_⟩
    · rw [if_pos subnormal, UInt64.toNat_add, low, hidden]
      omega
    · rw [if_pos subnormal, bias]
      dsimp only
      omega

/-! ## Leading zeros -/

variable {word : ℕ}

theorem full_shift (positive : 0 < word) (small : word < 2 ^ 64) :
    2 ^ 63 ≤ word * 2 ^ clz64 word ∧ word * 2 ^ clz64 word < 2 ^ 64 := by
  have lower := Nat.pow_log_le_self 2 positive.ne'
  have upper := @Nat.lt_pow_succ_log_self 2 (by norm_num) word
  have size : Nat.log 2 word < 64 := Nat.log_lt_of_lt_pow positive.ne' small
  have places : 2 ^ Nat.log 2 word * 2 ^ clz64 word = 2 ^ 63 := by
    rw [← pow_add, clz64]
    congr 1
    omega
  constructor
  · rw [← places]
    exact Nat.mul_le_mul_right _ lower
  · calc word * 2 ^ clz64 word < 2 ^ (Nat.log 2 word + 1) * 2 ^ clz64 word :=
          Nat.mul_lt_mul_of_pos_right upper (by positivity)
      _ = 2 ^ 64 := by rw [pow_succ, mul_right_comm, places]; rfl

/-- An odd word has one leading zero less than its half. -/
theorem clz64_half (positive : 0 < word) (small : word < 2 ^ 63) :
    clz64 word = clz64 (2 * word + 1) + 1 := by
  have size : Nat.log 2 word < 63 := Nat.log_lt_of_lt_pow positive.ne' small
  have odd : Nat.log 2 (2 * word + 1) = Nat.log 2 word + 1 := by
    rw [Nat.log_of_one_lt_of_le (by norm_num) (by omega)]
    congr 2
    omega
  rw [clz64, clz64, odd]
  omega

theorem le_clz64 {count : ℕ} (positive : 0 < word) (small : word < 2 ^ (63 - count + 1))
    (few : count ≤ 63) : count ≤ clz64 word := by
  have size := Nat.log_lt_of_lt_pow positive.ne' small
  rw [clz64]
  omega

/-! ## Shifts -/

variable {fp : DiyFp}

theorem toNat_shiftLeft {word : UInt64} {places : ℕ} (few : places < 64)
    (fits : word.toNat * 2 ^ places < 2 ^ 64) :
    (word <<< UInt64.ofNat places).toNat = word.toNat * 2 ^ places := by
  have count : (UInt64.ofNat places).toNat % 64 = places := by
    rw [UInt64.toNat_ofNat']
    omega
  rw [UInt64.toNat_shiftLeft, count, Nat.shiftLeft_eq, Nat.mod_eq_of_lt fits]

theorem shift_mantissa {places : ℕ} (few : places < 64)
    (fits : fp.mantissa.toNat * 2 ^ places < 2 ^ 64) :
    (fp.shift places).mantissa.toNat = fp.mantissa.toNat * 2 ^ places :=
  toNat_shiftLeft few fits

theorem normalize_spec (positive : 0 < fp.mantissa.toNat) :
    fp.normalize.mantissa.toNat = fp.mantissa.toNat * 2 ^ clz64 fp.mantissa.toNat ∧
      fp.normalize.exponent = fp.exponent - clz64 fp.mantissa.toNat := by
  have nonzero : fp.mantissa ≠ 0 := by
    intro zero
    rw [zero] at positive
    exact absurd positive (by decide)
  rw [normalize, if_neg nonzero]
  refine ⟨shift_mantissa ?_ (full_shift positive fp.mantissa.toNat_lt).2, rfl⟩
  rw [clz64]
  omega

/-- A boundary that leaves room for the shift is shifted until it is full. -/
theorem normalizeBoundary_spec (positive : 0 < fp.mantissa.toNat)
    (small : fp.mantissa.toNat < 2 ^ 54) :
    fp.normalizeBoundary.mantissa.toNat = fp.mantissa.toNat * 2 ^ clz64 fp.mantissa.toNat ∧
      fp.normalizeBoundary.exponent = fp.exponent - clz64 fp.mantissa.toNat := by
  have nonzero : fp.mantissa ≠ 0 := by
    intro zero
    rw [zero] at positive
    exact absurd positive (by decide)
  have room : 10 ≤ clz64 fp.mantissa.toNat := le_clz64 positive small (by norm_num)
  have most : clz64 fp.mantissa.toNat < 64 := by
    rw [clz64]
    omega
  have full := (full_shift positive fp.mantissa.toNat_lt).2
  obtain ⟨places, count⟩ := Nat.exists_eq_add_of_le' room
  have first : (clz64 fp.mantissa.toNat : ℤ) - (64 - mantissaSize - 2) = places := by
    rw [count, mantissaSize]
    push_cast
    ring
  have second : diyMantissaSize - mantissaSize - 2 = ((10 : ℕ) : ℤ) := rfl
  have split : fp.mantissa.toNat * 2 ^ clz64 fp.mantissa.toNat =
      fp.mantissa.toNat * 2 ^ places * 2 ^ 10 := by
    rw [count, pow_add, mul_assoc]
  unfold normalizeBoundary
  dsimp only
  rw [first, second, split]
  by_cases shifted : fp.mantissa ≠ 0 ∧ (places : ℤ) > 0
  · have inner := @shift_mantissa fp places (by omega) (by omega)
    rw [if_pos shifted, shift_mantissa (by norm_num) (by rw [inner]; omega), inner]
    refine ⟨rfl, ?_⟩
    show fp.exponent - places - (10 : ℕ) = _
    omega
  · have none : places = 0 := by
      by_contra some
      exact shifted ⟨nonzero, by omega⟩
    subst none
    rw [if_neg shifted, shift_mantissa (by norm_num) (by omega), pow_zero, mul_one]
    refine ⟨rfl, ?_⟩
    show fp.exponent - (10 : ℕ) = _
    omega

/-! ## The boundaries -/

/-- The number and its boundaries brought to one exponent, where the word of the upper
boundary is full. -/
structure Aligned (fp : DiyFp) (places : ℕ) : Prop where
  room : 10 ≤ places
  least : 2 ^ 63 ≤ (2 * fp.mantissa.toNat + 1) * 2 ^ places
  most : (2 * fp.mantissa.toNat + 1) * 2 ^ places < 2 ^ 64
  middle : fp.normalize.mantissa.toNat = 2 * fp.mantissa.toNat * 2 ^ places
  middle_exponent : fp.normalize.exponent = fp.exponent - 1 - places
  upper : fp.normalizedBoundaries.2.mantissa.toNat = (2 * fp.mantissa.toNat + 1) * 2 ^ places
  upper_exponent : fp.normalizedBoundaries.2.exponent = fp.exponent - 1 - places
  lower : fp.normalizedBoundaries.1.mantissa.toNat =
    if fp.mantissa = hiddenBit then (4 * fp.mantissa.toNat - 1) * 2 ^ (places - 1)
    else (2 * fp.mantissa.toNat - 1) * 2 ^ places
  lower_exponent : fp.normalizedBoundaries.1.exponent = fp.exponent - 1 - places

theorem aligned (positive : 0 < fp.mantissa.toNat) (small : fp.mantissa.toNat < 2 ^ 53) :
    Aligned fp (clz64 (2 * fp.mantissa.toNat + 1)) := by
  have twice : (fp.mantissa <<< 1).toNat = 2 * fp.mantissa.toNat := by
    have shifted := @toNat_shiftLeft fp.mantissa 1 (by norm_num) (by omega)
    rw [pow_one, Nat.mul_comm] at shifted
    exact shifted
  have above : ((fp.mantissa <<< 1) + 1).toNat = 2 * fp.mantissa.toNat + 1 := by
    rw [UInt64.toNat_add, twice]
    exact Nat.mod_eq_of_lt (by change 2 * fp.mantissa.toNat + 1 < 2 ^ 64; omega)
  have upper := @normalizeBoundary_spec ⟨(fp.mantissa <<< 1) + 1, fp.exponent - 1⟩
    (by rw [above]; omega) (by rw [above]; omega)
  rw [above] at upper
  have full := @full_shift (2 * fp.mantissa.toNat + 1) (by omega) (by omega)
  have room : 10 ≤ clz64 (2 * fp.mantissa.toNat + 1) := le_clz64 (by omega) (by omega) (by omega)
  have count : clz64 (2 * fp.mantissa.toNat + 1) ≤ 63 := by
    rw [clz64]
    omega
  have middle := normalize_spec positive
  rw [clz64_half positive (by omega)] at middle
  generalize clz64 (2 * fp.mantissa.toNat + 1) = places at *
  have exponent : fp.normalizedBoundaries.2.exponent = fp.exponent - 1 - places := upper.2
  have one_le : (1 : UInt64).toNat ≤ 2 * fp.mantissa.toNat := by
    change 1 ≤ 2 * fp.mantissa.toNat
    omega
  have fits : (2 * fp.mantissa.toNat - 1) * 2 ^ places < 2 ^ 64 :=
    (Nat.mul_le_mul_right _ (by omega)).trans_lt full.2
  have lower_fits : (4 * fp.mantissa.toNat - 1) * 2 ^ (places - 1) < 2 ^ 64 := by
    obtain ⟨fewer, rfl⟩ := Nat.exists_eq_add_of_le' (Nat.one_le_of_lt room)
    refine lt_of_le_of_lt ?_ full.2
    rw [Nat.add_sub_cancel, pow_succ, mul_comm (2 ^ fewer), ← mul_assoc]
    exact Nat.mul_le_mul_right _ (by omega)
  refine ⟨room, full.1, full.2, ?_, ?_, upper.1, upper.2, ?_, upper.2⟩
  · rw [middle.1, pow_succ]
    ring
  · rw [middle.2]
    push_cast
    ring
  · show (((fp.mantissa <<< (if fp.mantissa = hiddenBit then 2 else 1)) - 1) <<<
      UInt64.ofNat (fp.exponent - (if fp.mantissa = hiddenBit then 2 else 1) -
        fp.normalizedBoundaries.2.exponent).toNat).toNat = _
    rw [exponent]
    by_cases special : fp.mantissa = hiddenBit
    · have size : fp.mantissa.toNat = 2 ^ 52 := congrArg UInt64.toNat special
      have below : ((fp.mantissa <<< 2) - 1).toNat = 4 * fp.mantissa.toNat - 1 := by
        rw [size, special]
        rfl
      have diff : (fp.exponent - 2 - (fp.exponent - 1 - places)).toNat = places - 1 := by omega
      rw [if_pos special, if_pos special, if_pos special, diff,
        toNat_shiftLeft (by omega) (by rw [below]; exact lower_fits), below]
    · have below : ((fp.mantissa <<< 1) - 1).toNat = 2 * fp.mantissa.toNat - 1 := by
        rw [UInt64.toNat_sub_of_le _ _ (by rw [UInt64.le_iff_toNat_le, twice]; exact one_le), twice]
        rfl
      have diff : (fp.exponent - 1 - (fp.exponent - 1 - places)).toNat = places := by omega
      rw [if_neg special, if_neg special, if_neg special, diff,
        toNat_shiftLeft (by omega) (by rw [below]; exact fits), below]

end DiyFp

end Join
