import Join.Library.IeeeOrder

/-!
# The neighbours of a number

The patterns below and above the pattern of a positive number are those of the numbers
next to it. Above it lies the unit in the last place; below it lies the same unit, or
half of it under the least significand of a binade that has a binade below.

A value strictly between the middles of a number and its neighbours rounds to that
number, whatever the way ties are broken. Past the largest number the neighbour is the
power of two that the pattern of infinity stands for. A value that begins with the digits
of a number rounds to that number or to the one above it.
-/

set_option autoImplicit false

namespace Join.Library.Ieee

/-- A value closer to an integer than a half rounds to it. -/
theorem roundHalfEven_eq {value : ℚ} {nearest : ℤ} (lower : (nearest : ℚ) - 1 / 2 < value)
    (upper : value < nearest + 1 / 2) : roundHalfEven value = nearest := by
  by_cases above : (nearest : ℚ) ≤ value
  · have floor : ⌊value⌋ = nearest := by
      rw [Int.floor_eq_iff]
      exact ⟨above, by linarith⟩
    rw [roundHalfEven, floor, if_pos (by linarith)]
  · have floor : ⌊value⌋ = nearest - 1 := by
      rw [Int.floor_eq_iff]
      push_cast
      exact ⟨by linarith, by linarith⟩
    rw [roundHalfEven, floor, if_neg (by push_cast; linarith), if_pos (by push_cast; linarith)]
    ring

namespace Format

variable {F : Format} {pattern significand binade : ℕ}

/-- The value lies strictly between the middles of a number and its neighbours. -/
def Inside (F : Format) (pattern : ℕ) (value : ℚ) : Prop :=
  (F.magnitude (pattern - 1) + F.magnitude pattern) / 2 < value ∧
    value < (F.magnitude pattern + F.magnitude (pattern + 1)) / 2

/-! ## Neighbours -/

theorem scaled_succ : F.scaled (significand + 1) binade =
    F.scaled significand binade + (2 : ℚ) ^ ((binade : ℤ) + F.leastExponent) := by
  rw [scaled, scaled]
  push_cast
  ring

/-- A significand with a zero at the end belongs to the next binade too. -/
theorem scaled_two_mul :
    F.scaled (2 * significand) binade = F.scaled significand (binade + 1) := by
  have shift : ((binade + 1 : ℕ) : ℤ) + F.leastExponent = (binade + F.leastExponent) + 1 := by
    push_cast
    ring
  rw [scaled, scaled, shift, zpow_add_one₀ (by norm_num)]
  push_cast
  ring

/-- The number above is one unit in the last place away. -/
theorem magnitude_succ (fits : significand < 2 ^ (F.fractionBits + 1))
    (normal : binade = 0 ∨ 2 ^ F.fractionBits ≤ significand) :
    F.magnitude (binade * 2 ^ F.fractionBits + significand + 1) =
      F.scaled significand binade + (2 : ℚ) ^ ((binade : ℤ) + F.leastExponent) := by
  rw [← scaled_succ, Nat.add_assoc]
  by_cases carries : significand + 1 = 2 ^ (F.fractionBits + 1)
  · have pattern : binade * 2 ^ F.fractionBits + (significand + 1) =
        (binade + 1) * 2 ^ F.fractionBits + 2 ^ F.fractionBits := by
      rw [carries, pow_succ]
      ring
    rw [pattern, magnitude_scaled (Nat.pow_lt_pow_right (by norm_num) (by omega)) (.inr le_rfl),
      carries, pow_succ', scaled_two_mul]
  · exact magnitude_scaled (by omega) (normal.imp_right fun large => by omega)

/-- The number below in the same binade. -/
theorem magnitude_pred (positive : 0 < significand)
    (fits : significand < 2 ^ (F.fractionBits + 1))
    (inner : binade = 0 ∨ 2 ^ F.fractionBits < significand) :
    F.magnitude (binade * 2 ^ F.fractionBits + significand - 1) =
      F.scaled significand binade - (2 : ℚ) ^ ((binade : ℤ) + F.leastExponent) := by
  obtain ⟨before, rfl⟩ := Nat.exists_eq_add_of_lt positive
  rw [Nat.zero_add] at *
  have pattern : binade * 2 ^ F.fractionBits + (before + 1) - 1 =
      binade * 2 ^ F.fractionBits + before := by omega
  rw [pattern, magnitude_scaled (by omega) (inner.imp_right fun large => by omega), scaled_succ]
  ring

/-- The number below the least one of a binade is the greatest of the binade below. -/
theorem magnitude_pred_binade :
    F.magnitude ((binade + 1) * 2 ^ F.fractionBits + 2 ^ F.fractionBits - 1) =
      F.scaled (2 ^ F.fractionBits) (binade + 1) -
        (2 : ℚ) ^ ((binade : ℤ) + F.leastExponent) := by
  have unit : 0 < 2 ^ F.fractionBits := by positivity
  have pattern : (binade + 1) * 2 ^ F.fractionBits + 2 ^ F.fractionBits - 1 =
      binade * 2 ^ F.fractionBits + (2 * 2 ^ F.fractionBits - 1) := by
    rw [Nat.add_mul, Nat.one_mul]
    omega
  have next : 2 * 2 ^ F.fractionBits - 1 + 1 = 2 * 2 ^ F.fractionBits := by omega
  have above := @scaled_succ F (2 * 2 ^ F.fractionBits - 1) binade
  rw [next, scaled_two_mul] at above
  rw [pattern, magnitude_scaled (by rw [pow_succ']; omega) (.inr (by omega)), above]
  ring

/-! ## Rounding to the nearest number -/

/-- A value near enough to a significand of its own binade rounds to it. -/
theorem round_near {value : ℚ} (positive : 0 < value)
    (place : F.ulpExponent value = binade + F.leastExponent)
    (lower : ((significand : ℚ) - 1 / 2) * (2 : ℚ) ^ ((binade : ℤ) + F.leastExponent) < value)
    (upper : value < ((significand : ℚ) + 1 / 2) * (2 : ℚ) ^ ((binade : ℤ) + F.leastExponent))
    (finite : binade * 2 ^ F.fractionBits + significand ≤ F.infinity) :
    F.round value = binade * 2 ^ F.fractionBits + significand := by
  have unit : (0 : ℚ) < 2 ^ ((binade : ℤ) + F.leastExponent) := zpow_pos (by norm_num) _
  have nearest : roundHalfEven (value / (2 : ℚ) ^ ((binade : ℤ) + F.leastExponent)) =
      (significand : ℤ) := by
    apply roundHalfEven_eq
    · rw [Int.cast_natCast]
      exact (lt_div_iff₀ unit).mpr lower
    · rw [Int.cast_natCast]
      exact (div_lt_iff₀ unit).mpr upper
  rw [round, if_neg (not_le.mpr positive), place, nearest, add_sub_cancel_right,
    Int.toNat_natCast, Int.toNat_natCast, min_eq_left finite]

/-- The last place of a value of a binade. -/
theorem ulpExponent_binade {value : ℚ} (positive : 0 < value)
    (lower : binade = 0 ∨ F.scaled (2 ^ F.fractionBits) binade ≤ value)
    (upper : value < F.scaled (2 ^ (F.fractionBits + 1)) binade) :
    F.ulpExponent value = binade + F.leastExponent := by
  have small : Int.log 2 value < (F.fractionBits + 1 : ℕ) + (binade + F.leastExponent) := by
    rw [← Int.lt_zpow_iff_log_lt (by norm_num) positive, Nat.cast_ofNat,
      zpow_add₀ (by norm_num), zpow_natCast]
    rw [scaled] at upper
    exact_mod_cast upper
  push_cast at small
  rcases lower with rfl | large
  · rw [ulpExponent, max_eq_right (by push_cast at small; omega)]
    push_cast
    ring
  · have unit : 0 < 2 ^ F.fractionBits := by positivity
    have place := @ulpExponent_scaled F _ binade unit
      (Nat.pow_lt_pow_right (by norm_num) (by omega)) (.inr le_rfl)
    have grows := F.ulpExponent_mono (scaled_pos unit) large
    rw [place, ulpExponent] at grows
    rw [ulpExponent]
    omega

/-- A value strictly between the middles around a number rounds to it. -/
theorem round_inside {value : ℚ} (positive : 0 < pattern) (finite : pattern < F.infinity)
    (inside : F.Inside pattern value) : F.round value = pattern := by
  obtain ⟨significand, binade, rfl, fits, normal⟩ := F.exists_scaled pattern
  have unit : (0 : ℚ) < 2 ^ ((binade : ℤ) + F.leastExponent) := zpow_pos (by norm_num) _
  have fraction : 0 < 2 ^ F.fractionBits := by positivity
  have leading : 0 < significand := by
    rcases normal with rfl | large
    · omega
    · exact fraction.trans_le large
  obtain ⟨lower, upper⟩ := inside
  rw [magnitude_succ fits normal, magnitude_scaled fits normal] at upper
  rw [magnitude_scaled fits normal] at lower
  have below := magnitude_nonneg (F := F) (binade * 2 ^ F.fractionBits + significand - 1)
  have start := @scaled_pos F _ binade leading
  have someValue : 0 < value := by linarith
  have significandLe : ((significand : ℕ) : ℚ) + 1 ≤ (2 ^ (F.fractionBits + 1) : ℕ) := by
    exact_mod_cast fits
  have top : value < F.scaled (2 ^ (F.fractionBits + 1)) binade := by
    rw [scaled] at upper ⊢
    nlinarith
  by_cases inner : binade = 0 ∨ 2 ^ F.fractionBits < significand
  · rw [magnitude_pred leading fits inner] at lower
    apply round_near someValue _ _ _ finite.le
    · refine ulpExponent_binade someValue (inner.imp_right fun large => ?_) top
      have room : ((2 ^ F.fractionBits : ℕ) : ℚ) + 1 ≤ significand := by exact_mod_cast large
      rw [scaled] at lower ⊢
      nlinarith
    · rw [scaled] at lower
      linarith
    · rw [scaled] at upper
      linarith
  · obtain ⟨before, rfl⟩ := Nat.exists_eq_succ_of_ne_zero fun same => inner (.inl same)
    obtain rfl : significand = 2 ^ F.fractionBits := by omega
    rw [magnitude_pred_binade] at lower
    by_cases above : F.scaled (2 ^ F.fractionBits) (before + 1) ≤ value
    · apply round_near someValue (ulpExponent_binade someValue (.inr above) top) _ _ finite.le
      · rw [scaled] at above
        linarith
      · rw [scaled] at upper
        linarith
    · -- the binade below has the same number past its last significand
      have half : (0 : ℚ) < 2 ^ ((before : ℤ) + F.leastExponent) := zpow_pos (by norm_num) _
      have same : (before + 1) * 2 ^ F.fractionBits + 2 ^ F.fractionBits =
          before * 2 ^ F.fractionBits + 2 ^ (F.fractionBits + 1) := by
        rw [pow_succ]
        ring
      have carried : F.scaled (2 ^ F.fractionBits) (before + 1) =
          F.scaled (2 ^ (F.fractionBits + 1)) before := by
        rw [pow_succ', scaled_two_mul]
      have most : (1 : ℚ) ≤ (2 ^ F.fractionBits : ℕ) := by exact_mod_cast fraction
      have double : ((2 ^ (F.fractionBits + 1) : ℕ) : ℚ) = 2 * (2 ^ F.fractionBits : ℕ) := by
        push_cast
        ring
      rw [carried, scaled, double] at lower above
      rw [same] at finite ⊢
      apply round_near someValue _ _ _ finite.le
      · refine ulpExponent_binade someValue (.inr ?_) ?_
        · rw [scaled]
          nlinarith
        · rw [scaled, double]
          exact not_le.mp above
      · rw [double]
        linarith
      · rw [double]
        linarith

/-- The value half way to the number above rounds to the even one of the two. -/
theorem round_halfway (normal : binade = 0 ∨ 2 ^ F.fractionBits ≤ significand)
    (fits : significand < 2 ^ (F.fractionBits + 1))
    (finite : binade * 2 ^ F.fractionBits + significand + 1 ≤ F.infinity) :
    F.round (((significand : ℚ) + 1 / 2) * (2 : ℚ) ^ ((binade : ℤ) + F.leastExponent)) =
      binade * 2 ^ F.fractionBits + significand + significand % 2 := by
  have unit : (0 : ℚ) < 2 ^ ((binade : ℤ) + F.leastExponent) := zpow_pos (by norm_num) _
  have next : ((significand : ℕ) : ℚ) + 1 ≤ (2 ^ (F.fractionBits + 1) : ℕ) := by
    exact_mod_cast fits
  have natural : (0 : ℚ) ≤ significand := Nat.cast_nonneg _
  have positive : 0 < ((significand : ℚ) + 1 / 2) * 2 ^ ((binade : ℤ) + F.leastExponent) :=
    mul_pos (by linarith) unit
  have place : F.ulpExponent
      (((significand : ℚ) + 1 / 2) * 2 ^ ((binade : ℤ) + F.leastExponent)) =
        binade + F.leastExponent := by
    apply ulpExponent_binade positive
    · refine normal.imp_right fun large => ?_
      have large' : ((2 ^ F.fractionBits : ℕ) : ℚ) ≤ significand := by exact_mod_cast large
      exact mul_le_mul_of_nonneg_right (by linarith) unit.le
    · exact mul_lt_mul_of_pos_right (by linarith) unit
  have floor : ⌊(significand : ℚ) + 1 / 2⌋ = (significand : ℤ) := by
    rw [Int.floor_eq_iff, Int.cast_natCast]
    constructor <;> linarith
  rw [round, if_neg (not_le.mpr positive), place, mul_div_assoc, div_self unit.ne', mul_one,
    roundHalfEven, floor, add_sub_cancel_right, Int.toNat_natCast, Int.cast_natCast,
    if_neg (by linarith), if_neg (by linarith)]
  split_ifs with even
  · rw [Int.toNat_natCast]
    omega
  · rw [show (significand : ℤ) + 1 = (significand + 1 : ℕ) by push_cast; rfl, Int.toNat_natCast]
    omega

/-- The second number above is at least two units away. -/
theorem le_magnitude_succ_succ (normal : binade = 0 ∨ 2 ^ F.fractionBits ≤ significand)
    (fits : significand < 2 ^ (F.fractionBits + 1)) :
    ((significand : ℚ) + 2) * (2 : ℚ) ^ ((binade : ℤ) + F.leastExponent) ≤
      F.magnitude (binade * 2 ^ F.fractionBits + significand + 1 + 1) := by
  have unit : (0 : ℚ) < 2 ^ ((binade : ℤ) + F.leastExponent) := zpow_pos (by norm_num) _
  by_cases carries : significand + 1 = 2 ^ (F.fractionBits + 1)
  · have pattern : binade * 2 ^ F.fractionBits + significand + 1 =
        (binade + 1) * 2 ^ F.fractionBits + 2 ^ F.fractionBits := by
      rw [Nat.add_assoc, carries, pow_succ]
      ring
    have double : (2 : ℚ) ^ (((binade + 1 : ℕ) : ℤ) + F.leastExponent) =
        2 * 2 ^ ((binade : ℤ) + F.leastExponent) := by
      rw [← zpow_one_add₀ (by norm_num)]
      congr 1
      push_cast
      ring
    have most : (significand : ℚ) + 1 = (2 ^ (F.fractionBits + 1) : ℕ) := by
      exact_mod_cast carries
    rw [pattern, magnitude_succ (Nat.pow_lt_pow_right (by norm_num) (by omega)) (.inr le_rfl),
      ← scaled_two_mul, ← pow_succ', scaled, ← most, double]
    linarith
  · rw [Nat.add_assoc _ significand, magnitude_succ (by omega)
      (normal.imp_right fun large => by omega), scaled]
    push_cast
    linarith

/-- A value past the middle of a number and the one above, and not far past the number above,
rounds to that one. -/
theorem round_past {value : ℚ} (normal : binade = 0 ∨ 2 ^ F.fractionBits ≤ significand)
    (fits : significand < 2 ^ (F.fractionBits + 1))
    (finite : binade * 2 ^ F.fractionBits + significand + 1 ≤ F.infinity)
    (lower : ((significand : ℚ) + 1 / 2) * (2 : ℚ) ^ ((binade : ℤ) + F.leastExponent) < value)
    (upper : value < ((significand : ℚ) + 3 / 2) * (2 : ℚ) ^ ((binade : ℤ) + F.leastExponent)) :
    F.round value = binade * 2 ^ F.fractionBits + significand + 1 := by
  have unit : (0 : ℚ) < 2 ^ ((binade : ℤ) + F.leastExponent) := zpow_pos (by norm_num) _
  have next : ((significand : ℕ) : ℚ) + 1 ≤ (2 ^ (F.fractionBits + 1) : ℕ) := by
    exact_mod_cast fits
  have natural : (0 : ℚ) ≤ significand := Nat.cast_nonneg _
  have above := magnitude_succ fits normal
  rw [scaled] at above
  by_cases past : F.magnitude (binade * 2 ^ F.fractionBits + significand + 1) ≤ value
  · apply le_antisymm
    · rcases finite.eq_or_lt with last | inner
      · rw [last]
        exact F.round_le_infinity value
      · have farther := le_magnitude_succ_succ normal fits
        rw [above] at past
        apply le_of_eq
        apply round_inside (Nat.succ_pos _) inner
        constructor
        · rw [Nat.succ_eq_add_one, Nat.add_sub_cancel, magnitude_scaled fits normal, scaled, above]
          linarith
        · rw [Nat.succ_eq_add_one, above]
          linarith
    · calc binade * 2 ^ F.fractionBits + significand + 1 =
            F.round (F.magnitude (binade * 2 ^ F.fractionBits + significand + 1)) :=
            (round_magnitude finite).symm
        _ ≤ F.round value := F.round_mono past
  · have positive : 0 < value := lt_of_le_of_lt (mul_nonneg (by linarith) unit.le) lower
    rw [above] at past
    have place : F.ulpExponent value = binade + F.leastExponent := by
      apply ulpExponent_binade positive
      · refine normal.imp_right fun large => ?_
        have large' : ((2 ^ F.fractionBits : ℕ) : ℚ) ≤ significand := by exact_mod_cast large
        rw [scaled]
        nlinarith
      · rw [scaled]
        nlinarith
    rw [Nat.add_assoc]
    apply round_near positive place _ _ finite
    · push_cast
      linarith
    · push_cast
      linarith

/-- Rounding a value that begins with a significand of the format. -/
theorem round_between {quotient : ℚ} (positive : 0 < significand)
    (normal : binade = 0 ∨ 2 ^ F.fractionBits ≤ significand)
    (fits : significand < 2 ^ (F.fractionBits + 1))
    (finite : binade * 2 ^ F.fractionBits + significand + 1 ≤ F.infinity)
    (lower : significand ≤ quotient) (upper : quotient < significand + 3 / 2) :
    F.round (quotient * (2 : ℚ) ^ ((binade : ℤ) + F.leastExponent)) =
      binade * 2 ^ F.fractionBits + significand +
        if quotient < significand + 1 / 2 ∨
          quotient = significand + 1 / 2 ∧ significand % 2 = 0 then 0 else 1 := by
  have unit : (0 : ℚ) < 2 ^ ((binade : ℤ) + F.leastExponent) := zpow_pos (by norm_num) _
  have next : ((significand : ℕ) : ℚ) + 1 ≤ (2 ^ (F.fractionBits + 1) : ℕ) := by
    exact_mod_cast fits
  have leading : (0 : ℚ) < significand := by exact_mod_cast positive
  rcases lt_trichotomy quotient (significand + 1 / 2) with below | middle | above
  · rw [if_pos (.inl below), Nat.add_zero]
    apply round_near (mul_pos (by linarith) unit) _ _ _ (by omega)
    · apply ulpExponent_binade (mul_pos (by linarith) unit)
      · refine normal.imp_right fun large => ?_
        have large' : ((2 ^ F.fractionBits : ℕ) : ℚ) ≤ significand := by exact_mod_cast large
        exact mul_le_mul_of_nonneg_right (by linarith) unit.le
      · exact mul_lt_mul_of_pos_right (by linarith) unit
    · exact mul_lt_mul_of_pos_right (by linarith) unit
    · exact mul_lt_mul_of_pos_right below unit
  · rw [middle, round_halfway normal fits finite]
    by_cases even : significand % 2 = 0
    · rw [if_pos (.inr ⟨rfl, even⟩), even]
    · rw [if_neg (by simp [even]), Nat.mod_two_ne_zero.mp even]
  · rw [if_neg (by
      intro down
      rcases down with below | ⟨same, -⟩ <;> linarith)]
    exact round_past normal fits finite (mul_lt_mul_of_pos_right above unit)
      (mul_lt_mul_of_pos_right upper unit)

end Format

end Join.Library.Ieee
