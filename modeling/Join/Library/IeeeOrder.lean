import Join.Library.Ieee
import Mathlib.Algebra.Order.Floor.Ring

/-!
# Rounding keeps the order

The patterns of a format are ordered as the numbers they denote, and rounding is
monotone: it takes a number of the format to its own pattern, so a value on one
side of such a number is never rounded to the other side. A signed pattern is an
integer, the magnitude pattern with the sign of the number.
-/

set_option autoImplicit false

namespace Join.Library.Ieee

/-! ## Rounding to integers -/

theorem floor_le_roundHalfEven (value : ℚ) : ⌊value⌋ ≤ roundHalfEven value := by
  unfold roundHalfEven
  split
  · exact le_rfl
  · split
    · omega
    · split <;> omega

theorem roundHalfEven_le_floor (value : ℚ) : roundHalfEven value ≤ ⌊value⌋ + 1 := by
  unfold roundHalfEven
  split
  · omega
  · split
    · exact le_rfl
    · split <;> omega

/-- Rounding to integers is monotone. -/
theorem roundHalfEven_mono {lower upper : ℚ} (ordered : lower ≤ upper) :
    roundHalfEven lower ≤ roundHalfEven upper := by
  rcases (Int.floor_mono ordered).lt_or_eq with apart | same
  · calc roundHalfEven lower ≤ ⌊lower⌋ + 1 := roundHalfEven_le_floor lower
      _ ≤ ⌊upper⌋ := apart
      _ ≤ roundHalfEven upper := floor_le_roundHalfEven upper
  · by_cases near : lower - ⌊lower⌋ < 1 / 2
    · calc roundHalfEven lower = ⌊lower⌋ := by rw [roundHalfEven, if_pos near]
        _ = ⌊upper⌋ := same
        _ ≤ roundHalfEven upper := floor_le_roundHalfEven upper
    · by_cases far : 1 / 2 < upper - ⌊upper⌋
      · have up : roundHalfEven upper = ⌊upper⌋ + 1 := by
          rw [roundHalfEven, if_neg (not_lt.mpr far.le), if_pos far]
        rw [up, ← same]
        exact roundHalfEven_le_floor lower
      · -- both values are the middle of the same unit interval
        rw [same] at near
        have middle : lower = upper := by linarith
        rw [middle]

namespace Format

variable (F : Format)

theorem ulpExponent_mono {lower upper : ℚ} (positive : 0 < lower) (ordered : lower ≤ upper) :
    F.ulpExponent lower ≤ F.ulpExponent upper := by
  have logs : Int.log 2 lower ≤ Int.log 2 upper := Int.log_mono_right positive ordered
  exact max_le_max_right _ (by omega)

/-- A significand has at most one more bit than the fraction. -/
theorem significand_le (value : ℚ) :
    roundHalfEven (value / (2 : ℚ) ^ F.ulpExponent value) ≤ 2 ^ (F.fractionBits + 1) := by
  have unit : (0 : ℚ) < 2 ^ F.ulpExponent value := zpow_pos (by norm_num) _
  have below : value < (2 : ℚ) ^ (Int.log 2 value + 1) := by
    exact_mod_cast Int.lt_zpow_succ_log_self (by norm_num : 1 < 2) value
  have exponents : Int.log 2 value + 1 ≤ F.ulpExponent value + (F.fractionBits + 1 : ℕ) := by
    have := le_max_left (Int.log 2 value - F.fractionBits) F.leastExponent
    rw [ulpExponent]
    push_cast
    omega
  have bound : value / (2 : ℚ) ^ F.ulpExponent value ≤ ((2 ^ (F.fractionBits + 1) : ℤ) : ℚ) := by
    rw [div_le_iff₀ unit]
    calc value ≤ (2 : ℚ) ^ (Int.log 2 value + 1) := below.le
      _ ≤ (2 : ℚ) ^ (F.ulpExponent value + (F.fractionBits + 1 : ℕ)) :=
          zpow_le_zpow_right₀ (by norm_num) exponents
      _ = ((2 ^ (F.fractionBits + 1) : ℤ) : ℚ) * (2 : ℚ) ^ F.ulpExponent value := by
          rw [zpow_add₀ (by norm_num), zpow_natCast, mul_comm]
          push_cast
          rfl
  simpa only [roundHalfEven_intCast] using roundHalfEven_mono bound

/-- A significand of a normal number has the leading bit. -/
theorem le_significand {value : ℚ} (positive : 0 < value)
    (normal : F.leastExponent < F.ulpExponent value) :
    2 ^ F.fractionBits ≤ roundHalfEven (value / (2 : ℚ) ^ F.ulpExponent value) := by
  have unit : (0 : ℚ) < 2 ^ F.ulpExponent value := zpow_pos (by norm_num) _
  have above : (2 : ℚ) ^ Int.log 2 value ≤ value := by
    exact_mod_cast Int.zpow_log_le_self (by norm_num : 1 < 2) positive
  have exponents : F.ulpExponent value + (F.fractionBits : ℕ) = Int.log 2 value := by
    unfold ulpExponent at normal ⊢
    rcases lt_max_iff.mp normal with large | absurd
    · rw [max_eq_left large.le]
      omega
    · exact (lt_irrefl _ absurd).elim
  have bound : ((2 ^ F.fractionBits : ℤ) : ℚ) ≤ value / (2 : ℚ) ^ F.ulpExponent value := by
    rw [le_div_iff₀ unit]
    calc ((2 ^ F.fractionBits : ℤ) : ℚ) * (2 : ℚ) ^ F.ulpExponent value
        = (2 : ℚ) ^ (F.ulpExponent value + (F.fractionBits : ℕ)) := by
          rw [zpow_add₀ (by norm_num), zpow_natCast, mul_comm]
          push_cast
          rfl
      _ ≤ value := by rw [exponents]; exact above
  simpa only [roundHalfEven_intCast] using roundHalfEven_mono bound

/-- Rounding is monotone. -/
theorem round_mono {lower upper : ℚ} (ordered : lower ≤ upper) :
    F.round lower ≤ F.round upper := by
  by_cases vanishes : lower ≤ 0
  · rw [round, if_pos vanishes]
    exact Nat.zero_le _
  have positive : 0 < lower := not_le.mp vanishes
  rw [round, if_neg vanishes, round, if_neg (not_le.mpr (positive.trans_le ordered))]
  apply min_le_min_right
  have least : F.leastExponent ≤ F.ulpExponent lower := le_max_right _ _
  rcases (F.ulpExponent_mono positive ordered).lt_or_eq with apart | same
  · -- the significand of the lower value carries at most into the next binade
    have top := F.significand_le lower
    have bottom := F.le_significand (positive.trans_le ordered) (least.trans_lt apart)
    have binades : (F.ulpExponent lower - F.leastExponent).toNat + 1 ≤
        (F.ulpExponent upper - F.leastExponent).toNat := by omega
    have blocks := Nat.mul_le_mul_right (2 ^ F.fractionBits) binades
    have topNat : (roundHalfEven (lower / (2 : ℚ) ^ F.ulpExponent lower)).toNat ≤
        2 ^ F.fractionBits * 2 := by
      rw [← pow_succ, Int.toNat_le]
      exact_mod_cast top
    have bottomNat : 2 ^ F.fractionBits ≤
        (roundHalfEven (upper / (2 : ℚ) ^ F.ulpExponent upper)).toNat := by
      rw [Int.le_toNat (le_trans (by positivity) bottom)]
      exact_mod_cast bottom
    rw [Nat.add_mul, Nat.one_mul] at blocks
    omega
  · rw [same]
    have unit : (0 : ℚ) < 2 ^ F.ulpExponent upper := zpow_pos (by norm_num) _
    apply Nat.add_le_add_left
    exact Int.toNat_le_toNat (roundHalfEven_mono ((div_le_div_iff_of_pos_right unit).mpr ordered))

/-! ## The numbers of a format -/

@[simp] theorem magnitude_zero : F.magnitude 0 = 0 := by
  simp [magnitude]

@[simp] theorem round_zero : F.round 0 = 0 := by
  simp [round]

/-- Every magnitude pattern is a significand in a binade. -/
theorem exists_scaled (pattern : ℕ) : ∃ significand binade,
    pattern = binade * 2 ^ F.fractionBits + significand ∧
      significand < 2 ^ (F.fractionBits + 1) ∧
      (binade = 0 ∨ 2 ^ F.fractionBits ≤ significand) := by
  have unit : 0 < 2 ^ F.fractionBits := by positivity
  have rest := Nat.mod_lt pattern unit
  have whole := Nat.div_add_mod' pattern (2 ^ F.fractionBits)
  rw [pow_succ]
  rcases Nat.eq_zero_or_pos (pattern / 2 ^ F.fractionBits) with subnormal | normal
  · rw [subnormal, Nat.zero_mul] at whole
    exact ⟨pattern, 0, by omega, by omega, .inl rfl⟩
  · obtain ⟨binade, next⟩ := Nat.exists_eq_add_of_lt normal
    rw [Nat.zero_add] at next
    rw [next, Nat.add_mul, Nat.one_mul] at whole
    exact ⟨2 ^ F.fractionBits + pattern % 2 ^ F.fractionBits, binade, by omega, by omega,
      .inr (by omega)⟩

variable {F} {pattern other : ℕ}

/-- A number of the format rounds to its own pattern. -/
theorem round_magnitude (finite : pattern ≤ F.infinity) :
    F.round (F.magnitude pattern) = pattern := by
  obtain ⟨significand, binade, rfl, fits, normal⟩ := F.exists_scaled pattern
  rw [magnitude_scaled fits normal]
  rcases Nat.eq_zero_or_pos significand with rfl | positive
  · obtain rfl : binade = 0 := normal.resolve_right (by simp)
    simp [scaled]
  · exact round_scaled positive fits normal finite

theorem magnitude_nonneg (pattern : ℕ) : 0 ≤ F.magnitude pattern := by
  unfold magnitude
  split
  · exact mul_nonneg (Nat.cast_nonneg _) (zpow_nonneg (by norm_num) _)
  · exact mul_nonneg (Nat.cast_nonneg _) (zpow_nonneg (by norm_num) _)

/-- A number with no place below the units is an integer. -/
theorem magnitude_integer (large : 2 ^ (F.fractionBits + 1) ≤ F.magnitude pattern) :
    ∃ size : ℕ, F.magnitude pattern = size := by
  obtain ⟨significand, binade, rfl, fits, normal⟩ := F.exists_scaled pattern
  rw [magnitude_scaled fits normal] at large ⊢
  have whole : 0 ≤ (binade : ℤ) + F.leastExponent := by
    by_contra fractional
    have unit : (2 : ℚ) ^ ((binade : ℤ) + F.leastExponent) ≤ 1 :=
      zpow_le_one_of_nonpos₀ (by norm_num) (by omega)
    have small : F.scaled significand binade < 2 ^ (F.fractionBits + 1) := by
      calc F.scaled significand binade ≤ (significand : ℚ) * 1 :=
            mul_le_mul_of_nonneg_left unit (by positivity)
        _ < 2 ^ (F.fractionBits + 1) := by rw [mul_one]; exact_mod_cast fits
    exact absurd large (not_le.mpr small)
  obtain ⟨exponent, places⟩ := Int.eq_ofNat_of_zero_le whole
  refine ⟨significand * 2 ^ exponent, ?_⟩
  rw [scaled, places, zpow_natCast]
  push_cast
  rfl

/-! ## Signed patterns -/

variable (F)

/-- The number a signed pattern denotes. -/
def signedMagnitude (key : ℤ) : ℚ :=
  if key < 0 then -F.magnitude key.natAbs else F.magnitude key.natAbs

/-- The signed pattern nearest to a value. -/
def signedRound (value : ℚ) : ℤ :=
  if value < 0 then -(F.round (-value) : ℤ) else F.round value

variable {F}

theorem signedRound_mono {lower upper : ℚ} (ordered : lower ≤ upper) :
    F.signedRound lower ≤ F.signedRound upper := by
  unfold signedRound
  by_cases left : lower < 0
  · by_cases right : upper < 0
    · rw [if_pos left, if_pos right]
      have := F.round_mono (neg_le_neg ordered)
      omega
    · rw [if_pos left, if_neg right]
      omega
  · rw [if_neg left, if_neg (by linarith)]
    exact_mod_cast F.round_mono ordered

theorem signedRound_signedMagnitude {key : ℤ} (finite : key.natAbs ≤ F.infinity) :
    F.signedRound (F.signedMagnitude key) = key := by
  have back := round_magnitude finite
  have natural := magnitude_nonneg (F := F) key.natAbs
  unfold signedMagnitude signedRound
  by_cases negative : key < 0
  · rw [if_pos negative]
    by_cases vanishes : F.magnitude key.natAbs = 0
    · rw [vanishes, round_zero] at back
      omega
    · have positive : 0 < F.magnitude key.natAbs := lt_of_le_of_ne natural (Ne.symm vanishes)
      rw [if_pos (by linarith), neg_neg, back]
      omega
  · rw [if_neg negative, if_neg (not_lt.mpr natural), back]
    omega

/-- A signed value whose size rounds to itself rounds to itself. -/
theorem signedMagnitude_signedRound {value : ℚ}
    (exactly : F.magnitude (F.round |value|) = |value|) :
    F.signedMagnitude (F.signedRound value) = value := by
  unfold signedRound signedMagnitude
  by_cases negative : value < 0
  · rw [abs_of_neg negative] at exactly
    rw [if_pos negative, Int.natAbs_neg, Int.natAbs_natCast, exactly, neg_neg]
    by_cases vanishes : F.round (-value) = 0
    · rw [vanishes, magnitude_zero] at exactly
      linarith
    · rw [if_pos (by omega)]
  · rw [abs_of_nonneg (not_lt.mp negative)] at exactly
    rw [if_neg negative, if_neg (by omega), Int.natAbs_natCast, exactly]

theorem signedMagnitude_le_iff {key other : ℤ} (left : key.natAbs ≤ F.infinity)
    (right : other.natAbs ≤ F.infinity) :
    F.signedMagnitude key ≤ F.signedMagnitude other ↔ key ≤ other := by
  have order {first second : ℤ} (one : first.natAbs ≤ F.infinity)
      (two : second.natAbs ≤ F.infinity)
      (ordered : F.signedMagnitude first ≤ F.signedMagnitude second) : first ≤ second := by
    rw [← signedRound_signedMagnitude one, ← signedRound_signedMagnitude two]
    exact signedRound_mono ordered
  refine ⟨order left right, fun ordered => ?_⟩
  by_contra apart
  have back := order right left (not_le.mp apart).le
  obtain rfl : key = other := le_antisymm ordered back
  exact apart le_rfl

end Format

end Join.Library.Ieee
