import Join.Data.DigitsGen
import Join.Data.DtoaPow
import Join.Library.IeeeNeighbours

/-!
# Grisu2

`grisu2` prints a positive finite double. The boundaries of the double are multiplied with
a power of ten that brings their binary exponent into a narrow range, and the digits are
generated from the upper product down to the lower one, both moved inwards by one unit.

A product is off by less than a unit: half a unit at most for its rounding, and less than
that for the power, which is itself off by half a unit of its own. So the digits denote a
number strictly between the boundaries, and the double is the one nearest to it.
-/

set_option autoImplicit false

namespace Join

open Library Library.Ieee

/-- `grisu2`: the digits and the exponent. `limit` bounds the rounds of the loops. -/
def grisu2 (limit : ℕ) (value : Double) : Machine (Bytes × ℤ) :=
  let val := DiyFp.ofDouble value
  let minus := val.normalizedBoundaries.1
  let plus := val.normalizedBoundaries.2
  let expr := -59 - (plus.exponent + 64) + 63
  let mk := (expr * 30103 + 99999).tdiv 100000
  match dtoapow[(mk + 343).toNat]? with
  | none => failure
  | some c_mk =>
      let minus := minus.mulWide c_mk
      let plus := plus.mulWide c_mk
      let minus : DiyFp := { minus with mantissa := minus.mantissa + 1 }
      let plus : DiyFp := { plus with mantissa := plus.mantissa - 1 }
      digitsGen limit (val.normalize.mulWide c_mk) plus (plus.mantissa - minus.mantissa) (-mk)

/-! ## The power that is taken -/

/-- The decimal exponent for boundaries with this binary exponent. -/
def powerFor (exponent : ℤ) : ℤ := ((-59 - (exponent + 64) + 63) * 30103 + 99999).tdiv 100000

/-- The power is in the table and brings the exponent of the product into range. -/
theorem powerFor_spec {exponent : ℤ} (lower : -1137 ≤ exponent) (upper : exponent ≤ 960) :
    -306 ≤ powerFor exponent ∧ powerFor exponent ≤ 325 ∧
      -59 ≤ exponent + (powerExponent (powerFor exponent) + 64) ∧
      exponent + (powerExponent (powerFor exponent) + 64) ≤ -53 := by
  unfold powerFor powerExponent
  rcases le_total 0 ((-59 - (exponent + 64) + 63) * 30103 + 99999) with positive | negative
  · rw [Int.tdiv_eq_ediv_of_nonneg positive]
    omega
  · have flipped : ((-59 - (exponent + 64) + 63) * 30103 + 99999).tdiv 100000 =
        -(-((-59 - (exponent + 64) + 63) * 30103 + 99999) / 100000) := by
      rw [← Int.tdiv_eq_ediv_of_nonneg (by omega), Int.neg_tdiv, neg_neg]
    rw [flipped]
    omega

/-! ## The boundaries and their products -/

/-- How far a full upper boundary, the number and the lower boundary lie apart. -/
structure Spread (upper middle lower : ℕ) : Prop where
  full : 2 ^ 63 ≤ upper
  word : upper < 2 ^ 64
  above : middle + 1024 ≤ upper
  below : lower + 512 ≤ middle
  ratio : upper ≤ 2 ^ 53 * (upper - lower)

theorem spread {fp : DiyFp} (positive : 0 < fp.mantissa.toNat)
    (small : fp.mantissa.toNat < 2 ^ 53) :
    Spread fp.normalizedBoundaries.2.mantissa.toNat fp.normalize.mantissa.toNat
      fp.normalizedBoundaries.1.mantissa.toNat := by
  have aligned := DiyFp.aligned positive small
  generalize clz64 (2 * fp.mantissa.toNat + 1) = places at aligned
  obtain ⟨room, least, most, middle, _, upper, _, lower, _⟩ := aligned
  obtain ⟨fewer, rfl⟩ := Nat.exists_eq_add_of_le' (Nat.one_le_of_lt room)
  have unit : 2 ^ 9 ≤ 2 ^ fewer := Nat.pow_le_pow_right (by norm_num) (by omega)
  have bound : fp.mantissa.toNat * 2 ^ fewer ≤ (2 ^ 53 - 1) * 2 ^ fewer :=
    Nat.mul_le_mul_right _ (by omega)
  have least_unit : 1 * 2 ^ fewer ≤ fp.mantissa.toNat * 2 ^ fewer := Nat.mul_le_mul_right _ positive
  have upper' : fp.normalizedBoundaries.2.mantissa.toNat =
      4 * (fp.mantissa.toNat * 2 ^ fewer) + 2 * 2 ^ fewer := by
    rw [upper, pow_succ]
    ring
  have middle' : fp.normalize.mantissa.toNat = 4 * (fp.mantissa.toNat * 2 ^ fewer) := by
    rw [middle, pow_succ]
    ring
  rw [← upper] at least most
  rw [Nat.add_sub_cancel] at lower
  by_cases special : fp.mantissa = DiyFp.hiddenBit
  · have size : fp.mantissa.toNat = 2 ^ 52 := congrArg UInt64.toNat special
    have leading : fp.mantissa.toNat * 2 ^ fewer = 2 ^ 52 * 2 ^ fewer := by rw [size]
    rw [if_pos special, Nat.sub_mul, Nat.mul_assoc, Nat.one_mul] at lower
    constructor <;> omega
  · rw [if_neg special, pow_succ, Nat.sub_mul, Nat.one_mul] at lower
    have twice : 2 * fp.mantissa.toNat * (2 ^ fewer * 2) =
        4 * (fp.mantissa.toNat * 2 ^ fewer) := by ring
    rw [twice] at lower
    constructor <;> omega

/-- What remains between the products, moved inwards by one unit. -/
structure Allowance (upper middle lower : ℕ) : Prop where
  large : 2 ^ 62 ≤ upper
  above : middle + 1 ≤ upper
  below : lower + 1 ≤ middle
  ratio : upper - 1 ≤ 10 ^ 16 * (upper - 1 - (lower + 1))

theorem Spread.allowance {upper middle lower power : ℕ} (spread : Spread upper middle lower)
    (full : 2 ^ 63 ≤ power) :
    Allowance ((upper * power + 2 ^ 63) / 2 ^ 64) ((middle * power + 2 ^ 63) / 2 ^ 64)
      ((lower * power + 2 ^ 63) / 2 ^ 64) := by
  obtain ⟨fullUpper, word, above, below, ratio⟩ := spread
  have first := Nat.mul_le_mul fullUpper full
  have second : (middle + 1024) * power ≤ upper * power := Nat.mul_le_mul_right _ above
  have third : (lower + 512) * power ≤ middle * power := Nat.mul_le_mul_right _ below
  have fourth : upper * power ≤ 2 ^ 53 * (upper - lower) * power := Nat.mul_le_mul_right _ ratio
  rw [Nat.mul_assoc, Nat.sub_mul] at fourth
  rw [Nat.add_mul] at second third
  constructor <;> omega

/-! ## The number between the boundaries -/

/-- A rounded product is off by less than a unit from the exact one. -/
theorem product_error {mantissa power : ℕ} {scale : ℚ} (word : mantissa < 2 ^ 64)
    (near : |(power : ℚ) - scale * 2 ^ 64| ≤ 1 / 2) :
    (((mantissa * power + 2 ^ 63) / 2 ^ 64 : ℕ) : ℚ) < mantissa * scale + 1 ∧
      (mantissa : ℚ) * scale - 1 < ((mantissa * power + 2 ^ 63) / 2 ^ 64 : ℕ) := by
  have split := Nat.div_add_mod (mantissa * power + 2 ^ 63) (2 ^ 64)
  have left := Nat.mod_lt (mantissa * power + 2 ^ 63) (show 0 < 2 ^ 64 by norm_num)
  generalize (mantissa * power + 2 ^ 63) / 2 ^ 64 = product at *
  generalize (mantissa * power + 2 ^ 63) % 2 ^ 64 = rest at *
  have splitQ : (2 : ℚ) ^ 64 * product + rest = mantissa * power + 2 ^ 63 := by exact_mod_cast split
  have leftQ : (rest : ℚ) < 2 ^ 64 := by exact_mod_cast left
  have restQ : (0 : ℚ) ≤ rest := Nat.cast_nonneg _
  have wordQ : (mantissa : ℚ) < 2 ^ 64 := by exact_mod_cast word
  have mantissaQ : (0 : ℚ) ≤ mantissa := Nat.cast_nonneg _
  obtain ⟨lower, upper⟩ := abs_le.mp near
  have up : (mantissa : ℚ) * power ≤ mantissa * (scale * 2 ^ 64 + 1 / 2) :=
    mul_le_mul_of_nonneg_left (by linarith) mantissaQ
  have down : (mantissa : ℚ) * (scale * 2 ^ 64 - 1 / 2) ≤ mantissa * power :=
    mul_le_mul_of_nonneg_left (by linarith) mantissaQ
  constructor <;> nlinarith

/-- The boundaries are the middles between the double and its neighbours, except that the
lower one of the least normal double may lie above the middle. -/
theorem inside_of_between {value : Double} (positive : 0 < value.bits.toNat)
    (finite : value.bits.toNat < binary64.infinity) {number : ℚ}
    (lower : ((DiyFp.ofDouble value).normalizedBoundaries.1.mantissa.toNat : ℚ) *
      2 ^ (DiyFp.ofDouble value).normalizedBoundaries.2.exponent < number)
    (upper : number < ((DiyFp.ofDouble value).normalizedBoundaries.2.mantissa.toNat : ℚ) *
      2 ^ (DiyFp.ofDouble value).normalizedBoundaries.2.exponent) :
    binary64.Inside value.bits.toNat number := by
  obtain ⟨significand, binade, pattern, some_, fits, normal, mantissa, exponent⟩ :=
    DiyFp.ofDouble_spec positive finite
  have aligned := @DiyFp.aligned (DiyFp.ofDouble value) (by omega) (by omega)
  generalize DiyFp.ofDouble value = fp at *
  generalize clz64 (2 * fp.mantissa.toNat + 1) = places at aligned
  have fraction : binary64.fractionBits = 52 := rfl
  have least : binary64.leastExponent = -1074 := rfl
  have half : (2 : ℚ) ^ ((binade : ℤ) + binary64.leastExponent) = 2 * 2 ^ (fp.exponent - 1) := by
    rw [← zpow_one_add₀ (by norm_num), least, exponent]
    congr 1
    ring
  have unit : (0 : ℚ) < 2 ^ (fp.exponent - 1) := zpow_pos (by norm_num) _
  have shifted : (2 : ℚ) ^ places * 2 ^ fp.normalizedBoundaries.2.exponent =
      2 ^ (fp.exponent - 1) := by
    rw [aligned.upper_exponent, ← zpow_natCast, ← zpow_add₀ (by norm_num)]
    congr 1
    ring
  have top : (fp.normalizedBoundaries.2.mantissa.toNat : ℚ) *
      2 ^ fp.normalizedBoundaries.2.exponent = (2 * significand + 1) * 2 ^ (fp.exponent - 1) := by
    rw [aligned.upper, mantissa]
    push_cast
    rw [mul_assoc, shifted]
  rw [top] at upper
  have number_ : binary64.magnitude value.bits.toNat = binary64.scaled significand binade := by
    rw [pattern]
    exact Format.magnitude_scaled fits normal
  have above : binary64.magnitude (value.bits.toNat + 1) =
      binary64.scaled significand binade + 2 * 2 ^ (fp.exponent - 1) := by
    rw [pattern, ← half]
    exact Format.magnitude_succ fits normal
  have size : binary64.scaled significand binade = 2 * significand * 2 ^ (fp.exponent - 1) := by
    rw [Format.scaled, half]
    ring
  have bottom : (2 * significand - 1) * 2 ^ (fp.exponent - 1) < number ∧
      (significand = 2 ^ 52 → (4 * significand - 1) * (2 ^ (fp.exponent - 1) / 2) < number) := by
    have word : fp.mantissa = DiyFp.hiddenBit ↔ significand = 2 ^ 52 := by
      rw [← mantissa, ← UInt64.toNat_inj]
      rfl
    by_cases special : significand = 2 ^ 52
    · have halved : (2 : ℚ) ^ (places - 1) * 2 ^ fp.normalizedBoundaries.2.exponent =
          2 ^ (fp.exponent - 1) / 2 := by
        obtain ⟨fewer, rfl⟩ := Nat.exists_eq_add_of_le' (Nat.one_le_of_lt aligned.room)
        rw [← shifted, Nat.add_sub_cancel, pow_succ]
        ring
      rw [aligned.lower, if_pos (word.mpr special), mantissa, Nat.cast_mul, Nat.cast_sub (by omega)]
        at lower
      push_cast at lower
      rw [mul_assoc, halved] at lower
      exact ⟨by linarith, fun _ => lower⟩
    · rw [aligned.lower, if_neg (word.not.mpr special), mantissa, Nat.cast_mul,
        Nat.cast_sub (by omega)] at lower
      push_cast at lower
      rw [mul_assoc, shifted] at lower
      exact ⟨lower, fun same => absurd same special⟩
  constructor
  · by_cases inner : binade = 0 ∨ 2 ^ 52 < significand
    · have below : binary64.magnitude (value.bits.toNat - 1) =
          binary64.scaled significand binade - 2 * 2 ^ (fp.exponent - 1) := by
        rw [pattern, ← half]
        exact Format.magnitude_pred some_ fits inner
      rw [number_, below, size]
      linarith [bottom.1]
    · obtain ⟨before, rfl⟩ := Nat.exists_eq_succ_of_ne_zero fun same => inner (.inl same)
      have same : significand = 2 ^ 52 := by omega
      have quarter : (2 : ℚ) ^ ((before : ℤ) + binary64.leastExponent) =
          2 ^ (fp.exponent - 1) := by
        rw [least, exponent]
        congr 1
        push_cast
        ring
      have below : binary64.magnitude (value.bits.toNat - 1) =
          binary64.scaled significand (before + 1) - 2 ^ (fp.exponent - 1) := by
        rw [pattern, ← quarter, same]
        exact Format.magnitude_pred_binade
      rw [number_, below, size]
      linarith [bottom.2 same]
  · rw [number_, above, size]
    linarith

/-- A number of the fixed point format between two products lies between the boundaries
that were multiplied. -/
theorem between_products {lower upper product_lower product_upper shift : ℕ} {exponent binary mk : ℤ}
    {scale value : ℚ} (scaled : scale = 10 ^ mk / 2 ^ (binary + 64))
    (places : exponent + (binary + 64) = -(shift : ℤ))
    (above : (product_upper : ℚ) < upper * scale + 1)
    (below : (lower : ℚ) * scale - 1 < product_lower)
    (least : (product_lower : ℚ) + 1 ≤ value * (2 ^ shift : ℕ))
    (most : value * (2 ^ shift : ℕ) ≤ (product_upper : ℚ) - 1) :
    (lower : ℚ) * 2 ^ exponent < value * 10 ^ (-mk) ∧
      value * 10 ^ (-mk) < (upper : ℚ) * 2 ^ exponent := by
  have factor : (0 : ℚ) < 2 ^ exponent / scale := by
    rw [scaled]
    exact div_pos (zpow_pos (by norm_num) _)
      (div_pos (zpow_pos (by norm_num) _) (zpow_pos (by norm_num) _))
  have ten : (10 : ℚ) ^ mk ≠ 0 := (zpow_pos (by norm_num) _).ne'
  have two : (2 : ℚ) ^ (binary + 64) ≠ 0 := (zpow_pos (by norm_num) _).ne'
  have nonzero : scale ≠ 0 := by
    rw [scaled]
    exact div_ne_zero ten two
  have moved : ((2 ^ shift : ℕ) : ℚ) * (2 ^ exponent / scale) = 10 ^ (-mk) := by
    have whole : ((2 ^ shift : ℕ) : ℚ) * 2 ^ exponent * 2 ^ (binary + 64) = 1 := by
      rw [mul_assoc, ← zpow_add₀ (by norm_num), places]
      push_cast
      rw [← zpow_natCast, ← zpow_add₀ (by norm_num), add_neg_cancel, zpow_zero]
    rw [scaled, zpow_neg]
    field_simp
    linarith
  constructor
  · calc (lower : ℚ) * 2 ^ exponent = lower * scale * (2 ^ exponent / scale) := by
          field_simp
      _ < value * (2 ^ shift : ℕ) * (2 ^ exponent / scale) :=
          mul_lt_mul_of_pos_right (by linarith) factor
      _ = value * 10 ^ (-mk) := by rw [mul_assoc, moved]
  · calc value * 10 ^ (-mk) = value * (2 ^ shift : ℕ) * (2 ^ exponent / scale) := by
          rw [mul_assoc, moved]
      _ < upper * scale * (2 ^ exponent / scale) :=
          mul_lt_mul_of_pos_right (by linarith) factor
      _ = (upper : ℚ) * 2 ^ exponent := by
          field_simp

/-- A cached power as the factor of a product. -/
theorem Cached.scale {mk : ℤ} {entry : DiyFp} (cached : Cached mk entry) :
    |(entry.mantissa.toNat : ℚ) - 10 ^ mk / 2 ^ (powerExponent mk + 64) * 2 ^ 64| ≤ 1 / 2 := by
  have unit : (0 : ℚ) < 2 ^ powerExponent mk := zpow_pos (by norm_num) _
  have near := cached.near
  rw [cached.exponent] at near
  have factor : (entry.mantissa.toNat : ℚ) - 10 ^ mk / 2 ^ (powerExponent mk + 64) * 2 ^ 64 =
      (entry.mantissa.toNat * 2 ^ powerExponent mk - 10 ^ mk) / 2 ^ powerExponent mk := by
    have split : (2 : ℚ) ^ (powerExponent mk + 64) = 2 ^ powerExponent mk * 2 ^ 64 := by
      rw [zpow_add₀ (by norm_num)]
      norm_num
    rw [split]
    field_simp
  rw [factor, abs_div, abs_of_pos unit, div_le_iff₀ unit]
  linarith

/-- The digits of a positive finite double. -/
structure Printed (value : Double) (digits : Bytes) (k : ℤ) : Prop where
  string : DigitString digits
  length : digits.length ≤ 17
  places : -324 ≤ digits.length + k ∧ digits.length + k ≤ 316
  inside : binary64.Inside value.bits.toNat (digitsValue 0 digits * 10 ^ k)

theorem grisu2_spec {value : Double} (positive : 0 < value.bits.toNat)
    (finite : value.bits.toNat < binary64.infinity) {limit : ℕ} (enough : 20 ≤ limit) :
    ∃ digits k, grisu2 limit value = pure (digits, k) ∧ Printed value digits k := by
  obtain ⟨significand, binade, pattern, some_, fits, normal, mantissa, exponent⟩ :=
    DiyFp.ofDouble_spec positive finite
  have aligned := @DiyFp.aligned (DiyFp.ofDouble value) (by omega) (by omega)
  have apart := @spread (DiyFp.ofDouble value) (by omega) (by omega)
  have between := @inside_of_between value positive finite
  have infinity : binary64.infinity = 2047 * 2 ^ 52 := rfl
  unfold grisu2
  dsimp only
  generalize DiyFp.ofDouble value = val at *
  have leading : clz64 (2 * val.mantissa.toNat + 1) ≤ 62 := by
    have log := @Nat.log_pos 2 _ (by norm_num)
      (show 2 ≤ 2 * val.mantissa.toNat + 1 by omega)
    rw [clz64]
    omega
  have room := aligned.room
  have place := aligned.upper_exponent
  obtain ⟨least, most, lowest, highest⟩ :=
    @powerFor_spec val.normalizedBoundaries.2.exponent (by omega) (by omega)
  obtain ⟨entry, found, cached⟩ :=
    @dtoapow_cached (powerFor val.normalizedBoundaries.2.exponent) (by omega) (by omega)
  unfold powerFor at found
  rw [found]
  dsimp only
  change ∃ digits k, digitsGen limit _ _ _ (-powerFor val.normalizedBoundaries.2.exponent) =
    pure (digits, k) ∧ _
  have lowerProduct := val.normalizedBoundaries.1.mulWide_mantissa entry
  have middleProduct := val.normalize.mulWide_mantissa entry
  have upperProduct := val.normalizedBoundaries.2.mulWide_mantissa entry
  obtain ⟨large, above, below, ratio⟩ := apart.allowance cached.full
  have exponents : (val.normalizedBoundaries.2.mulWide entry).exponent =
    val.normalizedBoundaries.2.exponent + entry.exponent + 64 := rfl
  rw [cached.exponent] at exponents
  unfold DiyFp.rounded at lowerProduct middleProduct upperProduct
  rw [← upperProduct] at large above ratio
  rw [← middleProduct] at above below
  rw [← lowerProduct] at below ratio
  have one : (1 : UInt64).toNat = 1 := rfl
  have upperWord : ((val.normalizedBoundaries.2.mulWide entry).mantissa - 1).toNat =
      (val.normalizedBoundaries.2.mulWide entry).mantissa.toNat - 1 := by
    rw [UInt64.toNat_sub_of_le _ _ (by rw [UInt64.le_iff_toNat_le, one]; omega), one]
  have lowerWord : ((val.normalizedBoundaries.1.mulWide entry).mantissa + 1).toNat =
      (val.normalizedBoundaries.1.mulWide entry).mantissa.toNat + 1 := by
    have word := (val.normalize.mulWide entry).mantissa.toNat_lt
    rw [UInt64.toNat_add, one]
    exact Nat.mod_eq_of_lt (by omega)
  have delta : ((val.normalizedBoundaries.2.mulWide entry).mantissa - 1 -
      ((val.normalizedBoundaries.1.mulWide entry).mantissa + 1)).toNat =
      (val.normalizedBoundaries.2.mulWide entry).mantissa.toNat - 1 -
        ((val.normalizedBoundaries.1.mulWide entry).mantissa.toNat + 1) := by
    rw [UInt64.toNat_sub_of_le _ _ (by
      rw [UInt64.le_iff_toNat_le, upperWord, lowerWord]; omega), upperWord, lowerWord]
  obtain ⟨shift, places⟩ : ∃ shift : ℕ, val.normalizedBoundaries.2.exponent +
      (powerExponent (powerFor val.normalizedBoundaries.2.exponent) + 64) = -(shift : ℤ) :=
    ⟨(-(val.normalizedBoundaries.2.exponent +
      (powerExponent (powerFor val.normalizedBoundaries.2.exponent) + 64))).toNat, by omega⟩
  have one_le : 2 ^ shift ≤ 2 ^ 59 := Nat.pow_le_pow_right (by norm_num) (by omega)
  obtain ⟨digits, kappa, count, run, generated, counted, atMost⟩ := @digitsGen_spec limit shift
    (-powerFor val.normalizedBoundaries.2.exponent) (val.normalize.mulWide entry)
    ⟨(val.normalizedBoundaries.2.mulWide entry).mantissa - 1,
      (val.normalizedBoundaries.2.mulWide entry).exponent⟩
    ((val.normalizedBoundaries.2.mulWide entry).mantissa - 1 -
      ((val.normalizedBoundaries.1.mulWide entry).mantissa + 1))
    (by rw [exponents, ← places]; ring) (by omega) (by omega) (by rw [upperWord]; omega)
    (by rw [upperWord]; omega) (by rw [upperWord, delta]; omega) (by rw [delta]; omega)
    (by rw [upperWord, delta]; omega) enough
  have short := generated.short
  have least := generated.lower
  have most := generated.upper
  rw [delta, upperWord] at short least
  rw [upperWord] at most
  refine ⟨digits, _, run, generated.string, ?_, ?_, ?_⟩
  · by_contra long
    have power : 10 ^ 16 ≤ 10 ^ (digits.length - 2) := Nat.pow_le_pow_right (by norm_num) (by omega)
    have product := Nat.mul_le_mul_right
      ((val.normalizedBoundaries.2.mulWide entry).mantissa.toNat - 1 -
        ((val.normalizedBoundaries.1.mulWide entry).mantissa.toNat + 1)) power
    have bound := short (by omega)
    omega
  · have counts := generated.places
    constructor <;> omega
  · have upperError := product_error val.normalizedBoundaries.2.mantissa.toNat_lt cached.scale
    have lowerError := product_error val.normalizedBoundaries.1.mantissa.toNat_lt cached.scale
    rw [← upperProduct] at upperError
    rw [← lowerProduct] at lowerError
    have order : (val.normalizedBoundaries.1.mulWide entry).mantissa.toNat + 1 ≤
        (val.normalizedBoundaries.2.mulWide entry).mantissa.toNat - 1 := by omega
    have one_le : 1 ≤ (val.normalizedBoundaries.2.mulWide entry).mantissa.toNat := by omega
    push_cast [Nat.cast_sub order, Nat.cast_sub one_le] at least most
    have inside := @between_products _ _ _ _ _ _ _ _ _ (digitsValue 0 digits * 10 ^ kappa) rfl places
      upperError.1 lowerError.2 (by push_cast; linarith) (by push_cast; linarith)
    have moved : (digitsValue 0 digits : ℚ) * 10 ^ kappa *
        10 ^ (-powerFor val.normalizedBoundaries.2.exponent) =
        digitsValue 0 digits *
          10 ^ (-powerFor val.normalizedBoundaries.2.exponent + kappa) := by
      rw [mul_assoc, ← zpow_add₀ (by norm_num), Int.add_comm kappa]
    rw [moved] at inside
    exact between inside.1 inside.2

/-- The pattern of a positive finite double. -/
theorem positive_pattern {value : Double} (finite : value.isFinite = true)
    (sign : binary64.isNegative value.bits.toNat = false)
    (nonzero : binary64.isZero value.bits.toNat = false) :
    0 < value.bits.toNat ∧ value.bits.toNat < binary64.infinity := by
  have word := value.bits.toNat_lt
  have half : binary64.signBit = 2 ^ 63 := rfl
  rw [Format.isNegative, half, beq_eq_false_iff_ne] at sign
  have pattern : binary64.magnitudePattern value.bits.toNat = value.bits.toNat := by
    rw [Format.magnitudePattern, half]
    omega
  rw [Double.isFinite, Format.isFinite, pattern, decide_eq_true_eq] at finite
  rw [Format.isZero, pattern, beq_eq_false_iff_ne] at nonzero
  exact ⟨Nat.pos_of_ne_zero nonzero, finite⟩

/-- Printing identifies the double: the digits and the exponent denote a decimal strictly
inside its rounding interval, so that reading it back correctly rounded gives the double,
there are between 1 and 17 digits, and no operation on words overflows on the way. -/
theorem printed_identifies (value : Double) (finite : value.isFinite = true)
    (sign : binary64.isNegative value.bits.toNat = false)
    (nonzero : binary64.isZero value.bits.toNat = false) (limit : ℕ) (enough : 20 ≤ limit) :
    ∃ digits k, (grisu2 limit value).Exactly (digits, k) ∧ DigitString digits ∧
      1 ≤ digits.length ∧ digits.length ≤ 17 ∧
      binary64.Inside value.bits.toNat (digitsValue 0 digits * 10 ^ k) ∧
      binary64.round (digitsValue 0 digits * 10 ^ k) = value.bits.toNat := by
  obtain ⟨positive, below⟩ := positive_pattern finite sign nonzero
  obtain ⟨digits, k, result, printed⟩ := grisu2_spec positive below enough
  refine ⟨digits, k, ?_, printed.string, ?_, printed.length, printed.inside,
    Format.round_inside positive below printed.inside⟩
  · rw [Machine.Exactly, result]
    rfl
  · exact List.length_pos_of_ne_nil printed.string.nonempty

/-- The least positive double. -/
theorem printed_identifies_least : ∃ digits k,
    (grisu2 20 ⟨1⟩).Exactly (digits, k) ∧ DigitString digits ∧
      1 ≤ digits.length ∧ digits.length ≤ 17 ∧
      binary64.Inside 1 (digitsValue 0 digits * 10 ^ k) ∧
      binary64.round (digitsValue 0 digits * 10 ^ k) = 1 :=
  printed_identifies ⟨1⟩ (by decide) (by decide) (by decide) 20 le_rfl

example : grisu2 20 ⟨0x3FF8000000000000⟩ false = some (([0x31, 0x35], -1), false) := by
  decide +kernel

end Join
