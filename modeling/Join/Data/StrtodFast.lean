import Join.Data.AtodPow
import Join.Data.ValueOrder
import Join.Library.IeeeNeighbours

/-!
# The fast conversion of a number

`strtodFast` converts a significand with a power of ten in two ways. When the significand and
the power are doubles, one multiplication or one division of doubles is the nearest double.
Otherwise the significand is multiplied with the 128 leading bits of the power, and the product
is rounded to the 53 bits of a double.

The second way goes wrong on two kinds of numbers. A product just below the middle of two doubles
is rounded up although bits are left below it. And an exponent between 22 and 38 has already been
replaced by 22 when the first way turns out not to apply, so the second one starts from the wrong
power of ten.
-/

set_option autoImplicit false

namespace Join

open Library.Ieee

/-! ## The product in three words -/

/-- The three words are the product. -/
theorem umul192_product {power significand : ℕ} (fits : power < 2 ^ 128)
    (few : significand < 2 ^ 64) :
    umul192 (power / 2 ^ 64) (power % 2 ^ 64) significand =
      (power * significand / 2 ^ 128, power * significand / 2 ^ 64 % 2 ^ 64,
        power * significand % 2 ^ 64) := by
  have product : power * significand =
      power % 2 ^ 64 * significand + 2 ^ 64 * (power / 2 ^ 64 * significand) := by
    calc power * significand =
          (power % 2 ^ 64 + 2 ^ 64 * (power / 2 ^ 64)) * significand := by rw [Nat.mod_add_div]
      _ = _ := by ring
  have upper : power * significand / 2 ^ 64 =
      power / 2 ^ 64 * significand + power % 2 ^ 64 * significand / 2 ^ 64 := by
    rw [product, Nat.add_mul_div_left _ _ (by norm_num), Nat.add_comm]
  have lower : power * significand % 2 ^ 64 = power % 2 ^ 64 * significand % 2 ^ 64 := by
    rw [product, Nat.add_mul_mod_self_left]
  have small : power * significand / 2 ^ 64 < 2 ^ 128 := by
    apply Nat.div_lt_of_lt_mul
    calc power * significand < 2 ^ 128 * 2 ^ 64 := Nat.mul_lt_mul'' fits few
      _ = 2 ^ 64 * 2 ^ 128 := by norm_num
  rw [umul192, ← upper, ← lower, Nat.mod_eq_of_lt small, Nat.div_div_eq_div_mul,
    show (2 ^ 64 * 2 ^ 64 : ℕ) = 2 ^ 128 by norm_num]

/-- The weight of the last bit of a product that a double keeps. -/
def lastPlace (product : ℕ) : ℕ := 2 ^ (Nat.log 2 product - 52)

/-- The middle of the doubles below and above a product. -/
def middleAbove (product : ℕ) : ℕ :=
  product / lastPlace product * lastPlace product + lastPlace product / 2

/-- Whether the table path rounds a product up: from one unit of its 64 leading bits below the
middle on, except at the middle itself over an even significand. -/
def RoundsUp (product : ℕ) : Prop :=
  middleAbove product < product + lastPlace product / 2 ^ 11 ∧
    (product = middleAbove product → product / lastPlace product % 2 = 1)

instance (product : ℕ) : Decidable (RoundsUp product) := by
  unfold RoundsUp
  infer_instance

/-- The product shifted to the top of a word. -/
theorem shifted_words {product lz : ℕ} (short : lz ≤ 63) (fits : product < 2 ^ (192 - lz)) :
    product / 2 ^ 128 * 2 ^ lz % 2 ^ 64 ||| product / 2 ^ 64 % 2 ^ 64 / 2 ^ (64 - lz) =
      product / 2 ^ (128 - lz) := by
  have high : product / 2 ^ 128 < 2 ^ (64 - lz) := by
    apply Nat.div_lt_of_lt_mul
    rwa [← pow_add, show 128 + (64 - lz) = 192 - lz by omega]
  have word : 2 ^ 64 = 2 ^ (64 - lz) * 2 ^ lz := by
    rw [← pow_add]
    congr 1
    omega
  have kept : product / 2 ^ 128 * 2 ^ lz % 2 ^ 64 = 2 ^ lz * (product / 2 ^ 128) := by
    rw [Nat.mul_comm, Nat.mod_eq_of_lt]
    calc 2 ^ lz * (product / 2 ^ 128) < 2 ^ lz * 2 ^ (64 - lz) :=
          Nat.mul_lt_mul_of_pos_left high (by positivity)
      _ = 2 ^ 64 := by rw [word, Nat.mul_comm]
  have low : product / 2 ^ 64 % 2 ^ 64 / 2 ^ (64 - lz) < 2 ^ lz := by
    apply Nat.div_lt_of_lt_mul
    rw [← word]
    exact Nat.mod_lt _ (by norm_num)
  have whole : product / 2 ^ (128 - lz) = product / 2 ^ 64 / 2 ^ (64 - lz) := by
    rw [Nat.div_div_eq_div_mul, ← pow_add]
    congr 2
    omega
  have split : product / 2 ^ 64 =
      2 ^ (64 - lz) * (2 ^ lz * (product / 2 ^ 128)) + product / 2 ^ 64 % 2 ^ 64 := by
    have parts := Nat.div_add_mod (product / 2 ^ 64) (2 ^ 64)
    rw [Nat.div_div_eq_div_mul, ← pow_add] at parts
    rw [← Nat.mul_assoc, ← word]
    exact parts.symm
  have joined := congrArg (fun word => word / 2 ^ (64 - lz)) split
  rw [Nat.mul_add_div (by positivity)] at joined
  rw [kept, ← Nat.two_pow_add_eq_or_of_lt low, whole, joined]

/-- The bits behind the top word, with the lowest word as one bit. -/
theorem shifted_rest {product lz : ℕ} (short : lz ≤ 63) :
    (product / 2 ^ 64 % 2 ^ 64 * 2 ^ lz % 2 ^ 64 ||| if product % 2 ^ 64 ≠ 0 then 1 else 0) ≠ 0 ↔
      product % 2 ^ (128 - lz) ≠ 0 := by
  have word : 2 ^ 64 = 2 ^ (64 - lz) * 2 ^ lz := by
    rw [← pow_add]
    congr 1
    omega
  have shifted : product / 2 ^ 64 % 2 ^ 64 * 2 ^ lz % 2 ^ 64 =
      product / 2 ^ 64 % 2 ^ (64 - lz) * 2 ^ lz := by
    rw [← Nat.mod_mod_of_dvd (product / 2 ^ 64) (Dvd.intro _ word.symm), word,
      Nat.mul_mod_mul_right]
  have rest : product % 2 ^ (128 - lz) =
      product % 2 ^ 64 + 2 ^ 64 * (product / 2 ^ 64 % 2 ^ (64 - lz)) := by
    rw [← Nat.mod_mul, ← pow_add]
    congr 2
    omega
  have unit : 0 < 2 ^ lz := by positivity
  rw [shifted, rest, Ne, Nat.or_eq_zero_iff, Nat.mul_eq_zero]
  generalize product / 2 ^ 64 % 2 ^ (64 - lz) = bits
  generalize product % 2 ^ 64 = last
  by_cases none : last = 0
  · simp [none]
  · simp [none]

theorem le_log {product : ℕ} (large : 2 ^ 127 ≤ product) : 127 ≤ Nat.log 2 product :=
  Nat.le_log_of_pow_le (by norm_num) large

theorem lastPlace_eq {product : ℕ} (large : 2 ^ 127 ≤ product) :
    lastPlace product = 2 ^ (Nat.log 2 product - 53) * 2 := by
  have size := le_log large
  rw [lastPlace, ← pow_succ]
  congr 1
  omega

theorem lastPlace_pos (product : ℕ) : 0 < lastPlace product := by
  unfold lastPlace
  positivity

/-- A product begins with the 53 bits of a significand. -/
theorem kept_bounds {product : ℕ} (large : 2 ^ 127 ≤ product) :
    2 ^ 52 ≤ product / lastPlace product ∧ product / lastPlace product < 2 ^ 53 := by
  have size := le_log large
  have someProduct : product ≠ 0 := by
    rintro rfl
    norm_num at large
  constructor
  · rw [Nat.le_div_iff_mul_le (lastPlace_pos product), lastPlace, ← pow_add,
      show 52 + (Nat.log 2 product - 52) = Nat.log 2 product by omega]
    exact Nat.pow_log_le_self 2 someProduct
  · apply Nat.div_lt_of_lt_mul
    rw [lastPlace, ← pow_add, show Nat.log 2 product - 52 + 53 = Nat.log 2 product + 1 by omega]
    exact Nat.lt_pow_succ_log_self (by norm_num) product

/-- A product in the units of its 64 leading bits. -/
theorem roundsUp_iff {product unit top : ℕ} (positive : 0 < unit)
    (place : lastPlace product = 2 ^ 11 * unit) (leading : top = product / unit) :
    RoundsUp product ↔ top % 2 ^ 11 > 0x400 ∨
      (top % 2 ^ 11 = 0x400 ∧ (product % unit ≠ 0 ∨ top / 2 ^ 11 % 2 = 1)) ∨
      (top % 2 ^ 11 = 0x3FF ∧ product % unit ≠ 0) := by
  have significand : product / lastPlace product = top / 2 ^ 11 := by
    rw [place, leading, Nat.mul_comm, Nat.div_div_eq_div_mul]
  have half : lastPlace product / 2 = 0x400 * unit := by omega
  have single : lastPlace product / 2 ^ 11 = unit := by omega
  have behind := Nat.mod_lt product positive
  have whole : product =
      top / 2 ^ 11 * lastPlace product + unit * (top % 2 ^ 11) + product % unit := by
    calc product = unit * top + product % unit := by rw [leading, Nat.div_add_mod]
      _ = unit * (2 ^ 11 * (top / 2 ^ 11) + top % 2 ^ 11) + product % unit := by
          rw [Nat.div_add_mod]
      _ = _ := by
          rw [place]
          ring
  rw [RoundsUp, middleAbove, significand, half, single]
  generalize top / 2 ^ 11 * lastPlace product = base at whole ⊢
  generalize product % unit = rest at behind whole ⊢
  generalize top % 2 ^ 11 = frac at whole ⊢
  rcases lt_trichotomy frac 0x400 with below | same | above
  · rcases (Nat.lt_succ_iff.mp below).lt_or_eq with lower | next
    · have bound : unit * frac ≤ unit * 0x3FE := Nat.mul_le_mul_left _ (by omega)
      omega
    · subst next
      omega
  · subst same
    omega
  · have bound : unit * 0x401 ≤ unit * frac := Nat.mul_le_mul_left _ above
    omega

/-- The bits of a double from the leading word of a product and what lies behind it. -/
theorem rounded_bits {product top below : ℕ} {exp : ℤ} (large : 2 ^ 127 ≤ product)
    (leading : top = product / 2 ^ (Nat.log 2 product - 63))
    (behind : below ≠ 0 ↔ product % 2 ^ (Nat.log 2 product - 63) ≠ 0) (positive : 0 < exp) :
    (exp.toNat * 2 ^ 52 ||| top / 2 ^ 11 % 2 ^ 52) +
      (if top % 2 ^ 11 > 0x400 ∨
          (top % 2 ^ 11 = 0x400 ∧ (below ≠ 0 ∨ top / 2 ^ 11 % 2 ^ 52 % 2 = 1)) ∨
          (top % 2 ^ 11 = 0x3FF ∧ below ≠ 0) then 1 else 0) =
      (exp - 1).toNat * 2 ^ 52 + product / lastPlace product +
        if RoundsUp product then 1 else 0 := by
  have size := le_log large
  have unit : 0 < 2 ^ (Nat.log 2 product - 63) := by positivity
  have split : Nat.log 2 product - 52 = 11 + (Nat.log 2 product - 63) := by omega
  have place : lastPlace product = 2 ^ 11 * 2 ^ (Nat.log 2 product - 63) := by
    rw [lastPlace, split, pow_add]
  have significand : product / lastPlace product = top / 2 ^ 11 := by
    rw [place, leading, Nat.mul_comm, Nat.div_div_eq_div_mul]
  obtain ⟨lower, upper⟩ := kept_bounds large
  have mantissa : top / 2 ^ 11 % 2 ^ 52 + 2 ^ 52 = top / 2 ^ 11 := by omega
  have parity : top / 2 ^ 11 % 2 ^ 52 % 2 = top / 2 ^ 11 % 2 := by omega
  have exponent : exp.toNat = (exp - 1).toNat + 1 := by omega
  have bits : exp.toNat * 2 ^ 52 ||| top / 2 ^ 11 % 2 ^ 52 =
      (exp - 1).toNat * 2 ^ 52 + product / lastPlace product := by
    rw [Nat.mul_comm, ← Nat.two_pow_add_eq_or_of_lt (Nat.mod_lt _ (by norm_num)), exponent,
      significand]
    omega
  rw [bits, parity]
  congr 1
  apply if_congr _ rfl rfl
  rw [roundsUp_iff unit place leading, behind]

/-- The biased exponent of the number that a product with the entry for a power stands for. -/
def biasedExponent (exponent : ℤ) (product : ℕ) : ℤ :=
  powerLog exponent + 896 + Nat.log 2 product

/-- The rounded product of a word and an entry, and nothing when it is no normal number. -/
theorem roundProduct_eq {product : ℕ} (exponent : ℤ) (large : 2 ^ 127 ≤ product)
    (fits : product < 2 ^ 192) :
    roundProduct exponent (product / 2 ^ 128) (product / 2 ^ 64 % 2 ^ 64) (product % 2 ^ 64) =
      if biasedExponent exponent product ≤ 0 ∨ biasedExponent exponent product ≥ 2047 then none
      else some ⟨UInt64.ofNat ((biasedExponent exponent product - 1).toNat * 2 ^ 52 +
        product / lastPlace product + if RoundsUp product then 1 else 0)⟩ := by
  have someProduct : product ≠ 0 := by
    rintro rfl
    norm_num at large
  have size := le_log large
  have most : Nat.log 2 product < 192 := Nat.log_lt_of_lt_pow someProduct fits
  have upper := Nat.lt_pow_succ_log_self (b := 2) (by norm_num) product
  by_cases high : product / 2 ^ 128 = 0
  · have small : product < 2 ^ 128 := (Nat.div_eq_zero_iff_lt (by norm_num)).mp high
    have log : Nat.log 2 product = 127 :=
      le_antisymm (Nat.lt_succ_iff.mp (Nat.log_lt_of_lt_pow someProduct small)) size
    have word : product / 2 ^ 64 % 2 ^ 64 = product / 2 ^ 64 := by omega
    have shift : clz64 (product / 2 ^ 64) = 0 := by
      rw [clz64, Nat.log_div_base_pow, log]
    have middle : ¬ (product / 2 ^ 128 = 0 ∧ product / 2 ^ 64 % 2 ^ 64 = 0) := by omega
    have biased : exponent * 217706 / 2 ^ 16 + 1087 - ((0 : ℕ) + 64 : ℤ) =
        biasedExponent exponent product := by
      rw [biasedExponent, powerLog, log]
      omega
    rw [roundProduct, if_neg middle]
    simp only [high, word, shift, ne_eq, not_true_eq_false, if_false, if_true, pow_zero, mul_one,
      biased, Nat.zero_or]
    by_cases range : biasedExponent exponent product ≤ 0 ∨ biasedExponent exponent product ≥ 2047
    · rw [if_pos range, if_pos range]
    · rw [if_neg range, if_neg range, ← rounded_bits large _ _ (by omega)]
      · rw [log]
      · rw [log]
        split_ifs with none <;> simpa using none
  · have log : Nat.log 2 (product / 2 ^ 128) = Nat.log 2 product - 128 := Nat.log_div_base_pow ..
    have wide : 2 ^ 128 ≤ product := by omega
    have above : 128 ≤ Nat.log 2 product := Nat.le_log_of_pow_le (by norm_num) wide
    have shift : clz64 (product / 2 ^ 128) = 191 - Nat.log 2 product := by
      rw [clz64, log]
      omega
    have middle : ¬ (product / 2 ^ 128 = 0 ∧ product / 2 ^ 64 % 2 ^ 64 = 0) := by omega
    have biased : exponent * 217706 / 2 ^ 16 + 1087 - ((191 - Nat.log 2 product : ℕ) : ℤ) =
        biasedExponent exponent product := by
      rw [biasedExponent, powerLog]
      omega
    have top : (if 191 - Nat.log 2 product ≠ 0 then
        product / 2 ^ 128 * 2 ^ (191 - Nat.log 2 product) % 2 ^ 64 |||
          product / 2 ^ 64 % 2 ^ 64 / 2 ^ (64 - (191 - Nat.log 2 product))
        else product / 2 ^ 128) = product / 2 ^ (Nat.log 2 product - 63) := by
      have shifted := shifted_words (by omega : 191 - Nat.log 2 product ≤ 63)
        (by rwa [show 192 - (191 - Nat.log 2 product) = Nat.log 2 product + 1 by omega])
      split_ifs with whole
      · rw [shifted]
        congr 2
        omega
      · congr 2
        omega
    rw [roundProduct, if_neg middle]
    simp only [high, shift, ne_eq, not_false_eq_true, if_false, if_true, biased, top]
    by_cases range : biasedExponent exponent product ≤ 0 ∨ biasedExponent exponent product ≥ 2047
    · rw [if_pos range, if_pos range]
    · rw [if_neg range, if_neg range, ← rounded_bits large _ _ (by omega)]
      · rfl
      · rw [shifted_rest (by omega)]
        have same : 128 - (191 - Nat.log 2 product) = Nat.log 2 product - 63 := by omega
        rw [same]

/-! ## The rounded product and the nearest double -/

/-- The table path rounds up too early: the product is less than one unit of its 64 leading bits
below a middle, which the exact product does not pass either, or only reaches over an even
significand. -/
def RoundsEarly (significand : ℕ) (exponent : ℤ) : Prop :=
  let product := atodpow exponent * significand
  let exact : ℚ := scaledPower exponent * significand
  middleAbove product < product + lastPlace product / 2 ^ 11 ∧ product < middleAbove product ∧
    (exact < middleAbove product ∨
      exact = middleAbove product ∧ product / lastPlace product % 2 = 0)

section Table

variable {significand : ℕ} {exponent : ℤ}

theorem product_bounds (entry : LeadingBits exponent) (positive : 0 < significand)
    (few : significand < 2 ^ 64) :
    2 ^ 127 ≤ atodpow exponent * significand ∧ atodpow exponent * significand < 2 ^ 192 := by
  constructor
  · calc 2 ^ 127 ≤ atodpow exponent := entry.full
      _ ≤ atodpow exponent * significand := Nat.le_mul_of_pos_right _ positive
  · calc atodpow exponent * significand < 2 ^ 128 * 2 ^ 64 := Nat.mul_lt_mul'' entry.fits few
      _ = 2 ^ 192 := by norm_num

/-- The exact product is less than a word above the product. -/
theorem exact_product (entry : LeadingBits exponent) (positive : 0 < significand) :
    ((atodpow exponent * significand : ℕ) : ℚ) ≤ scaledPower exponent * significand ∧
      scaledPower exponent * significand <
        (atodpow exponent * significand : ℕ) + significand := by
  have positive' : (0 : ℚ) < significand := by exact_mod_cast positive
  push_cast
  constructor
  · exact mul_le_mul_of_nonneg_right entry.below positive'.le
  · calc scaledPower exponent * significand < (atodpow exponent + 1) * significand :=
          mul_lt_mul_of_pos_right entry.above positive'
      _ = atodpow exponent * significand + significand := by ring

theorem unit_large {product : ℕ} (large : 2 ^ 127 ≤ product) :
    2 ^ 64 ≤ lastPlace product / 2 ^ 11 := by
  have size := le_log large
  rw [Nat.le_div_iff_mul_le (by norm_num), lastPlace, ← pow_add]
  exact Nat.pow_le_pow_right (by norm_num) (by omega)

/-- The middle above a product ends in zeros. -/
theorem middle_zeros {product : ℕ} (large : 2 ^ 127 ≤ product) :
    74 ≤ Nat.log 2 product - 53 ∧ 2 ^ (Nat.log 2 product - 53) ∣ middleAbove product := by
  have size := le_log large
  have place := lastPlace_eq large
  refine ⟨by omega, ?_⟩
  rw [middleAbove, place, Nat.mul_div_cancel _ (by norm_num)]
  exact dvd_add (Dvd.dvd.mul_left (Dvd.intro _ rfl) _) dvd_rfl

theorem cast_middleAbove {product : ℕ} (large : 2 ^ 127 ≤ product) :
    (middleAbove product : ℚ) =
      ((product / lastPlace product : ℕ) + 1 / 2) * lastPlace product := by
  have place := lastPlace_eq large
  have half : ((lastPlace product / 2 : ℕ) : ℚ) = lastPlace product / 2 := by
    rw [Nat.cast_div (Dvd.intro_left _ place.symm) (by norm_num), Nat.cast_ofNat]
  rw [middleAbove, Nat.cast_add, Nat.cast_mul, half]
  ring

theorem kept_le_exact (entry : LeadingBits exponent) (positive : 0 < significand) :
    ((atodpow exponent * significand / lastPlace (atodpow exponent * significand) : ℕ) : ℚ) *
        lastPlace (atodpow exponent * significand) ≤ scaledPower exponent * significand := by
  have begins := Nat.div_mul_le_self (atodpow exponent * significand)
    (lastPlace (atodpow exponent * significand))
  exact le_trans (by exact_mod_cast begins) (exact_product entry positive).1

/-- The product is rounded as the exact product would be, unless it is rounded too early. -/
theorem roundsUp_nearest_iff (entry : LeadingBits exponent) (positive : 0 < significand)
    (few : significand < 2 ^ 64) :
    (RoundsUp (atodpow exponent * significand) ↔
      ¬ (scaledPower exponent * significand < middleAbove (atodpow exponent * significand) ∨
        scaledPower exponent * significand = middleAbove (atodpow exponent * significand) ∧
          atodpow exponent * significand / lastPlace (atodpow exponent * significand) % 2 = 0)) ↔
      ¬ RoundsEarly significand exponent := by
  obtain ⟨large, fits⟩ := product_bounds entry positive few
  obtain ⟨lower, upper⟩ := exact_product entry positive
  have ending : atodpow exponent * significand = middleAbove (atodpow exponent * significand) →
      scaledPower exponent * significand = (atodpow exponent * significand : ℕ) := by
    intro same
    have divides := (middle_zeros large).2
    rw [← same] at divides
    have entire := exact_of_trailing_zeros entry positive few (middle_zeros large).1 divides
    rw [entire, Nat.cast_mul]
  have word := unit_large large
  unfold RoundsUp RoundsEarly
  dsimp only
  generalize atodpow exponent * significand = product at lower upper ending word ⊢
  generalize scaledPower exponent * significand = exact at lower upper ending ⊢
  generalize product / lastPlace product = kept
  generalize lastPlace product / 2 ^ 11 = unit at word ⊢
  generalize middleAbove product = middle at ending ⊢
  by_cases near : middle < product + unit
  · rcases lt_trichotomy product middle with below | same | above
    · have reaches : middle < product + unit ∧ (product = middle → kept % 2 = 1) :=
        ⟨near, fun same => absurd same below.ne⟩
      rw [iff_true_left reaches]
      exact not_congr ⟨fun down => ⟨near, below, down⟩, fun early => early.2.2⟩
    · subst same
      rw [ending rfl]
      simp [near]
    · have above' : (middle : ℚ) < exact := by
        have ordered : (middle : ℚ) < product := by exact_mod_cast above
        linarith
      simp [near, above.ne', above.not_gt, above'.ne', above'.not_gt]
  · have below' : exact < middle := by
      have ordered : ((product + significand : ℕ) : ℚ) < middle := by
        exact_mod_cast (by omega : product + significand < middle)
      push_cast at ordered
      linarith
    simp [near, below']

/-- A number in the units of the last place of its product. -/
theorem number_eq_scaled (entry : LeadingBits exponent) (positive : 0 < significand)
    (few : significand < 2 ^ 64)
    (normal : 0 < biasedExponent exponent (atodpow exponent * significand)) :
    (significand : ℚ) * 10 ^ exponent =
      scaledPower exponent * significand / lastPlace (atodpow exponent * significand) *
        (2 : ℚ) ^
          ((((biasedExponent exponent (atodpow exponent * significand) - 1).toNat : ℕ) : ℤ) +
            binary64.leastExponent) := by
  obtain ⟨large, -⟩ := product_bounds entry positive few
  have size : 127 ≤ Nat.log 2 (atodpow exponent * significand) := le_log large
  have least : binary64.leastExponent = -1074 := rfl
  have place : ((lastPlace (atodpow exponent * significand) : ℕ) : ℚ) =
      (2 : ℚ) ^ ((Nat.log 2 (atodpow exponent * significand) : ℤ) - 52) := by
    rw [lastPlace, Nat.cast_pow, Nat.cast_ofNat, ← zpow_natCast]
    congr 1
    omega
  have units : ((((biasedExponent exponent (atodpow exponent * significand) - 1).toNat : ℕ) : ℤ) +
      binary64.leastExponent) = ((Nat.log 2 (atodpow exponent * significand) : ℤ) - 52) +
        (powerLog exponent - 127) := by
    rw [least]
    unfold biasedExponent at normal ⊢
    omega
  have unit : (2 : ℚ) ^ ((Nat.log 2 (atodpow exponent * significand) : ℤ) - 52) ≠ 0 :=
    (zpow_pos (by norm_num) _).ne'
  have scale : (2 : ℚ) ^ (powerLog exponent - 127) ≠ 0 := (zpow_pos (by norm_num) _).ne'
  rw [units, zpow_add₀ (by norm_num), place, ← mul_assoc, div_mul_cancel₀ _ unit, scaledPower]
  field_simp

/-- The table path gives the nearest double unless the product is rounded too early. -/
theorem rounded_nearest_iff (entry : LeadingBits exponent) (positive : 0 < significand)
    (few : significand < 2 ^ 64)
    (normal : 0 < biasedExponent exponent (atodpow exponent * significand))
    (finite : biasedExponent exponent (atodpow exponent * significand) < 2047) :
    (biasedExponent exponent (atodpow exponent * significand) - 1).toNat * 2 ^ 52 +
        atodpow exponent * significand / lastPlace (atodpow exponent * significand) +
        (if RoundsUp (atodpow exponent * significand) then 1 else 0) =
      binary64.round (significand * 10 ^ exponent) ↔ ¬ RoundsEarly significand exponent := by
  obtain ⟨large, -⟩ := product_bounds entry positive few
  obtain ⟨lower, upper⟩ := exact_product entry positive
  obtain ⟨least, most⟩ := kept_bounds large
  have word := unit_large large
  have placePos := lastPlace_pos (atodpow exponent * significand)
  rw [number_eq_scaled entry positive few normal, ← roundsUp_nearest_iff entry positive few]
  have middle := cast_middleAbove large
  set product := atodpow exponent * significand
  set exact : ℚ := scaledPower exponent * significand
  have place : (0 : ℚ) < lastPlace product := by exact_mod_cast placePos
  have begins : ((product / lastPlace product * lastPlace product : ℕ) : ℚ) ≤ product := by
    exact_mod_cast Nat.div_mul_le_self _ _
  have follows : (2 : ℚ) * (product + significand) <
      2 * ((product / lastPlace product + 1 : ℕ) * lastPlace product) + lastPlace product := by
    have whole := Nat.lt_div_mul_add placePos (a := product)
    have next := Nat.div_mul_le_self (lastPlace product) (2 ^ 11)
    have ordered : 2 * (product + significand) <
        2 * ((product / lastPlace product + 1) * lastPlace product) + lastPlace product := by
      rw [Nat.add_mul]
      omega
    exact_mod_cast ordered
  push_cast at begins follows
  have infinity : binary64.infinity = 2047 * 2 ^ 52 := rfl
  have nearest := @Format.round_between binary64 (product / lastPlace product)
    (biasedExponent exponent product - 1).toNat (exact / lastPlace product) (by omega)
    (.inr least) most (by
      rw [infinity]
      show _ * 2 ^ 52 + _ + 1 ≤ _
      omega)
    ((le_div_iff₀ place).mpr (begins.trans lower))
    ((div_lt_iff₀ place).mpr (by linarith))
  have below : exact / lastPlace product < (product / lastPlace product : ℕ) + 1 / 2 ↔
      exact < middleAbove product := by
    rw [div_lt_iff₀ place, middle]
  have same : exact / lastPlace product = (product / lastPlace product : ℕ) + 1 / 2 ↔
      exact = middleAbove product := by
    rw [div_eq_iff place.ne', middle]
  simp only [below, same] at nearest
  rw [nearest, show binary64.fractionBits = 52 from rfl, Nat.add_left_cancel_iff]
  split_ifs with up down down
  · simp [up, down]
  · simp [up, down]
  · simp [up, down]
  · simp [up, down]

end Table

/-! ## Calculating with doubles -/

namespace Double

variable {lhs rhs : Double}

theorem toNat_encode (value : ℚ) :
    (⟨UInt64.ofNat (binary64.encode false value)⟩ : Double).bits.toNat = binary64.round value := by
  rw [UInt64.toNat_ofNat_of_lt' (encode_lt false value), Format.encode, if_neg Bool.false_ne_true,
    Nat.zero_add]

theorem round_lt_signBit (value : ℚ) : binary64.round value < binary64.signBit :=
  (binary64.round_le_infinity value).trans_lt binary64.infinity_lt_signBit

theorem isNegative_of_lt {pattern : ℕ} (small : pattern < binary64.signBit) :
    binary64.isNegative pattern = false := by
  rw [Format.isNegative, Nat.div_eq_of_lt small]
  rfl

theorem magnitudePattern_of_lt {pattern : ℕ} (small : pattern < binary64.signBit) :
    binary64.magnitudePattern pattern = pattern := Nat.mod_eq_of_lt small

theorem toNat_ofInt_natCast (size : ℕ) : (ofInt size).bits.toNat = binary64.round size :=
  toNat_encode size

theorem toNat_mul (left : lhs.bits.toNat < binary64.signBit)
    (right : rhs.bits.toNat < binary64.signBit) :
    (lhs.mul rhs).bits.toNat =
      binary64.round (binary64.magnitude lhs.bits.toNat * binary64.magnitude rhs.bits.toNat) := by
  rw [mul, isNegative_of_lt left, isNegative_of_lt right, magnitudePattern_of_lt left,
    magnitudePattern_of_lt right]
  exact toNat_encode _

theorem toNat_div (left : lhs.bits.toNat < binary64.signBit)
    (right : rhs.bits.toNat < binary64.signBit) :
    (lhs.div rhs).bits.toNat =
      binary64.round (binary64.magnitude lhs.bits.toNat / binary64.magnitude rhs.bits.toNat) := by
  rw [div, isNegative_of_lt left, isNegative_of_lt right, magnitudePattern_of_lt left,
    magnitudePattern_of_lt right]
  exact toNat_encode _

/-- The powers of ten up to `10 ^ 22` are doubles. -/
theorem power_exact : ∀ size < 23,
    binary64.magnitude (ofInt (10 ^ size)).bits.toNat = 10 ^ size := by
  decide +kernel

theorem power_lt_signBit (size : ℕ) : (ofInt (10 ^ size)).bits.toNat < binary64.signBit := by
  have natural : ((10 : ℤ) ^ size) = ((10 ^ size : ℕ) : ℤ) := by push_cast; rfl
  rw [natural, toNat_ofInt_natCast]
  exact round_lt_signBit _

/-- Doubles without a sign are compared as their patterns. -/
theorem le_iff_of_rounded {left right : ℚ} (first : lhs.bits.toNat = binary64.round left)
    (second : rhs.bits.toNat = binary64.round right) :
    lhs.le rhs = true ↔ binary64.round left ≤ binary64.round right := by
  have number {value : Double} {size : ℚ} (rounded : value.bits.toNat = binary64.round size) :
      value.isNaN = false ∧ signedKey binary64 value.bits.toNat = binary64.round size := by
    rw [isNaN, Format.isNaN, signedKey, rounded, isNegative_of_lt (round_lt_signBit size),
      magnitudePattern_of_lt (round_lt_signBit size)]
    exact ⟨decide_eq_false (binary64.round_le_infinity size).not_gt, rfl⟩
  rw [le, (number first).1, (number second).1, (number first).2, (number second).2]
  simp

theorem toNat_limit :
    (ofInt 9007199254740991).bits.toNat = binary64.round (9007199254740991 : ℕ) :=
  toNat_ofInt_natCast 9007199254740991

/-- The integers below `2 ^ 53` keep to the limit. -/
theorem le_limit {value : Double} {size : ℕ} (rounded : value.bits.toNat = binary64.round size)
    (small : size < 2 ^ 53) : value.le (ofInt 9007199254740991) = true := by
  rw [le_iff_of_rounded rounded toNat_limit]
  apply binary64.round_mono
  exact_mod_cast (show size ≤ 9007199254740991 by omega)

/-- An integer that is not below `2 ^ 53` is rounded to a double that is not either. -/
theorem le_magnitude_ofInt {size : ℕ} (large : 2 ^ 53 ≤ size) :
    2 ^ 53 ≤ binary64.magnitude (ofInt size).bits.toNat := by
  have bound := @le_abs_number_ofInt (size : ℤ) (by rwa [Int.natAbs_natCast])
  rwa [abs_number, magnitudePattern_of_lt] at bound
  rw [toNat_ofInt_natCast]
  exact round_lt_signBit _

/-- A smaller one is kept. -/
theorem magnitude_ofInt {size : ℕ} (small : size < 2 ^ 53) :
    binary64.magnitude (ofInt size).bits.toNat = size := by
  rw [toNat_ofInt_natCast]
  exact Format.magnitude_round_natCast small

theorem limit_lt : binary64.round (9007199254740991 : ℕ) < binary64.round (2 ^ 53) := by
  have ordered : binary64.round (9007199254740991 : ℕ) ≤ binary64.round (2 ^ 53) :=
    binary64.round_mono (by norm_num)
  refine lt_of_le_of_ne ordered fun same => ?_
  have kept : binary64.magnitude (binary64.round (9007199254740991 : ℕ)) = _ :=
    Format.magnitude_round_natCast (by norm_num)
  have large := @le_magnitude_ofInt (2 ^ 53) le_rfl
  rw [toNat_ofInt_natCast, Nat.cast_pow, Nat.cast_ofNat, ← same, kept] at large
  norm_num at large

/-- What is not below `2 ^ 53` is past the limit, also when it has been rounded. -/
theorem not_le_limit {value : Double} {size : ℚ} (rounded : value.bits.toNat = binary64.round size)
    (large : 2 ^ 53 ≤ size) : value.le (ofInt 9007199254740991) = false := by
  rw [Bool.eq_false_iff, Ne, le_iff_of_rounded rounded toNat_limit, not_le]
  exact limit_lt.trans_le (binary64.round_mono large)

/-- A positive double is not zero. -/
theorem eq_zero_iff {value : Double} {size : ℚ} (rounded : value.bits.toNat = binary64.round size) :
    value.eq (ofInt 0) = true ↔ binary64.round size = 0 := by
  have zero : (ofInt 0).bits.toNat = 0 := by
    rw [← Int.natCast_zero, toNat_ofInt_natCast, Nat.cast_zero, Format.round_zero]
  rw [eq, isNaN, isNaN, Format.isNaN, Format.isNaN, zero, signedKey, signedKey, rounded,
    isNegative_of_lt (round_lt_signBit size), magnitudePattern_of_lt (round_lt_signBit size)]
  have number := (binary64.round_le_infinity size).not_gt
  simp [number, Format.isNegative, Format.magnitudePattern]

end Double

/-! ## The two ways -/

/-- The significand and the power are doubles, after what the exponent has above 22 has moved to
the significand. -/
def UsesDoubles (significand : ℕ) (exponent : ℤ) : Prop :=
  -22 ≤ exponent ∧ exponent ≤ 22 ∧ significand < 2 ^ 53 ∨
    22 < exponent ∧ exponent < 38 ∧ significand * 10 ^ (exponent - 22).toNat < 2 ^ 53

/-- The exponent has been replaced by 22 but the table is used nevertheless. -/
def LosesExponent (significand : ℕ) (exponent : ℤ) : Prop :=
  22 < exponent ∧ exponent < 38 ∧ 2 ^ 53 ≤ significand * 10 ^ (exponent - 22).toNat

section Ways

variable {significand : ℕ} {exponent : ℤ}

theorem ofInt_lt_signBit (size : ℕ) : (Double.ofInt size).bits.toNat < binary64.signBit := by
  rw [Double.toNat_ofInt_natCast]
  exact Double.round_lt_signBit _

theorem toNat_mul_power {value : Double} {size : ℚ} {power : ℕ} (few : power < 23)
    (small : value.bits.toNat < binary64.signBit)
    (exactly : binary64.magnitude value.bits.toNat = size) :
    (value.mul (.ofInt (10 ^ power))).bits.toNat = binary64.round (size * 10 ^ power) := by
  rw [Double.toNat_mul small (Double.power_lt_signBit power), exactly,
    Double.power_exact power few]

/-- The significand after the part of the exponent above 22 has moved to it. -/
theorem toNat_widened (lower : 22 < exponent) (upper : exponent < 38) :
    ((Double.ofInt significand).mul (.ofInt (10 ^ (exponent - 22).toNat))).bits.toNat =
      binary64.round (binary64.magnitude (Double.ofInt significand).bits.toNat *
        10 ^ (exponent - 22).toNat) :=
  toNat_mul_power (by omega) (ofInt_lt_signBit significand) rfl

/-- One operation on doubles gives the nearest double. -/
theorem strtodFast_doubles (doubles : UsesDoubles significand exponent) :
    ∃ value, strtodFast significand exponent = some value ∧
      value.bits.toNat = binary64.round (significand * 10 ^ exponent) := by
  rcases doubles with ⟨lower, upper, small⟩ | ⟨lower, upper, small⟩
  · have notLarge : ¬ (exponent > 22 ∧ exponent < 22 + 16) := by omega
    have within : exponent ≥ -22 ∧ exponent ≤ 22 ∧
        (Double.ofInt significand).le (.ofInt 9007199254740991) = true :=
      ⟨lower, upper, Double.le_limit (Double.toNat_ofInt_natCast significand) small⟩
    unfold strtodFast
    simp only [if_neg notLarge, if_pos within]
    by_cases negative : exponent < 0
    · refine ⟨_, if_pos negative, ?_⟩
      rw [Double.toNat_div (ofInt_lt_signBit significand) (Double.power_lt_signBit _),
        Double.magnitude_ofInt small, Double.power_exact _ (by omega)]
      have opposite : exponent = -((-exponent).toNat : ℕ) := by omega
      rw [div_eq_mul_inv, ← zpow_natCast, ← zpow_neg, ← opposite]
    · refine ⟨_, if_neg negative, ?_⟩
      rw [toNat_mul_power (by omega) (ofInt_lt_signBit significand) (Double.magnitude_ofInt small),
        ← zpow_natCast, Int.toNat_of_nonneg (by omega)]
  · have large : exponent > 22 ∧ exponent < 22 + 16 := by omega
    have few : significand < 2 ^ 53 :=
      (Nat.le_mul_of_pos_right _ (by positivity)).trans_lt small
    have widened := @toNat_widened significand exponent lower upper
    rw [Double.magnitude_ofInt few] at widened
    have rounded : ((Double.ofInt significand).mul
        (.ofInt (10 ^ (exponent - 22).toNat))).bits.toNat =
          binary64.round (significand * 10 ^ (exponent - 22).toNat : ℕ) := by
      rw [widened]
      push_cast
      rfl
    have within : (22 : ℤ) ≥ -22 ∧ (22 : ℤ) ≤ 22 ∧ ((Double.ofInt significand).mul
        (.ofInt (10 ^ (exponent - 22).toNat))).le (.ofInt 9007199254740991) = true :=
      ⟨by norm_num, le_rfl, Double.le_limit rounded small⟩
    have natural : ¬ (22 : ℤ) < 0 := by norm_num
    unfold strtodFast
    simp only [if_pos large, if_pos within, if_neg natural]
    refine ⟨_, rfl, ?_⟩
    have exactly : binary64.magnitude ((Double.ofInt significand).mul
        (.ofInt (10 ^ (exponent - 22).toNat))).bits.toNat =
          (significand * 10 ^ (exponent - 22).toNat : ℕ) := by
      rw [rounded]
      exact Format.magnitude_round_natCast small
    have powers : exponent = (exponent - 22).toNat + (22 : ℕ) := by omega
    rw [toNat_mul_power (by norm_num) (rounded ▸ Double.round_lt_signBit _) exactly]
    congr 1
    conv_rhs => rw [powers, zpow_add₀ (by norm_num), zpow_natCast, zpow_natCast]
    push_cast
    exact mul_assoc ..

theorem round_natCast_eq_zero_iff : binary64.round (significand : ℚ) = 0 ↔ significand = 0 := by
  constructor
  · intro zero
    by_contra positive
    have one : binary64.magnitude (binary64.round (1 : ℕ)) = (1 : ℕ) :=
      Format.magnitude_round_natCast (by norm_num)
    have least : binary64.round (1 : ℕ) ≤ binary64.round (significand : ℚ) :=
      binary64.round_mono (by exact_mod_cast Nat.one_le_iff_ne_zero.mpr positive)
    rw [zero, Nat.le_zero] at least
    rw [least] at one
    simp [Format.magnitude] at one
  · rintro rfl
    rw [Nat.cast_zero, Format.round_zero]

/-- Past the doubles, a significand that is not zero is multiplied with its entry. -/
theorem strtodFast_past (doubles : ¬ UsesDoubles significand exponent)
    (kept : ¬ LosesExponent significand exponent) :
    strtodFast significand exponent =
      if significand = 0 then some (.ofInt significand)
      else if exponent < -325 ∨ exponent > 308 then none
      else
        let product := umul192 (atodpow exponent / 2 ^ 64) (atodpow exponent % 2 ^ 64) significand
        roundProduct exponent product.1 product.2.1 product.2.2 := by
  unfold UsesDoubles at doubles
  unfold LosesExponent at kept
  have notLarge : ¬ (exponent > 22 ∧ exponent < 22 + 16) := by omega
  have rounded := Double.toNat_ofInt_natCast significand
  have outside : ¬ (exponent ≥ -22 ∧ exponent ≤ 22 ∧
      (Double.ofInt significand).le (.ofInt 9007199254740991) = true) := by
    rintro ⟨lower, upper, within⟩
    have large : 2 ^ 53 ≤ significand := by omega
    rw [Double.not_le_limit rounded (by exact_mod_cast large)] at within
    exact Bool.false_ne_true within
  have zero := (Double.eq_zero_iff rounded).trans round_natCast_eq_zero_iff
  unfold strtodFast
  simp only [if_neg notLarge, if_neg outside, zero]

/-- After the exponent has been lost, the significand is multiplied with `10 ^ 22`. -/
theorem strtodFast_lost (lost : LosesExponent significand exponent) :
    strtodFast significand exponent =
      let product := umul192 (atodpow 22 / 2 ^ 64) (atodpow 22 % 2 ^ 64) significand
      roundProduct 22 product.1 product.2.1 product.2.2 := by
  obtain ⟨lower, upper, past⟩ := lost
  have large : exponent > 22 ∧ exponent < 22 + 16 := by omega
  have widened := @toNat_widened significand exponent lower upper
  have size : (2 : ℚ) ^ 53 ≤ binary64.magnitude (Double.ofInt significand).bits.toNat *
      10 ^ (exponent - 22).toNat := by
    by_cases small : significand < 2 ^ 53
    · rw [Double.magnitude_ofInt small]
      exact_mod_cast past
    · have whole := Double.le_magnitude_ofInt (not_lt.mp small)
      have power : (1 : ℚ) ≤ 10 ^ (exponent - 22).toNat := one_le_pow₀ (by norm_num)
      nlinarith
  have outside : ¬ ((22 : ℤ) ≥ -22 ∧ (22 : ℤ) ≤ 22 ∧ ((Double.ofInt significand).mul
      (.ofInt (10 ^ (exponent - 22).toNat))).le (.ofInt 9007199254740991) = true) := by
    rintro ⟨-, -, within⟩
    rw [Double.not_le_limit widened size] at within
    exact Bool.false_ne_true within
  have nonzero : ¬ ((Double.ofInt significand).mul
      (.ofInt (10 ^ (exponent - 22).toNat))).eq (.ofInt 0) = true := by
    rw [Double.eq_zero_iff widened]
    have limit := Double.limit_lt.trans_le (binary64.round_mono size)
    omega
  have range : ¬ ((22 : ℤ) < -325 ∨ (22 : ℤ) > 308) := by norm_num
  unfold strtodFast
  simp only [if_pos large, if_neg outside, if_neg nonzero, if_neg range]

/-- A significand of zero is converted to zero. -/
theorem strtodFast_zero {value : Double} (result : strtodFast 0 exponent = some value) :
    value.bits.toNat = 0 := by
  by_cases doubles : UsesDoubles 0 exponent
  · obtain ⟨found, same, rounded⟩ := strtodFast_doubles doubles
    rw [same, Option.some_inj] at result
    rw [← result, rounded, Nat.cast_zero, zero_mul, Format.round_zero]
  · have kept : ¬ LosesExponent 0 exponent := by
      rintro ⟨-, -, past⟩
      simp at past
    rw [strtodFast_past doubles kept, if_pos rfl, Option.some_inj] at result
    rw [← result, Double.toNat_ofInt_natCast, Nat.cast_zero, Format.round_zero]

/-- The significand is multiplied with the entry for its exponent, and the product is a normal
number. -/
def UsesTable (significand : ℕ) (exponent : ℤ) : Prop :=
  0 < significand ∧ ¬ UsesDoubles significand exponent ∧ -325 ≤ exponent ∧ exponent ≤ 308 ∧
    0 < biasedExponent exponent (atodpow exponent * significand) ∧
    biasedExponent exponent (atodpow exponent * significand) < 2047

/-- What the table path returns. -/
theorem roundProduct_umul192 (entry : LeadingBits exponent) (positive : 0 < significand)
    (few : significand < 2 ^ 64) :
    (let product := umul192 (atodpow exponent / 2 ^ 64) (atodpow exponent % 2 ^ 64) significand;
      roundProduct exponent product.1 product.2.1 product.2.2) =
      if biasedExponent exponent (atodpow exponent * significand) ≤ 0 ∨
          biasedExponent exponent (atodpow exponent * significand) ≥ 2047 then none
      else some ⟨UInt64.ofNat
        ((biasedExponent exponent (atodpow exponent * significand) - 1).toNat * 2 ^ 52 +
          atodpow exponent * significand / lastPlace (atodpow exponent * significand) +
          if RoundsUp (atodpow exponent * significand) then 1 else 0)⟩ := by
  obtain ⟨large, fits⟩ := product_bounds entry positive few
  rw [umul192_product entry.fits few]
  exact roundProduct_eq exponent large fits

/-- The pattern fits in a word. -/
theorem toNat_rounded {product : ℕ} {biased : ℤ} (large : 2 ^ 127 ≤ product)
    (finite : biased < 2047) :
    (UInt64.ofNat ((biased - 1).toNat * 2 ^ 52 + product / lastPlace product +
      if RoundsUp product then 1 else 0)).toNat =
      (biased - 1).toNat * 2 ^ 52 + product / lastPlace product +
        if RoundsUp product then 1 else 0 := by
  have most := (kept_bounds large).2
  apply UInt64.toNat_ofNat_of_lt'
  have word : UInt64.size = 2 ^ 64 := rfl
  rw [word]
  split_ifs <;> omega

/-- A number whose exponent is lost is converted to one that is too small. -/
theorem lost_not_nearest (few : significand < 2 ^ 64) (lost : LosesExponent significand exponent) :
    ∃ value, strtodFast significand exponent = some value ∧
      value.bits.toNat < binary64.round (significand * 10 ^ exponent) := by
  have entry : LeadingBits 22 := atodpow_leading (by norm_num) (by norm_num)
  have positive : 0 < significand := by
    by_contra zero
    obtain ⟨-, -, past⟩ := lost
    rw [Nat.eq_zero_of_not_pos zero, Nat.zero_mul] at past
    norm_num at past
  obtain ⟨large, fits⟩ := product_bounds entry positive few
  obtain ⟨least, most⟩ := kept_bounds large
  have size : 127 ≤ Nat.log 2 (atodpow 22 * significand) := le_log large
  have short : Nat.log 2 (atodpow 22 * significand) < 192 :=
    Nat.log_lt_of_lt_pow (by omega) fits
  have biased : biasedExponent 22 (atodpow 22 * significand) =
      969 + Nat.log 2 (atodpow 22 * significand) := by
    rw [biasedExponent, powerLog]
    norm_num
  refine ⟨_, (strtodFast_lost lost).trans ((roundProduct_umul192 entry positive few).trans
    (if_neg (by omega))), ?_⟩
  rw [toNat_rounded large (by omega)]
  have begins := (le_div_iff₀ (by exact_mod_cast lastPlace_pos _)).mpr
    (kept_le_exact entry positive)
  have number := number_eq_scaled entry positive few (by omega)
  have smaller : (8 : ℚ) * (significand * 10 ^ (22 : ℤ)) ≤ significand * 10 ^ exponent := by
    have powers : (10 : ℚ) ^ (23 : ℤ) ≤ 10 ^ exponent :=
      zpow_le_zpow_right₀ (by norm_num) (by have := lost.1; omega)
    have natural : (0 : ℚ) ≤ significand := Nat.cast_nonneg _
    calc (8 : ℚ) * (significand * 10 ^ (22 : ℤ)) ≤ significand * 10 ^ (23 : ℤ) := by
          norm_num
          linarith
      _ ≤ significand * 10 ^ exponent := mul_le_mul_of_nonneg_left powers natural
  have bound : (biasedExponent 22 (atodpow 22 * significand) - 1).toNat ≤ 1200 := by omega
  generalize (biasedExponent 22 (atodpow 22 * significand) - 1).toNat = binade at number bound ⊢
  have unit : (0 : ℚ) < 2 ^ ((binade : ℤ) + binary64.leastExponent) := zpow_pos (by norm_num) _
  generalize scaledPower 22 * significand / lastPlace (atodpow 22 * significand) = quotient
    at begins number
  generalize atodpow 22 * significand / lastPlace (atodpow 22 * significand) = kept
    at least most begins ⊢
  have lower : binary64.scaled kept (binade + 3) ≤ significand * 10 ^ exponent := by
    calc binary64.scaled kept (binade + 3)
        = 8 * (kept * 2 ^ ((binade : ℤ) + binary64.leastExponent)) := by
          rw [← Format.scaled_two_mul, ← Format.scaled_two_mul, ← Format.scaled_two_mul,
            Format.scaled]
          push_cast
          ring
      _ ≤ 8 * (significand * 10 ^ (22 : ℤ)) := by
          rw [number]
          have ordered := mul_le_mul_of_nonneg_right begins unit.le
          linarith
      _ ≤ significand * 10 ^ exponent := smaller
  have infinity : binary64.infinity = 2047 * 2 ^ 52 := rfl
  have rounded : binary64.round (binary64.scaled kept (binade + 3)) =
      (binade + 3) * 2 ^ 52 + kept :=
    Format.round_scaled (by omega) most (.inr least) (by
      rw [infinity]
      show _ * 2 ^ 52 + _ ≤ _
      omega)
  have above := binary64.round_mono lower
  rw [rounded] at above
  split_ifs <;> omega

/-- The table path gives the nearest double unless it rounds too early. -/
theorem table_nearest_iff (few : significand < 2 ^ 64) (kept : ¬ LosesExponent significand exponent)
    (table : UsesTable significand exponent) :
    (∀ value, strtodFast significand exponent = some value →
      value.bits.toNat = binary64.round (significand * 10 ^ exponent)) ↔
        ¬ RoundsEarly significand exponent := by
  obtain ⟨positive, doubles, lower, upper, normal, finite⟩ := table
  have entry := atodpow_leading lower upper
  have result := strtodFast_past doubles kept
  rw [if_neg positive.ne', if_neg (by omega), roundProduct_umul192 entry positive few,
    if_neg (by omega)] at result
  have pattern := toNat_rounded (product_bounds entry positive few).1 finite
  rw [result, ← rounded_nearest_iff entry positive few normal finite]
  constructor
  · intro nearest
    exact pattern.symm.trans (nearest _ rfl)
  · intro rounded value same
    rw [← Option.some_inj.mp same]
    exact pattern.trans rounded

/-- The fast conversion gives the nearest double exactly when it does not lose the exponent and
does not round up the product of the table path too early. -/
theorem strtodFast_nearest_iff (digits : significand < 10 ^ 19) :
    (∀ value, strtodFast significand exponent = some value →
      value.bits.toNat = binary64.round (significand * 10 ^ exponent)) ↔
        ¬ LosesExponent significand exponent ∧
          ¬ (UsesTable significand exponent ∧ RoundsEarly significand exponent) := by
  have few : significand < 2 ^ 64 := digits.trans (by norm_num)
  by_cases lost : LosesExponent significand exponent
  · obtain ⟨value, result, small⟩ := lost_not_nearest few lost
    constructor
    · intro nearest
      exact absurd (nearest value result) small.ne
    · intro kept
      exact absurd lost kept.1
  · by_cases table : UsesTable significand exponent
    · rw [table_nearest_iff few lost table]
      simp [lost, table]
    · refine iff_of_true ?_ ⟨lost, fun early => table early.1⟩
      intro value result
      by_cases doubles : UsesDoubles significand exponent
      · obtain ⟨found, same, rounded⟩ := strtodFast_doubles doubles
        rwa [← Option.some_inj.mp (same.symm.trans result)]
      · rcases Nat.eq_zero_or_pos significand with rfl | positive
        · rw [strtodFast_zero result, Nat.cast_zero, zero_mul, Format.round_zero]
        · rw [strtodFast_past doubles lost, if_neg positive.ne'] at result
          by_cases outside : exponent < -325 ∨ exponent > 308
          · rw [if_pos outside] at result
            exact absurd result (by simp)
          · rw [if_neg outside, roundProduct_umul192 (atodpow_leading (by omega) (by omega))
              positive few] at result
            have range : biasedExponent exponent (atodpow exponent * significand) ≤ 0 ∨
                biasedExponent exponent (atodpow exponent * significand) ≥ 2047 := by
              by_contra normal
              exact table ⟨positive, doubles, by omega, by omega, by omega, by omega⟩
            rw [if_pos range] at result
            exact absurd result (by simp)

end Ways

/-- The number `1.5`. -/
theorem strtodFast_nearest_iff_fifteen :
    (∀ value, strtodFast 15 (-1) = some value →
      value.bits.toNat = binary64.round ((15 : ℕ) * 10 ^ (-1 : ℤ))) ↔
        ¬ LosesExponent 15 (-1) ∧ ¬ (UsesTable 15 (-1) ∧ RoundsEarly 15 (-1)) :=
  strtodFast_nearest_iff (by norm_num)

/-- The number `1e126` is converted to the double above the nearest one. -/
theorem strtodFast_not_nearest :
    ¬ ∀ (significand : ℕ) (exponent : ℤ), significand < 10 ^ 19 → ∀ value,
      strtodFast significand exponent = some value →
        value.bits.toNat = binary64.round (significand * 10 ^ exponent) := by
  intro nearest
  have early : strtodFast 1 126 = some ⟨0x5A17A2ECC414A040⟩ := by decide +kernel
  have rounded := nearest 1 126 (by norm_num) _ early
  revert rounded
  decide +kernel

end Join
