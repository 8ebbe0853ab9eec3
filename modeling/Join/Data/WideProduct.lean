import Mathlib.Data.Nat.Bitwise
import Mathlib.Data.UInt
import Mathlib.Tactic.Common
import Mathlib.Tactic.Ring

/-!
# Products of words

`JsonReader::umul192` multiplies a number of 128 bits by a word, and `DiyFp::operator*=` takes
the rounded upper word of a product of two words. Both are written twice: with integers of
128 bits where the compiler has them, and with the four products of half words elsewhere.

The products of half words overlap by 32 bits. Their overlapping parts are added in a word of
their own, whose upper half is what has to be carried. No sum on the way exceeds a word, so that
both ways give the exact product.
-/

set_option autoImplicit false

namespace Join

/-! ## Integers of 128 bits -/

/-- `static_cast<__uint128_t> (word)`. -/
def wide (word : UInt64) : BitVec 128 := word.toBitVec.setWidth 128

/-- `static_cast<uint64_t> (number)`. -/
def narrow (number : BitVec 128) : UInt64 := ⟨number.setWidth 64⟩

/-- `umul192` with integers of 128 bits: the high, the middle and the low word. -/
def umul192Wide (hi lo significand : UInt64) : UInt64 × UInt64 × UInt64 :=
  let h := wide hi * wide significand
  let l := wide lo * wide significand
  let s := h + (l >>> 64)
  (narrow (s >>> 64), narrow s, narrow l)

/-! ## Half words -/

/-- `word & 0xFFFFFFFF`, which is `static_cast<uint32_t> (word)` too. -/
def lowHalf (word : UInt64) : UInt64 := word &&& 0xFFFFFFFF

/-- `word >> 32`. -/
def highHalf (word : UInt64) : UInt64 := word >>> 32

/-- The two words of a product, as both halves of the fallback of `umul192` compute them. -/
def mulHalves (value significand : UInt64) : UInt64 × UInt64 :=
  let m_lo := lowHalf significand
  let m_hi := highHalf significand
  let p0 := lowHalf value * m_lo
  let p1 := highHalf value * m_lo
  let p2 := lowHalf value * m_hi
  let p3 := highHalf value * m_hi
  let carry := highHalf p0 + lowHalf p1 + lowHalf p2
  (highHalf carry + highHalf p1 + highHalf p2 + p3, (carry <<< 32) ||| lowHalf p0)

/-- `umul192` with half words: the high, the middle and the low word. -/
def umul192Halves (hi lo significand : UInt64) : UInt64 × UInt64 × UInt64 :=
  let (hi_hi, hi_lo) := mulHalves hi significand
  let (lo_hi, lo_lo) := mulHalves lo significand
  let middle := hi_lo + lo_hi
  (hi_hi + if middle < hi_lo then 1 else 0, middle, lo_lo)

/-! ## What the operations on words compute -/

theorem toNat_wide (word : UInt64) : (wide word).toNat = word.toNat := by
  have small := word.toNat_lt
  rw [wide, BitVec.toNat_setWidth, UInt64.toNat_toBitVec]
  omega

theorem toNat_narrow (number : BitVec 128) : (narrow number).toNat = number.toNat % 2 ^ 64 :=
  BitVec.toNat_setWidth ..

theorem toNat_lowHalf (word : UInt64) : (lowHalf word).toNat = word.toNat % 2 ^ 32 := by
  rw [lowHalf, UInt64.toNat_and]
  exact Nat.and_two_pow_sub_one_eq_mod word.toNat 32

theorem toNat_highHalf (word : UInt64) : (highHalf word).toNat = word.toNat / 2 ^ 32 := by
  rw [highHalf, UInt64.toNat_shiftRight]
  exact Nat.shiftRight_eq_div_pow word.toNat 32

/-- A product of two half words is well below a word. -/
theorem mul_halves_le {a b : ℕ} (left : a < 2 ^ 32) (right : b < 2 ^ 32) :
    a * b ≤ 2 ^ 64 - 2 ^ 33 + 1 :=
  (Nat.mul_le_mul (Nat.le_pred_of_lt left) (Nat.le_pred_of_lt right)).trans (by decide)

/-- A product of two words by the products of their halves. -/
theorem mul_eq_halves (a b : ℕ) :
    a * b = a % 2 ^ 32 * (b % 2 ^ 32) +
      2 ^ 32 * (a / 2 ^ 32 * (b % 2 ^ 32) + a % 2 ^ 32 * (b / 2 ^ 32)) +
      2 ^ 64 * (a / 2 ^ 32 * (b / 2 ^ 32)) := by
  conv_lhs => rw [← Nat.mod_add_div a (2 ^ 32), ← Nat.mod_add_div b (2 ^ 32)]
  ring

/-- The products of the halves of two words, none of which is cut off. -/
theorem toNat_mul_halves {a b : UInt64} (left : a.toNat < 2 ^ 32) (right : b.toNat < 2 ^ 32) :
    (a * b).toNat = a.toNat * b.toNat := by
  have small := mul_halves_le left right
  rw [UInt64.toNat_mul]
  exact Nat.mod_eq_of_lt (by omega)

theorem lowHalf_lt (word : UInt64) : (lowHalf word).toNat < 2 ^ 32 := by
  rw [toNat_lowHalf]
  exact Nat.mod_lt _ (by decide)

theorem highHalf_lt (word : UInt64) : (highHalf word).toNat < 2 ^ 32 := by
  have small := word.toNat_lt
  rw [toNat_highHalf]
  omega

/-- A half word put above another one. -/
theorem toNat_join (above below : UInt64) (small : below.toNat < 2 ^ 32) :
    ((above <<< 32) ||| below).toNat = above.toNat % 2 ^ 32 * 2 ^ 32 + below.toNat := by
  have shifted : (above <<< 32).toNat = 2 ^ 32 * (above.toNat % 2 ^ 32) := by
    rw [UInt64.toNat_shiftLeft, show (32 : UInt64).toNat % 64 = 32 from rfl, Nat.shiftLeft_eq]
    omega
  rw [UInt64.toNat_or, shifted, ← Nat.two_pow_add_eq_or_of_lt small, Nat.mul_comm]

/-! ## The product of two words -/

/-- The sum of the overlapping parts is no more than three half words. -/
theorem toNat_carry (p0 p1 p2 : UInt64) :
    (highHalf p0 + lowHalf p1 + lowHalf p2).toNat =
      p0.toNat / 2 ^ 32 + p1.toNat % 2 ^ 32 + p2.toNat % 2 ^ 32 := by
  have first := highHalf_lt p0
  have second := lowHalf_lt p1
  have third := lowHalf_lt p2
  rw [UInt64.toNat_add, UInt64.toNat_add, Nat.mod_eq_of_lt (by omega), Nat.mod_eq_of_lt (by omega),
    toNat_highHalf, toNat_lowHalf, toNat_lowHalf]

/-- The upper word of a product, from the carried part and the upper parts. -/
theorem toNat_upper {carry p1 p2 p3 : UInt64} (small : p3.toNat ≤ 2 ^ 64 - 2 ^ 33 + 1)
    (fits : carry.toNat / 2 ^ 32 + p1.toNat / 2 ^ 32 + p2.toNat / 2 ^ 32 + p3.toNat < 2 ^ 64) :
    (highHalf carry + highHalf p1 + highHalf p2 + p3).toNat =
      carry.toNat / 2 ^ 32 + p1.toNat / 2 ^ 32 + p2.toNat / 2 ^ 32 + p3.toNat := by
  rw [UInt64.toNat_add, UInt64.toNat_add, UInt64.toNat_add, toNat_highHalf, toNat_highHalf,
    toNat_highHalf]
  omega

/-- The products of the halves of two words, in their places. -/
theorem halves_sum (a b : UInt64) :
    (lowHalf a * lowHalf b).toNat +
        2 ^ 32 * ((highHalf a * lowHalf b).toNat + (lowHalf a * highHalf b).toNat) +
      2 ^ 64 * (highHalf a * highHalf b).toNat = a.toNat * b.toNat := by
  rw [toNat_mul_halves (lowHalf_lt a) (lowHalf_lt b), toNat_mul_halves (highHalf_lt a) (lowHalf_lt b),
    toNat_mul_halves (lowHalf_lt a) (highHalf_lt b),
    toNat_mul_halves (highHalf_lt a) (highHalf_lt b), mul_eq_halves a.toNat b.toNat]
  simp only [toNat_lowHalf, toNat_highHalf]

theorem toNat_product_le {a b : UInt64} (left : a.toNat < 2 ^ 32) (right : b.toNat < 2 ^ 32) :
    (a * b).toNat ≤ 2 ^ 64 - 2 ^ 33 + 1 := by
  rw [toNat_mul_halves left right]
  exact mul_halves_le left right

/-- A product of two words leaves room for one word more. -/
theorem mul_words_le (a b : UInt64) : a.toNat * b.toNat ≤ 2 ^ 128 - 2 ^ 65 + 1 :=
  (Nat.mul_le_mul (Nat.le_pred_of_lt a.toNat_lt) (Nat.le_pred_of_lt b.toNat_lt)).trans (by decide)

/-- The two words are the exact product. -/
theorem mulHalves_exact (value significand : UInt64) :
    (mulHalves value significand).2.toNat + 2 ^ 64 * (mulHalves value significand).1.toNat =
      value.toNat * significand.toNat := by
  have sum := halves_sum value significand
  have bound := mul_words_le value significand
  have top := toNat_product_le (highHalf_lt value) (highHalf_lt significand)
  unfold mulHalves
  dsimp only
  generalize lowHalf value * lowHalf significand = p0 at *
  generalize highHalf value * lowHalf significand = p1 at *
  generalize lowHalf value * highHalf significand = p2 at *
  generalize highHalf value * highHalf significand = p3 at *
  have carry := toNat_carry p0 p1 p2
  have low := toNat_join (highHalf p0 + lowHalf p1 + lowHalf p2) (lowHalf p0) (lowHalf_lt p0)
  have high := @toNat_upper (highHalf p0 + lowHalf p1 + lowHalf p2) p1 p2 p3 top (by omega)
  rw [low, high, toNat_lowHalf, carry]
  omega

/-! ## The product of three words -/

/-- A high, a middle and a low word as one number. -/
def words (result : UInt64 × UInt64 × UInt64) : ℕ :=
  result.1.toNat * 2 ^ 128 + result.2.1.toNat * 2 ^ 64 + result.2.2.toNat

/-- The sum of the middle words is carried when it is less than either of them. -/
theorem toNat_middle (first second : UInt64) :
    (first + second).toNat + 2 ^ 64 * (if first + second < first then 1 else 0) =
      first.toNat + second.toNat := by
  have left := first.toNat_lt
  have right := second.toNat_lt
  have sum : (first + second).toNat = (first.toNat + second.toNat) % 2 ^ 64 := UInt64.toNat_add ..
  split_ifs with below
  all_goals
    rw [UInt64.lt_iff_toNat_lt] at below
    omega

theorem words_umul192Halves (hi lo significand : UInt64) :
    words (umul192Halves hi lo significand) =
      hi.toNat * significand.toNat * 2 ^ 64 + lo.toNat * significand.toNat := by
  have upper := mulHalves_exact hi significand
  have lower := mulHalves_exact lo significand
  have bound := mul_words_le hi significand
  unfold words umul192Halves
  dsimp only
  generalize mulHalves hi significand = high at *
  generalize mulHalves lo significand = low at *
  have middle := toNat_middle high.2 low.1
  have carried : (high.1 + if high.2 + low.1 < high.2 then 1 else 0).toNat =
      high.1.toNat + if high.2 + low.1 < high.2 then 1 else 0 := by
    split_ifs
    · rw [UInt64.toNat_add]
      exact Nat.mod_eq_of_lt (by change high.1.toNat + 1 < 2 ^ 64; omega)
    · rw [UInt64.add_zero]
      rfl
  rw [carried]
  omega

theorem words_umul192Wide (hi lo significand : UInt64) :
    words (umul192Wide hi lo significand) =
      hi.toNat * significand.toNat * 2 ^ 64 + lo.toNat * significand.toNat := by
  have upper := mul_words_le hi significand
  have lower := mul_words_le lo significand
  have small := (lo.toNat * significand.toNat).zero_le
  have high : (wide hi * wide significand).toNat = hi.toNat * significand.toNat := by
    rw [BitVec.toNat_mul, toNat_wide, toNat_wide]
    exact Nat.mod_eq_of_lt (by omega)
  have low : (wide lo * wide significand).toNat = lo.toNat * significand.toNat := by
    rw [BitVec.toNat_mul, toNat_wide, toNat_wide]
    exact Nat.mod_eq_of_lt (by omega)
  have sum : (wide hi * wide significand + (wide lo * wide significand) >>> 64).toNat =
      hi.toNat * significand.toNat + lo.toNat * significand.toNat / 2 ^ 64 := by
    rw [BitVec.toNat_add, BitVec.toNat_ushiftRight, high, low, Nat.shiftRight_eq_div_pow]
    exact Nat.mod_eq_of_lt (by omega)
  unfold words umul192Wide
  dsimp only
  rw [toNat_narrow, toNat_narrow, toNat_narrow, BitVec.toNat_ushiftRight, sum, low,
    Nat.shiftRight_eq_div_pow]
  omega

/-- The words of a number are determined. -/
theorem words_inj {left right : UInt64 × UInt64 × UInt64} (same : words left = words right) :
    left = right := by
  have a := left.2.1.toNat_lt
  have b := left.2.2.toNat_lt
  have c := right.2.1.toNat_lt
  have d := right.2.2.toNat_lt
  unfold words at same
  refine Prod.ext ?_ (Prod.ext ?_ ?_)
  all_goals
    apply UInt64.toNat_inj.mp
    omega

/-! ## Floating point with a word as significand -/

/-- `DiyFp`. -/
structure DiyFp where
  mantissa : UInt64
  exponent : ℤ
deriving DecidableEq, Repr

namespace DiyFp

/-- `operator*=` with integers of 128 bits. -/
def mulWide (left right : DiyFp) : DiyFp :=
  let product := wide left.mantissa * wide right.mantissa
  ⟨narrow ((product >>> 64) + ((product >>> 63) &&& 1)), left.exponent + right.exponent + 64⟩

/-- `operator*=` with half words. -/
def mulHalves (left right : DiyFp) : DiyFp :=
  let a := highHalf left.mantissa
  let b := lowHalf left.mantissa
  let c := highHalf right.mantissa
  let d := lowHalf right.mantissa
  let ac := a * c
  let bc := b * c
  let ad := a * d
  let bd := b * d
  let tmp := highHalf bd + lowHalf ad + lowHalf bc + ((1 : UInt64) <<< 31)
  ⟨ac + highHalf ad + highHalf bc + highHalf tmp, left.exponent + right.exponent + 64⟩

/-- The upper word of a product, rounded to the nearest. -/
def rounded (left right : UInt64) : ℕ := (left.toNat * right.toNat + 2 ^ 63) / 2 ^ 64

theorem mulWide_mantissa (left right : DiyFp) :
    (left.mulWide right).mantissa.toNat = rounded left.mantissa right.mantissa := by
  have bound := mul_words_le left.mantissa right.mantissa
  have product : (wide left.mantissa * wide right.mantissa).toNat =
      left.mantissa.toNat * right.mantissa.toNat := by
    rw [BitVec.toNat_mul, toNat_wide, toNat_wide]
    exact Nat.mod_eq_of_lt (by omega)
  have bit : ((wide left.mantissa * wide right.mantissa) >>> 63 &&& 1).toNat =
      left.mantissa.toNat * right.mantissa.toNat / 2 ^ 63 % 2 := by
    rw [BitVec.toNat_and, BitVec.toNat_ushiftRight, product, Nat.shiftRight_eq_div_pow]
    exact Nat.and_one_is_mod _
  unfold mulWide rounded
  dsimp only
  rw [toNat_narrow, BitVec.toNat_add, bit, BitVec.toNat_ushiftRight, product,
    Nat.shiftRight_eq_div_pow]
  omega

/-- The sum of the overlapping parts with half of the last bit. -/
theorem toNat_tmp (bd ad bc : UInt64) :
    (highHalf bd + lowHalf ad + lowHalf bc + ((1 : UInt64) <<< 31)).toNat =
      bd.toNat / 2 ^ 32 + ad.toNat % 2 ^ 32 + bc.toNat % 2 ^ 32 + 2 ^ 31 := by
  have sum := toNat_carry bd ad bc
  have half : ((1 : UInt64) <<< 31).toNat = 2 ^ 31 := by decide
  have small := bd.toNat_lt
  rw [UInt64.toNat_add, sum, half]
  exact Nat.mod_eq_of_lt (by omega)

theorem mulHalves_mantissa (left right : DiyFp) :
    (left.mulHalves right).mantissa.toNat = rounded left.mantissa right.mantissa := by
  have sum := halves_sum left.mantissa right.mantissa
  have bound := mul_words_le left.mantissa right.mantissa
  unfold mulHalves rounded
  dsimp only
  generalize lowHalf left.mantissa * lowHalf right.mantissa = bd at *
  generalize highHalf left.mantissa * lowHalf right.mantissa = ad at *
  generalize lowHalf left.mantissa * highHalf right.mantissa = bc at *
  generalize highHalf left.mantissa * highHalf right.mantissa = ac at *
  have tmp := toNat_tmp bd ad bc
  have exact : (ac + highHalf ad + highHalf bc +
      highHalf (highHalf bd + lowHalf ad + lowHalf bc + ((1 : UInt64) <<< 31))).toNat =
      ac.toNat + ad.toNat / 2 ^ 32 + bc.toNat / 2 ^ 32 +
        (bd.toNat / 2 ^ 32 + ad.toNat % 2 ^ 32 + bc.toNat % 2 ^ 32 + 2 ^ 31) / 2 ^ 32 := by
    rw [UInt64.toNat_add, UInt64.toNat_add, UInt64.toNat_add, toNat_highHalf, toNat_highHalf,
      toNat_highHalf, tmp]
    omega
  rw [exact]
  omega

end DiyFp

/-- Both ways of `umul192` give the exact product in three words, and both ways of multiplying
`DiyFp`s give the upper word of the product rounded to the nearest. -/
theorem products_agree (hi lo significand : UInt64) (left right : DiyFp) :
    words (umul192Wide hi lo significand) =
        hi.toNat * significand.toNat * 2 ^ 64 + lo.toNat * significand.toNat ∧
      umul192Halves hi lo significand = umul192Wide hi lo significand ∧
      (left.mulWide right).mantissa.toNat =
        (left.mantissa.toNat * right.mantissa.toNat + 2 ^ 63) / 2 ^ 64 ∧
      left.mulHalves right = left.mulWide right := by
  have same : words (umul192Halves hi lo significand) = words (umul192Wide hi lo significand) := by
    rw [words_umul192Halves, words_umul192Wide]
  refine ⟨words_umul192Wide .., words_inj same, left.mulWide_mantissa right, ?_⟩
  have mantissas : (left.mulHalves right).mantissa = (left.mulWide right).mantissa := by
    apply UInt64.toNat_inj.mp
    rw [DiyFp.mulHalves_mantissa, DiyFp.mulWide_mantissa]
  rw [DiyFp.mk.injEq]
  exact ⟨mantissas, rfl⟩

end Join
