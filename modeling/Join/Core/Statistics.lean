import Mathlib.Algebra.Order.Floor.Ring
import Mathlib.Data.List.Sort
import Mathlib.Data.Nat.Log
import Mathlib.Data.UInt
import Mathlib.Logic.Function.Basic
import Mathlib.Tactic.Ring

/-!
# Histograms of durations

`BasicStats` counts durations in buckets. Up to 255 nanoseconds every duration has its own
bucket. From there on the durations of every power of two share 128 buckets of one width, so
that a bucket is never wider than the 128th part of what is in it. Durations from `2 ^ 37` on
share the overflow bucket.

A percentile is read off the counts: it is the upper bound of the first bucket with which more
samples have been counted than the percentile leaves below it.

The counters of the code are words of 64 bits. They are natural numbers here, since a counter
goes up by one with every sample.
-/

set_option autoImplicit false

namespace Join.Stats

/-! ## Buckets -/

/-- `_subBucketHalfCountMagnitude`. -/
def subBucketHalfCountMagnitude : ℕ := 7

/-- `_subBucketCount`. -/
def subBucketCount : ℕ := 2 ^ (subBucketHalfCountMagnitude + 1)

/-- `_subBucketHalfCount`. -/
def subBucketHalfCount : ℕ := subBucketCount / 2

/-- `_bucketCount`. -/
def bucketCount : ℕ := 30

/-- `_buckets`. -/
def buckets : ℕ := (bucketCount + 1) * subBucketHalfCount

/-- `_countsLen`. -/
def countsLen : ℕ := buckets + 1

/-- `_overflowIdx`. -/
def overflowIdx : ℕ := buckets

/-- `_maxTrackableValue`. -/
def maxTrackableValue : ℕ := subBucketCount * 2 ^ (bucketCount - 1)

/-- `__builtin_clzll` of a word that is not zero. -/
def clzll (word : ℕ) : ℕ := 63 - Nat.log2 word

/-- `hdrBucketIndex`. -/
def hdrBucketIndex (v : ℕ) : ℕ :=
  let pow2ceiling := 64 - clzll (v ||| (subBucketCount - 1))
  pow2ceiling - (subBucketHalfCountMagnitude + 1)

/-- `countsIndex`. -/
def countsIndex (ns : ℕ) : ℕ :=
  let ns := if ns = 0 then 1 else ns
  let bi := hdrBucketIndex ns
  let si := ns >>> bi
  let idx := (bi + 1) * subBucketHalfCount + si - subBucketHalfCount
  if buckets ≤ idx then overflowIdx else idx

/-- `bucketUpperBound`. -/
def bucketUpperBound (idx : ℕ) : ℕ :=
  if overflowIdx ≤ idx then maxTrackableValue
  else
    let bi := idx / subBucketHalfCount - 1
    let si := idx - bi * subBucketHalfCount
    (si + 1) <<< bi

/-! ## Places in the histogram -/

/-- A bucket of a power of two and a position in it. From the second power of two on only the
upper half of the positions is used. -/
structure Place where
  bi : ℕ
  si : ℕ
  inside : si < 256
  upper : bi = 0 ∨ 128 ≤ si

namespace Place

/-- The position among all buckets. -/
def index (place : Place) : ℕ := place.bi * 128 + place.si

/-- Where the durations of the place begin. -/
def low (place : Place) : ℕ := place.si * 2 ^ place.bi

/-- Where they end. -/
def high (place : Place) : ℕ := (place.si + 1) * 2 ^ place.bi

/-- The place that holds a duration. -/
def Holds (place : Place) (ns : ℕ) : Prop := place.si = ns / 2 ^ place.bi

variable {place other : Place} {ns later : ℕ}

theorem Holds.low_le (holds : place.Holds ns) : place.low ≤ ns := by
  rw [low, holds]
  exact Nat.div_mul_le_self ns _

theorem Holds.lt_high (holds : place.Holds ns) : ns < place.high := by
  rw [high, holds]
  exact Nat.lt_mul_of_div_lt (Nat.lt_succ_self _) (Nat.two_pow_pos _)

theorem high_eq (place : Place) : place.high = place.low + 2 ^ place.bi := by
  rw [high, low, Nat.succ_mul]

theorem high_le (place : Place) : place.high ≤ 256 * 2 ^ place.bi :=
  Nat.mul_le_mul_right _ place.inside

/-- Every duration of a power of two past the first is at least half of the next. -/
theorem le_low (place : Place) (past : place.bi ≠ 0) : 128 * 2 ^ place.bi ≤ place.low :=
  Nat.mul_le_mul_right _ (place.upper.resolve_left past)

/-- Later durations are in later powers of two. -/
theorem bi_le_of_le (here : place.Holds ns) (there : other.Holds later) (order : ns ≤ later) :
    place.bi ≤ other.bi := by
  by_contra beyond
  have past : place.bi ≠ 0 := fun zero => beyond (by rw [zero]; exact Nat.zero_le _)
  have low := (place.le_low past).trans (here.low_le.trans order)
  have high := there.lt_high.trans_le other.high_le
  have powers : 2 * 2 ^ other.bi ≤ 2 ^ place.bi := by
    rw [← pow_succ']
    exact Nat.pow_le_pow_right (by norm_num) (not_le.mp beyond)
  omega

/-- Later durations are in later places. -/
theorem index_le_of_le (here : place.Holds ns) (there : other.Holds later) (order : ns ≤ later) :
    place.index ≤ other.index := by
  unfold index
  rcases (bi_le_of_le here there order).lt_or_eq with before | same
  · have inside := place.inside
    have upper := other.upper.resolve_left (Nat.ne_zero_of_lt before)
    omega
  · have positions : place.si ≤ other.si := by
      rw [here, there, same]
      exact Nat.div_le_div_right order
    omega

/-- The place of the index. -/
theorem bi_of_index (place : Place) : place.index / 128 - 1 = place.bi := by
  have inside := place.inside
  unfold index
  rcases place.upper with first | upper
  · omega
  · omega

end Place

theorem bucketUpperBound_index {place : Place} (within : place.index < overflowIdx) :
    bucketUpperBound place.index = place.high := by
  have half : subBucketHalfCount = 128 := rfl
  rw [bucketUpperBound, if_neg (not_le.mpr within)]
  simp only [half, place.bi_of_index, Nat.shiftLeft_eq]
  rw [Place.high, Place.index, Nat.add_sub_cancel_left]

/-- The place in front of one that is not the first ends where it begins. -/
theorem bucketUpperBound_before {place : Place} (within : place.index < overflowIdx)
    (later : place.si ≠ 0) : bucketUpperBound (place.index - 1) = place.low := by
  obtain ⟨bi, si, inside, upper⟩ := place
  dsimp only at later
  by_cases inner : bi = 0 ∨ 128 < si
  · have before : Place.index ⟨bi, si, inside, upper⟩ - 1 =
        Place.index ⟨bi, si - 1, by omega, by omega⟩ := by
      unfold Place.index
      dsimp only
      omega
    rw [before, bucketUpperBound_index (before ▸ (Nat.sub_le _ _).trans_lt within), Place.high,
      Place.low]
    dsimp only
    rw [Nat.sub_add_cancel (Nat.pos_of_ne_zero later)]
  · obtain ⟨past, middle⟩ := not_or.mp inner
    obtain ⟨bi, rfl⟩ := Nat.exists_eq_add_one_of_ne_zero past
    have half : si = 128 := le_antisymm (not_lt.mp middle) (upper.resolve_left past)
    subst half
    have before : Place.index ⟨bi + 1, 128, inside, upper⟩ - 1 =
        Place.index ⟨bi, 255, by omega, by omega⟩ := by
      unfold Place.index
      dsimp only
      omega
    rw [before, bucketUpperBound_index (before ▸ (Nat.sub_le _ _).trans_lt within), Place.high,
      Place.low]
    dsimp only
    rw [pow_succ]
    ring

/-! ## The place of a duration -/

theorem hdrBucketIndex_eq {v : ℕ} (word : v < 2 ^ 64) :
    hdrBucketIndex v = Nat.log2 (v ||| 255) - 7 := by
  have small : v ||| 255 < 2 ^ 64 := Nat.or_lt_two_pow word (by norm_num)
  have bits : Nat.log2 (v ||| 255) < 64 := by
    by_contra large
    have power := Nat.log2_self_le (n := v ||| 255) (by
      have mask : 255 ≤ v ||| 255 := Nat.right_le_or
      omega)
    exact absurd (power.trans_lt small)
      (not_lt.mpr (Nat.pow_le_pow_right (by norm_num) (not_lt.mp large)))
  have magnitude : subBucketHalfCountMagnitude = 7 := rfl
  have mask : subBucketCount - 1 = 255 := rfl
  rw [hdrBucketIndex, mask, clzll, magnitude]
  omega

/-- The place in which a duration is counted. -/
theorem hdrBucketIndex_spec {v : ℕ} (word : v < 2 ^ 64) :
    v >>> hdrBucketIndex v < 256 ∧ (hdrBucketIndex v = 0 ∨ 128 ≤ v >>> hdrBucketIndex v) := by
  have mask : 255 ≤ v ||| 255 := Nat.right_le_or
  have above : v ≤ v ||| 255 := Nat.left_le_or
  have low := Nat.log2_self_le (n := v ||| 255) (by omega)
  have high := Nat.lt_log2_self (n := v ||| 255)
  rw [hdrBucketIndex_eq word, Nat.shiftRight_eq_div_pow]
  generalize bits : Nat.log2 (v ||| 255) = L at low high
  have enough : 7 ≤ L := by
    by_contra few
    have power : 2 ^ (L + 1) ≤ 2 ^ 7 := Nat.pow_le_pow_right (by norm_num) (by omega)
    omega
  obtain ⟨b, rfl⟩ := Nat.exists_eq_add_of_le enough
  rw [Nat.add_sub_cancel_left]
  constructor
  · rw [Nat.div_lt_iff_lt_mul (Nat.two_pow_pos b)]
    have power : 2 ^ (7 + b + 1) = 256 * 2 ^ b := by ring
    omega
  · by_cases first : b = 0
    · exact .inl first
    · refine .inr ((Nat.le_div_iff_mul_le (Nat.two_pow_pos b)).mpr ?_)
      have power : 2 ^ (7 + b) = 128 * 2 ^ b := by ring
      by_contra short
      have below : v ||| 255 < 2 ^ (7 + b) :=
        Nat.or_lt_two_pow (by omega) ((by norm_num : 255 < 2 ^ 8).trans_le
          (Nat.pow_le_pow_right (by norm_num) (by omega)))
      omega

/-- The place of a duration of 64 bits. -/
def placeOf (v : ℕ) (word : v < 2 ^ 64) : Place :=
  ⟨hdrBucketIndex v, v >>> hdrBucketIndex v, (hdrBucketIndex_spec word).1,
    (hdrBucketIndex_spec word).2⟩

theorem placeOf_holds {v : ℕ} (word : v < 2 ^ 64) : (placeOf v word).Holds v :=
  Nat.shiftRight_eq_div_pow _ _

/-- What a duration is counted as: no nanoseconds count as one. -/
def counted (ns : ℕ) : ℕ := if ns = 0 then 1 else ns

theorem counted_lt {ns : ℕ} (word : ns < 2 ^ 64) : counted ns < 2 ^ 64 := by
  unfold counted
  split_ifs
  · norm_num
  · exact word

theorem le_counted (ns : ℕ) : ns ≤ counted ns := by
  unfold counted
  split_ifs
  · omega
  · exact le_rfl

theorem counted_ne_zero (ns : ℕ) : counted ns ≠ 0 := by
  unfold counted
  split_ifs with zero
  · exact one_ne_zero
  · exact zero

theorem counted_mono {ns later : ℕ} (order : ns ≤ later) : counted ns ≤ counted later := by
  have some := counted_ne_zero later
  unfold counted at some ⊢
  split_ifs at some ⊢ <;> omega

theorem countsIndex_eq {ns : ℕ} (word : ns < 2 ^ 64) :
    countsIndex ns =
      if buckets ≤ (placeOf (counted ns) (counted_lt word)).index then overflowIdx
      else (placeOf (counted ns) (counted_lt word)).index := by
  have half : subBucketHalfCount = 128 := rfl
  have index : (hdrBucketIndex (counted ns) + 1) * 128 +
      counted ns >>> hdrBucketIndex (counted ns) - 128 =
      (placeOf (counted ns) (counted_lt word)).index := by
    unfold Place.index placeOf
    dsimp only
    rw [Nat.succ_mul, Nat.add_right_comm, Nat.add_sub_cancel]
  rw [← index]
  rfl

/-! ## The index -/

theorem countsIndex_lt {ns : ℕ} (word : ns < 2 ^ 64) : countsIndex ns < countsLen := by
  rw [countsIndex_eq word]
  split_ifs with overflow
  · exact Nat.lt_succ_self _
  · exact (not_le.mp overflow).trans (Nat.lt_succ_self _)

theorem countsIndex_mono {ns later : ℕ} (order : ns ≤ later) (word : later < 2 ^ 64) :
    countsIndex ns ≤ countsIndex later := by
  have places := Place.index_le_of_le (placeOf_holds (counted_lt (order.trans_lt word)))
    (placeOf_holds (counted_lt word)) (counted_mono order)
  rw [countsIndex_eq (order.trans_lt word), countsIndex_eq word]
  have last : overflowIdx = buckets := rfl
  split_ifs <;> omega

/-- A duration that does not overflow lies in its bucket. -/
theorem countsIndex_place {ns : ℕ} (word : ns < 2 ^ 64) (tracked : countsIndex ns ≠ overflowIdx) :
    countsIndex ns = (placeOf (counted ns) (counted_lt word)).index ∧
      (placeOf (counted ns) (counted_lt word)).index < overflowIdx := by
  have index := countsIndex_eq word
  split_ifs at index with overflow
  · exact absurd index tracked
  · exact ⟨index, not_le.mp overflow⟩

theorem lt_bucketUpperBound {ns : ℕ} (word : ns < 2 ^ 64) (tracked : countsIndex ns ≠ overflowIdx) :
    ns < bucketUpperBound (countsIndex ns) := by
  obtain ⟨index, within⟩ := countsIndex_place word tracked
  rw [index, bucketUpperBound_index within]
  exact (le_counted ns).trans_lt (placeOf_holds (counted_lt word)).lt_high

/-- The bucket of a duration begins at or before it, and is no wider than its 128th part. -/
theorem bucket_precise {ns : ℕ} (word : ns < 2 ^ 64) (tracked : countsIndex ns ≠ overflowIdx)
    (some : ns ≠ 0) :
    bucketUpperBound (countsIndex ns - 1) ≤ ns ∧
      bucketUpperBound (countsIndex ns) - ns ≤ max 1 (ns / 128) := by
  obtain ⟨index, within⟩ := countsIndex_place word tracked
  have same : counted ns = ns := if_neg some
  have holds := placeOf_holds (counted_lt word)
  generalize placeOf (counted ns) (counted_lt word) = place at index within holds
  rw [same] at holds
  have low := holds.low_le
  rw [index, bucketUpperBound_index within, Place.high_eq]
  constructor
  · have later : place.si ≠ 0 := by
      intro zero
      rcases place.upper with first | upper
      · have value := holds
        rw [Place.Holds, zero, first, pow_zero, Nat.div_one] at value
        exact some value.symm
      · omega
    rw [bucketUpperBound_before within later]
    exact low
  · by_cases first : place.bi = 0
    · rw [first, pow_zero]
      omega
    · have enough := (place.le_low first).trans low
      have width : 2 ^ place.bi ≤ ns / 128 := by
        rw [Nat.le_div_iff_mul_le (by norm_num), Nat.mul_comm]
        exact enough
      omega

/-- For every duration of 64 bits the index is inside the counters and grows with the duration.
A duration that does not overflow is below the upper bound of its bucket; unless it is zero,
which counts as one nanosecond, the bucket before ends at or before it and the bound is not
further away than the 128th part of the duration, or one nanosecond. -/
theorem counts_index_precise (ns : UInt64) :
    countsIndex ns.toNat < countsLen ∧
      (∀ later : UInt64, ns ≤ later → countsIndex ns.toNat ≤ countsIndex later.toNat) ∧
      (countsIndex ns.toNat ≠ overflowIdx →
        ns.toNat < bucketUpperBound (countsIndex ns.toNat) ∧
          (ns ≠ 0 →
            bucketUpperBound (countsIndex ns.toNat - 1) ≤ ns.toNat ∧
              bucketUpperBound (countsIndex ns.toNat) - ns.toNat ≤ max 1 (ns.toNat / 128))) := by
  refine ⟨countsIndex_lt ns.toNat_lt, ?_, ?_⟩
  · intro later order
    exact countsIndex_mono (UInt64.le_iff_toNat_le.mp order) later.toNat_lt
  · intro tracked
    refine ⟨lt_bucketUpperBound ns.toNat_lt tracked, fun some => ?_⟩
    exact bucket_precise ns.toNat_lt tracked fun zero => some (UInt64.toNat_inj.mp zero)

/-- No nanoseconds are counted in the bucket behind their own. -/
theorem zero_counted_behind :
    countsIndex (0 : UInt64).toNat ≠ overflowIdx ∧
      ¬ bucketUpperBound (countsIndex (0 : UInt64).toNat - 1) ≤ (0 : UInt64).toNat ∧
      ¬ bucketUpperBound (countsIndex (0 : UInt64).toNat) - (0 : UInt64).toNat ≤
        max 1 ((0 : UInt64).toNat / 128) := by
  decide

end Join.Stats
