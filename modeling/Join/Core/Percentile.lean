import Join.Core.Statistics

/-!
# Percentiles

`stop` counts a sample and `percentile` reads the counters: it adds them up, bucket by bucket,
until the sum exceeds the rank of the percentile. The bucket it stops at is that of the sample
with this rank among the samples in order, since the buckets are in the order of the samples.
-/

set_option autoImplicit false

namespace Join.Stats

/-- `BasicStats`: the counters of the histogram and the totals. -/
structure BasicStats where
  counts : ℕ → ℕ
  count : ℕ
  last : ℕ
  min : ℕ
  max : ℕ
  sum : ℕ

namespace BasicStats

/-- The totals before the first sample. -/
def initial : BasicStats := ⟨fun _ => 0, 0, 0, 2 ^ 64 - 1, 0, 0⟩

/-- `BasicStats::stop`, for a duration. -/
def stop (stats : BasicStats) (ns : ℕ) : BasicStats where
  counts := Function.update stats.counts (countsIndex ns) (stats.counts (countsIndex ns) + 1)
  count := stats.count + 1
  last := ns
  min := if ns < stats.min then ns else stats.min
  max := if stats.max < ns then ns else stats.max
  sum := (stats.sum + ns) % 2 ^ 64

/-- The totals of some samples. -/
def record (samples : List UInt64) : BasicStats :=
  samples.foldl (fun stats ns => stats.stop ns.toNat) initial

/-- The loop of `BasicStats::percentile` over buckets. -/
def scan (counts : ℕ → ℕ) (target : ℕ) : ℕ → List ℕ → Option ℕ
  | _, [] => none
  | cumulative, i :: rest =>
      if target < cumulative + counts i then some i
      else scan counts target (cumulative + counts i) rest

/-- `BasicStats::percentile`, for a whole percentage and with an exact quotient. -/
def percentile (stats : BasicStats) (p : ℕ) : ℕ :=
  if stats.count = 0 then 0
  else
    match scan stats.counts (p * stats.count / 100) 0 (List.range countsLen) with
    | some i => bucketUpperBound i
    | none => maxTrackableValue

/-- The samples in order. -/
def sorted (samples : List UInt64) : List UInt64 :=
  samples.mergeSort fun left right => decide (left ≤ right)

/-- The sample of a rank among the samples in order. -/
def orderStatistic (samples : List UInt64) (rank : ℕ) : Option UInt64 := (sorted samples)[rank]?

/-! ## The counters -/

theorem foldl_stop (samples : List UInt64) (stats : BasicStats) :
    let after := samples.foldl (fun stats ns => stats.stop ns.toNat) stats
    after.count = stats.count + samples.length ∧
      ∀ i, after.counts i =
        stats.counts i + samples.countP fun ns => decide (countsIndex ns.toNat = i) := by
  induction samples generalizing stats with
  | nil => exact ⟨rfl, fun _ => rfl⟩
  | cons sample samples ih =>
      obtain ⟨count, counts⟩ := ih (stats.stop sample.toNat)
      rw [List.foldl_cons]
      constructor
      · rw [count, stop, List.length_cons]
        dsimp only
        omega
      · intro i
        rw [counts i, stop, List.countP_cons]
        dsimp only
        by_cases here : countsIndex sample.toNat = i
        · rw [← here, Function.update_self, if_pos (decide_eq_true rfl)]
          omega
        · rw [Function.update_of_ne (Ne.symm here), if_neg (by rwa [decide_eq_true_eq])]
          rfl

theorem record_count (samples : List UInt64) : (record samples).count = samples.length := by
  rw [record, (foldl_stop samples initial).1]
  exact Nat.zero_add _

/-- How many samples are counted in front of a bucket. -/
def before (samples : List UInt64) (i : ℕ) : ℕ :=
  samples.countP fun ns => decide (countsIndex ns.toNat < i)

theorem before_zero (samples : List UInt64) : before samples 0 = 0 :=
  List.countP_eq_zero.mpr fun _ _ => by simp

theorem before_succ (samples : List UInt64) (i : ℕ) :
    before samples (i + 1) = before samples i + (record samples).counts i := by
  rw [record, (foldl_stop samples initial).2 i]
  unfold before
  induction samples with
  | nil => rfl
  | cons sample samples ih =>
      have none : initial.counts i = 0 := rfl
      rw [none, Nat.zero_add] at ih ⊢
      rw [List.countP_cons, List.countP_cons, List.countP_cons, ih]
      simp only [decide_eq_true_eq]
      split_ifs <;> omega

theorem before_mono (samples : List UInt64) {i j : ℕ} (order : i ≤ j) :
    before samples i ≤ before samples j := by
  refine List.countP_mono_left fun sample _ inside => ?_
  rw [decide_eq_true_eq] at inside ⊢
  exact inside.trans_le order

/-- The loop stops at the bucket with which the samples exceed the target. -/
theorem scan_eq (samples : List UInt64) {target i : ℕ} (short : before samples i ≤ target)
    (enough : target < before samples (i + 1)) (start length : ℕ) (from_ : start ≤ i)
    (within : i < start + length) :
    scan (record samples).counts target (before samples start) (List.range' start length) =
      some i := by
  induction length generalizing start with
  | zero => omega
  | succ length ih =>
      rw [List.range'_succ, scan, ← before_succ]
      by_cases here : start = i
      · rw [here, if_pos enough]
      · have later : start + 1 ≤ i := by omega
        rw [if_neg (not_lt.mpr ((before_mono samples later).trans short))]
        exact ih (start + 1) later (by omega)

/-! ## Samples in order -/

theorem sorted_pairwise (samples : List UInt64) :
    (sorted samples).Pairwise fun left right => left.toNat ≤ right.toNat := by
  have ordered := @List.pairwise_mergeSort UInt64 (fun left right => decide (left ≤ right))
    (fun first second third => by
      simp only [decide_eq_true_eq, UInt64.le_iff_toNat_le]
      omega)
    (fun left right => by
      simp only [Bool.or_eq_true, decide_eq_true_eq, UInt64.le_iff_toNat_le]
      omega) samples
  refine ordered.imp fun order => ?_
  exact UInt64.le_iff_toNat_le.mp (of_decide_eq_true order)

theorem before_sorted (samples : List UInt64) (i : ℕ) :
    before (sorted samples) i = before samples i :=
  (List.mergeSort_perm samples _).countP_eq _

/-- The bucket of the sample of a rank is the one with which the rank is exceeded. -/
theorem before_rank {samples : List UInt64} {rank : ℕ} {sample : UInt64}
    (found : orderStatistic samples rank = some sample) :
    before samples (countsIndex sample.toNat) ≤ rank ∧
      rank < before samples (countsIndex sample.toNat + 1) := by
  obtain ⟨inside, value⟩ := List.getElem?_eq_some_iff.mp found
  have split : sorted samples = (sorted samples).take rank ++
      sample :: (sorted samples).drop (rank + 1) := by
    rw [← value, ← List.drop_eq_getElem_cons inside, List.take_append_drop]
  have ordered := sorted_pairwise samples
  rw [split, List.pairwise_append, List.pairwise_cons] at ordered
  obtain ⟨-, ⟨later, -⟩, earlier⟩ := ordered
  have length : ((sorted samples).take rank).length = rank := by
    rw [List.length_take]
    exact Nat.min_eq_left inside.le
  rw [← before_sorted samples, ← before_sorted samples, split, before, before,
    List.countP_append, List.countP_append]
  constructor
  · have none : (sample :: (sorted samples).drop (rank + 1)).countP
        (fun ns => decide (countsIndex ns.toNat < countsIndex sample.toNat)) = 0 := by
      refine List.countP_eq_zero.mpr fun other member => ?_
      rw [decide_eq_true_eq, not_lt]
      rcases List.mem_cons.mp member with rfl | member
      · exact le_rfl
      · exact countsIndex_mono (later other member) other.toNat_lt
    have front := List.countP_le_length (l := (sorted samples).take rank)
      (p := fun ns => decide (countsIndex ns.toNat < countsIndex sample.toNat))
    omega
  · have all : ((sorted samples).take rank).countP
        (fun ns => decide (countsIndex ns.toNat < countsIndex sample.toNat + 1)) = rank := by
      rw [List.countP_eq_length.mpr, length]
      intro other member
      rw [decide_eq_true_eq, Nat.lt_succ_iff]
      exact countsIndex_mono (earlier other member sample List.mem_cons_self) sample.toNat_lt
    rw [all, List.countP_cons, if_pos (by simp)]
    omega

/-! ## Upper bounds -/

theorem exists_place (idx : ℕ) : ∃ place : Place, place.index = idx := by
  refine ⟨⟨idx / 128 - 1, idx - (idx / 128 - 1) * 128, by omega, by omega⟩, ?_⟩
  unfold Place.index
  dsimp only
  omega

theorem Place.high_le_of_index {place other : Place} (order : place.index ≤ other.index) :
    place.high ≤ other.high := by
  have inside := place.inside
  have insideOther := other.inside
  unfold Place.index at order
  rcases lt_trichotomy place.bi other.bi with earlier | same | later
  · have powers : 2 * 2 ^ place.bi ≤ 2 ^ other.bi := by
      rw [← pow_succ']
      exact Nat.pow_le_pow_right (by norm_num) earlier
    have low := other.le_low (Nat.ne_zero_of_lt earlier)
    have high := place.high_le
    rw [other.high_eq]
    omega
  · rw [Place.high, Place.high, same]
    exact Nat.mul_le_mul_right _ (by omega)
  · have upper := place.upper.resolve_left (Nat.ne_zero_of_lt later)
    omega

theorem bucketUpperBound_le (idx : ℕ) : bucketUpperBound idx ≤ maxTrackableValue := by
  by_cases overflow : overflowIdx ≤ idx
  · rw [bucketUpperBound, if_pos overflow]
  · obtain ⟨place, rfl⟩ := exists_place idx
    rw [bucketUpperBound_index (not_le.mp overflow)]
    have last : overflowIdx = 3968 := rfl
    have bounded : place.bi ≤ 29 := by
      have upper := place.upper
      unfold Place.index at overflow
      omega
    refine place.high_le.trans ?_
    exact Nat.mul_le_mul_left _ (Nat.pow_le_pow_right (by norm_num) bounded)

theorem bucketUpperBound_mono {idx later : ℕ} (order : idx ≤ later) :
    bucketUpperBound idx ≤ bucketUpperBound later := by
  by_cases overflow : overflowIdx ≤ later
  · have top : bucketUpperBound later = maxTrackableValue := if_pos overflow
    rw [top]
    exact bucketUpperBound_le idx
  · have within := not_le.mp overflow
    obtain ⟨other, rfl⟩ := exists_place later
    obtain ⟨place, rfl⟩ := exists_place idx
    rw [bucketUpperBound_index within, bucketUpperBound_index (order.trans_lt within)]
    exact Place.high_le_of_index order

/-! ## Percentiles -/

theorem rank_lt {samples : List UInt64} (recorded : samples ≠ []) {p : ℕ} (below : p < 100) :
    p * samples.length / 100 < samples.length := by
  have positive := List.length_pos_of_ne_nil recorded
  rw [Nat.div_lt_iff_lt_mul (by norm_num), Nat.mul_comm]
  exact Nat.mul_lt_mul_of_pos_left below positive

theorem exists_orderStatistic {samples : List UInt64} {rank : ℕ} (inside : rank < samples.length) :
    ∃ sample, orderStatistic samples rank = some sample :=
  ⟨_, List.getElem?_eq_getElem (by rwa [sorted, List.length_mergeSort])⟩

/-- A percentile is the upper bound of the bucket of the sample of its rank. -/
theorem percentile_eq {samples : List UInt64} {p : ℕ} {sample : UInt64} (recorded : samples ≠ [])
    (found : orderStatistic samples (p * samples.length / 100) = some sample) :
    percentile (record samples) p = bucketUpperBound (countsIndex sample.toNat) := by
  obtain ⟨short, enough⟩ := before_rank found
  have count : ¬ (record samples).count = 0 := by
    rw [record_count]
    exact Nat.ne_of_gt (List.length_pos_of_ne_nil recorded)
  have scanned := scan_eq samples short enough 0 countsLen (Nat.zero_le _)
    (by rw [Nat.zero_add]; exact countsIndex_lt sample.toNat_lt)
  rw [before_zero, ← List.range_eq_range'] at scanned
  rw [percentile, if_neg count, record_count, scanned]

theorem orderStatistic_le {samples : List UInt64} {rank later : ℕ} {sample other : UInt64}
    (here : orderStatistic samples rank = some sample)
    (there : orderStatistic samples later = some other) (order : rank ≤ later) :
    sample.toNat ≤ other.toNat := by
  obtain ⟨inside, rfl⟩ := List.getElem?_eq_some_iff.mp here
  obtain ⟨insideLater, rfl⟩ := List.getElem?_eq_some_iff.mp there
  rcases order.lt_or_eq with before | rfl
  · exact List.pairwise_iff_getElem.mp (sorted_pairwise samples) _ _ inside insideLater before
  · exact le_rfl

end BasicStats

end Join.Stats
