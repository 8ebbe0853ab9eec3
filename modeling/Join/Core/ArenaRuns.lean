import Join.Core.Arena
import Mathlib.Data.List.Nodup
import Mathlib.Data.List.Perm.Basic

/-!
# What an arena hands out

Every chunk of a pool is either free or live. The free ones are the cells of the list that
begins at the head of the pool, and the live ones are those of the live addresses that lie in
the pool. Together they are the chunks of the pool, each of them once: that is the invariant
of a pool, and what a call does to one pool it does to no other, because the pools lie apart.
-/

set_option autoImplicit false

namespace Join

open Library

variable {count : ℕ} {pool other : ArenaPool} {live : List ℕ}

namespace ArenaPool

/-! ## One pool -/

/-- The chunks of a pool have indices and addresses. -/
structure Sound (count : ℕ) (pool : ArenaPool) : Prop where
  few : count ≤ nullIdx
  sized : 0 < pool.size
  fits : pool.base + count * pool.size < 2 ^ 64

/-- Every chunk of the pool is either in the free list or live. -/
def Good (count : ℕ) (pool : ArenaPool) (live : List ℕ) : Prop :=
  ∃ free, Linked nullIdx pool.segment.next pool.segment.head.idx free ∧
    (free.map pool.chunk ++ live.filter (pool.owns count)).Perm
      ((List.range count).map pool.chunk)

/-- No address lies in both pools. -/
def Apart (count : ℕ) (first second : ArenaPool) : Prop :=
  ∀ p, ¬ (first.owns count p = true ∧ second.owns count p = true)

theorem Sound.chunk_injective (sound : pool.Sound count) :
    Function.Injective pool.chunk := by
  intro first second same
  have scaled : first * pool.size = second * pool.size := Nat.add_left_cancel same
  exact Nat.eq_of_mul_eq_mul_right sound.sized scaled

theorem Sound.owns_iff (sound : pool.Sound count) (p : ℕ) :
    pool.owns count p = true ↔ pool.base ≤ p ∧ p < pool.base + count * pool.size := by
  rw [owns, Nat.mod_eq_of_lt sound.fits, Bool.and_eq_true, decide_eq_true_eq, decide_eq_true_eq]

theorem Sound.owns_chunk (sound : pool.Sound count) {index : ℕ} (inside : index < count) :
    pool.owns count (pool.chunk index) = true := by
  rw [sound.owns_iff]
  refine ⟨Nat.le_add_right _ _, ?_⟩
  exact Nat.add_lt_add_left (Nat.mul_lt_mul_of_pos_right inside sound.sized) _

theorem Sound.indexOf_chunk (sound : pool.Sound count) {index : ℕ} (inside : index < count) :
    pool.indexOf (pool.chunk index) = index := by
  have small : index < 2 ^ 32 := by
    have few := sound.few
    rw [nullIdx] at few
    omega
  rw [indexOf, chunk, Nat.add_sub_cancel_left, Nat.mul_div_cancel _ sound.sized,
    Nat.mod_eq_of_lt small]

/-- A chunk of the pool that is free or live has an index. -/
theorem Good.isChunk_of_live (good : pool.Good count live) {p : ℕ} (member : p ∈ live)
    (owns : pool.owns count p = true) : pool.IsChunk count p := by
  obtain ⟨free, -, all⟩ := good
  have there := all.subset (List.mem_append_right _ (List.mem_filter.mpr ⟨member, owns⟩))
  obtain ⟨index, inside, rfl⟩ := List.mem_map.mp there
  exact ⟨index, List.mem_range.mp inside, rfl⟩

/-- The free list of a good pool, with what its indices are. -/
theorem Good.exists_free (good : pool.Good count live) (sound : pool.Sound count) :
    ∃ free, Linked nullIdx pool.segment.next pool.segment.head.idx free ∧
      (free.map pool.chunk ++ live.filter (pool.owns count)).Perm
        ((List.range count).map pool.chunk) ∧
      (∀ index ∈ free, index < count ∧ index ≠ nullIdx) ∧
      pool.freeList count = free := by
  obtain ⟨free, linked, all⟩ := good
  have inside : ∀ index ∈ free, index < count ∧ index ≠ nullIdx := by
    intro index member
    have there := all.subset (List.mem_append_left _ (List.mem_map_of_mem member))
    obtain ⟨other, range, same⟩ := List.mem_map.mp there
    have small := List.mem_range.mp range
    rw [sound.chunk_injective same] at small
    have few := sound.few
    exact ⟨small, by omega⟩
  have short : free.length ≤ count := by
    have lengths := all.length_eq
    rw [List.length_append, List.length_map, List.length_map, List.length_range] at lengths
    omega
  exact ⟨free, linked, all, inside, linked.cells_eq (fun index member =>
    (inside index member).2) short⟩

/-- The free chunks and the live ones of a pool are as many as it has. -/
theorem Good.count_eq (good : pool.Good count live) (sound : pool.Sound count) :
    pool.freeCount count + (live.filter (pool.owns count)).length = count := by
  obtain ⟨free, -, all, -, same⟩ := good.exists_free sound
  have lengths := all.length_eq
  rwa [List.length_append, List.length_map, List.length_map, List.length_range, ← same] at lengths

/-- A pool has no chunk left exactly when `pop` returns the null pointer. -/
theorem Good.pop_eq_none_iff (good : pool.Good count live) (sound : pool.Sound count) :
    pool.pop.2 = none ↔ pool.freeCount count = 0 := by
  obtain ⟨free, linked, -, inside, same⟩ := good.exists_free sound
  rw [freeCount, same, List.length_eq_zero_iff, pop, Option.map_eq_none_iff, PoolSegment.pop]
  constructor
  · intro none
    split_ifs at none with null
    rw [null] at linked
    exact linked.eq_nil fun index member => (inside index member).2
  · rintro rfl
    have null : pool.segment.head.idx = nullIdx := linked
    rw [if_pos null]

/-- What `pop` returns was free and is live then. -/
theorem Good.pop (good : pool.Good count live) (sound : pool.Sound count) {p : ℕ}
    (popped : pool.pop.2 = some p) :
    pool.IsChunk count p ∧ p ∉ live ∧ pool.owns count p = true ∧
      pool.pop.1.Good count (p :: live) := by
  obtain ⟨free, linked, all, inside, -⟩ := good.exists_free sound
  rw [ArenaPool.pop, Option.map_eq_some_iff] at popped
  obtain ⟨index, taken, rfl⟩ := popped
  rw [PoolSegment.pop] at taken
  split_ifs at taken with null
  obtain rfl := Option.some.inj taken
  obtain ⟨rest, rfl, remaining⟩ := linked.exists_cons null
  have small := (inside _ List.mem_cons_self).1
  have owns := sound.owns_chunk small
  have once : ((pool.segment.head.idx :: rest).map pool.chunk ++
      live.filter (pool.owns count)).Nodup :=
    all.nodup_iff.mpr (List.Nodup.map sound.chunk_injective List.nodup_range)
  refine ⟨⟨_, small, rfl⟩, ?_, owns, rest, ?_, ?_⟩
  · intro member
    rw [List.map_cons, List.cons_append, List.nodup_cons] at once
    exact once.1 (List.mem_append_right _ (List.mem_filter.mpr ⟨member, owns⟩))
  · simp only [ArenaPool.pop, PoolSegment.pop, if_neg null]
    exact remaining
  · have kept : ((pool.chunk pool.segment.head.idx) :: live).filter (pool.owns count) =
        pool.chunk pool.segment.head.idx :: live.filter (pool.owns count) :=
      List.filter_cons_of_pos owns
    change (rest.map pool.chunk ++
      (pool.chunk pool.segment.head.idx :: live).filter (pool.owns count)).Perm _
    rw [kept]
    exact List.perm_middle.trans all

/-- A pool without a chunk left is left as it is. -/
theorem pop_of_none (none : pool.pop.2 = none) : pool.pop.1 = pool := by
  rw [ArenaPool.pop, Option.map_eq_none_iff, PoolSegment.pop] at none
  rw [ArenaPool.pop, PoolSegment.pop]
  split_ifs at none with null
  rw [if_pos null]

/-- A live chunk is not in the free list. -/
theorem Sound.not_free (sound : pool.Sound count) {index : ℕ}
    (member : pool.chunk index ∈ live) (inside : index < count) {free : List ℕ}
    (all : (free.map pool.chunk ++ live.filter (pool.owns count)).Perm
      ((List.range count).map pool.chunk)) : index ∉ free := by
  intro there
  have once : (free.map pool.chunk ++ live.filter (pool.owns count)).Nodup :=
    all.nodup_iff.mpr (List.Nodup.map sound.chunk_injective List.nodup_range)
  exact List.disjoint_of_nodup_append once (List.mem_map_of_mem there)
    (List.mem_filter.mpr ⟨member, sound.owns_chunk inside⟩)

/-- What is put back is free then. -/
theorem Good.push (good : pool.Good count live) (sound : pool.Sound count) {p : ℕ}
    (member : p ∈ live) (owns : pool.owns count p = true) :
    (pool.push p).Good count (live.erase p) := by
  obtain ⟨index, small, rfl⟩ := good.isChunk_of_live member owns
  obtain ⟨free, linked, all, -, -⟩ := good.exists_free sound
  have outside := sound.not_free member small all
  have same := sound.indexOf_chunk small
  refine ⟨index :: free, ?_, ?_⟩
  · simp only [ArenaPool.push, PoolSegment.push, PoolSegment.link, same]
    refine ⟨rfl, ?_⟩
    rw [Function.update_self]
    refine linked.congr fun cell inFree => Function.update_of_ne ?_ _ _
    rintro rfl
    exact outside inFree
  · change ((index :: free).map pool.chunk ++
      (live.erase (pool.chunk index)).filter (pool.owns count)).Perm _
    have back : (live.filter (pool.owns count)).Perm
        (pool.chunk index :: (live.erase (pool.chunk index)).filter (pool.owns count)) := by
      rw [← List.filter_cons_of_pos owns]
      exact (List.perm_cons_erase member).filter _
    exact (List.perm_middle.symm.trans (back.symm.append_left _)).trans all

/-- The owner of a chunk writes over no link of the free list. -/
theorem Good.write (good : pool.Good count live) (sound : pool.Sound count) {p : ℕ}
    (member : p ∈ live) (owns : pool.owns count p = true) (value : ℕ) :
    (pool.write p value).Good count live := by
  obtain ⟨index, small, rfl⟩ := good.isChunk_of_live member owns
  obtain ⟨free, linked, all, -, -⟩ := good.exists_free sound
  have outside := sound.not_free member small all
  refine ⟨free, ?_, all⟩
  simp only [ArenaPool.write, sound.indexOf_chunk small]
  refine linked.congr fun cell inFree => Function.update_of_ne ?_ _ _
  rintro rfl
  exact outside inFree

/-- A pool that holds the same live chunks as before is as good as before. -/
theorem Good.same (good : pool.Good count live) {others : List ℕ}
    (same : others.filter (pool.owns count) = live.filter (pool.owns count)) :
    pool.Good count others := by
  obtain ⟨free, linked, all⟩ := good
  exact ⟨free, linked, by rwa [same]⟩

end ArenaPool

/-! ## All pools -/

/-- The pools are sound and lie apart, each of them is good, and every live address lies in
one of them. -/
structure ArenaSystem.Good (count : ℕ) (system : ArenaSystem) : Prop where
  sound : ∀ pool ∈ system.pools, pool.Sound count
  apart : system.pools.Pairwise (ArenaPool.Apart count)
  good : ∀ pool ∈ system.pools, pool.Good count system.live
  owned : ∀ p ∈ system.live, ∃ pool ∈ system.pools, pool.owns count p = true

variable {system : ArenaSystem} {pools front back : List ArenaPool} {after : ArenaPool}

/-- A pool among others, with another that lies in the same place. -/
theorem ArenaSystem.Good.replace (good : ArenaSystem.Good count ⟨front ++ pool :: back, live⟩)
    (address : after.address = pool.address) (size : after.size = pool.size)
    {others : List ℕ} (here : after.Good count others)
    (elsewhere : ∀ other ∈ front ++ back,
      others.filter (other.owns count) = live.filter (other.owns count))
    (owned : ∀ p ∈ others, ∃ pool' ∈ front ++ pool :: back, pool'.owns count p = true) :
    ArenaSystem.Good count ⟨front ++ after :: back, others⟩ := by
  obtain ⟨few, sized, fits⟩ := good.sound pool (List.mem_append_right _ List.mem_cons_self)
  have base : after.base = pool.base := by rw [ArenaPool.base, ArenaPool.base, address]
  have owns : after.owns count = pool.owns count := by
    funext p
    rw [ArenaPool.owns, ArenaPool.owns, base, size]
  have split : ∀ {motive : ArenaPool → Prop}, motive after →
      (∀ other ∈ front ++ back, motive other) → ∀ other ∈ front ++ after :: back, motive other := by
    intro motive one all other member
    rcases List.mem_append.mp member with early | late
    · exact all other (List.mem_append_left _ early)
    · rcases List.mem_cons.mp late with rfl | late
      · exact one
      · exact all other (List.mem_append_right _ late)
  have kept : ∀ other ∈ front ++ back, other ∈ front ++ pool :: back := by
    intro other member
    rcases List.mem_append.mp member with early | late
    · exact List.mem_append_left _ early
    · exact List.mem_append_right _ (List.mem_cons_of_mem _ late)
  refine ⟨split ⟨few, by rwa [size], by rwa [base, size]⟩
    fun other member => good.sound other (kept other member), ?_, split here
    fun other member => (good.good other (kept other member)).same (elsewhere other member), ?_⟩
  · have apart := good.apart
    simp only [List.pairwise_append, List.pairwise_cons, List.forall_mem_cons] at apart ⊢
    obtain ⟨first, ⟨behind, last⟩, across⟩ := apart
    refine ⟨first, ⟨?_, last⟩, ?_⟩
    · intro other member
      rw [ArenaPool.Apart, owns]
      exact behind other member
    · intro other member
      refine ⟨?_, (across other member).2⟩
      rw [ArenaPool.Apart, owns]
      exact (across other member).1
  · intro p member
    obtain ⟨holder, inside, holds⟩ := owned p member
    rcases List.mem_append.mp inside with early | late
    · exact ⟨holder, List.mem_append_left _ early, holds⟩
    · rcases List.mem_cons.mp late with rfl | late
      · refine ⟨after, List.mem_append_right _ List.mem_cons_self, ?_⟩
        rw [owns]
        exact holds
      · exact ⟨holder, List.mem_append_right _ (List.mem_cons_of_mem _ late), holds⟩

/-- An address in one pool lies in no other. -/
theorem ArenaSystem.Good.not_owned
    (good : ArenaSystem.Good count ⟨front ++ pool :: back, live⟩) {p : ℕ}
    (owns : pool.owns count p = true) (other : ArenaPool) (member : other ∈ front ++ back) :
    other.owns count p = false := by
  apply Bool.eq_false_iff.mpr
  intro also
  obtain ⟨-, behind, across⟩ := List.pairwise_append.mp good.apart
  rcases List.mem_append.mp member with early | late
  · exact across other early pool List.mem_cons_self p ⟨also, owns⟩
  · exact (List.pairwise_cons.mp behind).1 other late p ⟨owns, also⟩

/-! ## The calls -/

/-- `allocate` takes a chunk of a pool that fits, or no such pool has one. -/
theorem allocateImplem_cases (pools : List ArenaPool) (size : ℕ) :
    (∃ front pool back p, pools = front ++ pool :: back ∧ size ≤ pool.size ∧
      pool.pop.2 = some p ∧ allocateImplem pools size = (front ++ pool.pop.1 :: back, some p)) ∨
    (allocateImplem pools size = (pools, none) ∧
      ∀ pool ∈ pools, size ≤ pool.size → pool.pop.2 = none) := by
  induction pools with
  | nil => exact .inr ⟨rfl, fun _ member => absurd member List.not_mem_nil⟩
  | cons first rest ih =>
    have skip : first.pop.2 = none ∨ ¬ size ≤ first.size →
        allocateImplem (first :: rest) size =
          (first :: (allocateImplem rest size).1, (allocateImplem rest size).2) := by
      rintro (missing | small)
      · rw [allocateImplem]
        split_ifs
        · rw [show first.pop = (first, none) from
            Prod.ext (ArenaPool.pop_of_none missing) missing]
        · rfl
      · rw [allocateImplem, if_neg small]
    cases taken : first.pop.2 with
    | some p =>
      by_cases fits : size ≤ first.size
      · refine .inl ⟨[], first, rest, p, rfl, fits, taken, ?_⟩
        rw [allocateImplem, if_pos fits,
          show first.pop = (first.pop.1, some p) from Prod.ext rfl taken]
        rfl
      · rw [skip (.inr fits)]
        rcases ih with ⟨front, pool, back, p', rfl, enough, popped, result⟩ | ⟨result, all⟩
        · exact .inl ⟨first :: front, pool, back, p', rfl, enough, popped, by rw [result]; rfl⟩
        · exact .inr ⟨by rw [result], List.forall_mem_cons.mpr
            ⟨fun enough => absurd enough fits, all⟩⟩
    | none =>
      rw [skip (.inl taken)]
      rcases ih with ⟨front, pool, back, p', rfl, enough, popped, result⟩ | ⟨result, all⟩
      · exact .inl ⟨first :: front, pool, back, p', rfl, enough, popped, by rw [result]; rfl⟩
      · exact .inr ⟨by rw [result], List.forall_mem_cons.mpr ⟨fun _ => taken, all⟩⟩

/-- `tryAllocate` takes a chunk of the first pool that fits, if there is one. -/
theorem tryAllocateImplem_cases (pools : List ArenaPool) (size : ℕ) :
    (∃ front pool back, pools = front ++ pool :: back ∧
      pools.find? (fun pool => decide (size ≤ pool.size)) = some pool ∧ size ≤ pool.size ∧
      tryAllocateImplem pools size = (front ++ pool.pop.1 :: back, pool.pop.2)) ∨
    (pools.find? (fun pool => decide (size ≤ pool.size)) = none ∧
      tryAllocateImplem pools size = (pools, none)) := by
  induction pools with
  | nil => exact .inr ⟨rfl, rfl⟩
  | cons first rest ih =>
    by_cases fits : size ≤ first.size
    · refine .inl ⟨[], first, rest, rfl, ?_, fits, ?_⟩
      · exact List.find?_cons_of_pos (decide_eq_true fits)
      · rw [tryAllocateImplem, if_pos fits]
        rfl
    · rw [List.find?_cons_of_neg (by rw [decide_eq_true_eq]; exact fits), tryAllocateImplem,
        if_neg fits]
      rcases ih with ⟨front, pool, back, rfl, found, enough, result⟩ | ⟨found, result⟩
      · exact .inl ⟨first :: front, pool, back, rfl, found, enough, by rw [result]; rfl⟩
      · exact .inr ⟨found, by rw [result]⟩

/-- `deallocate` puts an address back into the first pool that it lies in. -/
theorem deallocateImplem_eq {p : ℕ} (owns : pool.owns count p = true)
    (elsewhere : ∀ other ∈ front, other.owns count p = false) :
    deallocateImplem count (front ++ pool :: back) p = front ++ pool.push p :: back := by
  induction front with
  | nil => rw [List.nil_append, deallocateImplem, if_pos owns, List.nil_append]
  | cons first front ih =>
    rw [List.forall_mem_cons] at elsewhere
    rw [List.cons_append, deallocateImplem, elsewhere.1, if_neg Bool.false_ne_true,
      ih elsewhere.2]
    rfl

/-! ## What every call keeps -/

/-- A chunk is taken out of a pool. -/
theorem ArenaSystem.Good.take (good : ArenaSystem.Good count ⟨front ++ pool :: back, live⟩)
    {p : ℕ} (popped : pool.pop.2 = some p) :
    ArenaSystem.Good count ⟨front ++ pool.pop.1 :: back, p :: live⟩ := by
  have inside : pool ∈ front ++ pool :: back := List.mem_append_right _ List.mem_cons_self
  obtain ⟨-, -, owns, here⟩ := (good.good pool inside).pop (good.sound pool inside) popped
  refine @replace count pool live front back pool.pop.1 good rfl rfl _ here ?_ ?_
  · intro other member
    exact List.filter_cons_of_neg (by rw [good.not_owned owns other member]; simp)
  · intro p' member
    rcases List.mem_cons.mp member with rfl | old
    · exact ⟨pool, inside, owns⟩
    · exact good.owned p' old

/-- A chunk is put back into its pool. -/
theorem ArenaSystem.Good.put (good : ArenaSystem.Good count ⟨front ++ pool :: back, live⟩)
    {p : ℕ} (member : p ∈ live) (owns : pool.owns count p = true) :
    ArenaSystem.Good count ⟨front ++ pool.push p :: back, live.erase p⟩ := by
  have inside : pool ∈ front ++ pool :: back := List.mem_append_right _ List.mem_cons_self
  have here := (good.good pool inside).push (good.sound pool inside) member owns
  refine @replace count pool live front back (pool.push p) good rfl rfl _ here ?_ ?_
  · intro other elsewhere
    have outside := good.not_owned owns other elsewhere
    rw [← List.erase_filter, List.erase_of_not_mem]
    intro there
    rw [(List.mem_filter.mp there).2] at outside
    cases outside
  · intro p' still
    exact good.owned p' (List.mem_of_mem_erase still)

/-- A live address lies in one of the pools and in no other. -/
theorem ArenaSystem.Good.exists_holder (good : ArenaSystem.Good count ⟨pools, live⟩) {p : ℕ}
    (member : p ∈ live) : ∃ front pool back, pools = front ++ pool :: back ∧
      pool.owns count p = true ∧ ∀ other ∈ front ++ back, other.owns count p = false := by
  obtain ⟨pool, inside, owns⟩ := good.owned p member
  obtain ⟨front, back, rfl⟩ := List.append_of_mem inside
  exact ⟨front, pool, back, rfl, owns, good.not_owned owns⟩

/-- No chunk is at the null address. -/
theorem ArenaSystem.Good.zero_not_live (good : ArenaSystem.Good count ⟨pools, live⟩) :
    0 ∉ live := by
  intro member
  obtain ⟨pool, inside, owns⟩ := good.owned 0 member
  have low := ((good.sound pool inside).owns_iff 0).mp owns
  rw [ArenaPool.base, chunksOffset] at low
  omega

/-- Returning a live address puts the chunk back into the one pool that it lies in. -/
theorem ArenaSystem.Good.deallocate_eq (good : ArenaSystem.Good count ⟨pools, live⟩) {p : ℕ}
    (member : p ∈ live) (split : pools = front ++ pool :: back)
    (owns : pool.owns count p = true)
    (elsewhere : ∀ other ∈ front ++ back, other.owns count p = false) :
    deallocate count pools p = front ++ pool.push p :: back := by
  have somewhere : p ≠ 0 := by
    rintro rfl
    exact good.zero_not_live member
  rw [deallocate, if_neg somewhere, split]
  exact deallocateImplem_eq owns fun other early => elsewhere other (List.mem_append_left _ early)

/-- Every action keeps the invariant. -/
theorem ArenaSystem.Good.act (good : system.Good count) {next : ArenaSystem}
    {action : ArenaAction} (acted : system.act count action = some next) : next.Good count := by
  obtain ⟨pools, live⟩ := system
  cases action with
  | allocate size =>
    obtain rfl := Option.some.inj acted
    rcases allocateImplem_cases pools size with
      ⟨front, pool, back, p, rfl, -, popped, result⟩ | ⟨result, -⟩
    · simp only [result]
      exact good.take popped
    · simp only [result]
      exact good
  | tryAllocate size =>
    obtain rfl := Option.some.inj acted
    rcases tryAllocateImplem_cases pools size with
      ⟨front, pool, back, rfl, -, -, result⟩ | ⟨-, result⟩
    · simp only [result]
      cases popped : pool.pop.2 with
      | some p => exact good.take popped
      | none =>
        rw [ArenaPool.pop_of_none popped]
        exact good
    · simp only [result]
      exact good
  | deallocate p =>
    rw [ArenaSystem.act] at acted
    split_ifs at acted with allowed
    obtain rfl := Option.some.inj acted
    by_cases null : p = 0
    · rw [Join.deallocate, if_pos null, null, List.erase_of_not_mem good.zero_not_live]
      exact good
    · have member := allowed.resolve_left null
      obtain ⟨front, pool, back, rfl, owns, elsewhere⟩ := good.exists_holder member
      simp only [good.deallocate_eq member rfl owns elsewhere]
      exact good.put member owns
  | write p value =>
    rw [ArenaSystem.act] at acted
    split_ifs at acted with member
    obtain rfl := Option.some.inj acted
    obtain ⟨front, pool, back, rfl, owns, elsewhere⟩ := good.exists_holder member
    have untouched : ∀ others : List ArenaPool, (∀ other ∈ others, other.owns count p = false) →
        (others.map fun pool => if pool.owns count p then pool.write p value else pool) =
          others := by
      intro others outside
      conv_rhs => rw [← List.map_id others]
      apply List.map_congr_left
      intro other inside
      rw [outside other inside]
      rfl
    have inside : pool ∈ front ++ pool :: back := List.mem_append_right _ List.mem_cons_self
    have here := (good.good pool inside).write (good.sound pool inside) member owns value
    simp only [List.map_append, List.map_cons, owns, if_true]
    rw [untouched front fun other early => elsewhere other (List.mem_append_left _ early),
      untouched back fun other late => elsewhere other (List.mem_append_right _ late)]
    exact @replace count pool live front back (pool.write p value) good rfl rfl live here
      (fun _ _ => rfl) good.owned

/-! ## A new arena -/

theorem size_le_of_allowed {size : ℕ} (allowed : chunkAllowed size = true)
    (small : size < 2 ^ 64) : 8 ≤ size ∧ size ≤ 2 ^ 63 := by
  rw [chunkAllowed, Bool.and_eq_true, Bool.and_eq_true, decide_eq_true_eq, beq_iff_eq] at allowed
  obtain ⟨⟨power, -⟩, least⟩ := allowed
  refine ⟨least, ?_⟩
  obtain ⟨exponent, rfl⟩ := (Nat.and_sub_one_eq_zero_iff_isPowerOfTwo (by omega)).mp power
  have below : exponent < 64 := (Nat.pow_lt_pow_iff_right (by decide)).mp small
  exact Nat.pow_le_pow_right (by decide) (by omega)

/-- Pools whose indices all lie below a limit that is an address fit into 64 bits. -/
theorem regionSizes_fit {limit offset : ℕ} {sizes : List ℕ} (address : limit ≤ 2 ^ 56)
    (positive : 0 < count) (large : ∀ size ∈ sizes, size ≤ 2 ^ 63) (start : offset ≤ limit)
    (links : ∀ place ∈ poolPlaces count offset sizes,
      place.offset + chunksOffset + (count - 1) * place.size + 4 ≤ limit) :
    offset + regionSizes count sizes < 2 ^ 64 := by
  induction sizes generalizing offset with
  | nil =>
    rw [regionSizes_nil]
    omega
  | cons size rest ih =>
    rw [List.forall_mem_cons] at large
    rw [poolPlaces_cons] at links
    have first : offset + chunksOffset + (count - 1) * size + 4 ≤ limit :=
      links _ List.mem_cons_self
    have whole : regionSize count size = headerSize + ((count - 1) * size + size) := by
      obtain ⟨less, rfl⟩ := Nat.exists_eq_succ_of_ne_zero (Nat.ne_of_gt positive)
      rw [regionSize, Nat.succ_sub_one, Nat.mul_comm, Nat.succ_mul]
    have fits : offset + regionSize count size < 2 ^ 64 := by
      have most := large.1
      rw [whole, headerSize]
      rw [chunksOffset] at first
      omega
    rw [next_offset fits] at links
    rw [regionSizes_cons, ← Nat.add_assoc]
    cases rest with
    | nil => exact fits
    | cons next rest =>
      have later := links ⟨offset + regionSize count size, next⟩
        (by rw [poolPlaces_cons]; exact List.mem_cons_of_mem _ List.mem_cons_self)
      refine ih large.2 ?_ fun place member => links place (List.mem_cons_of_mem _ member)
      dsimp only at later
      omega

/-- An arena that has been constructed is good, and nothing of it is live. -/
theorem makePools_good {shape : ArenaShape} {mapping : Mapping shape} {memory : ℕ → ℕ}
    (made : makePools shape mapping memory = some pools) :
    ArenaSystem.Good shape.count ⟨pools, []⟩ := by
  rw [makePools] at made
  split_ifs at made with linked
  obtain rfl := Option.some.inj made
  have user := mapping.user
  have fits : 0 + regionSizes shape.count shape.sizes < 2 ^ 64 := by
    refine @regionSizes_fit shape.count mapping.size 0 shape.sizes
      (by omega) shape.atLeastOne ?_ (Nat.zero_le _) ?_
    · intro size member
      exact (size_le_of_allowed (shape.allowed size member) (shape.small size member)).2
    · intro place member
      exact of_decide_eq_true (List.all_eq_true.mp linked place member)
  have asked := mapping.asked
  rw [totalSize_eq (by rwa [Nat.zero_add] at fits)] at asked
  have sound : ∀ place ∈ poolPlaces shape.count 0 shape.sizes,
      ArenaPool.Sound shape.count ⟨mapping.base + place.offset, place.size,
        .initial shape.count memory⟩ := by
    intro place member
    have size := size_mem_of_place member
    have bounds := (poolPlaces_bounds fits place member).2
    have least := (size_le_of_allowed (shape.allowed _ size) (shape.small _ size)).1
    refine ⟨shape.indexed, Nat.lt_of_lt_of_le (by decide) least, ?_⟩
    rw [regionSize, headerSize] at bounds
    rw [ArenaPool.base, chunksOffset, Nat.mul_comm shape.count]
    dsimp only
    omega
  constructor
  · intro pool member
    obtain ⟨place, there, rfl⟩ := List.mem_map.mp member
    exact sound place there
  · rw [List.pairwise_map]
    apply (poolPlaces_ordered fits).imp_of_mem
    intro first second left right ordered p both
    rw [(sound first left).owns_iff, (sound second right).owns_iff] at both
    obtain ⟨⟨-, above⟩, below, -⟩ := both
    rw [regionSize, headerSize] at ordered
    rw [ArenaPool.base, chunksOffset, Nat.mul_comm shape.count] at above
    rw [ArenaPool.base, chunksOffset] at below
    dsimp only at above below
    omega
  · intro pool member
    obtain ⟨place, there, rfl⟩ := List.mem_map.mp member
    refine ⟨List.range' 0 shape.count, ?_, ?_⟩
    · refine @Linked.range' nullIdx 0 _ shape.count (fun i _ inside => ?_) ?_ shape.atLeastOne
      · simp only [PoolSegment.initial]
        rw [if_pos (by omega)]
      · simp only [PoolSegment.initial]
        rw [if_neg (by omega), if_pos (by omega)]
    · rw [List.filter_nil, List.append_nil, List.range_eq_range']
  · intro p member
    exact absurd member List.not_mem_nil

/-! ## Runs -/

/-- What the calls of an arena do. An address that is handed out is that of a chunk that is
large enough and not live. There is none exactly when the pools that fit have no chunk left:
all of them, or the first. A live address goes back to the one pool that it lies in. The
free chunks of a pool are those that are not live. -/
structure ArenaSystem.Serves (count : ℕ) (system : ArenaSystem) : Prop where
  allocates : ∀ size p, (allocateImplem system.pools size).2 = some p →
    p ∉ system.live ∧ ∃ pool ∈ system.pools, size ≤ pool.size ∧ pool.IsChunk count p
  allocate_null : ∀ size, (allocateImplem system.pools size).2 = none ↔
    ∀ pool ∈ system.pools, size ≤ pool.size → pool.freeCount count = 0
  tryAllocates : ∀ size p, (tryAllocateImplem system.pools size).2 = some p →
    p ∉ system.live ∧ ∃ pool ∈ system.pools, size ≤ pool.size ∧ pool.IsChunk count p
  tryAllocate_null : ∀ size, (tryAllocateImplem system.pools size).2 = none ↔
    ∀ pool, system.pools.find? (fun pool => decide (size ≤ pool.size)) = some pool →
      pool.freeCount count = 0
  deallocates : ∀ p ∈ system.live, ∃ front pool back, system.pools = front ++ pool :: back ∧
    pool.owns count p = true ∧ (∀ other ∈ front ++ back, other.owns count p = false) ∧
    Join.deallocate count system.pools p = front ++ pool.push p :: back ∧
    (pool.push p).freeCount count = pool.freeCount count + 1
  counts : ∀ pool ∈ system.pools,
    pool.freeCount count + (system.live.filter (pool.owns count)).length = count

/-- One chunk more is free after it has been put back. -/
theorem ArenaPool.Good.freeCount_push (good : pool.Good count live) (sound : pool.Sound count)
    {p : ℕ} (member : p ∈ live) (owns : pool.owns count p = true) :
    (pool.push p).freeCount count = pool.freeCount count + 1 := by
  have before := good.count_eq sound
  have afterwards := (good.push sound member owns).count_eq ⟨sound.few, sound.sized, sound.fits⟩
  have one := ((List.perm_cons_erase member).filter (pool.owns count)).length_eq
  rw [List.filter_cons_of_pos owns, List.length_cons] at one
  change _ + ((live.erase p).filter (pool.owns count)).length = count at afterwards
  omega

theorem ArenaSystem.Good.serves (good : system.Good count) : system.Serves count := by
  obtain ⟨pools, live⟩ := system
  constructor
  · intro size p found
    rcases allocateImplem_cases pools size with
      ⟨front, pool, back, p', rfl, fits, popped, result⟩ | ⟨result, -⟩
    · rw [result] at found
      obtain rfl := Option.some.inj found
      have inside : pool ∈ front ++ pool :: back := List.mem_append_right _ List.mem_cons_self
      obtain ⟨chunk, fresh, -, -⟩ := (good.good pool inside).pop (good.sound pool inside) popped
      exact ⟨fresh, pool, inside, fits, chunk⟩
    · rw [result] at found
      cases found
  · intro size
    rcases allocateImplem_cases pools size with
      ⟨front, pool, back, p', rfl, fits, popped, result⟩ | ⟨result, none⟩
    · have inside : pool ∈ front ++ pool :: back := List.mem_append_right _ List.mem_cons_self
      rw [result]
      refine iff_of_false (Option.some_ne_none _) fun all => ?_
      have left := ((good.good pool inside).pop_eq_none_iff (good.sound pool inside)).mpr
        (all pool inside fits)
      rw [popped] at left
      cases left
    · rw [result]
      refine iff_of_true rfl fun pool inside fits => ?_
      exact ((good.good pool inside).pop_eq_none_iff (good.sound pool inside)).mp
        (none pool inside fits)
  · intro size p found
    rcases tryAllocateImplem_cases pools size with
      ⟨front, pool, back, rfl, -, fits, result⟩ | ⟨-, result⟩
    · rw [result] at found
      have inside : pool ∈ front ++ pool :: back := List.mem_append_right _ List.mem_cons_self
      obtain ⟨chunk, fresh, -, -⟩ := (good.good pool inside).pop (good.sound pool inside) found
      exact ⟨fresh, pool, inside, fits, chunk⟩
    · rw [result] at found
      cases found
  · intro size
    rcases tryAllocateImplem_cases pools size with
      ⟨front, pool, back, rfl, first, -, result⟩ | ⟨missing, result⟩
    · have inside : pool ∈ front ++ pool :: back := List.mem_append_right _ List.mem_cons_self
      rw [result]
      simp only [first, Option.some.injEq, forall_eq']
      exact (good.good pool inside).pop_eq_none_iff (good.sound pool inside)
    · rw [result]
      refine iff_of_true rfl fun pool found => ?_
      rw [missing] at found
      cases found
  · intro p member
    obtain ⟨front, pool, back, rfl, owns, elsewhere⟩ := good.exists_holder member
    have inside : pool ∈ front ++ pool :: back := List.mem_append_right _ List.mem_cons_self
    exact ⟨front, pool, back, rfl, owns, elsewhere, good.deallocate_eq member rfl owns elsewhere,
      (good.good pool inside).freeCount_push (good.sound pool inside) member owns⟩
  · intro pool inside
    exact (good.good pool inside).count_eq (good.sound pool inside)

theorem ArenaSystem.Good.run {start : ArenaSystem} (good : start.Good count)
    (run : start.Run count system) : system.Good count := by
  induction run with
  | refl => exact good
  | tail _ step ih =>
    obtain ⟨action, acted⟩ := step
    exact ih.act acted

/-- Whatever is called and written, every call of an arena does what it is to do: in every
state that is reached from a constructed arena. -/
theorem arena_serves (shape : ArenaShape) (mapping : Mapping shape) (memory : ℕ → ℕ)
    (pools : List ArenaPool) (made : makePools shape mapping memory = some pools)
    (system : ArenaSystem) (run : ArenaSystem.Run shape.count ⟨pools, []⟩ system) :
    system.Serves shape.count :=
  ((makePools_good made).run run).serves

/-- Two chunks of 64 bytes and two of 128. -/
def testArena : ArenaShape where
  count := 2
  sizes := [64, 128]
  atLeastOne := by decide
  indexed := by decide
  some := by decide
  ascending := by decide
  allowed := by decide
  small := by decide

/-- A page at `4096`. -/
def testMapping : Mapping testArena where
  base := 4096
  size := 4096
  asked := by decide
  user := by decide

/-- The pools of that arena in that page. -/
def testPools : List ArenaPool :=
  [⟨4096, 64, .initial 2 fun _ => 0⟩, ⟨4352, 128, .initial 2 fun _ => 0⟩]

/-- The third request of 64 bytes is served by a larger chunk. -/
theorem arena_serves_promoted : ∃ system,
    makePools testArena testMapping (fun _ => 0) = some testPools ∧
      ArenaSystem.Run 2 ⟨testPools, []⟩ system ∧ system.live = [4432, 4240, 4176] ∧
      system.Serves 2 := by
  have made : makePools testArena testMapping (fun _ => 0) = some testPools := rfl
  have run : ArenaSystem.Run 2 ⟨testPools, []⟩
      ⟨(allocateImplem (allocateImplem (allocateImplem testPools 64).1 64).1 64).1,
        [4432, 4240, 4176]⟩ := by
    refine .tail (.tail (.tail .refl ⟨.allocate 64, rfl⟩) ⟨.allocate 64, rfl⟩) ⟨.allocate 64, ?_⟩
    rfl
  exact ⟨_, made, run, rfl, arena_serves testArena testMapping _ testPools made _ run⟩

end Join
