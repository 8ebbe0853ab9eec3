import Mathlib.Algebra.BigOperators.Group.List.Basic
import Mathlib.Algebra.Group.Nat.Defs
import Mathlib.Algebra.Order.Ring.Nat
import Mathlib.Tactic.Common

/-!
# The layout of an arena

`join::BasicArena` puts pools of chunks one behind the other into one region of memory. A
pool has a header of two words, each aligned to 64 bytes, and its chunks behind it. The size
of the header is a multiple of its alignment, but the size of the chunks need not be one:
the pool behind them then begins at an offset that its header is not to have.

Sizes and offsets are computed in 64 bits.
-/

set_option autoImplicit false

namespace Join

/-- The static assertions of `BasicChunk`. -/
def chunkAllowed (size : ℕ) : Bool :=
  size &&& (size - 1) == 0 && size % 16 == 0 && decide (8 ≤ size)

/-- `Sorted` -/
def sortedSizes : List ℕ → Bool
  | first :: second :: rest => decide (first ≤ second) && sortedSizes (second :: rest)
  | _ => true

/-- The arguments of `BasicArena` that the static assertions allow. -/
structure ArenaShape where
  count : ℕ
  sizes : List ℕ
  atLeastOne : 0 < count
  indexed : count ≤ 2 ^ 32 - 1
  some : sizes ≠ []
  ascending : sortedSizes sizes = true
  allowed : ∀ size ∈ sizes, chunkAllowed size = true
  small : ∀ size ∈ sizes, size < 2 ^ 64

/-- The alignment of the words of `BasicSegment`. -/
def headerAlignment : ℕ := 64

/-- The alignment of `BasicChunk`. -/
def chunkAlignment : ℕ := 16

/-- `sizeof (BasicSegment)` -/
def headerSize : ℕ := 128

/-- Where the chunks of a `BasicSegment` begin: behind the word at 64, aligned. -/
def chunksOffset : ℕ := 80

/-- `BasicPool::_total` -/
def poolTotal (count size : ℕ) : ℕ := (headerSize + size * count % 2 ^ 64) % 2 ^ 64

/-- `TotalSize` -/
def totalSize (count : ℕ) : List ℕ → ℕ
  | [] => 0
  | [last] => poolTotal count last
  | first :: rest => (poolTotal count first + totalSize count rest) % 2 ^ 64

/-- `BasicArena::makeOffsets`, from an offset on. -/
def makeOffsets (count : ℕ) : ℕ → List ℕ → List ℕ
  | _, [] => []
  | offset, size :: rest =>
      offset :: makeOffsets count ((offset + poolTotal count size) % 2 ^ 64) rest

/-- Where a pool lies. -/
structure PoolPlace where
  offset : ℕ
  size : ℕ
deriving DecidableEq, Repr

/-- Where the pools of a list of sizes lie. -/
def poolPlaces (count offset : ℕ) (sizes : List ℕ) : List PoolPlace :=
  List.zipWith PoolPlace.mk (makeOffsets count offset sizes) sizes

/-- The bytes that the header and the chunks of a pool take up. -/
def regionSize (count size : ℕ) : ℕ := headerSize + size * count

/-- The bytes that the pools take up together. -/
def regionSizes (count : ℕ) (sizes : List ℕ) : ℕ := (sizes.map (regionSize count)).sum

/-- A byte of the region of a pool. -/
def PoolPlace.Has (count : ℕ) (place : PoolPlace) (byte : ℕ) : Prop :=
  place.offset ≤ byte ∧ byte < place.offset + regionSize count place.size

/-- The regions of the pools are disjoint and lie in what the arena requests, and the headers
and chunks of the pools are aligned as they are declared. -/
structure ArenaShape.LaidOut (shape : ArenaShape) : Prop where
  disjoint : (poolPlaces shape.count 0 shape.sizes).Pairwise fun first second =>
    ∀ byte, ¬ (first.Has shape.count byte ∧ second.Has shape.count byte)
  contained : ∀ place ∈ poolPlaces shape.count 0 shape.sizes, ∀ byte,
    place.Has shape.count byte → byte < totalSize shape.count shape.sizes
  header : ∀ place ∈ poolPlaces shape.count 0 shape.sizes,
    place.offset % headerAlignment = 0
  chunks : ∀ place ∈ poolPlaces shape.count 0 shape.sizes, ∀ index < shape.count,
    (place.offset + chunksOffset + index * place.size) % chunkAlignment = 0

/-! ## Offsets -/

variable {count offset : ℕ} {sizes : List ℕ}

@[simp] theorem poolPlaces_nil : poolPlaces count offset [] = [] := rfl

@[simp] theorem poolPlaces_cons (size : ℕ) (rest : List ℕ) :
    poolPlaces count offset (size :: rest) =
      ⟨offset, size⟩ :: poolPlaces count ((offset + poolTotal count size) % 2 ^ 64) rest := rfl

@[simp] theorem regionSizes_nil : regionSizes count [] = 0 := rfl

@[simp] theorem regionSizes_cons (size : ℕ) (rest : List ℕ) :
    regionSizes count (size :: rest) = regionSize count size + regionSizes count rest := by
  rw [regionSizes, List.map_cons, List.sum_cons, regionSizes]

theorem headerSize_le_regionSize (size : ℕ) : headerSize ≤ regionSize count size :=
  Nat.le_add_right _ _

/-- Where a region fits into 64 bits its size is what is computed. -/
theorem poolTotal_eq {size : ℕ} (fits : regionSize count size < 2 ^ 64) :
    poolTotal count size = regionSize count size := by
  have inner : size * count < 2 ^ 64 := Nat.lt_of_le_of_lt (Nat.le_add_left _ _) fits
  rw [poolTotal, Nat.mod_eq_of_lt inner]
  exact Nat.mod_eq_of_lt fits

theorem next_offset {size : ℕ} (fits : offset + regionSize count size < 2 ^ 64) :
    (offset + poolTotal count size) % 2 ^ 64 = offset + regionSize count size := by
  rw [poolTotal_eq (by omega), Nat.mod_eq_of_lt fits]

theorem totalSize_lt (count : ℕ) (sizes : List ℕ) : totalSize count sizes < 2 ^ 64 := by
  match sizes with
  | [] => exact Nat.two_pow_pos 64
  | [last] => exact Nat.mod_lt _ (Nat.two_pow_pos 64)
  | first :: second :: rest => exact Nat.mod_lt _ (Nat.two_pow_pos 64)

theorem totalSize_eq (fits : regionSizes count sizes < 2 ^ 64) :
    totalSize count sizes = regionSizes count sizes := by
  induction sizes with
  | nil => rfl
  | cons size rest ih =>
    rw [regionSizes_cons] at fits ⊢
    cases rest with
    | nil =>
      rw [regionSizes_nil, Nat.add_zero] at fits ⊢
      exact poolTotal_eq fits
    | cons next rest =>
      rw [totalSize, ih (by omega), poolTotal_eq (by omega), Nat.mod_eq_of_lt fits]
      exact List.cons_ne_nil _ _

/-- Regions that all end in front of a limit below `2 ^ 64` take up no more than that limit. -/
theorem regionSizes_le {limit : ℕ} (below : limit < 2 ^ 64) (start : offset ≤ limit)
    (ends : ∀ place ∈ poolPlaces count offset sizes,
      place.offset + regionSize count place.size ≤ limit) :
    offset + regionSizes count sizes ≤ limit := by
  induction sizes generalizing offset with
  | nil => exact start
  | cons size rest ih =>
    rw [poolPlaces_cons] at ends
    have first : offset + regionSize count size ≤ limit := ends _ List.mem_cons_self
    rw [next_offset (Nat.lt_of_le_of_lt first below)] at ends
    have later := ih first fun place member => ends place (List.mem_cons_of_mem _ member)
    rw [regionSizes_cons]
    omega

/-- Regions that fit into 64 bits follow one another. -/
theorem poolPlaces_bounds (fits : offset + regionSizes count sizes < 2 ^ 64) (place : PoolPlace)
    (member : place ∈ poolPlaces count offset sizes) :
    offset ≤ place.offset ∧
      place.offset + regionSize count place.size ≤ offset + regionSizes count sizes := by
  induction sizes generalizing offset with
  | nil => exact absurd member List.not_mem_nil
  | cons size rest ih =>
    rw [regionSizes_cons] at fits ⊢
    rw [poolPlaces_cons, next_offset (by omega)] at member
    rcases List.mem_cons.mp member with rfl | later
    · refine ⟨le_refl _, ?_⟩
      dsimp only
      omega
    · have bounds := ih (by omega) later
      omega

theorem poolPlaces_ordered (fits : offset + regionSizes count sizes < 2 ^ 64) :
    (poolPlaces count offset sizes).Pairwise fun first second =>
      first.offset + regionSize count first.size ≤ second.offset := by
  induction sizes generalizing offset with
  | nil => exact .nil
  | cons size rest ih =>
    rw [regionSizes_cons] at fits
    rw [poolPlaces_cons, next_offset (by omega)]
    refine .cons ?_ (ih (by omega))
    intro place member
    exact (poolPlaces_bounds (by omega) place member).1

/-- The size of a pool is one of the sizes. -/
theorem size_mem_of_place {place : PoolPlace} (member : place ∈ poolPlaces count offset sizes) :
    place.size ∈ sizes := by
  induction sizes generalizing offset with
  | nil => exact absurd member List.not_mem_nil
  | cons size rest ih =>
    rw [poolPlaces_cons] at member
    rcases List.mem_cons.mp member with rfl | later
    · exact List.mem_cons_self
    · exact List.mem_cons_of_mem _ (ih later)

/-! ## Alignment -/

theorem regionSize_mod (size : ℕ) :
    regionSize count size % headerAlignment = size * count % headerAlignment := by
  rw [regionSize, headerSize, headerAlignment]
  omega

/-- Every header is aligned exactly when the chunks of every pool but the last take up a
multiple of the alignment. -/
theorem headers_aligned_iff (aligned : offset % headerAlignment = 0)
    (fits : offset + regionSizes count sizes < 2 ^ 64) :
    (∀ place ∈ poolPlaces count offset sizes, place.offset % headerAlignment = 0) ↔
      ∀ size ∈ sizes.dropLast, size * count % headerAlignment = 0 := by
  induction sizes generalizing offset with
  | nil => simp
  | cons size rest ih =>
    rw [regionSizes_cons] at fits
    rw [poolPlaces_cons, next_offset (by omega), List.forall_mem_cons]
    cases rest with
    | nil => simp [aligned]
    | cons next rest =>
      have same : (offset + regionSize count size) % headerAlignment =
          size * count % headerAlignment := by
        rw [Nat.add_mod, aligned, Nat.zero_add, Nat.mod_mod, regionSize_mod]
      rw [List.dropLast_cons_of_ne_nil (List.cons_ne_nil _ _), List.forall_mem_cons]
      constructor
      · rintro ⟨-, later⟩
        have here : size * count % headerAlignment = 0 := by
          rw [← same]
          exact later ⟨_, next⟩ (by rw [poolPlaces_cons]; exact List.mem_cons_self)
        exact ⟨here, (ih (by rw [same, here]) (by omega)).mp later⟩
      · rintro ⟨here, later⟩
        exact ⟨aligned, (ih (by rw [same, here]) (by omega)).mpr later⟩

theorem size_mod_of_allowed {size : ℕ} (allowed : chunkAllowed size = true) :
    size % chunkAlignment = 0 := by
  rw [chunkAllowed, Bool.and_eq_true, Bool.and_eq_true] at allowed
  exact beq_iff_eq.mp allowed.1.2

/-- An aligned header has aligned chunks behind it. -/
theorem chunk_aligned {size : ℕ} (aligned : offset % headerAlignment = 0)
    (allowed : chunkAllowed size = true) (index : ℕ) :
    (offset + chunksOffset + index * size) % chunkAlignment = 0 := by
  have step : index * size % chunkAlignment = 0 := by
    rw [Nat.mul_mod, size_mod_of_allowed allowed, Nat.mul_zero, Nat.zero_mod]
  rw [headerAlignment] at aligned
  rw [chunkAlignment] at step ⊢
  rw [chunksOffset]
  omega

/-- The layout of an arena is as it is to be exactly when the sizes of its pools add up to
less than `2 ^ 64` and the chunks of every pool but the last take up a multiple of 64 bytes. -/
theorem laidOut_iff (shape : ArenaShape) :
    shape.LaidOut ↔ regionSizes shape.count shape.sizes < 2 ^ 64 ∧
      ∀ size ∈ shape.sizes.dropLast, size * shape.count % 64 = 0 := by
  constructor
  · intro laid
    have below := totalSize_lt shape.count shape.sizes
    have fits : regionSizes shape.count shape.sizes < 2 ^ 64 := by
      have sum := @regionSizes_le shape.count 0 shape.sizes _ below (Nat.zero_le _) ?_
      · omega
      · intro place member
        have most := @headerSize_le_regionSize shape.count place.size
        have last := laid.contained place member
          (place.offset + regionSize shape.count place.size - 1)
          (by rw [headerSize] at most; exact ⟨by omega, by omega⟩)
        omega
    exact ⟨fits, (headers_aligned_iff rfl (by omega)).mp laid.header⟩
  · rintro ⟨fits, multiples⟩
    have within : 0 + regionSizes shape.count shape.sizes < 2 ^ 64 := by omega
    have headers := (headers_aligned_iff rfl within).mpr multiples
    refine ⟨(poolPlaces_ordered within).imp ?_, ?_, headers, ?_⟩
    · rintro first second ordered byte ⟨inside, other⟩
      exact absurd (inside.2.trans_le ordered) (not_lt.mpr other.1)
    · intro place member byte inside
      have bounds := (poolPlaces_bounds within place member).2
      rw [totalSize_eq fits]
      rw [Nat.zero_add] at bounds
      exact inside.2.trans_le bounds
    · intro place member index _
      exact chunk_aligned (headers place member)
        (shape.allowed _ (size_mem_of_place member)) index

/-- One chunk of 16 bytes and one of 32. -/
def smallArena : ArenaShape where
  count := 1
  sizes := [16, 32]
  atLeastOne := by decide
  indexed := by decide
  some := by decide
  ascending := by decide
  allowed := by decide
  small := by decide

/-- The second pool of the arena begins at offset 144. -/
theorem smallArena_not_laidOut : ¬ ∀ shape : ArenaShape, shape.LaidOut := by
  intro laid
  exact absurd ((laid smallArena).header ⟨144, 32⟩ (by decide)) (by decide)

end Join
