import Join.Core.ArenaLayout
import Join.Core.Pool
import Mathlib.Algebra.Order.Ring.Nat

/-!
# An arena of pools

`join::BasicArena` hands out chunks of several pools. `allocate` takes a chunk from the first
pool that fits and has one, `tryAllocate` from the first pool that fits or from none, and
`deallocate` finds the pool by the address of the chunk.

The calls here follow one another. What the loops of `pop` and `push` do then is said by
`PoolSegment.pop` and `PoolSegment.push`, whatever their compare-exchanges do. Between two
calls the owner of a chunk writes to it, over the index of the next free chunk too.
-/

set_option autoImplicit false

namespace Join

open Library

/-! ## Calls alone on a pool -/

/-- `BasicPool::pop`: the index of the chunk, if there is one. -/
def PoolSegment.pop (segment : PoolSegment) : PoolSegment × Option ℕ :=
  if segment.head.idx = nullIdx then (segment, none)
  else
    ({ segment with head := ⟨segment.next segment.head.idx, nextGen segment.head.gen⟩ },
      some segment.head.idx)

/-- The segment with the index of the first free chunk in a chunk. -/
def PoolSegment.link (segment : PoolSegment) (chunk : ℕ) : PoolSegment :=
  { segment with next := Function.update segment.next chunk segment.head.idx }

/-- `BasicPool::push` -/
def PoolSegment.push (segment : PoolSegment) (chunk : ℕ) : PoolSegment :=
  { segment.link chunk with head := ⟨chunk, nextGen segment.head.gen⟩ }

/-- The local states of a `pop` that runs alone. -/
def PoolSegment.Popping (segment memory : PoolSegment) : PoolThread → Prop
  | .pop => memory = segment
  | .popNext cur => memory = segment ∧ cur = segment.head ∧ cur.idx ≠ nullIdx
  | .popClaim cur next => memory = segment ∧ cur = segment.head ∧ cur.idx ≠ nullIdx ∧
      next = ⟨segment.next cur.idx, nextGen cur.gen⟩
  | _ => False

/-- The local states of a `push` that runs alone. -/
def PoolSegment.Pushing (segment : PoolSegment) (chunk : ℕ) (memory : PoolSegment) :
    PoolThread → Prop
  | .push other => other = chunk ∧ memory = segment
  | .pushLink other cur =>
      other = chunk ∧ cur = segment.head ∧ (memory = segment ∨ memory = segment.link chunk)
  | .pushClaim other cur => other = chunk ∧ cur = segment.head ∧ memory = segment.link chunk
  | _ => False

/-- The steps that a call is away from its end. -/
def PoolThread.remaining : PoolThread → ℕ
  | .pop | .push _ => 3
  | .popNext _ | .pushLink _ _ => 2
  | .popClaim _ _ | .pushClaim _ _ => 1
  | .idle => 0

theorem PoolSegment.look_meets (segment : PoolSegment) (bound : ℕ) (allowed : Prop)
    (more : allowed → 2 < bound) :
    (PoolThread.look segment segment.head).Meets
      (fun memory next => segment.Popping memory next ∧ (allowed → next.remaining < bound))
      fun reply memory _ => reply = .popped segment.pop.2 ∧ memory = segment.pop.1 := by
  rw [PoolThread.look, PoolSegment.pop]
  split_ifs with null
  · exact ⟨rfl, rfl⟩
  · exact ⟨⟨rfl, rfl, null⟩, more⟩

/-- A `pop` alone returns, and does what `PoolSegment.pop` says. -/
theorem PoolSegment.pop_alone (segment : PoolSegment) :
    (∃ reply after final, Completes PoolThread.step segment .pop reply after final) ∧
      ∀ {reply after final}, Completes PoolThread.step segment .pop reply after final →
        reply = .popped segment.pop.2 ∧ after = segment.pop.1 := by
  refine @Completes.total _ _ _ _ PoolThread.step segment.Popping
    (fun reply memory _ => reply = .popped segment.pop.2 ∧ memory = segment.pop.1)
    PoolThread.remaining ?_ _ _ rfl
  intro choice memory now during
  cases now with
  | pop =>
    obtain rfl : memory = segment := during
    exact look_meets memory 3 _ fun _ => by decide
  | popNext cur =>
    obtain ⟨rfl, same, inner⟩ := during
    exact ⟨⟨rfl, same, inner, rfl⟩, fun _ => Nat.lt_succ_self 1⟩
  | popClaim cur next =>
    obtain ⟨rfl, rfl, inner, rfl⟩ := during
    rw [PoolThread.step]
    split_ifs with claimed
    · rw [PoolSegment.pop, if_neg inner]
      exact ⟨rfl, rfl⟩
    · refine look_meets memory 1 _ fun sure => absurd ⟨rfl, sure⟩ claimed
  | idle => exact absurd during id
  | push => exact absurd during id
  | pushLink => exact absurd during id
  | pushClaim => exact absurd during id

/-- A `push` alone returns, and does what `PoolSegment.push` says. -/
theorem PoolSegment.push_alone (segment : PoolSegment) (chunk : ℕ) :
    (∃ reply after final, Completes PoolThread.step segment (.push chunk) reply after final) ∧
      ∀ {reply after final}, Completes PoolThread.step segment (.push chunk) reply after final →
        reply = .pushed ∧ after = segment.push chunk := by
  refine @Completes.total _ _ _ _ PoolThread.step (segment.Pushing chunk)
    (fun reply memory _ => reply = .pushed ∧ memory = segment.push chunk)
    PoolThread.remaining ?_ _ _ ⟨rfl, rfl⟩
  intro choice memory now during
  cases now with
  | push other =>
    obtain ⟨rfl, rfl⟩ := during
    exact ⟨⟨rfl, rfl, .inl rfl⟩, fun _ => Nat.lt_succ_self 2⟩
  | pushLink other cur =>
    obtain ⟨rfl, rfl, rfl | rfl⟩ := during
    · exact ⟨⟨rfl, rfl, rfl⟩, fun _ => Nat.lt_succ_self 1⟩
    · refine ⟨⟨rfl, rfl, ?_⟩, fun _ => Nat.lt_succ_self 1⟩
      simp [PoolThread.step, Turn.goOn, PoolSegment.link]
  | pushClaim other cur =>
    obtain ⟨rfl, rfl, rfl⟩ := during
    rw [PoolThread.step]
    split_ifs with claimed
    · exact ⟨rfl, rfl⟩
    · exact ⟨⟨rfl, rfl, .inr rfl⟩, fun sure => absurd ⟨rfl, sure⟩ claimed⟩
  | idle => exact absurd during id
  | pop => exact absurd during id
  | popNext => exact absurd during id
  | popClaim => exact absurd during id

/-! ## Pools at addresses -/

/-- A `BasicPool`: the address of its segment, the size of its chunks, and the segment. -/
structure ArenaPool where
  address : ℕ
  size : ℕ
  segment : PoolSegment

namespace ArenaPool

/-- The address of `_chunks`. -/
def base (pool : ArenaPool) : ℕ := pool.address + chunksOffset

/-- The address of a chunk. -/
def chunk (pool : ArenaPool) (index : ℕ) : ℕ := pool.base + index * pool.size

/-- The index of the chunk at an address, as `push` computes it. -/
def indexOf (pool : ArenaPool) (p : ℕ) : ℕ := (p - pool.base) / pool.size % 2 ^ 32

/-- `BasicPool::pop` -/
def pop (pool : ArenaPool) : ArenaPool × Option ℕ :=
  ({ pool with segment := pool.segment.pop.1 }, pool.segment.pop.2.map pool.chunk)

/-- `BasicPool::push` -/
def push (pool : ArenaPool) (p : ℕ) : ArenaPool :=
  { pool with segment := pool.segment.push (pool.indexOf p) }

/-- `BasicPool::owns` -/
def owns (count : ℕ) (pool : ArenaPool) (p : ℕ) : Bool :=
  decide (pool.base ≤ p) && decide (p < (pool.base + count * pool.size) % 2 ^ 64)

/-- The owner of a chunk writes a value to its first word, which holds an index while the
chunk is free. -/
def write (pool : ArenaPool) (p value : ℕ) : ArenaPool :=
  { pool with segment :=
    { pool.segment with next := Function.update pool.segment.next (pool.indexOf p) value } }

/-- The chunks that are free, by their indices. -/
def freeList (count : ℕ) (pool : ArenaPool) : List ℕ :=
  linkedCells nullIdx pool.segment.next count pool.segment.head.idx

/-- How many chunks are free. -/
def freeCount (count : ℕ) (pool : ArenaPool) : ℕ := (pool.freeList count).length

/-- The address is that of a chunk. -/
def IsChunk (count : ℕ) (pool : ArenaPool) (p : ℕ) : Prop := ∃ index < count, p = pool.chunk index

end ArenaPool

/-! ## The arena -/

/-- The memory that the backend has mapped for an arena: what the arena has asked for, in
whole pages. The addresses of a process are below `2 ^ 56`. -/
structure Mapping (shape : ArenaShape) where
  base : ℕ
  size : ℕ
  asked : totalSize shape.count shape.sizes ≤ size
  user : base + size ≤ 2 ^ 56

/-- The indices that the constructors of the pools store in the chunks, each in four bytes,
lie in memory of a size. -/
def ArenaShape.linked (shape : ArenaShape) (size : ℕ) : Bool :=
  (poolPlaces shape.count 0 shape.sizes).all fun place =>
    decide (place.offset + chunksOffset + (shape.count - 1) * place.size + 4 ≤ size)

/-- `BasicArena::makePools` on memory that is not initialised yet. The constructor of a pool
that stores an index outside of the memory does not return. -/
def makePools (shape : ArenaShape) (mapping : Mapping shape) (memory : ℕ → ℕ) :
    Option (List ArenaPool) :=
  if shape.linked mapping.size then
    some ((poolPlaces shape.count 0 shape.sizes).map fun place =>
      ⟨mapping.base + place.offset, place.size, .initial shape.count memory⟩)
  else none

/-- `BasicArena::allocateImplem` -/
def allocateImplem : List ArenaPool → ℕ → List ArenaPool × Option ℕ
  | [], _ => ([], none)
  | pool :: rest, size =>
      if size ≤ pool.size then
        match pool.pop with
        | (popped, some p) => (popped :: rest, some p)
        | (popped, none) =>
            let next := allocateImplem rest size
            (popped :: next.1, next.2)
      else
        let next := allocateImplem rest size
        (pool :: next.1, next.2)

/-- `BasicArena::tryAllocateImplem` -/
def tryAllocateImplem : List ArenaPool → ℕ → List ArenaPool × Option ℕ
  | [], _ => ([], none)
  | pool :: rest, size =>
      if size ≤ pool.size then (pool.pop.1 :: rest, pool.pop.2)
      else
        let next := tryAllocateImplem rest size
        (pool :: next.1, next.2)

/-- `BasicArena::deallocateImplem` -/
def deallocateImplem (count : ℕ) : List ArenaPool → ℕ → List ArenaPool
  | [], _ => []
  | pool :: rest, p =>
      if pool.owns count p then pool.push p :: rest
      else pool :: deallocateImplem count rest p

/-- `BasicArena::deallocate` -/
def deallocate (count : ℕ) (pools : List ArenaPool) (p : ℕ) : List ArenaPool :=
  if p = 0 then pools else deallocateImplem count pools p

/-- The arena, and the chunks that have been handed out and not been returned. -/
structure ArenaSystem where
  pools : List ArenaPool
  live : List ℕ

/-- A call, or a write of the owner of a chunk. -/
inductive ArenaAction where
  | allocate (size : ℕ)
  | tryAllocate (size : ℕ)
  | deallocate (p : ℕ)
  | write (p value : ℕ)

/-- One action. Only what is live is written to and returned; returning the null pointer does
nothing. -/
def ArenaSystem.act (count : ℕ) (system : ArenaSystem) : ArenaAction → Option ArenaSystem
  | .allocate size =>
      let result := allocateImplem system.pools size
      some ⟨result.1, result.2.toList ++ system.live⟩
  | .tryAllocate size =>
      let result := tryAllocateImplem system.pools size
      some ⟨result.1, result.2.toList ++ system.live⟩
  | .deallocate p =>
      if p = 0 ∨ p ∈ system.live then
        some ⟨Join.deallocate count system.pools p, system.live.erase p⟩
      else none
  | .write p value =>
      if p ∈ system.live then
        some ⟨system.pools.map fun pool =>
          if pool.owns count p then pool.write p value else pool, system.live⟩
      else none

/-- The arena is used. -/
def ArenaSystem.Run (count : ℕ) : ArenaSystem → ArenaSystem → Prop :=
  Relation.ReflTransGen fun before after => ∃ action, before.act count action = some after

end Join
