import Join.Library.Turns
import Join.Library.Linked
import Mathlib.Logic.Function.Basic

/-!
# The free list of a pool

`join::BasicPool` hands out chunks of a segment. The chunks that are free form a list:
the head of the list is a word of the segment, made of an index and a generation, and
the index of the next free chunk is stored in the chunk itself. Threads take the first
chunk and put chunks back by compare-exchanges of the head; each success raises the
generation.

A chunk that is handed out belongs to its owner, who writes what it likes over the
index, and a thread that is slow may still read that index.
-/

set_option autoImplicit false

namespace Join

open Library

/-- `TaggedIndex`: two words of 32 bits that are exchanged as one. -/
structure TaggedIndex where
  idx : ℕ
  gen : ℕ
  deriving DecidableEq, Repr

/-- `BasicSegment::NULL_IDX`. -/
def nullIdx : ℕ := 2 ^ 32 - 1

/-- `BasicSegment`: the head, and the index stored in each chunk. -/
structure PoolSegment where
  head : TaggedIndex
  next : ℕ → ℕ

/-- The constructor of `BasicPool` on a region that is not initialised yet. -/
def PoolSegment.initial (count : ℕ) (memory : ℕ → ℕ) : PoolSegment where
  head := ⟨0, 0⟩
  next := fun i =>
    if i < count - 1 then i + 1 else if i = count - 1 then nullIdx else memory i

/-- The generation after this one. -/
def nextGen (gen : ℕ) : ℕ := (gen + 1) % 2 ^ 32

/-- The local states of `pop` and `push`. -/
inductive PoolThread where
  | idle
  | pop
  | popNext (cur : TaggedIndex)
  | popClaim (cur next : TaggedIndex)
  | push (chunk : ℕ)
  | pushLink (chunk : ℕ) (cur : TaggedIndex)
  | pushClaim (chunk : ℕ) (cur : TaggedIndex)
  deriving DecidableEq

/-- What the calls return: `pop` a chunk or the null pointer, `push` nothing. -/
inductive PoolReply where
  | popped (chunk : Option ℕ)
  | pushed
  deriving DecidableEq

/-- A step of a call on a pool. -/
abbrev PoolTurn : Type := Turn PoolSegment PoolThread ℕ PoolReply

namespace PoolThread

/-- The head of the loop of `pop`. -/
def look (segment : PoolSegment) (cur : TaggedIndex) : PoolTurn :=
  if cur.idx = nullIdx then .finish segment .idle (.popped none)
  else .goOn segment (.popNext cur)

/-- The atomic steps of `pop` and `push`; `weak` makes a compare-exchange fail. -/
def step (weak : Bool) (segment : PoolSegment) : PoolThread → PoolTurn
  | .idle => .goOn segment .idle
  | .pop => look segment segment.head
  | .popNext cur =>
      .goOn segment (.popClaim cur ⟨segment.next cur.idx, nextGen cur.gen⟩)
  | .popClaim cur next =>
      if segment.head = cur ∧ weak = false then
        .finish { segment with head := next } .idle (.popped (some cur.idx))
      else look segment segment.head
  | .push chunk => .goOn segment (.pushLink chunk segment.head)
  | .pushLink chunk cur =>
      .goOn { segment with next := Function.update segment.next chunk cur.idx }
        (.pushClaim chunk cur)
  | .pushClaim chunk cur =>
      if segment.head = cur ∧ weak = false then
        .finish { segment with head := ⟨chunk, nextGen cur.gen⟩ } .idle .pushed
      else .goOn segment (.pushLink chunk segment.head)

/-- The chunk that the thread is putting back. -/
def moving : PoolThread → Option ℕ
  | .push chunk | .pushLink chunk _ | .pushClaim chunk _ => some chunk
  | _ => none

end PoolThread

/-! ## Threads on one pool -/

/-- The segment, the local state of every thread, the chunks each thread owns, and the
number of successful updates of the head: in all, and when each call began. -/
structure PoolSystem (T : Type) where
  segment : PoolSegment
  thread : T → PoolThread
  owned : T → List ℕ
  updates : ℕ
  began : T → ℕ

/-- A thread starts a call, makes the next step of its call, writes over a chunk that it
owns, or lets another thread have the chunk. -/
inductive PoolAction (T : Type) where
  | pop (who : T)
  | push (who : T) (chunk : ℕ)
  | step (who : T) (weak : Bool)
  | scribble (who : T) (chunk value : ℕ)
  | give (who other : T) (chunk : ℕ)

/-- The chunks that a call hands out. -/
def PoolReply.handsOut : Option PoolReply → List ℕ
  | some (.popped (some chunk)) => [chunk]
  | _ => []

/-- The updates of the head that a call makes when it returns. -/
def PoolReply.updates : Option PoolReply → ℕ
  | some (.popped (some _)) | some .pushed => 1
  | _ => 0

namespace PoolSystem

variable {T : Type}

/-- A fresh pool, and nobody in a call. -/
def initial (T : Type) (count : ℕ) (memory : ℕ → ℕ) : PoolSystem T where
  segment := .initial count memory
  thread := fun _ => .idle
  owned := fun _ => []
  updates := 0
  began := fun _ => 0

variable [DecidableEq T]

/-- One action. A thread inside a call starts no other, and a thread puts back, writes over
or passes on only what it owns. -/
def act (system : PoolSystem T) : PoolAction T → Option (PoolSystem T)
  | .pop who =>
      if system.thread who = .idle then
        some { system with
          thread := Function.update system.thread who .pop
          began := Function.update system.began who system.updates }
      else none
  | .push who chunk =>
      if system.thread who = .idle ∧ chunk ∈ system.owned who then
        some { system with
          thread := Function.update system.thread who (.push chunk)
          owned := Function.update system.owned who ((system.owned who).erase chunk)
          began := Function.update system.began who system.updates }
      else none
  | .step who weak =>
      let turn := (system.thread who).step weak system.segment
      some { system with
        segment := turn.memory
        thread := Function.update system.thread who turn.next
        owned := Function.update system.owned who
          (PoolReply.handsOut turn.reply ++ system.owned who)
        updates := system.updates + PoolReply.updates turn.reply }
  | .scribble who chunk value =>
      if chunk ∈ system.owned who then
        some { system with
          segment :=
            { system.segment with next := Function.update system.segment.next chunk value } }
      else none
  | .give who other chunk =>
      if chunk ∈ system.owned who ∧ who ≠ other then
        some { system with
          owned := Function.update
            (Function.update system.owned who ((system.owned who).erase chunk)) other
            (chunk :: system.owned other) }
      else none

/-- Fewer than `2 ^ 32` updates of the head have happened during any call. -/
def Timely (system : PoolSystem T) : Prop :=
  ∀ who, system.thread who ≠ .idle → system.updates < system.began who + 2 ^ 32

/-- The system runs, as long as the calls are timely. -/
def Run : PoolSystem T → PoolSystem T → Prop :=
  Relation.ReflTransGen fun before after =>
    before.Timely ∧ ∃ action, before.act action = some after

end PoolSystem

end Join
