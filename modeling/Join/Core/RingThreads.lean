import Join.Core.Queue

/-!
# The calls of the policies with sequence numbers

The calls of `join::Mpsc` and `join::Mpmc`, cut at their atomic operations: a local
state of a call names the operation it makes next and holds the local variables it
will need. `Mpmc` pushes a single element as `Mpsc` does, and its batch push is that
of `Mpsc` but for a wait at each slot, so both policies share the producer. The two
consumers differ.

The weak compare-exchanges may fail although the word is the expected one; the choice
of the machine is the argument `weak`. Whether they fail so or not, they leave the
current value of the word in the expected one.
-/

set_option autoImplicit false

namespace Join

open Library

/-- The segment of a queue whose slots have sequence numbers. -/
abbrev FullSegment (α : Type) : Type := QueueSegment (QueueSlotFull α)

/-- The segment of a queue that has just been initialised. -/
def freshSegment {α : Type} (capacity : ℕ) (memory : ℕ → QueueSlotFull α) : FullSegment α :=
  ⟨QueueSync.magicNumber, 0, 0, QueueSegment.initSlotsFull capacity memory⟩

theorem freshSegment_seq {α : Type} {capacity : ℕ} (memory : ℕ → QueueSlotFull α) {i : ℕ}
    (inside : i < capacity) : (freshSegment capacity memory).seq i = i := by
  simp [freshSegment, QueueSegment.seq, QueueSegment.initSlotsFull, inside]

/-- A step of a call on such a segment. -/
abbrev QueueTurn (Local α : Type) : Type := Turn (FullSegment α) Local α (QueueReply α)

/-- The calls that push. -/
inductive PushCall (α : Type) where
  | tryPush (element : α)
  | tryPushBatch (elements : List α)

/-- The calls that pop. -/
inductive PopCall where
  | tryPop
  | tryPopBatch (size : ℕ)

/-! ## Pushing -/

/-- The local states of `tryPush`. The loop over the claimed slots keeps the elements
that are stored already, the one at hand and those that remain. -/
inductive Producer (α : Type) where
  | idle
  | push (element : α)
  | pushSlot (element : α) (head : ℕ)
  | pushClaim (element : α) (head : ℕ)
  | batch (elements : List α)
  | batchTail (elements : List α) (head : ℕ)
  | batchClaim (elements : List α) (head tail toWrite : ℕ)
  | wait (head : ℕ) (stored : List α) (element : α) (rest : List α)
  | write (head : ℕ) (stored : List α) (element : α) (rest : List α)
  | publish (head : ℕ) (stored : List α) (element : α) (rest : List α)

namespace Producer

variable {α : Type}

/-- The local state in which a call starts. -/
def start : PushCall α → Producer α
  | .tryPush element => .push element
  | .tryPushBatch elements => .batch elements

/-- The head of the loop over the claimed slots. -/
def fill (waits : Bool) (segment : FullSegment α) (head : ℕ) (stored : List α) :
    List α → QueueTurn (Producer α) α
  | [] => .finish segment .idle (.ok stored)
  | element :: rest =>
      .goOn segment
        (if waits then .wait head stored element rest else .write head stored element rest)

/-- The atomic steps of `tryPush`; `waits` is set for `Mpmc`, whose batch push waits for
each slot to be given back. -/
def step (waits : Bool) (capacity : ℕ) (weak : Bool) (segment : FullSegment α) :
    Producer α → QueueTurn (Producer α) α
  | .idle => .goOn segment .idle
  | .push element => .goOn segment (.pushSlot element segment.head)
  | .pushSlot element head =>
      let seq := segment.seq (slotOf capacity head)
      if seq = head then .goOn segment (.pushClaim element head)
      else if seq < head then .finish segment .idle (.error .temporaryError)
      else .goOn segment (.push element)
  | .pushClaim element head =>
      if segment.head = head ∧ weak = false then
        .move { segment with head := add64 head 1 } (.write head [] element []) [element]
      else .goOn segment (.pushSlot element segment.head)
  | .batch elements =>
      if elements.isEmpty then .finish segment .idle (.error .invalidParam)
      else .goOn segment (.batchTail elements segment.head)
  | .batchTail elements head =>
      let toWrite := min elements.length (sub64 capacity (sub64 head segment.tail))
      if toWrite = 0 then .finish segment .idle (.error .temporaryError)
      else .goOn segment (.batchClaim elements head segment.tail toWrite)
  | .batchClaim elements head _ toWrite =>
      if segment.head = head ∧ weak = false then
        { fill waits { segment with head := add64 head toWrite } head []
            (elements.take toWrite) with
          moved := elements.take toWrite }
      else .goOn segment (.batchTail elements segment.head)
  | .wait head stored element rest =>
      let position := add64 head stored.length
      if segment.seq (slotOf capacity position) = position then
        .goOn segment (.write head stored element rest)
      else .goOn segment (.wait head stored element rest)
  | .write head stored element rest =>
      let position := add64 head stored.length
      .goOn (segment.storeData (slotOf capacity position) element)
        (.publish head stored element rest)
  | .publish head stored element rest =>
      let position := add64 head stored.length
      fill waits (segment.storeSeq (slotOf capacity position) (add64 position 1)) head
        (stored ++ [element]) rest

end Producer

/-! ## Popping with one consumer -/

namespace Mpsc

/-- The local states of `Mpsc::tryPop`. -/
inductive Consumer (α : Type) where
  | idle
  | pop
  | popSlot (tail : ℕ)
  | popRead (tail : ℕ)
  | popFree (tail : ℕ) (element : α)
  | batch (size : ℕ)
  | batchHead (size tail : ℕ)
  | check (tail toRead : ℕ) (popped : List α)
  | read (tail toRead : ℕ) (popped : List α)
  | free (tail toRead : ℕ) (popped : List α) (element : α)
  | storeTail (tail : ℕ) (popped : List α)

namespace Consumer

variable {α : Type}

def start : PopCall → Consumer α
  | .tryPop => .pop
  | .tryPopBatch size => .batch size

/-- What follows the loop over the slots. -/
def settle (segment : FullSegment α) (tail : ℕ) (popped : List α) : QueueTurn (Consumer α) α :=
  if popped.isEmpty then .finish segment .idle (.error .temporaryError)
  else .goOn segment (.storeTail tail popped)

/-- The head of the loop over the slots. -/
def drain (segment : FullSegment α) (tail toRead : ℕ) (popped : List α) :
    QueueTurn (Consumer α) α :=
  if popped.length < toRead then .goOn segment (.check tail toRead popped)
  else settle segment tail popped

/-- The atomic steps of `Mpsc::tryPop`. -/
def step (capacity : ℕ) (segment : FullSegment α) : Consumer α → QueueTurn (Consumer α) α
  | .idle => .goOn segment .idle
  | .pop => .goOn segment (.popSlot segment.tail)
  | .popSlot tail =>
      if segment.seq (slotOf capacity tail) ≠ add64 tail 1 then
        .finish segment .idle (.error .temporaryError)
      else .goOn segment (.popRead tail)
  | .popRead tail => .goOn segment (.popFree tail (segment.data (slotOf capacity tail)))
  | .popFree tail element =>
      .move (segment.storeSeq (slotOf capacity tail) (add64 tail capacity))
        (.storeTail tail [element]) [element]
  | .batch size =>
      if size = 0 then .finish segment .idle (.error .invalidParam)
      else .goOn segment (.batchHead size segment.tail)
  | .batchHead size tail => drain segment tail (min size (sub64 segment.head tail)) []
  | .check tail toRead popped =>
      let position := add64 tail popped.length
      if segment.seq (slotOf capacity position) ≠ add64 position 1 then
        settle segment tail popped
      else .goOn segment (.read tail toRead popped)
  | .read tail toRead popped =>
      let position := add64 tail popped.length
      .goOn segment (.free tail toRead popped (segment.data (slotOf capacity position)))
  | .free tail toRead popped element =>
      let position := add64 tail popped.length
      { drain (segment.storeSeq (slotOf capacity position) (add64 position capacity)) tail toRead
          (popped ++ [element]) with
        moved := [element] }
  | .storeTail tail popped =>
      .finish { segment with tail := add64 tail popped.length } .idle (.ok popped)

end Consumer

end Mpsc

/-! ## Popping with many consumers -/

namespace Mpmc

/-- The local states of `Mpmc::tryPop`. -/
inductive Consumer (α : Type) where
  | idle
  | pop
  | popSlot (tail : ℕ)
  | popRead (tail : ℕ)
  | popClaim (tail : ℕ) (element : α)
  | batch (size : ℕ)
  | batchHead (size tail : ℕ)
  | check (size tail toRead : ℕ) (copied : List α)
  | read (size tail toRead : ℕ) (copied : List α)
  | batchClaim (size tail : ℕ) (copied : List α)
  | free (tail : ℕ) (freed : List α) (element : α) (rest : List α)

namespace Consumer

variable {α : Type}

def start : PopCall → Consumer α
  | .tryPop => .pop
  | .tryPopBatch size => .batch size

/-- What follows the loop that copies the elements. -/
def settle (segment : FullSegment α) (size tail : ℕ) (copied : List α) :
    QueueTurn (Consumer α) α :=
  if copied.isEmpty then .finish segment .idle (.error .temporaryError)
  else .goOn segment (.batchClaim size tail copied)

/-- The head of the loop that copies the elements. -/
def copy (segment : FullSegment α) (size tail toRead : ℕ) (copied : List α) :
    QueueTurn (Consumer α) α :=
  if copied.length < toRead then .goOn segment (.check size tail toRead copied)
  else settle segment size tail copied

/-- The head of the loop that gives the slots back. -/
def release (segment : FullSegment α) (tail : ℕ) (freed : List α) :
    List α → QueueTurn (Consumer α) α
  | [] => .finish segment .idle (.ok freed)
  | element :: rest => .goOn segment (.free tail freed element rest)

/-- The atomic steps of `Mpmc::tryPop`. -/
def step (capacity : ℕ) (weak : Bool) (segment : FullSegment α) :
    Consumer α → QueueTurn (Consumer α) α
  | .idle => .goOn segment .idle
  | .pop => .goOn segment (.popSlot segment.tail)
  | .popSlot tail =>
      let seq := segment.seq (slotOf capacity tail)
      if seq = add64 tail 1 then .goOn segment (.popRead tail)
      else if seq < add64 tail 1 then .finish segment .idle (.error .temporaryError)
      else .goOn segment .pop
  | .popRead tail => .goOn segment (.popClaim tail (segment.data (slotOf capacity tail)))
  | .popClaim tail element =>
      if segment.tail = tail ∧ weak = false then
        .move { segment with tail := add64 tail 1 } (.free tail [] element []) [element]
      else .goOn segment (.popSlot segment.tail)
  | .batch size =>
      if size = 0 then .finish segment .idle (.error .invalidParam)
      else .goOn segment (.batchHead size segment.tail)
  | .batchHead size tail =>
      let toRead := min size (sub64 segment.head tail)
      if toRead = 0 then .finish segment .idle (.error .temporaryError)
      else copy segment size tail toRead []
  | .check size tail toRead copied =>
      let position := add64 tail copied.length
      if segment.seq (slotOf capacity position) ≠ add64 position 1 then
        settle segment size tail copied
      else .goOn segment (.read size tail toRead copied)
  | .read size tail toRead copied =>
      let position := add64 tail copied.length
      copy segment size tail toRead (copied ++ [segment.data (slotOf capacity position)])
  | .batchClaim size tail copied =>
      if segment.tail = tail ∧ weak = false then
        { release { segment with tail := add64 tail copied.length } tail [] copied with
          moved := copied }
      else .goOn segment (.batchHead size segment.tail)
  | .free tail freed element rest =>
      let position := add64 tail freed.length
      release (segment.storeSeq (slotOf capacity position) (add64 position capacity)) tail
        (freed ++ [element]) rest

end Consumer

end Mpmc

end Join
