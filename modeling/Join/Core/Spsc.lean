import Join.Core.Fifo

/-!
# One producer and one consumer

The calls of `join::Spsc`, cut at their atomic operations. Each object keeps a copy of
the index of the other side: the producer decides from its copy of the tail and reads
the tail only when the queue looks full, the consumer decides from its copy of the head
and reads the head only when the queue looks empty. The copies belong to the objects,
the indices to the segment: a new object on an old segment starts with copies that are
zero.
-/

set_option autoImplicit false

namespace Join

open Library

namespace Spsc

variable {α : Type}

/-- The segment of a queue whose slots hold an element only. -/
abbrev Segment (α : Type) : Type := QueueSegment α

/-! ## Pushing -/

/-- The local states of `Spsc::tryPush`. -/
inductive Pushing (α : Type) where
  | idle
  | push (element : α)
  | pushTail (element : α) (head : ℕ)
  | batch (elements : List α)
  | batchTail (elements : List α) (head : ℕ)
  | write (head : ℕ) (stored : List α) (element : α) (rest : List α)
  | storeHead (head : ℕ) (stored : List α)

/-- The producer's object: its copy of the tail, and the call it is in. -/
structure Producer (α : Type) where
  cachedTail : ℕ
  now : Pushing α

def Pushing.start : PushCall α → Pushing α
  | .tryPush element => .push element
  | .tryPushBatch elements => .batch elements

/-- The head of the loop that writes the elements. -/
def Pushing.fill (head : ℕ) (stored : List α) : List α → Pushing α
  | [] => .storeHead head stored
  | element :: rest => .write head stored element rest

/-- The atomic steps of `Spsc::tryPush`. -/
def Producer.step (capacity : ℕ) (segment : Segment α) (producer : Producer α) :
    Turn (Segment α) (Producer α) α (QueueReply α) :=
  match producer.now with
  | .idle => .goOn segment producer
  | .push element =>
      let head := segment.head
      if sub64 head producer.cachedTail = capacity then
        .goOn segment { producer with now := .pushTail element head }
      else .goOn segment { producer with now := .write head [] element [] }
  | .pushTail element head =>
      let cachedTail := segment.tail
      if sub64 head cachedTail = capacity then
        .finish segment ⟨cachedTail, .idle⟩ (.error .temporaryError)
      else .goOn segment ⟨cachedTail, .write head [] element []⟩
  | .batch elements =>
      if elements.isEmpty then
        .finish segment { producer with now := .idle } (.error .invalidParam)
      else
        let head := segment.head
        let avail := sub64 capacity (sub64 head producer.cachedTail)
        if avail = 0 then .goOn segment { producer with now := .batchTail elements head }
        else
          .goOn segment
            { producer with now := .fill head [] (elements.take (min elements.length avail)) }
  | .batchTail elements head =>
      let cachedTail := segment.tail
      let avail := sub64 capacity (sub64 head cachedTail)
      if avail = 0 then .finish segment ⟨cachedTail, .idle⟩ (.error .temporaryError)
      else
        .goOn segment ⟨cachedTail, .fill head [] (elements.take (min elements.length avail))⟩
  | .write head stored element rest =>
      let slot := slotOf capacity (add64 head stored.length)
      .goOn { segment with elements := Function.update segment.elements slot element }
        { producer with now := .fill head (stored ++ [element]) rest }
  | .storeHead head stored =>
      ⟨{ segment with head := add64 head stored.length }, { producer with now := .idle }, stored,
        some (.ok stored)⟩

/-! ## Popping -/

/-- The local states of `Spsc::tryPop`. -/
inductive Popping (α : Type) where
  | idle
  | pop
  | popHead (tail : ℕ)
  | batch (size : ℕ)
  | batchHead (size tail : ℕ)
  | read (tail toRead : ℕ) (popped : List α)
  | storeTail (tail : ℕ) (popped : List α)

/-- The consumer's object: its copy of the head, and the call it is in. -/
structure Consumer (α : Type) where
  cachedHead : ℕ
  now : Popping α

def Popping.start : PopCall → Popping α
  | .tryPop => .pop
  | .tryPopBatch size => .batch size

/-- The head of the loop that reads the elements. -/
def Popping.drain (tail toRead : ℕ) (popped : List α) : Popping α :=
  if popped.length < toRead then .read tail toRead popped else .storeTail tail popped

/-- The atomic steps of `Spsc::tryPop`. -/
def Consumer.step (capacity : ℕ) (segment : Segment α) (consumer : Consumer α) :
    Turn (Segment α) (Consumer α) α (QueueReply α) :=
  match consumer.now with
  | .idle => .goOn segment consumer
  | .pop =>
      let tail := segment.tail
      if consumer.cachedHead = tail then
        .goOn segment { consumer with now := .popHead tail }
      else .goOn segment { consumer with now := .drain tail 1 [] }
  | .popHead tail =>
      let cachedHead := segment.head
      if cachedHead = tail then .finish segment ⟨cachedHead, .idle⟩ (.error .temporaryError)
      else .goOn segment ⟨cachedHead, .drain tail 1 []⟩
  | .batch size =>
      if size = 0 then .finish segment { consumer with now := .idle } (.error .invalidParam)
      else
        let tail := segment.tail
        let pending := sub64 consumer.cachedHead tail
        if pending = 0 then .goOn segment { consumer with now := .batchHead size tail }
        else .goOn segment { consumer with now := .drain tail (min size pending) [] }
  | .batchHead size tail =>
      let cachedHead := segment.head
      let pending := sub64 cachedHead tail
      if pending = 0 then .finish segment ⟨cachedHead, .idle⟩ (.error .temporaryError)
      else .goOn segment ⟨cachedHead, .drain tail (min size pending) []⟩
  | .read tail toRead popped =>
      let element := segment.elements (slotOf capacity (add64 tail popped.length))
      .goOn segment { consumer with now := .drain tail toRead (popped ++ [element]) }
  | .storeTail tail popped =>
      ⟨{ segment with tail := add64 tail popped.length }, { consumer with now := .idle }, popped,
        some (.ok popped)⟩

/-! ## The two objects on one segment -/

/-- The segment, the two objects and the history. -/
structure System (α : Type) where
  segment : Segment α
  producer : Producer α
  consumer : Consumer α
  /-- The calls that are under way, or the last ones. -/
  pushing : PushCall α
  popping : PopCall
  /-- The elements whose positions are published, in order. -/
  pushed : List α
  /-- The elements whose positions are given back, in order. -/
  popped : List α
  /-- The calls that have returned, in the order of their returns. -/
  history : List (QueueCall α × QueueReply α)

/-- A side starts a call, makes the next step of its call, or lets its object be destroyed
and opens a new one on the segment. -/
inductive Action (α : Type) where
  | push (call : PushCall α)
  | produce
  | pop (call : PopCall)
  | consume
  | reopenProducer
  | reopenConsumer

/-- Two objects on a segment that the first has just initialised. -/
def System.initial (memory : ℕ → α) : System α where
  segment := ⟨QueueSync.magicNumber, 0, 0, memory⟩
  producer := ⟨0, .idle⟩
  consumer := ⟨0, .idle⟩
  pushing := .tryPushBatch []
  popping := .tryPop
  pushed := []
  popped := []
  history := []

/-- `BasicQueue::initSlots` of a policy without sequence numbers does nothing. -/
def initSlots (elements : ℕ → α) : ℕ → α := elements

/-- The entry of the history that a step adds. -/
def logged (call : QueueCall α) : Option (QueueReply α) → List (QueueCall α × QueueReply α)
  | none => []
  | some reply => [(call, reply)]

/-- One action. An object inside a call starts no other and is not destroyed; a new object
attaches to the segment as the constructor does. -/
def System.act (capacity : ℕ) (system : System α) : Action α → Option (System α)
  | .push call =>
      match system.producer.now with
      | .idle =>
          some { system with
            producer := { system.producer with now := .start call }
            pushing := call }
      | _ => none
  | .produce =>
      let turn := system.producer.step capacity system.segment
      some { system with
        segment := turn.memory
        producer := turn.next
        pushed := system.pushed ++ turn.moved
        history := system.history ++ logged (.push system.pushing) turn.reply }
  | .pop call =>
      match system.consumer.now with
      | .idle =>
          some { system with
            consumer := { system.consumer with now := .start call }
            popping := call }
      | _ => none
  | .consume =>
      let turn := system.consumer.step capacity system.segment
      some { system with
        segment := turn.memory
        consumer := turn.next
        popped := system.popped ++ turn.moved
        history := system.history ++ logged (.pop system.popping) turn.reply }
  | .reopenProducer =>
      match system.producer.now with
      | .idle =>
          (system.segment.attach initSlots).map fun segment =>
            { system with segment := segment, producer := ⟨0, .idle⟩ }
      | _ => none
  | .reopenConsumer =>
      match system.consumer.now with
      | .idle =>
          (system.segment.attach initSlots).map fun segment =>
            { system with segment := segment, consumer := ⟨0, .idle⟩ }
      | _ => none

/-- The system runs, by actions that are allowed in the state they start from. -/
def System.Run (capacity : ℕ) (Allowed : System α → Action α → Prop) :
    System α → System α → Prop :=
  Relation.ReflTransGen fun before after =>
    ∃ action, Allowed before action ∧ before.act capacity action = some after

/-- Perform actions one after the other, as long as they are allowed. -/
def System.perform (capacity : ℕ) (Allowed : System α → Action α → Prop)
    [∀ system action, Decidable (Allowed system action)] :
    System α → List (Action α) → Option (System α)
  | system, [] => some system
  | system, action :: rest =>
      if Allowed system action then
        (system.act capacity action).bind fun next => perform capacity Allowed next rest
      else none

theorem System.run_of_perform {capacity : ℕ} {Allowed : System α → Action α → Prop}
    [∀ system action, Decidable (Allowed system action)] {system after : System α}
    {actions : List (Action α)} (performed : perform capacity Allowed system actions = some after) :
    Run capacity Allowed system after := by
  induction actions generalizing system with
  | nil =>
      cases performed
      exact .refl
  | cons action rest ih =>
      simp only [perform] at performed
      split_ifs at performed with allowed
      obtain ⟨next, step, remaining⟩ := Option.bind_eq_some_iff.mp performed
      exact .head ⟨action, allowed, step⟩ (ih remaining)

end Spsc

end Join
