import Join.Library.Word
import Join.Library.Turns
import Mathlib.Logic.Function.Basic

/-!
# The segment of a queue

`join::BasicQueue` keeps its elements in a memory segment that several objects, of
one process or of many, may share. The segment starts with the synchronisation
words and ends with the slots; the policies `Mpsc` and `Mpmc` give each slot a
sequence number, the policy `Spsc` does not. The counters are 64-bit words, the
capacity is a power of two and a position is reduced to a slot by a mask.
-/

set_option autoImplicit false

namespace Join

open Library

/-! ## The capacity -/

/-- `BasicQueue::roundPow2`. -/
def roundPow2 (v : ℕ) : ℕ :=
  if v = 0 then 1
  else
    let v := v - 1
    let v := v ||| v >>> 1
    let v := v ||| v >>> 2
    let v := v ||| v >>> 4
    let v := v ||| v >>> 8
    let v := v ||| v >>> 16
    let v := v ||| v >>> 32
    add64 v 1

/-- The capacity is the power of two of the size of the predecessor, as a word. -/
theorem roundPow2_eq {v : ℕ} (positive : v ≠ 0) (word : v < 2 ^ 64) :
    roundPow2 v = 2 ^ (v - 1).size % 2 ^ 64 := by
  have own : Spreads (v - 1) 1 (v - 1) := by
    intro i
    constructor
    · exact fun on => ⟨0, by omega, on⟩
    · rintro ⟨j, small, on⟩
      rwa [Nat.lt_one_iff.mp small, Nat.add_zero] at on
  have filled := own.double.double.double.double.double.double.eq_two_pow_sub_one
    (show v - 1 < 2 ^ 64 by omega)
  rw [roundPow2, if_neg positive]
  simp only [add64] at filled ⊢
  rw [filled, Nat.sub_add_cancel Nat.one_le_two_pow]

/-- Up to `2 ^ 63` the capacity is a power of two that holds the request. -/
theorem roundPow2_spec {v : ℕ} (small : v ≤ 2 ^ 63) :
    ∃ k ≤ 63, roundPow2 v = 2 ^ k ∧ v ≤ 2 ^ k := by
  by_cases zero : v = 0
  · exact ⟨0, by omega, by rw [roundPow2, if_pos zero, Nat.pow_zero], by omega⟩
  · have size : (v - 1).size ≤ 63 := Nat.size_le.mpr (by omega)
    refine ⟨(v - 1).size, size, ?_, ?_⟩
    · rw [roundPow2_eq zero (by omega), Nat.mod_eq_of_lt]
      exact Nat.pow_lt_pow_right (by omega) (by omega)
    · have := Nat.lt_size_self (v - 1)
      omega

/-- A request beyond `2 ^ 63` wraps around to a queue without slots. -/
theorem roundPow2_of_large {v : ℕ} (large : 2 ^ 63 < v) (word : v < 2 ^ 64) :
    roundPow2 v = 0 := by
  have low : 63 < (v - 1).size := Nat.lt_size.mpr (by omega)
  have high : (v - 1).size ≤ 64 := Nat.size_le.mpr (by omega)
  rw [roundPow2_eq (by omega) word, show (v - 1).size = 64 by omega, Nat.mod_self]

/-- What the policies may assume of a capacity: no slots at all, or a power of two. -/
theorem roundPow2_cases {v : ℕ} (word : v < 2 ^ 64) :
    roundPow2 v = 0 ∨ ∃ k ≤ 63, roundPow2 v = 2 ^ k := by
  by_cases small : v ≤ 2 ^ 63
  · obtain ⟨k, fits, equal, _⟩ := roundPow2_spec small
    exact .inr ⟨k, fits, equal⟩
  · exact .inl (roundPow2_of_large (by omega) word)

/-- `BasicQueue::_mask`. -/
def queueMask (capacity : ℕ) : ℕ := sub64 capacity 1

/-- `& mask`: the slot of a position. -/
def slotOf (capacity position : ℕ) : ℕ := position &&& queueMask capacity

/-- The mask reduces a position modulo the capacity. -/
theorem slotOf_two_pow {k : ℕ} (fits : k ≤ 63) (position : ℕ) :
    slotOf (2 ^ k) position = position % 2 ^ k := by
  have positive : 1 ≤ 2 ^ k := Nat.one_le_two_pow
  have small : 2 ^ k < 2 ^ 64 := Nat.pow_lt_pow_right (by omega) (by omega)
  rw [slotOf, queueMask, sub64_of_le positive small, Nat.and_two_pow_sub_one_eq_mod]

/-! ## The segment -/

/-- `QueueSync::MAGIC`. -/
def QueueSync.magicNumber : ℕ := 0x9F7E3B2A8D5C4E1B

/-- `QueueSegment`, with the words of its `QueueSync`. -/
structure QueueSegment (Slot : Type) where
  magic : ℕ
  head : ℕ
  tail : ℕ
  elements : ℕ → Slot

/-- The part of the constructor of `BasicQueue` that runs on the segment. A segment
whose magic number is neither zero nor final is being initialised by another object:
the constructor waits. -/
def QueueSegment.attach {Slot : Type} (initSlots : (ℕ → Slot) → ℕ → Slot)
    (segment : QueueSegment Slot) : Option (QueueSegment Slot) :=
  if segment.magic = 0 then
    some ⟨QueueSync.magicNumber, 0, 0, initSlots segment.elements⟩
  else if segment.magic = QueueSync.magicNumber then some segment
  else none

/-- The error of a call, as `lastError` has it. -/
inductive QueueError where
  | invalidParam
  | temporaryError
  deriving DecidableEq, Repr

/-- What a call on a queue gives: the elements it has stored or returned, the length of
which is the result of a batch call, or the error. -/
abbrev QueueReply (α : Type) : Type := Except QueueError (List α)

/-! ## The observers -/

section Observers

variable {Slot : Type} (capacity : ℕ) (segment : QueueSegment Slot)

/-- `BasicQueue::pending`. -/
def pending : ℕ := sub64 segment.head segment.tail

/-- `BasicQueue::available`. -/
def available : ℕ := sub64 capacity (pending segment)

/-- `BasicQueue::full`. -/
def full : Bool := pending segment == capacity

/-- `BasicQueue::empty`. -/
def empty : Bool := pending segment == 0

end Observers

/-! ## Slots with sequence numbers -/

/-- `QueueSlotFull`. -/
structure QueueSlotFull (α : Type) where
  seq : ℕ
  data : α

namespace QueueSegment

variable {α : Type}

/-- `BasicQueue::initSlots` for the policies with sequence numbers. -/
def initSlotsFull (capacity : ℕ) (elements : ℕ → QueueSlotFull α) : ℕ → QueueSlotFull α :=
  fun i => if i < capacity then { elements i with seq := i } else elements i

/-- The sequence number of a slot. -/
def seq (segment : QueueSegment (QueueSlotFull α)) (i : ℕ) : ℕ := (segment.elements i).seq

/-- The element of a slot. -/
def data (segment : QueueSegment (QueueSlotFull α)) (i : ℕ) : α := (segment.elements i).data

/-- Store the sequence number of a slot. -/
def storeSeq (segment : QueueSegment (QueueSlotFull α)) (i value : ℕ) :
    QueueSegment (QueueSlotFull α) :=
  { segment with
    elements := Function.update segment.elements i { segment.elements i with seq := value } }

/-- Store the element of a slot. -/
def storeData (segment : QueueSegment (QueueSlotFull α)) (i : ℕ) (value : α) :
    QueueSegment (QueueSlotFull α) :=
  { segment with
    elements := Function.update segment.elements i { segment.elements i with data := value } }

section Lemmas

variable (segment : QueueSegment (QueueSlotFull α)) (i value : ℕ) (element : α)

@[simp] theorem storeSeq_seq :
    (segment.storeSeq i value).seq = Function.update segment.seq i value := by
  funext j
  by_cases same : j = i
  · subst same
    simp [storeSeq, seq]
  · simp [storeSeq, seq, same]

@[simp] theorem storeSeq_data : (segment.storeSeq i value).data = segment.data := by
  funext j
  by_cases same : j = i
  · subst same
    simp [storeSeq, data]
  · simp [storeSeq, data, same]

@[simp] theorem storeData_seq : (segment.storeData i element).seq = segment.seq := by
  funext j
  by_cases same : j = i
  · subst same
    simp [storeData, seq]
  · simp [storeData, seq, same]

@[simp] theorem storeData_data :
    (segment.storeData i element).data = Function.update segment.data i element := by
  funext j
  by_cases same : j = i
  · subst same
    simp [storeData, data]
  · simp [storeData, data, same]

end Lemmas

end QueueSegment

end Join
