import Join.Core.MpscSafety
import Join.Core.RingSequence

/-!
# Pops one after the other, with one consumer

A pop of `Mpsc` that runs alone finds every slot between the tail and the head
published, so its loop never breaks off early: it returns what the bounded queue does.
-/

set_option autoImplicit false

namespace Join

open Library

variable {α : Type}

/-- The element that comes after the first ones of a queue. -/
theorem SoleRing.take_queue_succ {ring : SoleRing α} {count : ℕ} {element : α}
    (there : ring.pushed[ring.taken + count]? = some element) :
    ring.queue.take count ++ [element] = ring.queue.take (count + 1) := by
  have found : ring.queue[count]? = some element := by
    rw [SoleRing.queue, List.getElem?_drop, there]
  rw [List.take_add_one, found, Option.toList_some]

namespace Mpsc.Consumer

/-- What a pop that runs alone knows more than `Knows`: it has read the elements at the
front of the queue, and it reads as many as the bounded queue returns. -/
def Exact (start : SoleRing α) (call : PopCall) : Consumer α → Prop
  | .idle => False
  | .pop | .popSlot _ | .popRead _ | .popFree _ _ => call = .tryPop
  | .batch size => call = .tryPopBatch size
  | .batchHead size _ => call = .tryPopBatch size ∧ size ≠ 0
  | .check _ toRead popped | .read _ toRead popped | .free _ toRead popped _ =>
      popped.length < toRead ∧ toRead ≤ start.queue.length ∧
        popped = start.queue.take popped.length ∧
        Fifo.pop start.queue call = .ok (start.queue.take toRead)
  | .storeTail _ popped => Fifo.pop start.queue call = .ok popped

/-- The state of a pop that runs alone. -/
structure Running (capacity : ℕ) (start : SoleRing α) (segment : FullSegment α)
    (ring : SoleRing α) : Prop where
  sound : ring.Sound capacity
  shows : segment.Shows ring
  linked : Linked ring segment.tail
  writer : ∀ p, ring.writer p = none
  pushed : ring.pushed = start.pushed

def During (capacity : ℕ) (start : SoleRing α) (call : PopCall) (segment : FullSegment α)
    (now : Consumer α) : Prop :=
  ∃ ring : SoleRing α, Running capacity start segment ring ∧ segment.tail = start.taken ∧
    now.Knows capacity ring segment.tail ∧ now.Exact start call

/-- The steps that a pop makes at most. -/
def remaining : Consumer α → ℕ
  | .idle => 0
  | .pop => 5
  | .popSlot _ => 4
  | .popRead _ => 3
  | .popFree _ _ => 2
  | .batch size => 3 * size + 4
  | .batchHead size _ => 3 * size + 3
  | .check _ toRead popped => 3 * (toRead - popped.length) + 2
  | .read _ toRead popped => 3 * (toRead - popped.length) + 1
  | .free _ toRead popped _ => 3 * (toRead - popped.length)
  | .storeTail _ _ => 1

end Mpsc.Consumer

/-- The outcome of a pop that runs alone. -/
def PopCall.Done {Local : Type} (capacity : ℕ) (start : SoleRing α) (call : PopCall)
    (reply : QueueReply α) (segment : FullSegment α) (_ : Local) : Prop :=
  reply = Fifo.pop start.queue call ∧
    ∃ ring : SoleRing α, SoleRing.Rests capacity segment ring ∧ ring.pushed = start.pushed ∧
      ring.taken = start.taken + (QueueReply.elements (some reply)).length

namespace Mpsc.Consumer

section Alone

variable {capacity : ℕ} {start ring : SoleRing α} {call : PopCall} {segment : FullSegment α}

/-- A published position of the queue. -/
theorem Running.holds (running : Running capacity start segment ring) {p : ℕ}
    (low : ring.taken ≤ p) (high : p < ring.head) : ring.Holds capacity p := by
  have lap := running.sound.head_le
  refine running.sound.holds_of_lt low (by omega) ?_
  by_contra waiting
  exact running.sound.owed p low high (by omega) (running.writer p)

theorem Running.head (running : Running capacity start segment ring) : ring.head = start.head :=
  congrArg List.length running.pushed

/-- The moves of a pop keep the elements pushed and claim nothing to write. -/
theorem Running.takes (running : Running capacity start segment ring) {now : Consumer α}
    {turn : QueueTurn (Consumer α) α} {after : SoleRing α}
    (takes : Takes capacity ring now turn after) : Running capacity start turn.memory after where
  sound := takes.runs.sound running.sound
  shows := takes.shows
  linked := takes.linked
  writer := by
    intro p
    have keeps : ring.KeepsWriter () after :=
      takes.runs.keeps_writer running.sound Sum.inr_ne_inl
    cases owner : after.writer p with
    | none => rfl
    | some who =>
        have before := (keeps p).1.mpr owner
        rw [running.writer p] at before
        cases before
  pushed := takes.pushed.trans running.pushed

theorem Running.rests (running : Running capacity start segment ring)
    (tail : segment.tail = ring.taken) : SoleRing.Rests capacity segment ring where
  sound := running.sound
  shows := running.shows
  tail := tail
  freer := running.linked.2
  writer := running.writer

theorem Running.length_queue (running : Running capacity start segment ring)
    (tail : segment.tail = start.taken) :
    start.queue.length = ring.head - segment.tail := by
  rw [start.length_queue, running.head, tail]

/-- A step of a pop that runs alone: it returns what the bounded queue does, or it goes on
with less to do. -/
def Proceeds (capacity : ℕ) (start : SoleRing α) (call : PopCall) (weak : Bool)
    (now : Consumer α) (turn : QueueTurn (Consumer α) α) : Prop :=
  turn.Meets (fun after next => During capacity start call after next ∧
    (weak = false → next.remaining < now.remaining)) (call.Done capacity start)

/-- Going on in a ring that does not change. -/
theorem proceeds_quiet {weak : Bool} {now next : Consumer α}
    (running : Running capacity start segment ring) (tail : segment.tail = start.taken)
    (knows : next.Knows capacity ring segment.tail) (exact : next.Exact start call)
    (less : next.remaining < now.remaining) :
    Proceeds capacity start call weak now (.goOn segment next) :=
  ⟨⟨ring, running, tail, knows, exact⟩, fun _ => less⟩

/-- Failing in a ring that does not change. -/
theorem proceeds_error {weak : Bool} {now : Consumer α} {error : QueueError}
    (running : Running capacity start segment ring) (tail : segment.tail = start.taken)
    (all : segment.tail = ring.taken)
    (refused : Fifo.pop start.queue call = .error error) :
    Proceeds capacity start call weak now (.finish segment .idle (.error error)) := by
  refine ⟨refused.symm, ring, running.rests all, running.pushed, ?_⟩
  simp only [QueueReply.elements, List.length_nil, Nat.add_zero]
  omega

/-- The check of the slot at the tail: it fails exactly when the queue is empty. -/
theorem proceeds_popSlot {weak : Bool} (slots : ∀ p, slotOf capacity p = p % capacity)
    (fits : ring.head + capacity ≤ 2 ^ 64) (running : Running capacity start segment ring)
    (tail : segment.tail = start.taken) (all : ring.taken = segment.tail)
    (called : call = .tryPop) :
    Proceeds capacity start call weak (.popSlot segment.tail)
      (step capacity segment (.popSlot segment.tail)) := by
  have two := running.sound.two
  have low := running.sound.taken_le
  have length := running.length_queue tail
  simp only [step, running.shows.seq, slots]
  rw [add64_of_lt (by omega)]
  by_cases some : ring.taken < ring.head
  · have number := (running.holds (le_refl _) some).1
    rw [all] at number
    rw [if_neg (not_not.mpr number)]
    exact proceeds_quiet running tail ⟨rfl, all, le_of_eq number.symm⟩ called
      (by simp [remaining])
  · have free : ring.seq (segment.tail % capacity) = segment.tail := by
      rcases running.sound.phase segment.tail (by omega) (by omega) with awaits | holds | lags
      · exact awaits
      · have inside : segment.tail < ring.head := (List.getElem?_eq_some_iff.mp holds.2.2).1
        omega
      · exact absurd (running.linked.2 _) lags.2.2
    rw [if_pos (by omega)]
    refine proceeds_error running tail all.symm ?_
    have none : start.queue = [] := List.length_eq_zero_iff.mp (by omega)
    rw [called, none]
    rfl

/-- The number of elements to read is what the bounded queue returns. -/
theorem pop_batch_eq {size : ℕ} (some : size ≠ 0) (queue : List α) (nonempty : queue ≠ []) :
    Fifo.pop queue (.tryPopBatch size) = .ok (queue.take (min size queue.length)) := by
  rw [Fifo.pop, if_neg some, if_neg (by simpa using nonempty), ← List.take_eq_take_min]

/-- The start of the loop: it fails exactly when the queue is empty. -/
theorem proceeds_batchHead {weak : Bool} {size : ℕ} (fits : ring.head + capacity ≤ 2 ^ 64)
    (running : Running capacity start segment ring) (tail : segment.tail = start.taken)
    (all : ring.taken = segment.tail) (called : call = .tryPopBatch size) (some : size ≠ 0) :
    Proceeds capacity start call weak (.batchHead size segment.tail)
      (step capacity segment (.batchHead size segment.tail)) := by
  have two := running.sound.two
  have low := running.sound.taken_le
  have length := running.length_queue tail
  simp only [step, running.shows.head, drain, List.length_nil]
  rw [sub64_of_le (by omega) (by omega), ← length]
  split_ifs with more
  · refine proceeds_quiet running tail ⟨rfl, by simpa using all, by omega⟩ ?_ ?_
    · refine ⟨more, Nat.min_le_right _ _, rfl, ?_⟩
      rw [called, pop_batch_eq some _ fun none => by simp [none] at more]
    · simp only [remaining, List.length_nil]
      omega
  · have none : start.queue = [] := List.length_eq_zero_iff.mp (by omega)
    refine proceeds_error running tail all.symm ?_
    rw [called, Fifo.pop, if_neg some, none]
    rfl

/-- Giving a slot back, and going on with the next or to the end. -/
theorem proceeds_free {weak : Bool} (slots : ∀ p, slotOf capacity p = p % capacity)
    (fits : ring.head + capacity ≤ 2 ^ 64) (running : Running capacity start segment ring)
    (tail : segment.tail = start.taken) {toRead : ℕ} {popped : List α} {element : α}
    (knows : (Consumer.free segment.tail toRead popped element).Knows capacity ring segment.tail)
    (exactly : (Consumer.free segment.tail toRead popped element).Exact start call) :
    Proceeds capacity start call weak (.free segment.tail toRead popped element)
      (step capacity segment (.free segment.tail toRead popped element)) := by
  obtain ⟨after, takes⟩ := step_takes slots running.sound running.shows running.linked fits knows
  obtain ⟨more, few, front, accepted⟩ := exactly
  have there : start.pushed[start.taken + popped.length]? = some element := by
    rw [← running.pushed, ← tail]
    exact knows.2.2.2.2
  have longer : popped ++ [element] = start.queue.take (popped ++ [element]).length := by
    rw [List.length_append, List.length_singleton, ← SoleRing.take_queue_succ there, ← front]
  have ran := running.takes takes
  have known := takes.knows
  simp only [step, drain, settle] at ran known ⊢
  split_ifs at ran known ⊢ with again none
  · refine ⟨⟨after, ran, tail, known, ⟨again, few, longer, accepted⟩⟩, fun _ => ?_⟩
    simp only [remaining, Turn.goOn, List.length_append, List.length_singleton] at again ⊢
    omega
  · simp at none
  · refine ⟨⟨after, ran, tail, known, ?_⟩, fun _ => ?_⟩
    · simp only [Turn.goOn, Exact]
      rw [accepted, longer]
      congr 2
      simp only [List.length_append, List.length_singleton] at again ⊢
      omega
    · simp only [remaining, Turn.goOn]
      omega

/-- Every step of a pop that runs alone proceeds as the bounded queue does. -/
theorem step_proceeds (slots : ∀ p, slotOf capacity p = p % capacity)
    (fits : start.head + capacity ≤ 2 ^ 64) (weak : Bool) {now : Consumer α}
    (during : During capacity start call segment now) :
    Proceeds capacity start call weak now (step capacity segment now) := by
  obtain ⟨ring, running, tail, knows, exactly⟩ := during
  have fits : ring.head + capacity ≤ 2 ^ 64 := running.head ▸ fits
  have two := running.sound.two
  have low := running.sound.taken_le
  cases now with
  | idle => exact exactly.elim
  | pop =>
      exact proceeds_quiet running tail ⟨rfl, knows.symm⟩ exactly (by simp [remaining])
  | popSlot seen =>
      obtain ⟨rfl, all⟩ := knows
      exact proceeds_popSlot slots fits running tail all exactly
  | popRead seen =>
      obtain ⟨rfl, all, past⟩ := knows
      have holds := running.sound.holds_of_lt (le_of_eq all) (by omega) past
      simp only [step, running.shows.data, slots]
      exact proceeds_quiet running tail ⟨rfl, all, past, holds.2.2⟩ exactly (by simp [remaining])
  | popFree seen element =>
      obtain ⟨after, takes⟩ :=
        step_takes slots running.sound running.shows running.linked fits knows
      refine ⟨⟨after, running.takes takes, tail, takes.knows, ?_⟩, fun _ => by
        simp [step, Turn.move, remaining]⟩
      obtain ⟨rfl, all, past, there⟩ := knows
      have found : start.pushed[start.taken + 0]? = some element := by
        rw [Nat.add_zero, ← running.pushed, ← tail]
        exact there
      have front := SoleRing.take_queue_succ found
      have called : call = .tryPop := exactly
      have nonempty : start.queue ≠ [] := by
        rintro none
        simp [none] at front
      simp only [step, Turn.move, Exact]
      rw [called, Fifo.pop, if_neg (by simpa using nonempty), ← front]
      rfl
  | batch size =>
      simp only [step]
      split_ifs with none
      · refine proceeds_error running tail knows ?_
        rw [show call = .tryPopBatch size from exactly, Fifo.pop, if_pos none]
      · exact proceeds_quiet running tail ⟨rfl, knows.symm⟩ ⟨exactly, none⟩ (by simp [remaining])
  | batchHead size seen =>
      obtain ⟨rfl, all⟩ := knows
      exact proceeds_batchHead fits running tail all exactly.1 exactly.2
  | check seen toRead popped =>
      obtain ⟨rfl, all, bound⟩ := knows
      have more := exactly.1
      have holds := running.holds (p := segment.tail + popped.length) (by omega) (by omega)
      simp only [step, running.shows.seq, slots]
      rw [add64_of_lt (a := segment.tail) (by omega), add64_of_lt (by omega),
        if_neg (not_not.mpr holds.1)]
      exact proceeds_quiet running tail ⟨rfl, all, bound, le_of_eq holds.1.symm⟩ exactly
        (by simp [remaining])
  | read seen toRead popped =>
      obtain ⟨rfl, all, bound, past⟩ := knows
      have more := exactly.1
      have holds := running.sound.holds_of_lt (le_of_eq all) (by omega) past
      simp only [step, running.shows.data, slots]
      rw [add64_of_lt (by omega)]
      exact proceeds_quiet running tail ⟨rfl, all, bound, past, holds.2.2⟩ exactly
        (by simp [remaining])
  | free seen toRead popped element =>
      obtain ⟨rfl, rest⟩ := knows
      exact proceeds_free slots fits running tail ⟨rfl, rest⟩ exactly
  | storeTail seen popped =>
      obtain ⟨after, takes⟩ :=
        step_takes slots running.sound running.shows running.linked fits knows
      have ran := running.takes takes
      have all := takes.knows
      have taken := takes.taken
      obtain ⟨rfl, before⟩ := knows
      have accepted : Fifo.pop start.queue call = .ok popped := exactly
      refine ⟨accepted.symm, after, ran.rests all, ran.pushed, ?_⟩
      simp only [step, Turn.finish, List.length_nil, Nat.add_zero] at taken
      simp only [QueueReply.elements]
      omega

/-- A pop on a ring at rest returns, and it returns what the bounded queue does. -/
theorem pop_alone (slots : ∀ p, slotOf capacity p = p % capacity)
    (rests : SoleRing.Rests capacity segment start) (fits : start.head + capacity ≤ 2 ^ 64) :
    (∃ reply after final, Completes (fun _ => step capacity) segment (Consumer.start call) reply after
      final) ∧
    ∀ {reply after final},
      Completes (fun _ => step capacity) segment (Consumer.start call) reply after final →
        call.Done capacity start reply after final := by
  have begin : During capacity start call segment (Consumer.start call) := by
    refine ⟨start, ⟨rests.sound, rests.shows, ⟨le_of_eq rests.tail, rests.freer⟩, rests.writer,
      rfl⟩, rests.tail, ?_, ?_⟩
    · cases call <;> exact rests.tail
    · cases call <;> rfl
  exact Completes.total remaining
    (fun weak _ _ during => step_proceeds slots fits weak during) begin

end Alone

end Mpsc.Consumer

end Join
