import Join.Core.MpmcSequence

/-!
# The queue as a bounded list

Calls that do not overlap, in any number and any order, on a fresh segment of `Mpsc`
or `Mpmc`: the replies and the observers are those of the bounded list of `Fifo`. This
asks for two slots at least, since with one slot a full queue looks like an empty one
to the next push, for a request that does not wrap around when it is rounded, and for
counters that do not wrap.
-/

set_option autoImplicit false

namespace Join

open Library

variable {α : Type}

/-- Calls run on a segment one after the other, each until it returns. -/
inductive Serves (policy : RingPolicy α) (capacity : ℕ) :
    FullSegment α → List (QueueCall α) → List (QueueReply α) → FullSegment α → Prop where
  | done (segment : FullSegment α) : Serves policy capacity segment [] [] segment
  | push {segment middle after : FullSegment α} {call : PushCall α} {reply : QueueReply α}
      {final : Producer α} {calls : List (QueueCall α)} {replies : List (QueueReply α)}
      (returns : Completes (Producer.step policy.waits capacity) segment (.start call) reply middle
        final)
      (rest : Serves policy capacity middle calls replies after) :
      Serves policy capacity segment (.push call :: calls) (reply :: replies) after
  | pop {segment middle after : FullSegment α} {call : PopCall} {reply : QueueReply α}
      {final : policy.Consumer} {calls : List (QueueCall α)} {replies : List (QueueReply α)}
      (returns : Completes (policy.step capacity) segment (policy.start call) reply middle final)
      (rest : Serves policy capacity middle calls replies after) :
      Serves policy capacity segment (.pop call :: calls) (reply :: replies) after

/-- The pops of a policy, run alone, are those of the bounded queue. -/
def RingPolicy.PopsAlone (policy : RingPolicy α) (capacity : ℕ) : Prop :=
  ∀ {start : SoleRing α} {segment : FullSegment α} {call : PopCall},
    SoleRing.Rests capacity segment start → start.head + capacity ≤ 2 ^ 64 →
    (∃ reply after final,
      Completes (policy.step capacity) segment (policy.start call) reply after final) ∧
    ∀ {reply after final},
      Completes (policy.step capacity) segment (policy.start call) reply after final →
        call.Done capacity start reply after final

section Sequence

variable {policy : RingPolicy α} {capacity : ℕ} {start ring : SoleRing α}
  {segment after : FullSegment α}

/-- The queue after a push. -/
theorem queue_of_push {elements : List α} (bound : start.taken ≤ start.head)
    (taken : ring.taken = start.taken) (pushed : ring.pushed = start.pushed ++ elements) :
    ring.queue = start.queue ++ elements := by
  rw [SoleRing.queue, SoleRing.queue, taken, pushed, List.drop_append_of_le_length bound]

/-- The queue after a pop. -/
theorem queue_of_pop {count : ℕ} (pushed : ring.pushed = start.pushed)
    (taken : ring.taken = start.taken + count) : ring.queue = start.queue.drop count := by
  rw [SoleRing.queue, SoleRing.queue, pushed, taken, List.drop_drop]

/-- Calls one after the other return what the bounded queue does, and leave a segment at
rest that holds its elements. -/
theorem Serves.fifo (slots : ∀ p, slotOf capacity p = p % capacity) (small : capacity < 2 ^ 64)
    (pops : policy.PopsAlone capacity) {calls : List (QueueCall α)}
    {replies : List (QueueReply α)} (serves : Serves policy capacity segment calls replies after)
    (rests : SoleRing.Rests capacity segment start)
    (fits : start.head + Fifo.stored capacity start.queue calls + capacity ≤ 2 ^ 64) :
    replies = Fifo.replies capacity start.queue calls ∧
      ∃ ring : SoleRing α, SoleRing.Rests capacity after ring ∧
        ring.head = start.head + Fifo.stored capacity start.queue calls ∧
        ring.queue = Fifo.after capacity start.queue calls := by
  induction serves generalizing start with
  | done segment => exact ⟨rfl, start, rests, rfl, rfl⟩
  | @push segment middle after call reply final calls replies returns _ ih =>
      simp only [Fifo.stored, Fifo.stores] at fits
      obtain ⟨same, ring, rest, taken, pushed⟩ := (Producer.push_alone slots small rests
        (by simp only [Producer.stores]; omega)).2 returns
      have queue : ring.queue = Fifo.next capacity start.queue (.push call) := by
        rw [queue_of_push rests.sound.taken_le taken pushed, same]
        rfl
      have head : ring.head = start.head + Fifo.stores capacity start.queue (.push call) := by
        rw [Ring.head, pushed, List.length_append, same]
        rfl
      obtain ⟨others, last, final, total, left⟩ := ih rest (by
        rw [queue, head]
        simp only [Fifo.stores]
        omega)
      refine ⟨?_, last, final, ?_, ?_⟩
      · rw [Fifo.replies, ← queue, others, same]
        rfl
      · rw [total, head, queue, Fifo.stored, Nat.add_assoc]
      · rw [left, Fifo.after, queue]
  | @pop segment middle after call reply final calls replies returns _ ih =>
      simp only [Fifo.stored, Fifo.stores] at fits
      obtain ⟨same, ring, rest, pushed, taken⟩ := (pops rests (by omega)).2 returns
      have queue : ring.queue = Fifo.next capacity start.queue (.pop call) := by
        rw [queue_of_pop pushed taken, same]
        rfl
      have head : ring.head = start.head := congrArg List.length pushed
      obtain ⟨others, last, final, total, left⟩ := ih rest (by
        rw [queue, head]
        omega)
      refine ⟨?_, last, final, ?_, ?_⟩
      · rw [Fifo.replies, ← queue, others, same]
        rfl
      · rw [total, head, queue, Fifo.stored, Fifo.stores, Nat.zero_add]
      · rw [left, Fifo.after, queue]

/-- Calls one after the other do return. -/
theorem Serves.exists (slots : ∀ p, slotOf capacity p = p % capacity) (small : capacity < 2 ^ 64)
    (pops : policy.PopsAlone capacity) (calls : List (QueueCall α))
    (rests : SoleRing.Rests capacity segment start)
    (fits : start.head + Fifo.stored capacity start.queue calls + capacity ≤ 2 ^ 64) :
    ∃ replies after, Serves policy capacity segment calls replies after := by
  induction calls generalizing segment start with
  | nil => exact ⟨[], segment, .done segment⟩
  | cons call calls ih =>
      have one : ∃ reply middle, Serves policy capacity segment [call] [reply] middle := by
        simp only [Fifo.stored] at fits
        cases call with
        | push call =>
            have spare : start.head + (Producer.stores capacity start call).length + capacity ≤
                2 ^ 64 := by
              simp only [Fifo.stores, Producer.stores] at fits ⊢
              omega
            obtain ⟨reply, middle, final, returns⟩ :=
              (Producer.push_alone slots small rests spare).1
            exact ⟨reply, middle, .push returns (.done middle)⟩
        | pop call =>
            obtain ⟨reply, middle, final, returns⟩ := (pops rests (by omega)).1
            exact ⟨reply, middle, .pop returns (.done middle)⟩
      obtain ⟨reply, middle, first⟩ := one
      have single : Fifo.stored capacity start.queue [call] =
          Fifo.stores capacity start.queue call := by simp [Fifo.stored]
      simp only [Fifo.stored] at fits
      obtain ⟨_, ring, rest, head, queue⟩ := first.fifo slots small pops rests (by
        rw [single]
        omega)
      rw [single] at head
      have queue : ring.queue = Fifo.next capacity start.queue call := queue
      obtain ⟨replies, after, others⟩ := ih rest (by
        rw [queue, head]
        omega)
      refine ⟨reply :: replies, after, ?_⟩
      cases first with
      | push returns done =>
          cases done
          exact .push returns others
      | pop returns done =>
          cases done
          exact .pop returns others

end Sequence

/-! ## A fresh queue -/

theorem freshSegment_rests {capacity : ℕ} (two : 2 ≤ capacity) (memory : ℕ → QueueSlotFull α) :
    SoleRing.Rests capacity (freshSegment capacity memory)
      (.fresh (freshSegment capacity memory).seq (freshSegment capacity memory).data) where
  sound := Ring.fresh_sound two _ fun i inside => freshSegment_seq memory inside
  shows := ⟨rfl, rfl, rfl⟩
  tail := rfl
  freer := fun _ => rfl
  writer := fun _ => rfl

/-- The observers of a segment at rest report the length of the queue. -/
theorem SoleRing.Rests.observers {capacity : ℕ} {segment : FullSegment α} {ring : SoleRing α}
    (rests : SoleRing.Rests capacity segment ring) (small : capacity < 2 ^ 64)
    (word : ring.head < 2 ^ 64) :
    pending segment = ring.queue.length ∧
      available capacity segment = capacity - ring.queue.length ∧
      (full capacity segment = true ↔ ring.queue.length = capacity) ∧
      (empty segment = true ↔ ring.queue.length = 0) := by
  have low := rests.sound.taken_le
  have high := rests.sound.head_le
  have length := ring.length_queue
  have count : pending segment = ring.queue.length := by
    rw [pending, rests.shows.head, rests.tail, sub64_of_le low word, length]
  refine ⟨count, ?_, ?_, ?_⟩
  · rw [available, count, sub64_of_le (by omega) small]
  · rw [full, count, beq_iff_eq]
  · rw [empty, count, beq_iff_eq]

/-- Calls on a fresh segment behave as calls on the bounded queue: they all return, with
its replies, and at the end the observers report its length. -/
def BehavesAsFifo (policy : RingPolicy α) (capacity : ℕ) (memory : ℕ → QueueSlotFull α)
    (calls : List (QueueCall α)) : Prop :=
  (∃ replies segment, Serves policy capacity (freshSegment capacity memory) calls replies segment) ∧
  ∀ replies segment, Serves policy capacity (freshSegment capacity memory) calls replies segment →
    replies = Fifo.replies capacity [] calls ∧
    pending segment = (Fifo.after capacity [] calls).length ∧
    available capacity segment = capacity - (Fifo.after capacity [] calls).length ∧
    (full capacity segment = true ↔ (Fifo.after capacity [] calls).length = capacity) ∧
    (empty segment = true ↔ (Fifo.after capacity [] calls).length = 0)

theorem behavesAsFifo {policy : RingPolicy α} {capacity : ℕ}
    (slots : ∀ p, slotOf capacity p = p % capacity) (two : 2 ≤ capacity) (small : capacity < 2 ^ 64)
    (pops : policy.PopsAlone capacity) (memory : ℕ → QueueSlotFull α)
    {calls : List (QueueCall α)} (fits : Fifo.stored capacity [] calls + capacity ≤ 2 ^ 64) :
    BehavesAsFifo policy capacity memory calls := by
  have rests := freshSegment_rests two memory
  have queue : SoleRing.queue
      (.fresh (freshSegment capacity memory).seq (freshSegment capacity memory).data) = [] := rfl
  have spare : Ring.head (.fresh (freshSegment capacity memory).seq
      (freshSegment capacity memory).data : SoleRing α) +
      Fifo.stored capacity (SoleRing.queue (.fresh (freshSegment capacity memory).seq
        (freshSegment capacity memory).data)) calls + capacity ≤ 2 ^ 64 := by
    rw [queue, Ring.head]
    simpa [Ring.fresh] using fits
  constructor
  · exact Serves.exists slots small pops calls rests spare
  · intro replies segment serves
    obtain ⟨same, ring, final, head, left⟩ := serves.fifo slots small pops rests spare
    rw [queue] at same head left
    have observed := final.observers small (by
      rw [head, Ring.head]
      simp only [Ring.fresh, List.length_nil]
      omega)
    rw [left] at observed
    exact ⟨same, observed⟩

/-- Both policies are bounded queues, for requests of two elements at least that do not
wrap when they are rounded, until the counters wrap. -/
theorem ring_behaves_as_fifo (requested : ℕ) (two : 2 ≤ requested) (large : requested ≤ 2 ^ 63)
    (memory : ℕ → QueueSlotFull α) (calls : List (QueueCall α))
    (fits : Fifo.stored (roundPow2 requested) [] calls + roundPow2 requested ≤ 2 ^ 64) :
    BehavesAsFifo (Mpsc.policy α) (roundPow2 requested) memory calls ∧
      BehavesAsFifo (Mpmc.policy α) (roundPow2 requested) memory calls := by
  obtain ⟨k, word, power, holds⟩ := roundPow2_spec large
  have slots : ∀ p, slotOf (roundPow2 requested) p = p % roundPow2 requested := by
    rw [power]
    exact slotOf_two_pow word
  have small : roundPow2 requested < 2 ^ 64 := by
    rw [power]
    exact Nat.pow_lt_pow_right (by omega) (by omega)
  constructor
  · exact behavesAsFifo slots (by omega) small
      (fun rests fits => Mpsc.Consumer.pop_alone slots rests fits) memory fits
  · exact behavesAsFifo slots (by omega) small
      (fun rests fits => Mpmc.Consumer.pop_alone slots rests fits) memory fits

/-- A queue of two elements, filled by a batch and emptied one by one. -/
theorem ring_behaves_as_fifo_two :
    BehavesAsFifo (Mpsc.policy ℕ) 2 (fun _ => ⟨0, 0⟩)
        [.push (.tryPushBatch [1, 2, 3]), .push (.tryPush 4), .pop .tryPop, .pop .tryPop,
          .pop .tryPop] ∧
      Fifo.replies 2 []
        [.push (.tryPushBatch [1, 2, 3]), .push (.tryPush 4), .pop .tryPop, .pop .tryPop,
          .pop .tryPop] =
        [.ok [1, 2], .error .temporaryError, .ok [1], .ok [2], .error .temporaryError] :=
  ⟨(ring_behaves_as_fifo 2 (by decide) (by decide) (fun _ => ⟨0, 0⟩) _ (by decide)).1, rfl⟩

/-- With one slot the second push overwrites the element of the first. -/
theorem ring_one_slot_overwrites :
    roundPow2 1 = 1 ∧
      ¬ BehavesAsFifo (Mpsc.policy ℕ) 1 (fun _ => ⟨0, 0⟩)
        [.push (.tryPush 1), .push (.tryPush 2)] := by
  refine ⟨by decide, fun fifo => ?_⟩
  have serves : ∃ segment, Serves (Mpsc.policy ℕ) 1 (freshSegment 1 fun _ => ⟨0, 0⟩)
      [.push (.tryPush 1), .push (.tryPush 2)] [.ok [1], .ok [2]] segment :=
    ⟨_, .push
      (.more false rfl (.more false rfl (.more false rfl (.more false rfl (.last false rfl)))))
      (.push
        (.more false rfl (.more false rfl (.more false rfl (.more false rfl (.last false rfl)))))
        (.done _))⟩
  obtain ⟨segment, served⟩ := serves
  have replies := (fifo.2 _ segment served).1
  exact absurd replies (by simp [Fifo.replies, Fifo.reply, Fifo.next, Fifo.push,
    QueueReply.elements])

end Join
