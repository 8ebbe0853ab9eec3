import Join.Core.SpscSafety

/-!
# New objects on an old segment

A queue object may be destroyed and another one opened on the segment, which is still
there. As long as the copies of the new objects fit (`System.Reopens`), the calls that
return make up a history of one bounded queue; a batch call may move fewer elements than
it could, because it decides from a copy. Every call returns.
-/

set_option autoImplicit false

namespace Join

open Library

namespace Spsc

variable {α : Type}

/-! ## Every call returns -/

/-- The steps that a push makes at most. -/
def Pushing.remaining : Pushing α → ℕ
  | .idle => 0
  | .push _ => 4
  | .pushTail _ _ => 3
  | .batch elements => elements.length + 4
  | .batchTail elements _ => elements.length + 3
  | .write _ _ _ rest => rest.length + 2
  | .storeHead _ _ => 1

/-- The steps that a pop makes at most. -/
def Popping.remaining : Popping α → ℕ
  | .idle => 0
  | .pop => 5
  | .popHead _ => 4
  | .batch size => size + 4
  | .batchHead size _ => size + 3
  | .read _ toRead popped => toRead - popped.length + 2
  | .storeTail _ _ => 1

theorem Pushing.remaining_fill (head : ℕ) (stored rest : List α) :
    (Pushing.fill head stored rest).remaining = rest.length + 1 := by
  cases rest <;> rfl

theorem Popping.remaining_drain (tail toRead : ℕ) (popped : List α) :
    (Popping.drain tail toRead popped).remaining ≤ toRead - popped.length + 2 := by
  unfold Popping.drain
  split_ifs
  · exact le_refl _
  · exact Nat.succ_le_succ (Nat.zero_le _)

/-- A step of a push leaves less to do. -/
theorem Producer.remaining_step (capacity : ℕ) (segment : Segment α) (producer : Producer α)
    (busy : producer.now ≠ .idle) :
    (producer.step capacity segment).next.now.remaining < producer.now.remaining := by
  unfold Producer.step
  cases now : producer.now with
  | idle => exact absurd now busy
  | push element =>
      dsimp only
      split_ifs <;> simp [Turn.goOn, Pushing.remaining]
  | pushTail element head =>
      dsimp only
      split_ifs <;> simp [Turn.goOn, Turn.finish, Pushing.remaining]
  | batch elements =>
      dsimp only
      split_ifs
      · simp [Turn.finish, Pushing.remaining]
      · simp [Turn.goOn, Pushing.remaining]
      · simp only [Turn.goOn]
        rw [Pushing.remaining_fill, List.length_take, Pushing.remaining]
        omega
  | batchTail elements head =>
      dsimp only
      split_ifs
      · simp [Turn.finish, Pushing.remaining]
      · simp only [Turn.goOn]
        rw [Pushing.remaining_fill, List.length_take, Pushing.remaining]
        omega
  | write head stored element rest =>
      simp only [Turn.goOn]
      rw [Pushing.remaining_fill, Pushing.remaining]
      omega
  | storeHead head stored => simp [Pushing.remaining]

/-- A step of a pop leaves less to do. -/
theorem Consumer.remaining_step (capacity : ℕ) (segment : Segment α) (consumer : Consumer α)
    (busy : consumer.now ≠ .idle) :
    (consumer.step capacity segment).next.now.remaining < consumer.now.remaining := by
  unfold Consumer.step
  cases now : consumer.now with
  | idle => exact absurd now busy
  | pop =>
      dsimp only
      split_ifs <;> simp [Turn.goOn, Popping.remaining, Popping.drain]
  | popHead tail =>
      dsimp only
      split_ifs <;> simp [Turn.goOn, Turn.finish, Popping.remaining, Popping.drain]
  | batch size =>
      dsimp only
      split_ifs
      · simp [Turn.finish, Popping.remaining]
      · simp [Turn.goOn, Popping.remaining]
      · have bound := Popping.remaining_drain segment.tail
          (min size (sub64 consumer.cachedHead segment.tail)) ([] : List α)
        simp only [Turn.goOn, List.length_nil] at bound ⊢
        rw [show (Popping.batch size : Popping α).remaining = size + 4 from rfl]
        omega
  | batchHead size tail =>
      dsimp only
      split_ifs
      · simp [Turn.finish, Popping.remaining]
      · have bound := Popping.remaining_drain tail
          (min size (sub64 segment.head tail)) ([] : List α)
        simp only [Turn.goOn, List.length_nil] at bound ⊢
        rw [show (Popping.batchHead size tail : Popping α).remaining = size + 3 from rfl]
        omega
  | read tail toRead popped =>
      simp only [Turn.goOn, Popping.drain]
      split_ifs with more
      · simp only [Popping.remaining, List.length_append, List.length_singleton] at more ⊢
        omega
      · simp only [Popping.remaining]
        omega
  | storeTail tail popped => simp [Popping.remaining]

/-- A side that goes on alone leaves its call. -/
theorem System.produce_returns (capacity : ℕ) (system : System α) :
    ∃ count after, System.perform capacity (fun _ _ => True) system
      (List.replicate count .produce) = some after ∧ after.producer.now = .idle := by
  induction bound : system.producer.now.remaining using Nat.strongRecOn generalizing system with
  | ind bound ih =>
      subst bound
      by_cases idle : system.producer.now = .idle
      · exact ⟨0, system, rfl, idle⟩
      · obtain ⟨next, step⟩ : ∃ next, system.act capacity .produce = some next := ⟨_, rfl⟩
        have less : next.producer.now.remaining < system.producer.now.remaining := by
          cases step
          exact Producer.remaining_step capacity system.segment system.producer idle
        obtain ⟨count, after, performed, rest⟩ := ih _ less next rfl
        refine ⟨count + 1, after, ?_, rest⟩
        rw [List.replicate_succ, System.perform, if_pos trivial, step]
        exact performed

theorem System.consume_returns (capacity : ℕ) (system : System α) :
    ∃ count after, System.perform capacity (fun _ _ => True) system
      (List.replicate count .consume) = some after ∧ after.consumer.now = .idle := by
  induction bound : system.consumer.now.remaining using Nat.strongRecOn generalizing system with
  | ind bound ih =>
      subst bound
      by_cases idle : system.consumer.now = .idle
      · exact ⟨0, system, rfl, idle⟩
      · obtain ⟨next, step⟩ : ∃ next, system.act capacity .consume = some next := ⟨_, rfl⟩
        have less : next.consumer.now.remaining < system.consumer.now.remaining := by
          cases step
          exact Consumer.remaining_step capacity system.segment system.consumer idle
        obtain ⟨count, after, performed, rest⟩ := ih _ less next rfl
        refine ⟨count + 1, after, ?_, rest⟩
        rw [List.replicate_succ, System.perform, if_pos trivial, step]
        exact performed

/-! ## One bounded queue -/

/-- The segment is one bounded queue: its history is one of a bounded queue that holds
what is pushed and not popped, nothing unread is overwritten, nothing unpublished is read,
and the observers report the length of the queue. -/
structure System.OneQueue (capacity : ℕ) (system : System α) : Prop where
  safe : system.Safe capacity
  history : Fifo.History capacity system.history system.queue
  pending : Join.pending system.segment = system.queue.length
  available : Join.available capacity system.segment = capacity - system.queue.length

/-- The objects may be destroyed and opened again whenever their copies fit. -/
theorem spsc_reopened (requested : ℕ) (word : requested < 2 ^ 64) (memory : ℕ → α)
    {system : System α}
    (run : System.Run (roundPow2 requested) (System.Reopens (roundPow2 requested))
      (System.initial memory) system) :
    system.OneQueue (roundPow2 requested) ∧
      (∃ count after, System.perform (roundPow2 requested) (fun _ _ => True) system
        (List.replicate count .produce) = some after ∧ after.producer.now = .idle) ∧
      ∃ count after, System.perform (roundPow2 requested) (fun _ _ => True) system
        (List.replicate count .consume) = some after ∧ after.consumer.now = .idle := by
  have slotted := slotted_roundPow2 word
  obtain ⟨tail, head, good⟩ := System.Good.run slotted (fun fits => fits)
    ⟨0, 0, System.initial_good _ memory⟩ run
  have safe := good.safe slotted
  have length := system.length_queue
  have lap := safe.lap
  have pending : Join.pending system.segment = system.queue.length :=
    safe.pending.trans length.symm
  refine ⟨⟨safe, good.history, pending, ?_⟩, system.produce_returns _, system.consume_returns _⟩
  rw [Join.available, pending, sub64_of_le (by omega) slotted.word]

/-- A producer is opened again in the first lap, a consumer before its first pop. -/
def reopensEarly : List (Action ℕ) :=
  List.flatten [[.push (.tryPush 1)], List.replicate 3 .produce, [.reopenProducer, .reopenConsumer],
    [.push (.tryPush 2)], List.replicate 3 .produce, [.pop .tryPop], List.replicate 4 .consume,
    [.reopenProducer]]

theorem spsc_reopened_first_lap :
    ∃ system : System ℕ, system.pushed = [1, 2] ∧ system.popped = [1] ∧ system.OneQueue 2 := by
  have run : ((System.perform 2 (System.Reopens 2) (System.initial fun _ => 0) reopensEarly).any
      fun system => system.pushed == [1, 2] && system.popped == [1]) = true := by decide +kernel
  obtain ⟨system, performed, tested⟩ := (Option.any_eq_true ..).mp run
  simp only [Bool.and_eq_true, beq_iff_eq] at tested
  obtain ⟨pushed, popped⟩ := tested
  exact ⟨system, pushed, popped,
    (spsc_reopened 2 (by decide) (fun _ => 0) (System.run_of_perform performed)).1⟩

/-- The queue of two elements is full with 3 and 4, which nobody has read, and a new producer
pushes 5. -/
def reopensLate : List (Action ℕ) :=
  List.flatten [[.push (.tryPushBatch [1, 2])], List.replicate 4 .produce, [.pop (.tryPopBatch 2)],
    List.replicate 5 .consume, [.push (.tryPushBatch [3, 4])], List.replicate 5 .produce,
    [.reopenProducer, .push (.tryPush 5)], List.replicate 3 .produce]

/-- The new producer compares the head with its copy of the tail, which is zero, sees space and
overwrites 3. -/
theorem spsc_reopened_overwrites :
    ∃ system : System ℕ,
      System.Run 2 (fun _ _ => True) (System.initial fun _ => 0) system ∧
      system.pushed = [1, 2, 3, 4, 5] ∧ system.popped = [1, 2] ∧
      system.segment.elements (slotOf 2 2) = 5 ∧ pending system.segment = 3 ∧
      ¬ system.OneQueue 2 := by
  have run : ((System.perform 2 (fun _ _ => True) (System.initial fun _ => 0) reopensLate).any
      fun system => system.pushed == [1, 2, 3, 4, 5] && (system.popped == [1, 2] &&
        (system.segment.elements (slotOf 2 2) == 5 && pending system.segment == 3))) = true := by
    decide +kernel
  obtain ⟨system, performed, tested⟩ := (Option.any_eq_true ..).mp run
  simp only [Bool.and_eq_true, beq_iff_eq] at tested
  obtain ⟨pushed, popped, slot, count⟩ := tested
  refine ⟨system, System.run_of_perform performed, pushed, popped, slot, count, fun one => ?_⟩
  have lap := one.safe.lap
  rw [pushed, popped] at lap
  exact absurd lap (by decide)

end Spsc

end Join
