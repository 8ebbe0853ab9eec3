import Join.Core.Fifo
import Join.Core.RingSystem

/-!
# Calls one after the other on a ring

When no two calls overlap, the queue with sequence numbers is the bounded queue of
`Fifo`. Between two calls the ring rests: every position handed out is published or
given back, so the slots from the tail to the head hold the elements of the queue and
all the others are free. During a call the counters the call has read are the current
ones, which makes its decisions those of the bounded queue.
-/

set_option autoImplicit false

namespace Join

open Library

variable {α : Type}

/-- The ring of calls that do not overlap: there is one party on each side. -/
abbrev SoleRing (α : Type) : Type := Ring α Unit Unit

/-- The elements that are pushed and not taken. -/
def SoleRing.queue (ring : SoleRing α) : List α := ring.pushed.drop ring.taken

theorem SoleRing.length_queue (ring : SoleRing α) :
    ring.queue.length = ring.head - ring.taken :=
  List.length_drop

/-- A segment shows a ring whose slots are all given back. -/
structure SoleRing.Settled (capacity : ℕ) (segment : FullSegment α) (ring : SoleRing α) :
    Prop where
  sound : ring.Sound capacity
  shows : segment.Shows ring
  tail : segment.tail = ring.taken
  freer : ∀ p, ring.freer p = none

/-- A segment between two calls. -/
structure SoleRing.Rests (capacity : ℕ) (segment : FullSegment α) (ring : SoleRing α) : Prop
    extends SoleRing.Settled capacity segment ring where
  writer : ∀ p, ring.writer p = none

section Rests

variable {capacity : ℕ} {segment : FullSegment α} {ring : SoleRing α}

theorem SoleRing.Settled.seq_of_writer (settled : SoleRing.Settled capacity segment ring) {p : ℕ}
    (owned : ring.writer p ≠ none) : ring.seq (p % capacity) = p := by
  obtain ⟨low, high, _⟩ := settled.sound.writing p owned
  have lap := settled.sound.head_le
  rcases settled.sound.phase p low (by omega) with awaits | holds | lags
  · exact awaits
  · exact absurd holds.2.1 owned
  · exact absurd (settled.freer _) lags.2.2

/-- The slots after the head are free. -/
theorem SoleRing.Settled.seq_head (settled : SoleRing.Settled capacity segment ring)
    (room : ring.head < ring.taken + capacity) :
    ring.seq (ring.head % capacity) = ring.head := by
  rcases settled.sound.phase _ settled.sound.taken_le room with awaits | holds | lags
  · exact awaits
  · exact absurd (List.getElem?_eq_some_iff.mp holds.2.2).1 (lt_irrefl _)
  · exact absurd (settled.freer _) lags.2.2

/-- When the ring is full the slot at the head holds the oldest element. -/
theorem SoleRing.Rests.seq_full (rests : SoleRing.Rests capacity segment ring)
    (full : ring.head = ring.taken + capacity) : ring.seq (ring.head % capacity) < ring.head := by
  have two := rests.sound.two
  have bound := rests.sound.seq_le (le_refl ring.taken) (by omega)
  rw [full, Nat.add_mod_right]
  omega

theorem SoleRing.Rests.of_free (settled : SoleRing.Settled capacity segment ring)
    (free : Producer.Free ring ()) : SoleRing.Rests capacity segment ring :=
  ⟨settled, fun p => by
    cases owner : ring.writer p with
    | none => rfl
    | some who => exact absurd owner (free p)⟩

end Rests

/-! ## Pushing -/

namespace Producer

/-- The elements that a bounded queue stores for a push. -/
def stores (capacity : ℕ) (ring : SoleRing α) (call : PushCall α) : List α :=
  QueueReply.elements (some (Fifo.push capacity ring.queue call))

/-- What a producer that runs alone knows more than `Knows`: the counters it has read are
those of the ring before the call, and what it has claimed is what a bounded queue
stores. -/
def Exact (capacity : ℕ) (start : SoleRing α) (call : PushCall α) (ring : SoleRing α) :
    Producer α → Prop
  | .idle => False
  | .push element => call = .tryPush element ∧ ring.pushed = start.pushed
  | .pushSlot element head | .pushClaim element head =>
      call = .tryPush element ∧ ring.pushed = start.pushed ∧ head = ring.head
  | .batch elements => call = .tryPushBatch elements ∧ ring.pushed = start.pushed
  | .batchTail elements head =>
      call = .tryPushBatch elements ∧ ring.pushed = start.pushed ∧ head = ring.head ∧
        elements ≠ []
  | .batchClaim elements head _ toWrite =>
      call = .tryPushBatch elements ∧ ring.pushed = start.pushed ∧ head = ring.head ∧
        elements ≠ [] ∧ toWrite = min elements.length (ring.taken + capacity - ring.head)
  | .wait head stored element rest | .write head stored element rest
  | .publish head stored element rest =>
      Fifo.push capacity start.queue call = .ok (stored ++ element :: rest) ∧
        ring.pushed = start.pushed ++ (stored ++ element :: rest)

/-- The state of a push that runs alone. -/
def During (capacity : ℕ) (start : SoleRing α) (call : PushCall α) (segment : FullSegment α)
    (now : Producer α) : Prop :=
  ∃ ring : SoleRing α, SoleRing.Settled capacity segment ring ∧ ring.taken = start.taken ∧
    now.Knows capacity ring () ∧ now.Exact capacity start call ring

/-- The outcome of a push that runs alone. -/
def Done (capacity : ℕ) (start : SoleRing α) (call : PushCall α) (reply : QueueReply α)
    (segment : FullSegment α) (_ : Producer α) : Prop :=
  reply = Fifo.push capacity start.queue call ∧
    ∃ ring : SoleRing α, SoleRing.Rests capacity segment ring ∧ ring.taken = start.taken ∧
      ring.pushed = start.pushed ++ QueueReply.elements (some reply)

/-- The steps that a push makes at most, when no compare-exchange fails. -/
def remaining : Producer α → ℕ
  | .idle => 0
  | .push _ => 5
  | .pushSlot _ _ => 4
  | .pushClaim _ _ => 3
  | .batch elements => 3 * elements.length + 3
  | .batchTail elements _ => 3 * elements.length + 2
  | .batchClaim elements _ _ _ => 3 * elements.length + 1
  | .wait _ _ _ rest => 3 * rest.length + 3
  | .write _ _ _ rest => 3 * rest.length + 2
  | .publish _ _ _ rest => 3 * rest.length + 1

section Alone

variable {capacity : ℕ} {start : SoleRing α} {call : PushCall α} {segment : FullSegment α}

/-- A step of a push that runs alone: it returns what the bounded queue does, or it goes
on, with less to do unless a compare-exchange has failed for no reason. -/
def Proceeds (capacity : ℕ) (start : SoleRing α) (call : PushCall α) (weak : Bool)
    (now : Producer α) (turn : QueueTurn (Producer α) α) : Prop :=
  turn.Meets (fun after next => During capacity start call after next ∧
    (weak = false → next.remaining < now.remaining)) (Done capacity start call)

/-- A move of the producer leaves a ring whose slots are all given back. -/
theorem Advances.settled {ring after : SoleRing α} {now : Producer α}
    {turn : QueueTurn (Producer α) α} (settled : SoleRing.Settled capacity segment ring)
    (advances : Advances capacity () ring segment now turn after) :
    SoleRing.Settled capacity turn.memory after where
  sound := advances.runs.sound settled.sound
  shows := advances.shows
  tail := by rw [advances.tail, settled.tail, advances.taken]
  freer := by
    rw [advances.freer]
    exact settled.freer

/-- The length of the queue before the call, in terms of the counters. -/
theorem length_queue_eq {ring : SoleRing α} (taken : ring.taken = start.taken)
    (pushed : ring.pushed = start.pushed) : start.queue.length = ring.head - ring.taken := by
  rw [start.length_queue, taken, Ring.head, Ring.head, pushed]

/-- Going on in a ring that does not change. -/
theorem proceeds_quiet {weak : Bool} {ring : SoleRing α} {now next : Producer α}
    (settled : SoleRing.Settled capacity segment ring) (taken : ring.taken = start.taken)
    (knows : next.Knows capacity ring ()) (exact : next.Exact capacity start call ring)
    (less : weak = false → next.remaining < now.remaining) :
    Proceeds capacity start call weak now (.goOn segment next) :=
  ⟨⟨ring, settled, taken, knows, exact⟩, less⟩

/-- Failing in a ring that does not change. -/
theorem proceeds_error {weak : Bool} {ring : SoleRing α} {now : Producer α} {error : QueueError}
    (settled : SoleRing.Settled capacity segment ring) (taken : ring.taken = start.taken)
    (pushed : ring.pushed = start.pushed) (free : Free ring ())
    (refused : Fifo.push capacity start.queue call = .error error) :
    Proceeds capacity start call weak now (.finish segment .idle (.error error)) := by
  refine ⟨refused.symm, ring, SoleRing.Rests.of_free settled free, taken, ?_⟩
  simpa [QueueReply.elements] using pushed

/-- The check of the slot: it fails exactly when the queue is full. -/
theorem proceeds_pushSlot {weak : Bool} (slots : ∀ p, slotOf capacity p = p % capacity)
    {ring : SoleRing α} (settled : SoleRing.Settled capacity segment ring)
    (taken : ring.taken = start.taken) {waits : Bool} {element : α}
    (free : Free ring ()) (called : call = .tryPush element)
    (pushed : ring.pushed = start.pushed) :
    Proceeds capacity start call weak (.pushSlot element ring.head)
      (step waits capacity weak segment (.pushSlot element ring.head)) := by
  have rests := SoleRing.Rests.of_free settled free
  have low := settled.sound.taken_le
  have high := settled.sound.head_le
  have length := length_queue_eq taken pushed
  simp only [step, settled.shows.seq, slots]
  by_cases room : ring.head < ring.taken + capacity
  · rw [if_pos (settled.seq_head room)]
    refine proceeds_quiet settled taken ⟨⟨le_refl _, ?_⟩, free⟩ ⟨called, pushed, rfl⟩ fun _ => ?_
    · exact le_of_eq (settled.seq_head room).symm
    · simp only [remaining]
      omega
  · have behind := rests.seq_full (by omega)
    rw [if_neg (by omega), if_pos behind]
    refine proceeds_error settled taken pushed free ?_
    rw [called, Fifo.push, if_neg (by omega)]

/-- The claim of a single position. -/
theorem proceeds_pushClaim {weak : Bool} (slots : ∀ p, slotOf capacity p = p % capacity)
    (small : capacity < 2 ^ 64) {ring : SoleRing α}
    (settled : SoleRing.Settled capacity segment ring) (taken : ring.taken = start.taken)
    {waits : Bool} {element : α}
    (knows : (Producer.pushClaim element ring.head).Knows capacity ring ())
    (called : call = .tryPush element) (pushed : ring.pushed = start.pushed)
    (fits : start.head + (stores capacity start call).length + capacity ≤ 2 ^ 64) :
    Proceeds capacity start call weak (.pushClaim element ring.head)
      (step waits capacity weak segment (.pushClaim element ring.head)) := by
  have head := settled.shows.head
  have same : ring.head = start.head := congrArg List.length pushed
  cases weak with
  | true =>
      simp only [step, Bool.true_eq_false, and_false, if_false]
      exact proceeds_quiet settled taken ⟨le_of_eq head, knows.2⟩ ⟨called, pushed, head⟩
        fun impossible => absurd impossible (by simp)
  | false =>
      have room := (settled.sound.room_of_seq knows.1.2).1
      have low := settled.sound.taken_le
      have length := length_queue_eq taken pushed
      have accepted : Fifo.push capacity start.queue call = .ok [element] := by
        rw [called, Fifo.push, if_pos (by omega)]
      have word : ring.head + 1 + capacity ≤ 2 ^ 64 := by
        simpa [stores, accepted, QueueReply.elements, same] using fits
      obtain ⟨after, advances⟩ := step_advances waits false slots small settled.sound
        settled.shows (.inr settled.freer) (le_of_eq settled.tail) knows
        (fun _ here => by cases here) (by simpa [step, head, Turn.move] using word)
      have settled := advances.settled settled
      have pushed' := advances.pushed
      have taken' := advances.taken
      have knows' := advances.knows
      simp only [step, head, and_self, if_true, Turn.move] at settled pushed' knows' ⊢
      refine ⟨⟨after, settled, taken'.trans taken, knows', ?_⟩, fun _ => by simp [remaining]⟩
      exact ⟨accepted, by rw [pushed', pushed]; rfl⟩

/-- The space that a batch push computes is the room that is left. -/
theorem space_eq {ring : SoleRing α} (settled : SoleRing.Settled capacity segment ring)
    (small : capacity < 2 ^ 64) (word : ring.head < 2 ^ 64) :
    sub64 capacity (sub64 ring.head segment.tail) = ring.taken + capacity - ring.head := by
  have low := settled.sound.taken_le
  have high := settled.sound.head_le
  rw [settled.tail, sub64_of_le low word, sub64_of_le (by omega) small]
  omega

/-- The computation of the space: it fails exactly when the queue is full. -/
theorem proceeds_batchTail {weak : Bool} (small : capacity < 2 ^ 64) {ring : SoleRing α}
    (settled : SoleRing.Settled capacity segment ring) (taken : ring.taken = start.taken)
    {waits : Bool} {elements : List α} (free : Free ring ())
    (called : call = .tryPushBatch elements) (pushed : ring.pushed = start.pushed)
    (some : elements ≠ []) (fits : ring.head + capacity ≤ 2 ^ 64) :
    Proceeds capacity start call weak (.batchTail elements ring.head)
      (step waits capacity weak segment (.batchTail elements ring.head)) := by
  have two := settled.sound.two
  have low := settled.sound.taken_le
  have high := settled.sound.head_le
  have length := length_queue_eq taken pushed
  have positive := List.length_pos_of_ne_nil some
  have space := space_eq settled small (by omega)
  simp only [step, space]
  by_cases room : ring.head < ring.taken + capacity
  · rw [if_neg (by omega)]
    refine proceeds_quiet settled taken ⟨⟨le_refl _, by omega, Nat.min_le_left _ _, fun _ => ?_⟩,
      free⟩ ⟨called, pushed, rfl, some, rfl⟩ fun _ => ?_
    · rw [settled.tail, sub64_of_le low (by omega)]
      omega
    · simp only [remaining]
      omega
  · rw [if_pos (by omega)]
    refine proceeds_error settled taken pushed free ?_
    rw [called, Fifo.push, if_neg (by simpa using some), if_neg (by omega)]

/-- The claim of the positions of a batch. -/
theorem proceeds_batchClaim {weak : Bool} (slots : ∀ p, slotOf capacity p = p % capacity)
    (small : capacity < 2 ^ 64) {ring : SoleRing α}
    (settled : SoleRing.Settled capacity segment ring) (taken : ring.taken = start.taken)
    {waits : Bool} {elements : List α} {tail toWrite : ℕ}
    (knows : (Producer.batchClaim elements ring.head tail toWrite).Knows capacity ring ())
    (called : call = .tryPushBatch elements) (pushed : ring.pushed = start.pushed)
    (some : elements ≠ [])
    (exactly : toWrite = min elements.length (ring.taken + capacity - ring.head))
    (fits : start.head + (stores capacity start call).length + capacity ≤ 2 ^ 64) :
    Proceeds capacity start call weak (.batchClaim elements ring.head tail toWrite)
      (step waits capacity weak segment (.batchClaim elements ring.head tail toWrite)) := by
  have head := settled.shows.head
  have same : ring.head = start.head := congrArg List.length pushed
  cases weak with
  | true =>
      simp only [step, Bool.true_eq_false, and_false, if_false]
      exact proceeds_quiet settled taken ⟨le_of_eq head, knows.2⟩ ⟨called, pushed, head, some⟩
        fun impossible => absurd impossible (by simp)
  | false =>
      obtain ⟨⟨_, positive, few, _⟩, _⟩ := id knows
      have low := settled.sound.taken_le
      have length := length_queue_eq taken pushed
      have accepted : Fifo.push capacity start.queue call = .ok (elements.take toWrite) := by
        rw [called, Fifo.push, if_neg (by simpa using some), if_pos (by omega)]
        congr 1
        rw [exactly, Nat.min_comm, ← List.take_eq_take_min, length]
        congr 1
        omega
      have count : (elements.take toWrite).length = toWrite := by
        rw [List.length_take, Nat.min_eq_left few]
      have word : ring.head + toWrite + capacity ≤ 2 ^ 64 := by
        simpa only [stores, accepted, QueueReply.elements, same, count] using fits
      obtain ⟨after, advances⟩ := step_advances waits false slots small settled.sound
        settled.shows (.inr settled.freer) (le_of_eq settled.tail) knows
        (fun _ here => by cases here) (by simpa [step, head, few] using word)
      have settled := advances.settled settled
      have pushed' := advances.pushed
      have taken' := advances.taken
      have knows' := advances.knows
      have account := advances.account
      simp only [step, head, and_self, if_true] at settled pushed' knows' account ⊢
      cases claimed : elements.take toWrite with
      | nil =>
          rw [claimed] at count
          simp at count
          omega
      | cons element rest =>
          rw [claimed] at settled pushed' knows' accepted count
          have fewer : 3 * rest.length + 3 ≤ 3 * elements.length := by
            simp only [List.length_cons] at count
            omega
          cases waits with
          | true =>
              refine ⟨⟨after, settled, taken'.trans taken, knows', ?_⟩, fun _ => ?_⟩
              · exact ⟨accepted, by rw [pushed', pushed]; rfl⟩
              · simp only [fill, Turn.goOn, if_true, remaining]
                omega
          | false =>
              refine ⟨⟨after, settled, taken'.trans taken, knows', ?_⟩, fun _ => ?_⟩
              · exact ⟨accepted, by rw [pushed', pushed]; rfl⟩
              · simp only [fill, Turn.goOn, Bool.false_eq_true, if_false, remaining]
                omega

/-- Publishing an element of a push that runs alone. -/
theorem proceeds_publish {weak : Bool} (slots : ∀ p, slotOf capacity p = p % capacity)
    {ring : SoleRing α} (settled : SoleRing.Settled capacity segment ring)
    (taken : ring.taken = start.taken) {waits : Bool} {head : ℕ} {stored rest : List α}
    {element : α} (knows : (Producer.publish head stored element rest).Knows capacity ring ())
    (exactly : (Producer.publish head stored element rest).Exact capacity start call ring)
    (fits : ring.head + capacity ≤ 2 ^ 64) :
    Proceeds capacity start call weak (.publish head stored element rest)
      (step waits capacity weak segment (.publish head stored element rest)) := by
  have advances := advances_publish waits slots settled.sound settled.shows
    (.inr settled.freer) fits knows.1 knows.2
  have settled := advances.settled settled
  have pushed' := advances.pushed
  have taken' := advances.taken
  have knows' := advances.knows
  obtain ⟨accepted, pushed⟩ := exactly
  simp only [step]
  cases rest with
  | nil =>
      refine ⟨accepted.symm, _, SoleRing.Rests.of_free settled knows', taken'.trans taken, ?_⟩
      rw [pushed', pushed]
      simp [fill, Turn.finish, QueueReply.elements]
  | cons item rest =>
      have exactly : (stored ++ [element]) ++ item :: rest = stored ++ element :: item :: rest := by
        simp
      rw [← exactly] at accepted pushed
      cases waits with
      | true =>
          refine ⟨⟨_, settled, taken'.trans taken, knows', accepted, ?_⟩, fun _ => ?_⟩
          · rw [pushed', pushed]
            simp [fill, Turn.goOn]
          · simp [fill, Turn.goOn, remaining]
            omega
      | false =>
          refine ⟨⟨_, settled, taken'.trans taken, knows', accepted, ?_⟩, fun _ => ?_⟩
          · rw [pushed', pushed]
            simp [fill, Turn.goOn]
          · simp [fill, Turn.goOn, remaining]
            omega

/-- Every step of a push that runs alone proceeds as the bounded queue does. -/
theorem step_proceeds {waits : Bool} (slots : ∀ p, slotOf capacity p = p % capacity)
    (small : capacity < 2 ^ 64)
    (fits : start.head + (stores capacity start call).length + capacity ≤ 2 ^ 64) (weak : Bool)
    {now : Producer α} (during : During capacity start call segment now) :
    Proceeds capacity start call weak now (step waits capacity weak segment now) := by
  obtain ⟨ring, settled, taken, knows, exactly⟩ := during
  have total : ∀ {elements}, Fifo.push capacity start.queue call = .ok elements →
      ring.pushed = start.pushed ++ elements → ring.head + capacity ≤ 2 ^ 64 := by
    intro elements accepted pushed
    simp only [stores, accepted, QueueReply.elements] at fits
    rw [Ring.head, pushed, List.length_append]
    exact fits
  cases now with
  | idle => exact exactly.elim
  | push element =>
      exact proceeds_quiet settled taken ⟨le_of_eq settled.shows.head, knows⟩
        ⟨exactly.1, exactly.2, settled.shows.head⟩ fun _ => by simp [remaining]
  | pushSlot element head =>
      obtain ⟨called, pushed, rfl⟩ := exactly
      exact proceeds_pushSlot slots settled taken knows.2 called pushed
  | pushClaim element head =>
      obtain ⟨called, pushed, rfl⟩ := exactly
      exact proceeds_pushClaim slots small settled taken knows called pushed fits
  | batch elements =>
      obtain ⟨called, pushed⟩ := exactly
      simp only [step]
      split_ifs with none
      · refine proceeds_error settled taken pushed knows ?_
        rw [called, Fifo.push, if_pos none]
      · refine proceeds_quiet settled taken ⟨le_of_eq settled.shows.head, knows⟩
          ⟨called, pushed, settled.shows.head, by simpa using none⟩ fun _ => ?_
        simp [remaining]
  | batchTail elements head =>
      obtain ⟨called, pushed, rfl, some⟩ := exactly
      have same : ring.head = start.head := congrArg List.length pushed
      exact proceeds_batchTail small settled taken knows.2 called pushed some (by omega)
  | batchClaim elements head tail toWrite =>
      obtain ⟨called, pushed, rfl, some, exactly⟩ := exactly
      exact proceeds_batchClaim slots small settled taken knows called pushed some exactly fits
  | wait head stored element rest =>
      have owns : Owns ring () head stored (element :: rest) := knows
      obtain ⟨word, _⟩ := owns.word settled.sound (total exactly.1 exactly.2)
      have turn := settled.seq_of_writer (p := head + stored.length) (by simp [owns.first.1])
      simp only [step, word, settled.shows.seq, slots]
      rw [if_pos turn]
      exact proceeds_quiet settled taken ⟨le_of_eq turn.symm, owns⟩ exactly
        fun _ => by simp [remaining]
  | write head stored element rest =>
      have advances := advances_write slots settled.sound settled.shows
        (total exactly.1 exactly.2) knows.1 knows.2
      refine ⟨⟨_, advances.settled settled, advances.taken.trans taken, advances.knows, ?_⟩,
        fun _ => by simp [step, Turn.goOn, remaining]⟩
      exact exactly
  | publish head stored element rest =>
      exact proceeds_publish slots settled taken knows exactly (total exactly.1 exactly.2)

/-- A push on a ring at rest returns, and it returns what the bounded queue does. -/
theorem push_alone {waits : Bool} (slots : ∀ p, slotOf capacity p = p % capacity)
    (small : capacity < 2 ^ 64) (rests : SoleRing.Rests capacity segment start)
    (fits : start.head + (stores capacity start call).length + capacity ≤ 2 ^ 64) :
    (∃ reply after final,
      Completes (step waits capacity) segment (Producer.start call) reply after final) ∧
    ∀ {reply after final},
      Completes (step waits capacity) segment (Producer.start call) reply after final →
        Done capacity start call reply after final := by
  have begin : During capacity start call segment (Producer.start call) := by
    have free : Free start () := fun p owner => by
      rw [rests.writer p] at owner
      cases owner
    refine ⟨start, rests.toSettled, rfl, ?_, ?_⟩
    · cases call <;> exact free
    · cases call <;> exact ⟨rfl, rfl⟩
  exact Completes.total remaining
    (fun weak _ _ during => step_proceeds slots small fits weak during) begin

end Alone

end Producer

end Join
