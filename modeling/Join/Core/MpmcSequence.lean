import Join.Core.MpmcSafety
import Join.Core.MpscSequence

/-!
# Pops one after the other, with many consumers

A pop of `Mpmc` that runs alone reads the tail once and finds it unchanged at the
compare-exchange, unless that fails for no reason and the pop starts again. It returns
what the bounded queue does.
-/

set_option autoImplicit false

namespace Join

open Library

variable {α : Type}

namespace Mpmc.Consumer

/-- What a pop that runs alone knows more than `Knows`: nothing is taken since it has read
the tail, what it has copied is the front of the queue, and what it has taken is what the
bounded queue returns. -/
def Exact (start : SoleRing α) (call : PopCall) (ring : SoleRing α) : Consumer α → Prop
  | .idle => False
  | .pop => call = .tryPop ∧ ring.taken = start.taken
  | .popSlot tail | .popRead tail | .popClaim tail _ =>
      call = .tryPop ∧ ring.taken = start.taken ∧ tail = start.taken
  | .batch size => call = .tryPopBatch size ∧ ring.taken = start.taken
  | .batchHead size tail =>
      call = .tryPopBatch size ∧ ring.taken = start.taken ∧ tail = start.taken ∧ size ≠ 0
  | .check size tail toRead copied | .read size tail toRead copied =>
      call = .tryPopBatch size ∧ ring.taken = start.taken ∧ tail = start.taken ∧ size ≠ 0 ∧
        toRead ≤ start.queue.length ∧ copied = start.queue.take copied.length ∧
        Fifo.pop start.queue call = .ok (start.queue.take toRead)
  | .batchClaim size tail copied =>
      call = .tryPopBatch size ∧ ring.taken = start.taken ∧ tail = start.taken ∧ size ≠ 0 ∧
        Fifo.pop start.queue call = .ok copied
  | .free _ freed element rest =>
      Fifo.pop start.queue call = .ok (freed ++ element :: rest) ∧
        ring.taken = start.taken + (freed ++ element :: rest).length

/-- The state of a pop that runs alone. -/
structure Running (capacity : ℕ) (start : SoleRing α) (segment : FullSegment α)
    (ring : SoleRing α) : Prop where
  sound : ring.Sound capacity
  shows : segment.Shows ring
  linked : segment.tail = ring.taken
  writer : ∀ p, ring.writer p = none
  pushed : ring.pushed = start.pushed

def During (capacity : ℕ) (start : SoleRing α) (call : PopCall) (segment : FullSegment α)
    (now : Consumer α) : Prop :=
  ∃ ring : SoleRing α, Running capacity start segment ring ∧ now.Knows capacity ring () ∧
    now.Exact start call ring

/-- The steps that a pop makes at most, when no compare-exchange fails. -/
def remaining : Consumer α → ℕ
  | .idle => 0
  | .pop => 5
  | .popSlot _ => 4
  | .popRead _ => 3
  | .popClaim _ _ => 2
  | .batch size => 3 * size + 4
  | .batchHead size _ => 3 * size + 3
  | .check _ _ toRead copied => 2 * (toRead - copied.length) + toRead + 2
  | .read _ _ toRead copied => 2 * (toRead - copied.length) + toRead + 1
  | .batchClaim _ _ copied => copied.length + 1
  | .free _ _ _ rest => rest.length + 1

section Alone

variable {capacity : ℕ} {start ring : SoleRing α} {call : PopCall} {segment : FullSegment α}

theorem Running.head (running : Running capacity start segment ring) : ring.head = start.head :=
  congrArg List.length running.pushed

/-- A published position of the queue. -/
theorem Running.holds (running : Running capacity start segment ring) {p : ℕ}
    (low : ring.taken ≤ p) (high : p < ring.head) : ring.Holds capacity p := by
  have lap := running.sound.head_le
  refine running.sound.holds_of_lt low (by omega) ?_
  by_contra waiting
  exact running.sound.owed p low high (by omega) (running.writer p)

/-- The moves of a pop keep the elements pushed and claim nothing to write. -/
theorem Running.takes (running : Running capacity start segment ring) {now : Consumer α}
    {turn : QueueTurn (Consumer α) α} {after : SoleRing α}
    (takes : Takes capacity () ring now turn after) :
    Running capacity start turn.memory after where
  sound := takes.runs.sound running.sound
  shows := takes.shows
  linked := takes.linked
  writer := by
    intro p
    have keeps : ring.KeepsWriter () after :=
      takes.runs.keeps_writer running.sound Sum.inr_ne_inl
    cases owner : after.writer p with
    | none => rfl
    | some who =>
        have before := (keeps p).1.mpr owner
        rw [running.writer p] at before
        cases before
  pushed := takes.pushed.trans running.pushed

theorem Running.rests (running : Running capacity start segment ring) (free : Free ring ()) :
    SoleRing.Rests capacity segment ring where
  sound := running.sound
  shows := running.shows
  tail := running.linked
  freer := fun p => by
    cases owner : ring.freer p with
    | none => rfl
    | some who => exact absurd owner (free p)
  writer := running.writer

theorem Running.length_queue (running : Running capacity start segment ring)
    (same : ring.taken = start.taken) : start.queue.length = ring.head - start.taken := by
  rw [start.length_queue, running.head]

/-- A step of a pop that runs alone: it returns what the bounded queue does, or it goes on,
with less to do unless a compare-exchange has failed for no reason. -/
def Proceeds (capacity : ℕ) (start : SoleRing α) (call : PopCall) (weak : Bool)
    (now : Consumer α) (turn : QueueTurn (Consumer α) α) : Prop :=
  turn.Meets (fun after next => During capacity start call after next ∧
    (weak = false → next.remaining < now.remaining)) (call.Done capacity start)

/-- Going on in a ring that does not change. -/
theorem proceeds_quiet {weak : Bool} {now next : Consumer α}
    (running : Running capacity start segment ring) (knows : next.Knows capacity ring ())
    (exact : next.Exact start call ring)
    (less : weak = false → next.remaining < now.remaining) :
    Proceeds capacity start call weak now (.goOn segment next) :=
  ⟨⟨ring, running, knows, exact⟩, less⟩

/-- Failing in a ring that does not change. -/
theorem proceeds_error {weak : Bool} {now : Consumer α} {error : QueueError}
    (running : Running capacity start segment ring) (same : ring.taken = start.taken)
    (free : Free ring ()) (refused : Fifo.pop start.queue call = .error error) :
    Proceeds capacity start call weak now (.finish segment .idle (.error error)) :=
  ⟨refused.symm, ring, running.rests free, running.pushed, same⟩

/-- The check of the slot at the tail: it fails exactly when the queue is empty. -/
theorem proceeds_popSlot {weak : Bool} (slots : ∀ p, slotOf capacity p = p % capacity)
    (fits : ring.head + capacity ≤ 2 ^ 64) (running : Running capacity start segment ring)
    (same : ring.taken = start.taken) (free : Free ring ()) (called : call = .tryPop) :
    Proceeds capacity start call weak (.popSlot start.taken)
      (step capacity weak segment (.popSlot start.taken)) := by
  have two := running.sound.two
  have low := running.sound.taken_le
  have length := running.length_queue same
  simp only [step, running.shows.seq, slots]
  rw [add64_of_lt (by omega), ← same]
  by_cases some : ring.taken < ring.head
  · have number := (running.holds (le_refl _) some).1
    rw [if_pos number]
    exact proceeds_quiet running ⟨⟨le_refl _, le_of_eq number.symm⟩, free⟩ ⟨called, same, same⟩
      fun _ => by simp [remaining]
  · have vacant : ring.seq (ring.taken % capacity) = ring.taken := by
      rcases running.sound.phase ring.taken (le_refl _) (by omega) with awaits | holds | lags
      · exact awaits
      · exact absurd (List.getElem?_eq_some_iff.mp holds.2.2).1 some
      · exact absurd ((running.rests free).freer _) lags.2.2
    rw [if_neg (by omega), if_pos (by omega)]
    refine proceeds_error running same free ?_
    have none : start.queue = [] := List.length_eq_zero_iff.mp (by omega)
    rw [called, none]
    rfl

/-- The head of the loop: after the last element the copies are what the bounded queue
returns. -/
theorem proceeds_copy {weak : Bool} {now : Consumer α} {size toRead : ℕ} {copied : List α}
    (running : Running capacity start segment ring) (same : ring.taken = start.taken)
    (called : call = .tryPopBatch size) (some : size ≠ 0) (positive : 0 < toRead)
    (few : toRead ≤ start.queue.length) (within : copied.length ≤ toRead)
    (front : copied = start.queue.take copied.length)
    (accepted : Fifo.pop start.queue call = .ok (start.queue.take toRead))
    (right : Copied capacity ring start.taken copied) (free : Free ring ())
    (more : 2 * (toRead - copied.length) + toRead + 2 < now.remaining) :
    Proceeds capacity start call weak now (copy segment size start.taken toRead copied) := by
  have length := running.length_queue same
  have low := running.sound.taken_le
  have seen : start.taken ≤ ring.taken := le_of_eq same.symm
  unfold copy settle
  split_ifs with again none
  · exact proceeds_quiet running ⟨⟨seen, right, again, by omega⟩, free⟩
      ⟨called, same, rfl, some, few, front, accepted⟩ fun _ => more
  · rw [List.isEmpty_iff] at none
    simp only [none, List.length_nil] at again
    omega
  · refine proceeds_quiet running ⟨⟨seen, right, by simpa using none⟩, free⟩
      ⟨called, same, rfl, some, ?_⟩ fun _ => ?_
    · rw [accepted, front]
      congr 2
      omega
    · change copied.length + 1 < now.remaining
      omega

/-- The positions taken by a compare-exchange that succeeds. -/
theorem proceeds_claim {now : Consumer α} (slots : ∀ p, slotOf capacity p = p % capacity)
    (fits : ring.head + capacity ≤ 2 ^ 64) (running : Running capacity start segment ring)
    (same : ring.taken = start.taken) (element : α) (rest : List α)
    (knows : now.Knows capacity ring ())
    (turn : step capacity false segment now =
      ⟨{ segment with tail := add64 segment.tail (rest.length + 1) },
        .free segment.tail [] element rest, element :: rest, none⟩)
    (accepted : Fifo.pop start.queue call = .ok (element :: rest))
    (less : rest.length + 1 < now.remaining) :
    Proceeds capacity start call false now (step capacity false segment now) := by
  obtain ⟨after, takes⟩ :=
    step_takes slots false running.sound running.shows running.linked fits knows
  have ran := running.takes takes
  have known := takes.knows
  have taken := takes.taken
  rw [turn] at ran known taken ⊢
  refine ⟨⟨after, ran, known, accepted, ?_⟩, fun _ => less⟩
  rw [taken, same]
  rfl

/-- Giving a slot back, and going on with the next or returning. -/
theorem proceeds_free {weak : Bool} (slots : ∀ p, slotOf capacity p = p % capacity)
    (fits : ring.head + capacity ≤ 2 ^ 64) (running : Running capacity start segment ring)
    {tail : ℕ} {freed rest : List α} {element : α}
    (knows : (Consumer.free tail freed element rest).Knows capacity ring ())
    (exactly : (Consumer.free tail freed element rest).Exact start call ring) :
    Proceeds capacity start call weak (.free tail freed element rest)
      (step capacity weak segment (.free tail freed element rest)) := by
  obtain ⟨after, takes⟩ :=
    step_takes slots weak running.sound running.shows running.linked fits knows
  obtain ⟨accepted, count⟩ := exactly
  have ran := running.takes takes
  have known := takes.knows
  have taken := takes.taken
  have account := takes.account
  simp only [step] at ran known taken account ⊢
  cases rest with
  | nil =>
      refine ⟨accepted.symm, after, ran.rests known, ran.pushed, ?_⟩
      simp only [release, Turn.finish, List.length_nil, Nat.add_zero] at taken
      rw [taken, count]
      rfl
  | cons item rest =>
      have joined : freed ++ element :: item :: rest = (freed ++ [element]) ++ item :: rest := by
        simp
      simp only [release, Turn.goOn, List.length_nil, Nat.add_zero] at taken
      refine ⟨⟨after, ran, known, ?_, ?_⟩, fun _ => by simp [release, Turn.goOn, remaining]⟩
      · rw [accepted, joined]
      · rw [taken, count, joined]

/-- Every step of a pop that runs alone proceeds as the bounded queue does. -/
theorem step_proceeds (slots : ∀ p, slotOf capacity p = p % capacity)
    (fits : start.head + capacity ≤ 2 ^ 64) (weak : Bool) {now : Consumer α}
    (during : During capacity start call segment now) :
    Proceeds capacity start call weak now (step capacity weak segment now) := by
  obtain ⟨ring, running, knows, exactly⟩ := during
  have fits : ring.head + capacity ≤ 2 ^ 64 := running.head ▸ fits
  have two := running.sound.two
  have low := running.sound.taken_le
  have current := running.linked
  cases now with
  | idle => exact exactly.elim
  | pop =>
      exact proceeds_quiet running ⟨le_of_eq current, knows⟩
        ⟨exactly.1, exactly.2, current.trans exactly.2⟩ fun _ => by simp [remaining]
  | popSlot tail =>
      obtain ⟨called, same, rfl⟩ := exactly
      exact proceeds_popSlot slots fits running same knows.2 called
  | popRead tail =>
      obtain ⟨⟨seen, past⟩, free⟩ := knows
      have right := (copied_nil tail).append running.sound past
      simp only [List.length_nil, Nat.add_zero, List.nil_append] at right
      simp only [step, running.shows.data, slots]
      exact proceeds_quiet running ⟨⟨seen, right⟩, free⟩ exactly fun _ => by simp [remaining]
  | popClaim tail element =>
      obtain ⟨called, same, rfl⟩ := exactly
      cases weak with
      | true =>
          simp only [step, Bool.true_eq_false, and_false, if_false]
          exact proceeds_quiet running ⟨le_of_eq current, knows.2⟩
            ⟨called, same, current.trans same⟩ fun impossible => absurd impossible (by simp)
      | false =>
          have there := (knows.1.2 0 element rfl).2 same
          rw [running.pushed] at there
          have front := SoleRing.take_queue_succ there
          have nonempty : start.queue ≠ [] := by
            rintro none
            simp [none] at front
          refine proceeds_claim slots fits running same element [] knows ?_ ?_
            (by simp [remaining])
          · simp [step, current, same, Turn.move]
          · rw [called, Fifo.pop, if_neg (by simpa using nonempty), ← front]
            rfl
  | batch size =>
      obtain ⟨called, same⟩ := exactly
      simp only [step]
      split_ifs with none
      · refine proceeds_error running same knows ?_
        rw [called, Fifo.pop, if_pos none]
      · exact proceeds_quiet running ⟨le_of_eq current, knows⟩
          ⟨called, same, current.trans same, none⟩ fun _ => by simp [remaining]
  | batchHead size tail =>
      obtain ⟨called, same, rfl, some⟩ := exactly
      have length := running.length_queue same
      simp only [step, running.shows.head]
      rw [sub64_of_le (by omega) (by omega), ← length]
      split_ifs with none
      · have vacant : start.queue = [] := List.length_eq_zero_iff.mp (by omega)
        refine proceeds_error running same knows.2 ?_
        rw [called, Fifo.pop, if_neg some, vacant]
        rfl
      · refine proceeds_copy running same called some (by omega) (Nat.min_le_right _ _)
          (Nat.zero_le _) rfl ?_ (copied_nil _) knows.2 ?_
        · rw [called, Mpsc.Consumer.pop_batch_eq some _ fun vacant => none (by simp [vacant])]
        · simp only [remaining, List.length_nil]
          omega
  | check size tail toRead copied =>
      obtain ⟨⟨seen, right, more, bound⟩, free⟩ := knows
      obtain ⟨called, same, rfl, rest⟩ := exactly
      have holds := running.holds (p := start.taken + copied.length) (by omega) (by omega)
      simp only [step, running.shows.seq, slots]
      rw [add64_of_lt (a := start.taken) (by omega), add64_of_lt (by omega),
        if_neg (not_not.mpr holds.1)]
      exact proceeds_quiet running ⟨⟨seen, right, more, bound, le_of_eq holds.1.symm⟩, free⟩
        ⟨called, same, rfl, rest⟩ fun _ => by simp [remaining]
  | read size tail toRead copied =>
      obtain ⟨⟨seen, right, more, bound, past⟩, free⟩ := knows
      obtain ⟨called, same, rfl, some, few, front, accepted⟩ := exactly
      have lap := running.sound.head_le
      have there := (running.sound.holds_of_lt (by omega) (by omega) past).2.2
      rw [running.pushed] at there
      simp only [step, running.shows.data, slots]
      rw [add64_of_lt (by omega)]
      refine proceeds_copy running same called some (by omega) few (by simp; omega) ?_
        accepted (right.append running.sound past) free ?_
      · rw [List.length_append, List.length_singleton, ← SoleRing.take_queue_succ there, ← front]
      · simp only [remaining, List.length_append, List.length_singleton]
        omega
  | batchClaim size tail copied =>
      obtain ⟨called, same, rfl, some, accepted⟩ := exactly
      cases weak with
      | true =>
          simp only [step, Bool.true_eq_false, and_false, if_false]
          exact proceeds_quiet running ⟨le_of_eq current, knows.2⟩
            ⟨called, same, current.trans same, some⟩ fun impossible => absurd impossible (by simp)
      | false =>
          cases copied with
          | nil => exact absurd rfl knows.1.2.2
          | cons element rest =>
              refine proceeds_claim slots fits running same element rest knows ?_ accepted
                (by simp [remaining])
              simp [step, current, same, release, Turn.goOn]
  | free tail freed element rest => exact proceeds_free slots fits running knows exactly

/-- A pop on a ring at rest returns, and it returns what the bounded queue does. -/
theorem pop_alone (slots : ∀ p, slotOf capacity p = p % capacity)
    (rests : SoleRing.Rests capacity segment start) (fits : start.head + capacity ≤ 2 ^ 64) :
    (∃ reply after final,
      Completes (step capacity) segment (Consumer.start call) reply after final) ∧
    ∀ {reply after final},
      Completes (step capacity) segment (Consumer.start call) reply after final →
        call.Done capacity start reply after final := by
  have begin : During capacity start call segment (Consumer.start call) := by
    have free : Free start () := fun p owner => by
      rw [rests.freer p] at owner
      cases owner
    refine ⟨start, ⟨rests.sound, rests.shows, rests.tail, rests.writer, rfl⟩, ?_, ?_⟩
    · cases call <;> exact free
    · cases call <;> exact ⟨rfl, rfl⟩
  exact Completes.total remaining
    (fun weak _ _ during => step_proceeds slots fits weak during) begin

end Alone

end Mpmc.Consumer

end Join
