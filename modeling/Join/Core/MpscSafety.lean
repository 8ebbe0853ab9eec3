import Join.Core.RingSystem

/-!
# One consumer

What the consumer of `Mpsc` knows between two of its steps. It gives each slot back
as soon as it has read it and stores the tail at the end of the call, so the tail of
the segment is behind the positions taken while a call is under way.

In that window a single push may claim a slot that is free again, and then the head is
more than a lap ahead of the tail. A batch push computes its space from the tail: if it
reads the tail in that window the subtraction wraps, the space is all it asks for, and
it overwrites elements that are still to be read. Runs in which this does not happen
are safe.
-/

set_option autoImplicit false

namespace Join

open Library

namespace Mpsc.Consumer

variable {α P : Type}

/-- The tail of the segment is behind the positions taken, and no slot is held back. -/
def Linked (ring : Ring α P Unit) (tail : ℕ) : Prop :=
  tail ≤ ring.taken ∧ ∀ p, ring.freer p = none

/-- The facts the consumer relies on in each local state. -/
def Knows (capacity : ℕ) (ring : Ring α P Unit) (current : ℕ) : Consumer α → Prop
  | .idle | .pop | .batch _ => current = ring.taken
  | .popSlot tail | .batchHead _ tail => current = tail ∧ ring.taken = tail
  | .popRead tail => current = tail ∧ ring.taken = tail ∧ tail + 1 ≤ ring.seq (tail % capacity)
  | .popFree tail element =>
      current = tail ∧ ring.taken = tail ∧ tail + 1 ≤ ring.seq (tail % capacity) ∧
        ring.pushed[tail]? = some element
  | .check tail toRead popped =>
      current = tail ∧ ring.taken = tail + popped.length ∧ tail + toRead ≤ ring.head
  | .read tail toRead popped =>
      current = tail ∧ ring.taken = tail + popped.length ∧ tail + toRead ≤ ring.head ∧
        tail + popped.length + 1 ≤ ring.seq ((tail + popped.length) % capacity)
  | .free tail toRead popped element =>
      current = tail ∧ ring.taken = tail + popped.length ∧ tail + toRead ≤ ring.head ∧
        tail + popped.length + 1 ≤ ring.seq ((tail + popped.length) % capacity) ∧
        ring.pushed[tail + popped.length]? = some element
  | .storeTail tail popped => current = tail ∧ ring.taken = tail + popped.length

/-- A step of a producer keeps what the consumer knows. -/
theorem Knows.stable {capacity : ℕ} {ring after : Ring α P Unit} {current : ℕ}
    {now : Consumer α} (knows : now.Knows capacity ring current) (grows : ring.Grows after)
    (taken : after.taken = ring.taken) : now.Knows capacity after current := by
  have head := grows.head
  cases now with
  | idle => exact Eq.trans knows taken.symm
  | pop => exact Eq.trans knows taken.symm
  | batch size => exact Eq.trans knows taken.symm
  | popSlot tail => exact ⟨knows.1, taken.trans knows.2⟩
  | batchHead size tail => exact ⟨knows.1, taken.trans knows.2⟩
  | popRead tail =>
      obtain ⟨same, all, past⟩ := knows
      exact ⟨same, taken.trans all, past.trans (grows.seq _)⟩
  | popFree tail element =>
      obtain ⟨same, all, past, there⟩ := knows
      exact ⟨same, taken.trans all, past.trans (grows.seq _), grows.getElem? there⟩
  | check tail toRead popped =>
      obtain ⟨same, all, bound⟩ := knows
      exact ⟨same, taken.trans all, bound.trans head⟩
  | read tail toRead popped =>
      obtain ⟨same, all, bound, past⟩ := knows
      exact ⟨same, taken.trans all, bound.trans head, past.trans (grows.seq _)⟩
  | free tail toRead popped element =>
      obtain ⟨same, all, bound, past, there⟩ := knows
      exact ⟨same, taken.trans all, bound.trans head, past.trans (grows.seq _),
        grows.getElem? there⟩
  | storeTail tail popped => exact ⟨knows.1, taken.trans knows.2⟩

/-! ## A step of the consumer -/

section Step

variable {capacity : ℕ} {ring : Ring α P Unit} {segment : FullSegment α}

/-- What a step of the consumer does to the ring, see `RingPolicy.Takes`. -/
abbrev Takes (capacity : ℕ) (ring : Ring α P Unit) (now : Consumer α)
    (turn : QueueTurn (Consumer α) α) (after : Ring α P Unit) : Prop :=
  (Mpsc.policy α).Takes capacity Linked
    (fun ring tail _ now => Knows capacity ring tail now) () ring now turn after

/-- A step that changes neither the slots nor the ring. -/
theorem takes_quiet (shows : segment.Shows ring) (linked : Linked ring segment.tail)
    {now next : Consumer α} {reply : Option (QueueReply α)}
    (knows : next.Knows capacity ring segment.tail)
    (account : QueueReply.elements reply ++ next.inFlight = now.inFlight) :
    Takes capacity ring now ⟨segment, next, [], reply⟩ ring where
  runs := .refl
  shows := shows
  linked := linked
  knows := knows
  pushed := rfl
  taken := rfl
  moved := by simp
  account := account.trans (List.append_nil _).symm

/-- The ring after the consumer has taken the next position and given its slot back. -/
def pass (capacity : ℕ) (ring : Ring α P Unit) : Ring α P Unit :=
  (ring.take () 1).free capacity ring.taken

/-- Taking a position and giving its slot back is one step of the consumer. -/
theorem takes_pass (sound : ring.Sound capacity) (shows : segment.Shows ring)
    (linked : Linked ring segment.tail) {now next : Consumer α} {reply : Option (QueueReply α)}
    {element : α} (past : ring.taken + 1 ≤ ring.seq (ring.taken % capacity))
    (there : ring.pushed[ring.taken]? = some element)
    (knows : next.Knows capacity (pass capacity ring) segment.tail)
    (account : QueueReply.elements reply ++ next.inFlight = now.inFlight ++ [element]) :
    Takes capacity ring now
      ⟨segment.storeSeq (ring.taken % capacity) (ring.taken + capacity), next, [element], reply⟩
      (pass capacity ring) where
  runs := by
    have take : ring.Moves capacity (.inr ()) (ring.take () 1) := by
      refine .take () 1 fun j inside => ?_
      rw [Nat.lt_one_iff.mp inside]
      exact past
    have free : (ring.take () 1).Moves capacity (.inr ()) (pass capacity ring) := by
      refine .free () ring.taken ?_
      simp [Ring.take]
    exact (Relation.ReflTransGen.single take).tail free
  shows := ⟨shows.head, by simp [pass, Ring.free, Ring.take, shows.seq],
    by simp [pass, Ring.free, Ring.take, shows.data]⟩
  linked := by
    refine ⟨Nat.le_succ_of_le linked.1, fun p => ?_⟩
    by_cases same : p = ring.taken
    · simp [pass, Ring.free, same]
    · simp only [pass, Ring.free, Ring.take, Function.update_of_ne same]
      rw [if_neg (by omega), linked.2]
  knows := knows
  pushed := rfl
  taken := rfl
  moved := by
    intro j item found
    cases j with
    | zero =>
        cases found
        exact there
    | succ j => simp at found
  account := account

/-- After the loop over the slots. -/
theorem takes_settle (shows : segment.Shows ring) (linked : Linked ring segment.tail)
    {now : Consumer α} {popped : List α} (same : now.inFlight = popped)
    (all : ring.taken = segment.tail + popped.length) :
    Takes capacity ring now (settle segment segment.tail popped) ring := by
  unfold settle
  split_ifs with none
  · rw [List.isEmpty_iff] at none
    subst none
    exact takes_quiet shows linked all.symm same.symm
  · exact takes_quiet shows linked ⟨rfl, all⟩ same.symm

/-- Giving a slot back inside the loop, and going on to the next slot or leaving it. -/
theorem takes_free (slots : ∀ p, slotOf capacity p = p % capacity) (sound : ring.Sound capacity)
    (shows : segment.Shows ring) (linked : Linked ring segment.tail)
    (fits : ring.head + capacity ≤ 2 ^ 64) {tail toRead : ℕ} {popped : List α} {element : α}
    (knows : (Consumer.free tail toRead popped element).Knows capacity ring segment.tail) :
    ∃ after, Takes capacity ring (.free tail toRead popped element)
      (step capacity segment (.free tail toRead popped element)) after := by
  obtain ⟨same, all, bound, past, there⟩ := knows
  have inside : tail + popped.length < ring.head := (List.getElem?_eq_some_iff.mp there).1
  refine ⟨pass capacity ring, ?_⟩
  simp only [step]
  rw [add64_of_lt (a := tail) (by omega), add64_of_lt (by omega), slots]
  rw [← all] at past there ⊢
  have total : (pass capacity ring).taken = tail + (popped ++ [element]).length := by
    simp only [pass, Ring.free, Ring.take, List.length_append, List.length_singleton]
    omega
  unfold drain settle
  split_ifs with more none
  · exact takes_pass sound shows linked past there ⟨same, total, bound⟩ rfl
  · simp at none
  · exact takes_pass sound shows linked past there ⟨same, total⟩ rfl

/-- Every step of the consumer is a move of the ring, or none, and leads to what the
consumer knows next. -/
theorem step_takes (slots : ∀ p, slotOf capacity p = p % capacity) (sound : ring.Sound capacity)
    (shows : segment.Shows ring) (linked : Linked ring segment.tail)
    (fits : ring.head + capacity ≤ 2 ^ 64) {now : Consumer α}
    (knows : now.Knows capacity ring segment.tail) :
    ∃ after, Takes capacity ring now (step capacity segment now) after := by
  have two := sound.two
  have low := sound.taken_le
  cases now with
  | idle => exact ⟨ring, takes_quiet shows linked knows rfl⟩
  | pop => exact ⟨ring, takes_quiet shows linked ⟨rfl, knows.symm⟩ rfl⟩
  | popSlot tail =>
      obtain ⟨same, all⟩ := knows
      simp only [step]
      split_ifs with other
      · exact ⟨ring, takes_quiet shows linked (same.trans all.symm) rfl⟩
      · rw [not_not, shows.seq, slots, add64_of_lt (by omega)] at other
        exact ⟨ring, takes_quiet shows linked ⟨same, all, le_of_eq other.symm⟩ rfl⟩
  | popRead tail =>
      obtain ⟨same, all, past⟩ := knows
      have holds := sound.holds_of_lt (le_of_eq all) (by omega) past
      simp only [step, shows.data, slots]
      exact ⟨ring, takes_quiet shows linked ⟨same, all, past, holds.2.2⟩ rfl⟩
  | popFree tail element =>
      obtain ⟨same, all, past, there⟩ := knows
      subst all
      have inside : ring.taken < ring.head := (List.getElem?_eq_some_iff.mp there).1
      simp only [step, slots]
      rw [add64_of_lt (by omega)]
      exact ⟨_, takes_pass sound shows linked past there ⟨same, rfl⟩ rfl⟩
  | batch size =>
      simp only [step]
      split_ifs
      · exact ⟨ring, takes_quiet shows linked knows rfl⟩
      · exact ⟨ring, takes_quiet shows linked ⟨rfl, knows.symm⟩ rfl⟩
  | batchHead size tail =>
      obtain ⟨rfl, all⟩ := knows
      simp only [step, drain]
      split_ifs
      · refine ⟨ring, takes_quiet shows linked ⟨rfl, all, ?_⟩ rfl⟩
        rw [shows.head, sub64_of_le (by omega) (by omega)]
        omega
      · exact ⟨ring, takes_settle shows linked rfl all⟩
  | check tail toRead popped =>
      obtain ⟨rfl, all, bound⟩ := knows
      simp only [step]
      split_ifs with other
      · exact ⟨ring, takes_settle shows linked rfl all⟩
      · rw [not_not, shows.seq, slots, add64_of_lt (a := segment.tail) (by omega),
          add64_of_lt (by omega)] at other
        exact ⟨ring, takes_quiet shows linked ⟨rfl, all, bound, le_of_eq other.symm⟩ rfl⟩
  | read tail toRead popped =>
      obtain ⟨same, all, bound, past⟩ := knows
      have holds := sound.holds_of_lt (le_of_eq all) (by omega) past
      simp only [step, shows.data, slots]
      rw [add64_of_lt (by omega)]
      exact ⟨ring, takes_quiet shows linked ⟨same, all, bound, past, holds.2.2⟩ rfl⟩
  | free tail toRead popped element => exact takes_free slots sound shows linked fits knows
  | storeTail tail popped =>
      obtain ⟨rfl, all⟩ := knows
      refine ⟨ring, ?_⟩
      have total : add64 segment.tail popped.length = ring.taken := by
        rw [add64_of_lt (by omega), all]
      exact {
        runs := .refl
        shows := ⟨shows.head, shows.seq, shows.data⟩
        linked := ⟨le_of_eq total, linked.2⟩
        knows := total
        pushed := rfl
        taken := rfl
        moved := by simp [step, Turn.finish]
        account := rfl }

end Step

end Mpsc.Consumer

/-- The consumer of `Mpsc` keeps the laws. -/
def Mpsc.laws {α : Type} {capacity : ℕ} (slots : ∀ p, slotOf capacity p = p % capacity)
    (P : Type) : (Mpsc.policy α).Laws capacity P Unit where
  Linked := Mpsc.Consumer.Linked
  Knows := fun ring tail _ now => Mpsc.Consumer.Knows capacity ring tail now
  linked_fresh := fun _ _ => ⟨le_refl _, fun _ => rfl⟩
  knows_fresh := fun _ _ _ => rfl
  inFlight_idle := rfl
  behind := fun linked => linked.1
  orderly := fun linked => .inr linked.2
  linked_of_eq := fun linked taken freer => ⟨taken ▸ linked.1, freer ▸ linked.2⟩
  knows_of_eq := fun knows grows taken _ => Mpsc.Consumer.Knows.stable knows grows taken
  knows_of_other := fun different => absurd rfl different
  knows_start := by
    intro ring tail who now call idle knows
    cases now with
    | idle => cases call <;> exact knows
    | _ => cases idle
  inFlight_start := by
    intro now call idle
    cases now with
    | idle => cases call <;> exact ⟨rfl, rfl⟩
    | _ => cases idle
  takes := fun _ sound shows linked fits knows =>
    Mpsc.Consumer.step_takes slots sound shows linked fits knows

/-- The claims that a batch push has computed from the current head keep to the lap, and
the count they were computed from is at most the capacity. -/
def RingSystem.Reserved {α P K : Type} {policy : RingPolicy α} (capacity : ℕ)
    (system : RingSystem policy P K) : Prop :=
  ∀ who elements tail toWrite,
    system.producer who = .batchClaim elements system.segment.head tail toWrite →
      sub64 system.segment.head tail ≤ capacity ∧
        system.pushed.length + toWrite ≤ system.popped.length + capacity

/-- With one consumer every run is safe in which the batch pushes read the tail while it
is not more than a lap behind the head they have seen. -/
theorem mpsc_safe {α P : Type} [DecidableEq P] (requested : ℕ)
    (word : requested < 2 ^ 64) (two : 2 ≤ roundPow2 requested) (memory : ℕ → QueueSlotFull α)
    {system : RingSystem (Mpsc.policy α) P Unit}
    (run : RingSystem.Run (roundPow2 requested) (RingSystem.Spacious (roundPow2 requested))
      (RingSystem.initial (Mpsc.policy α) P Unit (roundPow2 requested) memory) system)
    (fits : system.pushed.length + roundPow2 requested ≤ 2 ^ 64) :
    system.Safe (roundPow2 requested) ∧ system.Reserved (roundPow2 requested) ∧
      system.segment.tail ≤ system.popped.length := by
  rcases roundPow2_cases word with none | ⟨k, small, power⟩
  · omega
  · have slots : ∀ p, slotOf (roundPow2 requested) p = p % roundPow2 requested := by
      rw [power]
      exact slotOf_two_pow small
    have bound : roundPow2 requested < 2 ^ 64 := by
      rw [power]
      exact Nat.pow_lt_pow_right (by omega) (by omega)
    obtain ⟨ring, good⟩ := RingSystem.Good.run slots bound (fun _ spacious => spacious)
      (RingSystem.initial_good (Mpsc.laws slots P) two memory) run fits
    have length : ring.head = system.pushed.length := by simp [Ring.head, good.pushed]
    refine ⟨good.safe slots fits, ?_, ?_⟩
    · intro who elements tail toWrite here
      have knows := good.producers who
      rw [here] at knows
      obtain ⟨room, count⟩ := knows.1.2.2.2 good.shows.head.symm
      rw [good.shows.head, length, good.taken] at room
      exact ⟨count, room⟩
    · have linked : system.segment.tail ≤ ring.taken := good.linked.1
      rwa [good.taken] at linked

/-- A batch and single pushes, popped by single and batch pops. -/
def mixedCalls : List (RingAction ℕ Bool Unit) :=
  List.flatten [[.push true (.tryPushBatch [1, 2])], List.replicate 7 (.produce true false),
    [.pop () .tryPop, .push false (.tryPush 3)], List.replicate 4 (.consume () false),
    List.replicate 5 (.produce false false), [.consume () false, .pop () (.tryPopBatch 4)],
    List.replicate 9 (.consume () false)]

theorem mpsc_safe_mixed :
    ∃ system : RingSystem (Mpsc.policy ℕ) Bool Unit,
      system.returned () = [1, 2, 3] ∧ system.stored true = [1, 2] ∧ system.stored false = [3] ∧
        system.Safe 2 := by
  have run : ((RingSystem.perform 2 (RingSystem.Spacious 2)
      (RingSystem.initial (Mpsc.policy ℕ) Bool Unit 2 fun _ => ⟨0, 0⟩) mixedCalls).any
      fun system => system.returned () == [1, 2, 3] && (system.stored true == [1, 2] &&
        (system.stored false == [3] && system.pushed.length == 3))) = true := by
    decide +kernel
  obtain ⟨system, performed, tested⟩ := (Option.any_eq_true ..).mp run
  simp only [Bool.and_eq_true, beq_iff_eq] at tested
  obtain ⟨returned, first, second, count⟩ := tested
  refine ⟨system, returned, first, second, ?_⟩
  exact (mpsc_safe 2 (by decide) (by decide) (fun _ => ⟨0, 0⟩)
    (RingSystem.run_of_perform performed) (by rw [count]; decide)).1

/-- The consumer has given a slot back and not stored the tail yet, a single push has
claimed the slot, and a batch push computes its space. -/
def batchBehindSingle : List (RingAction ℕ Bool Unit) :=
  List.flatten [[.push true (.tryPush 1)], List.replicate 5 (.produce true false),
    [.push true (.tryPush 2)], List.replicate 5 (.produce true false),
    [.pop () .tryPop], List.replicate 4 (.consume () false),
    [.push true (.tryPush 3)], List.replicate 5 (.produce true false),
    [.push false (.tryPushBatch [4, 5, 6])], List.replicate 4 (.produce false false)]

/-- The batch push claims three positions at once and overwrites the element 2, which nobody has
read. -/
theorem mpsc_batch_overwrites :
    ∃ system : RingSystem (Mpsc.policy ℕ) Bool Unit,
      RingSystem.Run 2 (fun _ _ => True)
        (RingSystem.initial (Mpsc.policy ℕ) Bool Unit 2 fun _ => ⟨0, 0⟩) system ∧
      system.pushed = [(true, 1), (true, 2), (true, 3), (false, 4), (false, 5), (false, 6)] ∧
      system.popped = [((), 1)] ∧ system.segment.data (slotOf 2 1) = 4 ∧ ¬ system.Safe 2 := by
  have run : ((RingSystem.perform 2 (fun _ _ => True)
      (RingSystem.initial (Mpsc.policy ℕ) Bool Unit 2 fun _ => ⟨0, 0⟩) batchBehindSingle).any
      fun system =>
        system.pushed == [(true, 1), (true, 2), (true, 3), (false, 4), (false, 5), (false, 6)] &&
          (system.popped == [((), 1)] && system.segment.data (slotOf 2 1) == 4)) = true := by
    decide +kernel
  obtain ⟨system, performed, tested⟩ := (Option.any_eq_true ..).mp run
  simp only [Bool.and_eq_true, beq_iff_eq] at tested
  obtain ⟨pushed, popped, data⟩ := tested
  refine ⟨system, RingSystem.run_of_perform performed, pushed, popped, data, fun safe => ?_⟩
  have lap := safe.lap
  rw [pushed, popped] at lap
  exact absurd lap (by decide)

end Join
