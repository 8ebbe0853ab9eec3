import Join.Core.RingSystem

/-!
# Many consumers

What a consumer of `Mpmc` knows between two of its steps. A consumer copies elements
before it claims them: what it has copied is right if the tail has not moved since it
was read, and the compare-exchange of the tail checks just that.
-/

set_option autoImplicit false

namespace Join

open Library

namespace Mpmc.Consumer

variable {α P K : Type}

/-- The consumer has no position. -/
def Free (ring : Ring α P K) (who : K) : Prop := ∀ p, ring.freer p ≠ some who

/-- The elements copied from the positions after `tail`: each was published, and if
nobody has taken the positions since, they are the elements of those positions. -/
def Copied (capacity : ℕ) (ring : Ring α P K) (tail : ℕ) (copied : List α) : Prop :=
  ∀ j element, copied[j]? = some element →
    tail + j + 1 ≤ ring.seq ((tail + j) % capacity) ∧
      (ring.taken = tail → ring.pushed[tail + j]? = some element)

/-- The facts a consumer relies on in each local state. -/
def Knows (capacity : ℕ) (ring : Ring α P K) (who : K) : Consumer α → Prop
  | .idle | .pop | .batch _ => Free ring who
  | .popSlot tail | .batchHead _ tail => tail ≤ ring.taken ∧ Free ring who
  | .popRead tail =>
      (tail ≤ ring.taken ∧ tail + 1 ≤ ring.seq (tail % capacity)) ∧ Free ring who
  | .popClaim tail element =>
      (tail ≤ ring.taken ∧ Copied capacity ring tail [element]) ∧ Free ring who
  | .check _ tail toRead copied =>
      (tail ≤ ring.taken ∧ Copied capacity ring tail copied ∧ copied.length < toRead ∧
        tail + toRead ≤ ring.head) ∧ Free ring who
  | .read _ tail toRead copied =>
      (tail ≤ ring.taken ∧ Copied capacity ring tail copied ∧ copied.length < toRead ∧
        tail + toRead ≤ ring.head ∧
        tail + copied.length + 1 ≤ ring.seq ((tail + copied.length) % capacity)) ∧ Free ring who
  | .batchClaim _ tail copied =>
      (tail ≤ ring.taken ∧ Copied capacity ring tail copied ∧ copied ≠ []) ∧ Free ring who
  | .free tail freed _ rest => ∀ p, ring.freer p = some who ↔
      tail + freed.length ≤ p ∧ p < tail + freed.length + (rest.length + 1)

/-! ## The steps of others -/

section Stable

variable {capacity : ℕ} {ring after : Ring α P K} {who : K}

theorem Free.stable (free : Free ring who) (keeps : ring.KeepsFreer who after) :
    Free after who := fun p owner => free p ((keeps p).mpr owner)

theorem Copied.stable {tail : ℕ} {copied : List α} (right : Copied capacity ring tail copied)
    (seen : tail ≤ ring.taken) (grows : ring.Grows after) :
    Copied capacity after tail copied := by
  intro j element there
  obtain ⟨past, same⟩ := right j element there
  refine ⟨past.trans (grows.seq _), fun still => ?_⟩
  have taken := grows.taken
  exact grows.getElem? (same (by omega))

/-- A step of another party keeps what a consumer knows. -/
theorem Knows.stable {now : Consumer α} (knows : now.Knows capacity ring who)
    (grows : ring.Grows after) (keeps : ring.KeepsFreer who after) :
    now.Knows capacity after who := by
  have taken := grows.taken
  have head := grows.head
  cases now with
  | idle => exact Free.stable knows keeps
  | pop => exact Free.stable knows keeps
  | batch size => exact Free.stable knows keeps
  | popSlot tail => exact ⟨knows.1.trans taken, knows.2.stable keeps⟩
  | batchHead size tail => exact ⟨knows.1.trans taken, knows.2.stable keeps⟩
  | popRead tail =>
      exact ⟨⟨knows.1.1.trans taken, knows.1.2.trans (grows.seq _)⟩, knows.2.stable keeps⟩
  | popClaim tail element =>
      obtain ⟨⟨seen, right⟩, free⟩ := knows
      exact ⟨⟨seen.trans taken, right.stable seen grows⟩, free.stable keeps⟩
  | check size tail toRead copied =>
      obtain ⟨⟨seen, right, more, bound⟩, free⟩ := knows
      exact ⟨⟨seen.trans taken, right.stable seen grows, more, bound.trans head⟩,
        free.stable keeps⟩
  | read size tail toRead copied =>
      obtain ⟨⟨seen, right, more, bound, past⟩, free⟩ := knows
      exact ⟨⟨seen.trans taken, right.stable seen grows, more, bound.trans head,
        past.trans (grows.seq _)⟩, free.stable keeps⟩
  | batchClaim size tail copied =>
      obtain ⟨⟨seen, right, some⟩, free⟩ := knows
      exact ⟨⟨seen.trans taken, right.stable seen grows, some⟩, free.stable keeps⟩
  | free tail freed element rest => exact fun p => (keeps p).symm.trans (knows p)

end Stable

/-! ## A step of the consumer -/

/-- The tail of the segment counts the positions taken. -/
def Linked (ring : Ring α P K) (tail : ℕ) : Prop := tail = ring.taken

section Step

variable {capacity : ℕ} {ring : Ring α P K} {segment : FullSegment α} {who : K}

/-- What a step of a consumer does to the ring, see `RingPolicy.Takes`. -/
abbrev Takes (capacity : ℕ) (who : K) (ring : Ring α P K) (now : Consumer α)
    (turn : QueueTurn (Consumer α) α) (after : Ring α P K) : Prop :=
  (Mpmc.policy α).Takes capacity Linked (fun ring _ who now => Knows capacity ring who now) who
    ring now turn after

/-- A step that changes neither the memory nor the ring. -/
theorem takes_quiet (shows : segment.Shows ring) (linked : Linked ring segment.tail)
    {now next : Consumer α} {reply : Option (QueueReply α)}
    (knows : next.Knows capacity ring who)
    (account : QueueReply.elements reply ++ next.inFlight = now.inFlight) :
    Takes capacity who ring now ⟨segment, next, [], reply⟩ ring where
  runs := .refl
  shows := shows
  linked := linked
  knows := knows
  pushed := rfl
  taken := rfl
  moved := by simp
  account := account.trans (List.append_nil _).symm

/-- The element of a published position, read while its position is the next to be
taken or later, is that of the position. -/
theorem Copied.append (sound : ring.Sound capacity) {tail : ℕ} {copied : List α}
    (right : Copied capacity ring tail copied)
    (past : tail + copied.length + 1 ≤ ring.seq ((tail + copied.length) % capacity)) :
    Copied capacity ring tail (copied ++ [ring.data ((tail + copied.length) % capacity)]) := by
  intro j element there
  rcases Nat.lt_trichotomy j copied.length with old | rfl | beyond
  · rw [List.getElem?_append_left old] at there
    exact right j element there
  · rw [List.getElem?_append_right (le_refl _), Nat.sub_self, List.getElem?_cons_zero] at there
    cases there
    refine ⟨past, ?_⟩
    rintro rfl
    have ready : ∀ j < copied.length + 1,
        ring.taken + j + 1 ≤ ring.seq ((ring.taken + j) % capacity) := by
      intro j inside
      rcases Nat.lt_succ_iff_lt_or_eq.mp inside with old | rfl
      · exact (right j _ (List.getElem?_eq_getElem old)).1
      · exact past
    exact (sound.holds_of_ready ready (Nat.lt_succ_self _)).2.2
  · rw [List.getElem?_eq_none (by simp; omega)] at there
    cases there

theorem copied_nil (tail : ℕ) : Copied capacity ring tail [] := by
  intro j element there
  simp at there

/-- After the loop that copies the elements. -/
theorem takes_settle (shows : segment.Shows ring) (linked : Linked ring segment.tail)
    {now : Consumer α} (idle : now.inFlight = []) {size tail : ℕ} {copied : List α}
    (seen : tail ≤ ring.taken) (right : Copied capacity ring tail copied) (free : Free ring who) :
    Takes capacity who ring now (settle segment size tail copied) ring := by
  unfold settle
  split_ifs with none
  · exact takes_quiet shows linked free idle.symm
  · refine takes_quiet shows linked ⟨⟨seen, right, ?_⟩, free⟩ idle.symm
    simpa using none

/-- At the head of the loop that copies the elements. -/
theorem takes_copy (shows : segment.Shows ring) (linked : Linked ring segment.tail)
    {now : Consumer α} (idle : now.inFlight = []) {size tail toRead : ℕ} {copied : List α}
    (seen : tail ≤ ring.taken) (right : Copied capacity ring tail copied)
    (bound : tail + toRead ≤ ring.head) (free : Free ring who) :
    Takes capacity who ring now (copy segment size tail toRead copied) ring := by
  unfold copy
  split_ifs with more
  · exact takes_quiet shows linked ⟨⟨seen, right, more, bound⟩, free⟩ idle.symm
  · exact takes_settle shows linked idle seen right free

/-- The positions taken by a compare-exchange that succeeds. -/
theorem takes_claim (sound : ring.Sound capacity) (shows : segment.Shows ring)
    (linked : Linked ring segment.tail) (fits : ring.head + capacity ≤ 2 ^ 64)
    {now : Consumer α} (idle : now.inFlight = []) {element : α} {rest : List α}
    (right : Copied capacity ring segment.tail (element :: rest)) (free : Free ring who) :
    Takes capacity who ring now
      ⟨{ segment with tail := add64 segment.tail (rest.length + 1) },
        .free segment.tail [] element rest, element :: rest, none⟩
      (ring.take who (rest.length + 1)) := by
  unfold Linked at linked
  rw [linked] at right ⊢
  have ready : ∀ j < rest.length + 1,
      ring.taken + j + 1 ≤ ring.seq ((ring.taken + j) % capacity) := by
    intro j inside
    exact (right j _ (List.getElem?_eq_getElem (l := element :: rest) inside)).1
  have after := sound.take who ready
  have small : ring.taken + (rest.length + 1) ≤ ring.head := after.taken_le
  have two := sound.two
  exact {
    runs := .single (.take who _ ready)
    shows := ⟨shows.head, shows.seq, shows.data⟩
    linked := add64_of_lt (by omega)
    knows := by
      intro p
      simp only [Ring.take, List.length_nil, Nat.add_zero]
      by_cases inside : ring.taken ≤ p ∧ p < ring.taken + (rest.length + 1)
      · simp [inside]
      · simp only [if_neg inside, iff_false_right inside]
        exact free p
    pushed := rfl
    taken := rfl
    moved := fun j item there => (right j item there).2 rfl
    account := by
      change element :: rest = now.inFlight ++ element :: rest
      rw [idle, List.nil_append] }

/-- Giving a slot back, and going to the next or returning. -/
theorem takes_free (slots : ∀ p, slotOf capacity p = p % capacity) (sound : ring.Sound capacity)
    (shows : segment.Shows ring) (linked : Linked ring segment.tail)
    (fits : ring.head + capacity ≤ 2 ^ 64) {tail : ℕ} {freed rest : List α} {element : α}
    (knows : (Consumer.free tail freed element rest).Knows capacity ring who) :
    Takes capacity who ring (.free tail freed element rest)
      (release (segment.storeSeq (slotOf capacity (add64 tail freed.length))
        (add64 (add64 tail freed.length) capacity)) tail (freed ++ [element]) rest)
      (ring.free capacity (tail + freed.length)) := by
  have owner : ring.freer (tail + freed.length) = some who := (knows _).mpr (by omega)
  have bound := (sound.freeing _ (by rw [owner]; exact Option.some_ne_none who)).1
  have low := sound.taken_le
  rw [add64_of_lt (a := tail) (by omega), add64_of_lt (by omega), slots]
  have move : ring.Moves capacity (.inr who) (ring.free capacity (tail + freed.length)) :=
    .free who _ owner
  have shown : (segment.storeSeq ((tail + freed.length) % capacity)
      (tail + freed.length + capacity)).Shows (ring.free capacity (tail + freed.length)) :=
    ⟨shows.head, by simp [Ring.free, shows.seq], by simp [Ring.free, shows.data]⟩
  have remain : ∀ p, (ring.free capacity (tail + freed.length)).freer p = some who ↔
      tail + freed.length + 1 ≤ p ∧ p < tail + freed.length + 1 + rest.length := by
    intro p
    by_cases same : p = tail + freed.length
    · subst same
      simp only [Ring.free, Function.update_self, reduceCtorEq, false_iff]
      omega
    · simp only [Ring.free, Function.update_of_ne same]
      rw [knows p]
      omega
  cases rest with
  | nil =>
      exact {
        runs := .single move
        shows := shown
        linked := linked
        knows := by
          intro p owned
          have := (remain p).mp owned
          simp only [List.length_nil] at this
          omega
        pushed := rfl
        taken := rfl
        moved := by simp [release, Turn.finish]
        account := by simp [release, Turn.finish, QueueReply.elements, Mpmc.policy, inFlight] }
  | cons item rest =>
      exact {
        runs := .single move
        shows := shown
        linked := linked
        knows := by
          intro p
          rw [remain p, List.length_append, List.length_singleton, List.length_cons]
          omega
        pushed := rfl
        taken := rfl
        moved := by simp [release, Turn.goOn]
        account := by simp [release, Turn.goOn, QueueReply.elements, Mpmc.policy, inFlight] }

/-- Every step of a consumer is a move of the ring, or none, and leads to what the
consumer knows next. -/
theorem step_takes (slots : ∀ p, slotOf capacity p = p % capacity) (weak : Bool)
    (sound : ring.Sound capacity) (shows : segment.Shows ring)
    (linked : Linked ring segment.tail) (fits : ring.head + capacity ≤ 2 ^ 64)
    {now : Consumer α} (knows : now.Knows capacity ring who) :
    ∃ after, Takes capacity who ring now (step capacity weak segment now) after := by
  have two := sound.two
  have low := sound.taken_le
  have current : segment.tail ≤ ring.taken := le_of_eq linked
  cases now with
  | idle => exact ⟨ring, takes_quiet shows linked knows rfl⟩
  | pop => exact ⟨ring, takes_quiet shows linked ⟨current, knows⟩ rfl⟩
  | popSlot tail =>
      obtain ⟨seen, free⟩ := knows
      simp only [step]
      split_ifs with same less
      · rw [shows.seq, slots, add64_of_lt (by omega)] at same
        exact ⟨ring, takes_quiet shows linked ⟨⟨seen, le_of_eq same.symm⟩, free⟩ rfl⟩
      · exact ⟨ring, takes_quiet shows linked free rfl⟩
      · exact ⟨ring, takes_quiet shows linked free rfl⟩
  | popRead tail =>
      obtain ⟨⟨seen, past⟩, free⟩ := knows
      have right := (copied_nil tail).append sound past
      simp only [List.length_nil, Nat.add_zero, List.nil_append] at right
      simp only [step, shows.data, slots]
      exact ⟨ring, takes_quiet shows linked ⟨⟨seen, right⟩, free⟩ rfl⟩
  | popClaim tail element =>
      obtain ⟨⟨seen, right⟩, free⟩ := knows
      by_cases succeeds : segment.tail = tail ∧ weak = false
      · simp only [step, if_pos succeeds]
        obtain ⟨rfl, _⟩ := succeeds
        exact ⟨_, takes_claim sound shows linked fits rfl right free⟩
      · simp only [step, if_neg succeeds]
        exact ⟨ring, takes_quiet shows linked ⟨current, free⟩ rfl⟩
  | batch size =>
      simp only [step]
      split_ifs
      · exact ⟨ring, takes_quiet shows linked knows rfl⟩
      · exact ⟨ring, takes_quiet shows linked ⟨current, knows⟩ rfl⟩
  | batchHead size tail =>
      obtain ⟨seen, free⟩ := knows
      simp only [step]
      split_ifs with none
      · exact ⟨ring, takes_quiet shows linked free rfl⟩
      · refine ⟨ring, takes_copy shows linked rfl seen (copied_nil tail) ?_ free⟩
        rw [shows.head, sub64_of_le (by omega) (by omega)]
        omega
  | check size tail toRead copied =>
      obtain ⟨⟨seen, right, more, bound⟩, free⟩ := knows
      simp only [step]
      split_ifs with other
      · exact ⟨ring, takes_settle shows linked rfl seen right free⟩
      · rw [not_not, shows.seq, slots, add64_of_lt (a := tail) (by omega),
          add64_of_lt (by omega)] at other
        exact ⟨ring, takes_quiet shows linked
          ⟨⟨seen, right, more, bound, le_of_eq other.symm⟩, free⟩ rfl⟩
  | read size tail toRead copied =>
      obtain ⟨⟨seen, right, more, bound, past⟩, free⟩ := knows
      simp only [step, shows.data, slots]
      rw [add64_of_lt (by omega)]
      exact ⟨ring, takes_copy shows linked rfl seen (right.append sound past) bound free⟩
  | batchClaim size tail copied =>
      obtain ⟨⟨seen, right, some⟩, free⟩ := knows
      by_cases succeeds : segment.tail = tail ∧ weak = false
      · simp only [step, if_pos succeeds]
        obtain ⟨rfl, _⟩ := succeeds
        cases copied with
        | nil => exact absurd rfl some
        | cons element rest => exact ⟨_, takes_claim sound shows linked fits rfl right free⟩
      · simp only [step, if_neg succeeds]
        exact ⟨ring, takes_quiet shows linked ⟨current, free⟩ rfl⟩
  | free tail freed element rest => exact ⟨_, takes_free slots sound shows linked fits knows⟩

end Step

end Mpmc.Consumer

/-- The consumers of `Mpmc` keep the laws. -/
def Mpmc.laws {α : Type} {capacity : ℕ} (slots : ∀ p, slotOf capacity p = p % capacity)
    (P K : Type) : (Mpmc.policy α).Laws capacity P K where
  Linked := Mpmc.Consumer.Linked
  Knows := fun ring _ who now => Mpmc.Consumer.Knows capacity ring who now
  linked_fresh := fun _ _ => rfl
  knows_fresh := by
    intro seq data who p owner
    cases owner
  inFlight_idle := rfl
  behind := fun linked => le_of_eq linked
  orderly := fun _ => .inl rfl
  linked_of_eq := fun linked taken _ => linked.trans taken.symm
  knows_of_eq := fun knows grows _ freer =>
    Mpmc.Consumer.Knows.stable knows grows fun p => by rw [freer]
  knows_of_other := fun _ knows grows keeps => Mpmc.Consumer.Knows.stable knows grows keeps
  knows_start := by
    intro ring tail who now call idle knows
    cases now with
    | idle => cases call <;> exact knows
    | _ => cases idle
  inFlight_start := by
    intro now call idle
    cases now with
    | idle => cases call <;> exact ⟨rfl, rfl⟩
    | _ => cases idle
  takes := fun weak sound shows linked fits knows =>
    Mpmc.Consumer.step_takes slots weak sound shows linked fits knows

/-- With many consumers the tail is never more than a lap behind the head. -/
theorem Mpmc.spacious {α P K : Type} [DecidableEq P] [DecidableEq K] {capacity : ℕ}
    {slots : ∀ p, slotOf capacity p = p % capacity} {system : RingSystem (Mpmc.policy α) P K}
    {ring : Ring α P K} (good : system.Good (Mpmc.laws slots P K) ring)
    (action : RingAction α P K) : system.Spacious capacity action := by
  have linked : system.segment.tail = ring.taken := good.linked
  cases action with
  | produce who weak =>
      have knows := good.producers who
      simp only [RingSystem.Spacious, linked]
      cases now : system.producer who with
      | batchTail elements head =>
          rw [now] at knows
          exact knows.1.trans good.sound.head_le
      | _ => trivial
  | _ => trivial

/-- However the steps of producers and consumers interleave, the elements are claimed
and taken in one order, each by one party, completely written and never overwritten
before they are taken. -/
theorem mpmc_safe {α P K : Type} [DecidableEq P] [DecidableEq K] (requested : ℕ)
    (word : requested < 2 ^ 64) (two : 2 ≤ roundPow2 requested) (memory : ℕ → QueueSlotFull α)
    {system : RingSystem (Mpmc.policy α) P K}
    (run : RingSystem.Run (roundPow2 requested) (fun _ _ => True)
      (RingSystem.initial (Mpmc.policy α) P K (roundPow2 requested) memory) system)
    (fits : system.pushed.length + roundPow2 requested ≤ 2 ^ 64) :
    system.Safe (roundPow2 requested) ∧ system.segment.tail = system.popped.length := by
  rcases roundPow2_cases word with none | ⟨k, small, power⟩
  · omega
  · have slots : ∀ p, slotOf (roundPow2 requested) p = p % roundPow2 requested := by
      rw [power]
      exact slotOf_two_pow small
    have bound : roundPow2 requested < 2 ^ 64 := by
      rw [power]
      exact Nat.pow_lt_pow_right (by omega) (by omega)
    obtain ⟨ring, good⟩ := RingSystem.Good.run slots bound
      (fun good _ => Mpmc.spacious good _)
      (RingSystem.initial_good (Mpmc.laws slots P K) two memory) run fits
    have linked : system.segment.tail = ring.taken := good.linked
    exact ⟨good.safe slots fits, linked.trans good.taken⟩

/-- Two consumers race for the elements of a batch and of a single push. -/
def racingConsumers : List (RingAction ℕ Unit Bool) :=
  List.flatten [[.push () (.tryPushBatch [1, 2])], List.replicate 9 (.produce () false),
    [.pop false .tryPop, .pop true .tryPop], List.replicate 3 (.consume false false),
    List.replicate 5 (.consume true false), List.replicate 5 (.consume false false),
    [.push () (.tryPush 3)], List.replicate 3 (.produce () false)]

theorem mpmc_safe_race :
    ∃ system : RingSystem (Mpmc.policy ℕ) Unit Bool,
      system.returned true = [1] ∧ system.returned false = [2] ∧
        system.pushed = [((), 1), ((), 2), ((), 3)] ∧ system.Safe 2 := by
  have run : ((RingSystem.perform 2 (fun _ _ => True)
      (RingSystem.initial (Mpmc.policy ℕ) Unit Bool 2 fun _ => ⟨0, 0⟩) racingConsumers).any
      fun system => system.returned true == [1] && (system.returned false == [2] &&
        system.pushed == [((), 1), ((), 2), ((), 3)])) = true := by
    decide +kernel
  obtain ⟨system, performed, tested⟩ := (Option.any_eq_true ..).mp run
  simp only [Bool.and_eq_true, beq_iff_eq] at tested
  obtain ⟨first, second, pushed⟩ := tested
  refine ⟨system, first, second, pushed, ?_⟩
  exact (mpmc_safe 2 (by decide) (by decide) (fun _ => ⟨0, 0⟩)
    (RingSystem.run_of_perform performed) (by rw [pushed]; decide)).1

end Join
