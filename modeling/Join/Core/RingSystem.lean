import Join.Core.RingProducer

/-!
# Producers and consumers on one ring

Any number of producers and consumers run their calls on one segment, and the atomic
steps of the calls interleave in any order. The system records the elements in the
order in which their positions were claimed, by whom, and the elements that each
party has been told about by the calls that returned.

A policy gives the steps of its consumers. What has to be proved of them is collected
in `RingPolicy.Laws`: it is what `RingProducer` proves of the producers. From it follows
that every step of the system keeps `RingSystem.Good` (`RingSystem.Good.act`).
-/

set_option autoImplicit false

namespace Join

open Library

variable {α P K : Type}

/-- What distinguishes the policies: whether a batch push waits for each slot, and the
consumer. -/
structure RingPolicy (α : Type) where
  waits : Bool
  Consumer : Type
  idle : Consumer
  isIdle : Consumer → Bool
  start : PopCall → Consumer
  step : ℕ → Bool → FullSegment α → Consumer → QueueTurn Consumer α
  /-- The elements that the call has taken and not returned yet. -/
  inFlight : Consumer → List α

/-- The elements that a call of `Mpsc` has taken: each slot is given back at once. -/
def Mpsc.Consumer.inFlight {α : Type} : Mpsc.Consumer α → List α
  | .check _ _ popped | .read _ _ popped | .free _ _ popped _ | .storeTail _ popped => popped
  | _ => []

/-- The elements that a call of `Mpmc` has taken: their slots are given back one by one. -/
def Mpmc.Consumer.inFlight {α : Type} : Mpmc.Consumer α → List α
  | .free _ freed element rest => freed ++ element :: rest
  | _ => []

/-- `Mpsc`. -/
def Mpsc.policy (α : Type) : RingPolicy α where
  waits := false
  Consumer := Mpsc.Consumer α
  idle := .idle
  isIdle
    | .idle => true
    | _ => false
  start := Mpsc.Consumer.start
  step := fun capacity _ => Mpsc.Consumer.step capacity
  inFlight := Mpsc.Consumer.inFlight

/-- `Mpmc`. -/
def Mpmc.policy (α : Type) : RingPolicy α where
  waits := true
  Consumer := Mpmc.Consumer α
  idle := .idle
  isIdle
    | .idle => true
    | _ => false
  start := Mpmc.Consumer.start
  step := Mpmc.Consumer.step
  inFlight := Mpmc.Consumer.inFlight

/-- The segment, the local state of every call, and the history. -/
structure RingSystem (policy : RingPolicy α) (P K : Type) where
  segment : FullSegment α
  producer : P → Producer α
  consumer : K → policy.Consumer
  /-- The claimed positions in order, with the producer that claimed each. -/
  pushed : List (P × α)
  /-- The positions taken in order, with the consumer and what it read there. -/
  popped : List (K × α)
  /-- What the calls of a producer reported as pushed. -/
  stored : P → List α
  /-- What the calls of a consumer returned. -/
  returned : K → List α

/-- A party starts a call, or makes the next step of its call. -/
inductive RingAction (α P K : Type) where
  | push (who : P) (call : PushCall α)
  | produce (who : P) (weak : Bool)
  | pop (who : K) (call : PopCall)
  | consume (who : K) (weak : Bool)

namespace RingSystem

variable {policy : RingPolicy α}

/-- A segment that a queue object has just initialised, and nobody in a call. -/
def initial (policy : RingPolicy α) (P K : Type) (capacity : ℕ) (memory : ℕ → QueueSlotFull α) :
    RingSystem policy P K where
  segment := freshSegment capacity memory
  producer := fun _ => .idle
  consumer := fun _ => policy.idle
  pushed := []
  popped := []
  stored := fun _ => []
  returned := fun _ => []

variable [DecidableEq P] [DecidableEq K]

/-- One action; a party inside a call starts no other. -/
def act (capacity : ℕ) (system : RingSystem policy P K) :
    RingAction α P K → Option (RingSystem policy P K)
  | .push who call =>
      match system.producer who with
      | .idle =>
          some { system with producer := Function.update system.producer who (.start call) }
      | _ => none
  | .produce who weak =>
      let turn := (system.producer who).step policy.waits capacity weak system.segment
      some { system with
        segment := turn.memory
        producer := Function.update system.producer who turn.next
        pushed := system.pushed ++ turn.moved.map fun element => (who, element)
        stored := Function.update system.stored who
          (system.stored who ++ QueueReply.elements turn.reply) }
  | .pop who call =>
      if policy.isIdle (system.consumer who) then
        some { system with consumer := Function.update system.consumer who (policy.start call) }
      else none
  | .consume who weak =>
      let turn := policy.step capacity weak system.segment (system.consumer who)
      some { system with
        segment := turn.memory
        consumer := Function.update system.consumer who turn.next
        popped := system.popped ++ turn.moved.map fun element => (who, element)
        returned := Function.update system.returned who
          (system.returned who ++ QueueReply.elements turn.reply) }

/-- The elements that a producer has claimed positions for. -/
def pushedBy (system : RingSystem policy P K) (who : P) : List α :=
  (system.pushed.filter fun entry => entry.1 = who).map Prod.snd

/-- The elements that a consumer has taken. -/
def poppedBy (system : RingSystem policy P K) (who : K) : List α :=
  (system.popped.filter fun entry => entry.1 = who).map Prod.snd

end RingSystem

/-! ## What is asked of a consumer -/

/-- What a step of a consumer does to the ring. -/
structure RingPolicy.Takes (policy : RingPolicy α) (capacity : ℕ)
    (Linked : Ring α P K → ℕ → Prop) (Knows : Ring α P K → ℕ → K → policy.Consumer → Prop) (who : K) (ring : Ring α P K) (now : policy.Consumer) (turn : QueueTurn policy.Consumer α)
    (after : Ring α P K) : Prop where
  runs : Ring.Runs capacity (.inr who) ring after
  shows : turn.memory.Shows after
  linked : Linked after turn.memory.tail
  knows : Knows after turn.memory.tail who turn.next
  pushed : after.pushed = ring.pushed
  taken : after.taken = ring.taken + turn.moved.length
  moved : ∀ j element, turn.moved[j]? = some element →
    ring.pushed[ring.taken + j]? = some element
  account : QueueReply.elements turn.reply ++ policy.inFlight turn.next =
    policy.inFlight now ++ turn.moved

/-- The laws of the consumers of a policy. -/
structure RingPolicy.Laws (policy : RingPolicy α) (capacity : ℕ) (P K : Type) where
  /-- How the tail of the segment goes with the positions taken. -/
  Linked : Ring α P K → ℕ → Prop
  /-- The facts a consumer relies on, given the ring and the tail. -/
  Knows : Ring α P K → ℕ → K → policy.Consumer → Prop
  linked_fresh : ∀ (seq : ℕ → ℕ) (data : ℕ → α), Linked (.fresh seq data) 0
  knows_fresh : ∀ (seq : ℕ → ℕ) (data : ℕ → α) (who : K),
    Knows (.fresh seq data) 0 who policy.idle
  inFlight_idle : policy.inFlight policy.idle = []
  behind : ∀ {ring tail}, Linked ring tail → tail ≤ ring.taken
  orderly : ∀ {ring tail}, Linked ring tail → policy.waits = true ∨ ∀ p, ring.freer p = none
  linked_of_eq : ∀ {ring after tail}, Linked ring tail → after.taken = ring.taken →
    after.freer = ring.freer → Linked after tail
  knows_of_eq : ∀ {ring after tail who now}, Knows ring tail who now → ring.Grows after →
    after.taken = ring.taken → after.freer = ring.freer → Knows after tail who now
  knows_of_other : ∀ {ring after tail tail' who other now}, other ≠ who →
    Knows ring tail who now → ring.Grows after → ring.KeepsFreer who after →
    Knows after tail' who now
  knows_start : ∀ {ring tail who now} (call : PopCall), policy.isIdle now = true →
    Knows ring tail who now → Knows ring tail who (policy.start call)
  inFlight_start : ∀ {now} (call : PopCall), policy.isIdle now = true →
    policy.inFlight now = [] ∧ policy.inFlight (policy.start call) = []
  takes : ∀ {ring : Ring α P K} {segment : FullSegment α} {who : K} {now : policy.Consumer}
    (weak : Bool), ring.Sound capacity → segment.Shows ring → Linked ring segment.tail →
    ring.head + capacity ≤ 2 ^ 64 → Knows ring segment.tail who now →
    ∃ after, policy.Takes capacity Linked Knows who ring now
      (policy.step capacity weak segment now) after

namespace RingSystem

variable {policy : RingPolicy α} {capacity : ℕ}

/-- The invariant of the system: its segment shows a sound ring of which every party
knows what it relies on, and the history is that of the ring. -/
structure Good [DecidableEq P] [DecidableEq K] (laws : policy.Laws capacity P K)
    (system : RingSystem policy P K) (ring : Ring α P K) : Prop where
  sound : ring.Sound capacity
  shows : system.segment.Shows ring
  linked : laws.Linked ring system.segment.tail
  producers : ∀ who, (system.producer who).Knows capacity ring who
  consumers : ∀ who, laws.Knows ring system.segment.tail who (system.consumer who)
  pushed : ring.pushed = system.pushed.map Prod.snd
  taken : ring.taken = system.popped.length
  popped : ∀ (j : ℕ) (element : α), (system.popped.map Prod.snd)[j]? = some element →
    ring.pushed[j]? = some element
  stored : ∀ who,
    system.stored who ++ (system.producer who).inFlight = system.pushedBy who
  returned : ∀ who,
    system.returned who ++ policy.inFlight (system.consumer who) = system.poppedBy who

/-- A batch push reads the tail only while it is not more than a lap behind the head
that the push has seen. -/
def Spacious (capacity : ℕ) (system : RingSystem policy P K) : RingAction α P K → Prop
  | .produce who _ => (system.producer who).Within (system.segment.tail + capacity)
  | _ => True

instance (capacity : ℕ) (system : RingSystem policy P K) (action : RingAction α P K) :
    Decidable (system.Spacious capacity action) :=
  match action with
  | .produce who _ =>
      inferInstanceAs (Decidable ((system.producer who).Within (system.segment.tail + capacity)))
  | .push _ _ | .pop _ _ | .consume _ _ => .isTrue trivial

variable [DecidableEq P] [DecidableEq K] {laws : policy.Laws capacity P K}
  {system after : RingSystem policy P K} {ring : Ring α P K}

/-- A prefix of the positions grows by what is taken next. -/
theorem popped_append {taken : ℕ} {popped moved pushed : List α} (length : popped.length = taken)
    (before : ∀ (j : ℕ) (element : α), popped[j]? = some element → pushed[j]? = some element)
    (next : ∀ (j : ℕ) (element : α), moved[j]? = some element →
      pushed[taken + j]? = some element) :
    ∀ (j : ℕ) (element : α), (popped ++ moved)[j]? = some element → pushed[j]? = some element := by
  intro j element there
  by_cases old : j < popped.length
  · rw [List.getElem?_append_left old] at there
    exact before j element there
  · rw [List.getElem?_append_right (by omega), length] at there
    have found := next (j - taken) element there
    rwa [show taken + (j - taken) = j by omega] at found

/-- The history of one party grows by what that party moves. -/
theorem filter_append_self {Who : Type} [DecidableEq Who] (history : List (Who × α)) (who : Who)
    (moved : List α) :
    ((history ++ moved.map fun element => (who, element)).filter
        fun entry => entry.1 = who).map Prod.snd =
      (history.filter fun entry => entry.1 = who).map Prod.snd ++ moved := by
  rw [List.filter_append, List.map_append]
  congr 1
  induction moved with
  | nil => rfl
  | cons element moved ih => simpa using ih

/-- What another party moves does not touch the history of a party. -/
theorem filter_append_other {Who : Type} [DecidableEq Who] (history : List (Who × α))
    {who other : Who} (different : other ≠ who) (moved : List α) :
    ((history ++ moved.map fun element => (other, element)).filter
        fun entry => entry.1 = who).map Prod.snd =
      (history.filter fun entry => entry.1 = who).map Prod.snd := by
  rw [List.filter_append, List.map_append]
  simp [different]

theorem Good.push (good : system.Good laws ring) {who : P} {call : PushCall α}
    (step : system.act capacity (.push who call) = some after) : after.Good laws ring := by
  simp only [act] at step
  split at step
  next idle =>
    cases step
    have free : Producer.Free ring who := by
      have knows := good.producers who
      rwa [idle] at knows
    exact { good with
      producers := by
        intro other
        by_cases same : other = who
        · subst same
          simp only [Function.update_self]
          cases call <;> exact free
        · simp only [Function.update_of_ne same]
          exact good.producers other
      stored := by
        intro other
        by_cases same : other = who
        · subst same
          have before := good.stored other
          rw [idle] at before
          simp only [Function.update_self]
          cases call <;> exact before
        · simp only [Function.update_of_ne same]
          exact good.stored other }
  next => cases step

theorem Good.pop (good : system.Good laws ring) {who : K} {call : PopCall}
    (step : system.act capacity (.pop who call) = some after) : after.Good laws ring := by
  simp only [act] at step
  split_ifs at step with idle
  cases step
  exact { good with
    consumers := by
      intro other
      by_cases same : other = who
      · subst same
        simp only [Function.update_self]
        exact laws.knows_start call idle (good.consumers other)
      · simp only [Function.update_of_ne same]
        exact good.consumers other
    returned := by
      intro other
      by_cases same : other = who
      · subst same
        have before := good.returned other
        rw [(laws.inFlight_start call idle).1] at before
        simp only [Function.update_self, (laws.inFlight_start call idle).2]
        exact before
      · simp only [Function.update_of_ne same]
        exact good.returned other }

theorem Good.produce (slots : ∀ p, slotOf capacity p = p % capacity) (small : capacity < 2 ^ 64)
    (good : system.Good laws ring) {who : P} {weak : Bool}
    (spacious : system.Spacious capacity (.produce who weak))
    (step : system.act capacity (.produce who weak) = some after)
    (fits : after.pushed.length + capacity ≤ 2 ^ 64) : ∃ next, after.Good laws next := by
  simp only [act, Option.some.injEq] at step
  subst step
  have length : ring.head = system.pushed.length := by simp [Ring.head, good.pushed]
  simp only [List.length_append, List.length_map] at fits
  obtain ⟨next, advances⟩ := Producer.step_advances policy.waits weak slots small
    good.sound good.shows (laws.orderly good.linked) (laws.behind good.linked) (good.producers who)
    (fun elements here => by simpa only [Spacious, here, Producer.Within] using spacious)
    (by omega)
  have grows := advances.runs.grows good.sound
  refine ⟨next, ?_⟩
  exact {
    sound := advances.runs.sound good.sound
    shows := advances.shows
    linked := by
      rw [advances.tail]
      exact laws.linked_of_eq good.linked advances.taken advances.freer
    producers := by
      intro other
      by_cases same : other = who
      · subst same
        simp only [Function.update_self]
        exact advances.knows
      · simp only [Function.update_of_ne same]
        exact (good.producers other).stable grows
          (advances.runs.keeps_writer good.sound fun equal => same (Sum.inl.inj equal).symm)
    consumers := by
      intro other
      rw [advances.tail]
      exact laws.knows_of_eq (good.consumers other) grows advances.taken advances.freer
    pushed := by
      rw [advances.pushed, good.pushed, List.map_append, List.map_map]
      simp [Function.comp_def]
    taken := advances.taken.trans good.taken
    popped := fun j element there => grows.getElem? (good.popped j element there)
    stored := by
      intro other
      by_cases same : other = who
      · subst same
        simp only [Function.update_self, pushedBy, filter_append_self]
        rw [List.append_assoc, advances.account, ← List.append_assoc, good.stored]
        rfl
      · simp only [Function.update_of_ne same, pushedBy]
        rw [filter_append_other _ (Ne.symm same)]
        exact good.stored other
    returned := good.returned }

theorem Good.consume (good : system.Good laws ring) {who : K} {weak : Bool}
    (step : system.act capacity (.consume who weak) = some after)
    (fits : after.pushed.length + capacity ≤ 2 ^ 64) : ∃ next, after.Good laws next := by
  simp only [act, Option.some.injEq] at step
  subst step
  have length : ring.head = system.pushed.length := by simp [Ring.head, good.pushed]
  obtain ⟨next, takes⟩ := laws.takes weak good.sound good.shows good.linked
    (by rw [length]; exact fits) (good.consumers who)
  have grows := takes.runs.grows good.sound
  refine ⟨next, ?_⟩
  exact {
    sound := takes.runs.sound good.sound
    shows := takes.shows
    linked := takes.linked
    producers := fun other => (good.producers other).stable grows
      (takes.runs.keeps_writer good.sound Sum.inr_ne_inl)
    consumers := by
      intro other
      by_cases same : other = who
      · subst same
        simp only [Function.update_self]
        exact takes.knows
      · simp only [Function.update_of_ne same]
        exact laws.knows_of_other (Ne.symm same) (good.consumers other) grows
          (takes.runs.keeps_freer good.sound fun equal => same (Sum.inr.inj equal).symm)
    pushed := takes.pushed.trans good.pushed
    taken := by
      rw [takes.taken, good.taken, List.length_append, List.length_map]
    popped := by
      rw [takes.pushed]
      have values : (system.popped.map Prod.snd).length = ring.taken := by
        rw [List.length_map, good.taken]
      have joined := popped_append values good.popped takes.moved
      simpa [Function.comp_def] using joined
    stored := good.stored
    returned := by
      intro other
      by_cases same : other = who
      · subst same
        simp only [Function.update_self, poppedBy, filter_append_self]
        rw [List.append_assoc, takes.account, ← List.append_assoc, good.returned]
        rfl
      · simp only [Function.update_of_ne same, poppedBy]
        rw [filter_append_other _ (Ne.symm same)]
        exact good.returned other }

/-- Every action keeps the invariant, as long as the batch pushes compute their space
from counters of one lap and the counters do not wrap. -/
theorem Good.act (slots : ∀ p, slotOf capacity p = p % capacity) (small : capacity < 2 ^ 64)
    (good : system.Good laws ring) {action : RingAction α P K}
    (spacious : system.Spacious capacity action)
    (step : system.act capacity action = some after)
    (fits : after.pushed.length + capacity ≤ 2 ^ 64) : ∃ next, after.Good laws next := by
  cases action with
  | push who call => exact ⟨ring, good.push step⟩
  | produce who weak => exact good.produce slots small spacious step fits
  | pop who call => exact ⟨ring, good.pop step⟩
  | consume who weak => exact good.consume step fits

/-- Nobody is in a call on a fresh segment. -/
theorem initial_good (laws : policy.Laws capacity P K) (two : 2 ≤ capacity)
    (memory : ℕ → QueueSlotFull α) :
    (initial policy P K capacity memory).Good laws
      (.fresh (initial policy P K capacity memory).segment.seq
        (initial policy P K capacity memory).segment.data) where
  sound := Ring.fresh_sound two _ fun i inside => freshSegment_seq memory inside
  shows := ⟨rfl, rfl, rfl⟩
  linked := laws.linked_fresh _ _
  producers := by
    intro who p owner
    cases owner
  consumers := laws.knows_fresh _ _
  pushed := rfl
  taken := rfl
  popped := by simp [initial]
  stored := fun who => rfl
  returned := fun who => laws.inFlight_idle

/-- The history of claims only grows. -/
theorem pushed_prefix_of_act {action : RingAction α P K}
    (step : system.act capacity action = some after) : system.pushed <+: after.pushed := by
  cases action with
  | push who call =>
      simp only [RingSystem.act] at step
      split at step
      next => cases step; exact List.prefix_refl _
      next => cases step
  | produce who weak =>
      cases step
      exact List.prefix_append _ _
  | pop who call =>
      simp only [RingSystem.act] at step
      split_ifs at step
      cases step
      exact List.prefix_refl _
  | consume who weak =>
      cases step
      exact List.prefix_refl _

/-! ## Runs -/

/-- The system runs, by actions that are allowed in the state they start from. -/
def Run (capacity : ℕ) (Allowed : RingSystem policy P K → RingAction α P K → Prop) :
    RingSystem policy P K → RingSystem policy P K → Prop :=
  Relation.ReflTransGen fun before after =>
    ∃ action, Allowed before action ∧ before.act capacity action = some after

/-- Perform actions one after the other, as long as they are allowed. -/
def perform (capacity : ℕ) (Allowed : RingSystem policy P K → RingAction α P K → Prop)
    [∀ system action, Decidable (Allowed system action)] :
    RingSystem policy P K → List (RingAction α P K) → Option (RingSystem policy P K)
  | system, [] => some system
  | system, action :: rest =>
      if Allowed system action then
        (system.act capacity action).bind fun next => perform capacity Allowed next rest
      else none

theorem run_of_perform {Allowed : RingSystem policy P K → RingAction α P K → Prop}
    [∀ system action, Decidable (Allowed system action)] {actions : List (RingAction α P K)}
    (performed : perform capacity Allowed system actions = some after) :
    Run capacity Allowed system after := by
  induction actions generalizing system with
  | nil =>
      cases performed
      exact .refl
  | cons action rest ih =>
      simp only [perform] at performed
      split_ifs at performed with allowed
      obtain ⟨next, step, remaining⟩ := Option.bind_eq_some_iff.mp performed
      exact .head ⟨action, allowed, step⟩ (ih remaining)

/-- The invariant holds along a run, if what is allowed keeps the batch pushes to
counters of one lap and the counters have not wrapped at its end. -/
theorem Good.run {Allowed : RingSystem policy P K → RingAction α P K → Prop}
    (slots : ∀ p, slotOf capacity p = p % capacity) (small : capacity < 2 ^ 64)
    (admits : ∀ {state ring action}, state.Good laws ring → Allowed state action →
      state.Spacious capacity action)
    (good : system.Good laws ring) (run : Run capacity Allowed system after)
    (fits : after.pushed.length + capacity ≤ 2 ^ 64) : ∃ next, after.Good laws next := by
  induction run with
  | refl => exact ⟨ring, good⟩
  | tail before step ih =>
      obtain ⟨action, allowed, step⟩ := step
      have longer := (pushed_prefix_of_act step).length_le
      obtain ⟨middle, here⟩ := ih (by omega)
      exact here.act slots small (admits here allowed) step fits

/-! ## What the parties are promised -/

/-- The safety of a ring at one moment. The elements are taken in the order of their
positions and as they were pushed; what a consumer took is what its calls returned and
hold, and what a producer claimed is what its calls reported and hold. A position that
is taken has been written completely, and a slot that is about to be written holds no
element that is still to be taken. -/
structure Safe (capacity : ℕ) (system : RingSystem policy P K) : Prop where
  head : system.segment.head = system.pushed.length
  lap : system.pushed.length ≤ system.popped.length + capacity
  inOrder : system.popped.map Prod.snd <+: system.pushed.map Prod.snd
  returned : ∀ who,
    system.returned who ++ policy.inFlight (system.consumer who) = system.poppedBy who
  stored : ∀ who,
    system.stored who ++ (system.producer who).inFlight = system.pushedBy who
  ordered : ∀ who, ((system.pushed.take system.popped.length).filter
    fun entry => entry.1 = who).map Prod.snd <+: system.pushedBy who
  complete : ∀ who position, (system.producer who).Owes position →
    system.popped.length ≤ position
  unread : ∀ who position, (system.producer who).writing = some position →
    ∀ other, system.popped.length ≤ other → other < system.pushed.length →
      slotOf capacity other = slotOf capacity position → other = position

/-- The invariant gives the safety. -/
theorem Good.safe (slots : ∀ p, slotOf capacity p = p % capacity)
    (fits : system.pushed.length + capacity ≤ 2 ^ 64) (good : system.Good laws ring) :
    system.Safe capacity := by
  have length : ring.head = system.pushed.length := by simp [Ring.head, good.pushed]
  have low := good.sound.taken_le
  have high := good.sound.head_le
  have taken := good.taken
  have writer : ∀ who position, (system.producer who).Owes position →
      ring.taken ≤ position ∧ position < ring.head := by
    intro who position owes
    have own := (good.producers who).writer owes
    obtain ⟨after, before, _⟩ := good.sound.writing position (by simp [own])
    exact ⟨after, before⟩
  exact {
    head := good.shows.head.trans length
    lap := by omega
    inOrder := by
      rw [← good.pushed, List.prefix_iff_getElem?]
      intro j inside
      exact good.popped j _ (List.getElem?_eq_getElem inside)
    returned := good.returned
    stored := good.stored
    ordered := fun who => ((List.take_prefix _ _).filter _).map _
    complete := by
      intro who position owes
      rw [← taken]
      exact (writer who position owes).1
    unread := by
      intro who position writes other after before slot
      have owes : (system.producer who).Owes position := by
        cases now : system.producer who with
        | write head stored element rest =>
            have knows := good.producers who
            rw [now] at knows
            obtain ⟨word, _⟩ := knows.2.word good.sound (by omega)
            simp only [now, Producer.writing, Option.some.injEq, word] at writes
            subst writes
            simp [Producer.Owes]
        | _ => simp [now, Producer.writing] at writes
      have bounds := writer who position owes
      rw [slots, slots] at slot
      exact eq_of_mod_eq slot (by omega) (by omega) }

end RingSystem

end Join
