import Join.Core.Spsc
import Join.Library.TicketRing

/-!
# The safety of one producer and one consumer

Each side works on a copy of the index of the other side that may be out of date. A copy
is harmless as long as it is out of date in one direction: the copy of the tail may be
behind the tail and then understates the space, the copy of the head may be behind the
head and then understates what there is. The invariant `System.Good` carries the
unbounded values of the four counters; the words in the segment and in the objects are
these values modulo `2 ^ 64`, so the counters may wrap.

A new object on an old segment has a copy that is zero. It fits the invariant in some
states only (`System.Reopens`), and in the others the object overwrites elements or reads
elements that are not there.
-/

set_option autoImplicit false

namespace Join

open Library

namespace Spsc

variable {α : Type}

/-! ## The invariant -/

/-- The elements are what the call is to store: all of them, or a part from the front. -/
def Offered (elements : List α) : PushCall α → Prop
  | .tryPush element => elements = [element]
  | .tryPushBatch offered => elements ≠ [] ∧ elements <+: offered

/-- The elements are in the slots of the positions after the head. -/
def Written (capacity : ℕ) (slots : ℕ → α) (head : ℕ) (stored : List α) : Prop :=
  ∀ j element, stored[j]? = some element → slots ((head + j) % capacity) = element

/-- What the producer knows: the positions it writes are within a lap of its copy of the
tail. The counters are the unbounded ones. -/
def Pushing.Knows (capacity : ℕ) (slots : ℕ → α) (head tail : ℕ) (call : PushCall α) :
    Pushing α → Prop
  | .idle => True
  | .push element => call = .tryPush element
  | .pushTail element seen => call = .tryPush element ∧ seen = head % 2 ^ 64
  | .batch elements => call = .tryPushBatch elements
  | .batchTail elements seen =>
      call = .tryPushBatch elements ∧ elements ≠ [] ∧ seen = head % 2 ^ 64
  | .write seen stored element rest =>
      seen = head % 2 ^ 64 ∧ head + (stored ++ element :: rest).length ≤ tail + capacity ∧
        Offered (stored ++ element :: rest) call ∧ Written capacity slots head stored
  | .storeHead seen stored =>
      seen = head % 2 ^ 64 ∧ head + stored.length ≤ tail + capacity ∧ Offered stored call ∧
        Written capacity slots head stored

/-- The number of elements is one that the call asks for. -/
def Asked (count : ℕ) : PopCall → Prop
  | .tryPop => count = 1
  | .tryPopBatch size => count ≤ size

/-- What the consumer knows: the positions it reads are before its copy of the head. -/
def Popping.Knows (queue : List α) (tail head : ℕ) (call : PopCall) : Popping α → Prop
  | .idle => True
  | .pop => call = .tryPop
  | .popHead seen => call = .tryPop ∧ seen = tail % 2 ^ 64
  | .batch size => call = .tryPopBatch size
  | .batchHead size seen => call = .tryPopBatch size ∧ size ≠ 0 ∧ seen = tail % 2 ^ 64
  | .read seen toRead popped =>
      seen = tail % 2 ^ 64 ∧ tail + toRead ≤ head ∧ popped.length < toRead ∧
        Asked toRead call ∧ popped <+: queue
  | .storeTail seen popped =>
      seen = tail % 2 ^ 64 ∧ tail + popped.length ≤ head ∧ popped ≠ [] ∧
        Asked popped.length call ∧ popped <+: queue

/-- The elements that are pushed and not popped. -/
def System.queue (system : System α) : List α := system.pushed.drop system.popped.length

/-- The invariant, with the unbounded values of the two copies. -/
structure System.Good (capacity : ℕ) (system : System α) (cachedTail cachedHead : ℕ) : Prop where
  magic : system.segment.magic = QueueSync.magicNumber
  head : system.segment.head = system.pushed.length % 2 ^ 64
  tail : system.segment.tail = system.popped.length % 2 ^ 64
  inOrder : system.popped <+: system.pushed
  lap : system.pushed.length ≤ system.popped.length + capacity
  held : ∀ p, system.popped.length ≤ p → p < system.pushed.length →
    system.pushed[p]? = some (system.segment.elements (p % capacity))
  tailCopy : system.producer.cachedTail = cachedTail % 2 ^ 64
  tailOld : cachedTail ≤ system.popped.length
  tailLap : system.pushed.length ≤ cachedTail + capacity
  headCopy : system.consumer.cachedHead = cachedHead % 2 ^ 64
  headAhead : system.popped.length ≤ cachedHead
  headOld : cachedHead ≤ system.pushed.length
  producer : system.producer.now.Knows capacity system.segment.elements system.pushed.length
    cachedTail system.pushing
  consumer : system.consumer.now.Knows system.queue system.popped.length cachedHead
    system.popping
  history : Fifo.History capacity system.history system.queue

theorem System.initial_good (capacity : ℕ) (memory : ℕ → α) :
    (System.initial memory).Good capacity 0 0 where
  magic := rfl
  head := rfl
  tail := rfl
  inOrder := List.prefix_refl _
  lap := Nat.zero_le _
  held := by simp [initial]
  tailCopy := rfl
  tailOld := le_refl _
  tailLap := Nat.zero_le _
  headCopy := rfl
  headAhead := le_refl _
  headOld := le_refl _
  producer := trivial
  consumer := trivial
  history := .nil

/-- A capacity that is a word, and whose mask reduces positions modulo the capacity. -/
structure Slotted (capacity : ℕ) : Prop where
  word : capacity < 2 ^ 64
  slot : ∀ p, 0 < capacity → slotOf capacity (p % 2 ^ 64) = p % capacity

theorem slotted_roundPow2 {requested : ℕ} (word : requested < 2 ^ 64) :
    Slotted (roundPow2 requested) := by
  rcases roundPow2_cases word with none | ⟨k, fits, power⟩
  · rw [none]
    exact ⟨by decide, fun p positive => absurd positive (lt_irrefl 0)⟩
  · rw [power]
    refine ⟨Nat.pow_lt_pow_right (by omega) (by omega), fun p _ => ?_⟩
    rw [slotOf_two_pow fits, mod_word_mod (by omega)]

variable {capacity : ℕ} {system : System α} {cachedTail cachedHead : ℕ}

theorem System.Good.length_le (good : system.Good capacity cachedTail cachedHead) :
    system.popped.length ≤ system.pushed.length :=
  good.inOrder.length_le

theorem System.length_queue (system : System α) :
    system.queue.length = system.pushed.length - system.popped.length :=
  List.length_drop

/-! ## The steps of the producer -/

/-- A step of the producer that changes its object only. -/
theorem System.Good.producer_quiet (good : system.Good capacity cachedTail cachedHead)
    {copy : ℕ} {now : Pushing α} (old : copy ≤ system.popped.length)
    (lap : system.pushed.length ≤ copy + capacity)
    (knows : now.Knows capacity system.segment.elements system.pushed.length copy
      system.pushing) :
    System.Good capacity { system with producer := ⟨copy % 2 ^ 64, now⟩ } copy cachedHead :=
  { good with tailCopy := rfl, tailOld := old, tailLap := lap, producer := knows }

/-- A push that fails. -/
theorem System.Good.producer_error (good : system.Good capacity cachedTail cachedHead)
    {copy : ℕ} {error : QueueError} (old : copy ≤ system.popped.length)
    (lap : system.pushed.length ≤ copy + capacity)
    (legal : Fifo.Legal capacity system.queue (.push system.pushing) (.error error)) :
    System.Good capacity
      { system with
        producer := ⟨copy % 2 ^ 64, .idle⟩
        history := system.history ++ [(.push system.pushing, .error error)] } copy cachedHead := by
  have entry := Fifo.History.snoc good.history legal
  have same : Fifo.effect system.queue (.push system.pushing) (.error error) = system.queue :=
    List.append_nil _
  rw [same] at entry
  exact { good with
    tailCopy := rfl
    tailOld := old
    tailLap := lap
    producer := trivial
    history := entry }

/-- What the loop over the elements starts with. -/
theorem Pushing.knows_fill {slots : ℕ → α} {head tail seen : ℕ} {call : PushCall α}
    {stored rest : List α} (same : seen = head % 2 ^ 64)
    (room : head + (stored ++ rest).length ≤ tail + capacity)
    (offered : Offered (stored ++ rest) call) (written : Written capacity slots head stored) :
    (Pushing.fill seen stored rest).Knows capacity slots head tail call := by
  cases rest with
  | nil =>
      rw [List.append_nil] at room offered
      exact ⟨same, room, offered, written⟩
  | cons element rest => exact ⟨same, room, offered, written⟩

theorem written_nil (slots : ℕ → α) (head : ℕ) : Written capacity slots head [] := by
  intro j element there
  simp at there

/-- The part of a batch that fits. -/
theorem offered_take {elements : List α} {count : ℕ} (some : elements ≠ []) (positive : 0 < count) :
    Offered (elements.take count) (.tryPushBatch elements) := by
  refine ⟨?_, List.take_prefix _ _⟩
  cases elements with
  | nil => exact absurd rfl some
  | cons element rest =>
      obtain ⟨count, rfl⟩ := Nat.exists_eq_succ_of_ne_zero (by omega : count ≠ 0)
      simp

/-- A batch push goes on with the part that fits a copy of the tail. -/
theorem Pushing.knows_batch {slots : ℕ → α} {head tail : ℕ} {elements : List α}
    (some : elements ≠ []) (low : tail ≤ head) (high : head ≤ tail + capacity)
    (room : capacity - (head - tail) ≠ 0) :
    (Pushing.fill (head % 2 ^ 64) []
      (elements.take (min elements.length (capacity - (head - tail))))).Knows capacity slots head
        tail (.tryPushBatch elements) := by
  have positive := List.length_pos_of_ne_nil some
  refine Pushing.knows_fill rfl ?_ ?_ (written_nil _ _)
  · simp only [List.nil_append, List.length_take]
    omega
  · exact offered_take some (by omega)

/-- Writing the element at hand spoils neither what is held nor what is written. -/
theorem System.Good.write (slotted : Slotted capacity)
    (good : system.Good capacity cachedTail cachedHead) {seen : ℕ} {stored rest : List α}
    {element : α} (now : system.producer.now = .write seen stored element rest) :
    System.Good capacity
      { system with
        segment :=
          { system.segment with
            elements := Function.update system.segment.elements
              (slotOf capacity (add64 seen stored.length)) element }
        producer := { system.producer with now := .fill seen (stored ++ [element]) rest } }
      cachedTail cachedHead := by
  have knows := good.producer
  rw [now] at knows
  obtain ⟨same, room, offered, written⟩ := knows
  simp only [List.length_append, List.length_cons] at room
  have old := good.tailOld
  have lap := good.tailLap
  have low := good.length_le
  have slot : slotOf capacity (add64 seen stored.length) =
      (system.pushed.length + stored.length) % capacity := by
    rw [same, add64_mod]
    exact slotted.slot _ (by omega)
  rw [slot]
  exact { good with
    held := by
      intro p after before
      change system.popped.length ≤ p at after
      change p < system.pushed.length at before
      have there := good.held p after before
      have apart : p % capacity ≠ (system.pushed.length + stored.length) % capacity := by
        intro meets
        have equal := eq_of_mod_eq meets (by omega) (by omega)
        omega
      simp only [Function.update_of_ne apart]
      exact there
    producer := by
      refine Pushing.knows_fill same ?_ ?_ ?_
      · simp only [List.length_append, List.length_singleton]
        omega
      · rwa [List.append_assoc, List.singleton_append]
      · intro j item there
        rcases Nat.lt_trichotomy j stored.length with before | rfl | beyond
        · rw [List.getElem?_append_left before] at there
          have apart : (system.pushed.length + j) % capacity ≠
              (system.pushed.length + stored.length) % capacity := by
            intro meets
            have equal := eq_of_mod_eq meets (by omega) (by omega)
            omega
          simp only [Function.update_of_ne apart]
          exact written j item there
        · rw [List.getElem?_append_right (le_refl _), Nat.sub_self] at there
          cases there
          exact Function.update_self ..
        · rw [List.getElem?_eq_none (by simp; omega)] at there
          cases there }

/-- Publishing the elements that are written. -/
theorem System.Good.storeHead (good : system.Good capacity cachedTail cachedHead) {seen : ℕ}
    {stored : List α} (now : system.producer.now = .storeHead seen stored) :
    System.Good capacity
      { system with
        segment := { system.segment with head := add64 seen stored.length }
        producer := { system.producer with now := .idle }
        pushed := system.pushed ++ stored
        history := system.history ++ [(.push system.pushing, .ok stored)] }
      cachedTail cachedHead := by
  have knows := good.producer
  rw [now] at knows
  obtain ⟨same, room, offered, written⟩ := knows
  have old := good.tailOld
  have low := good.length_le
  have length := system.length_queue
  have joined : (system.pushed ++ stored).drop system.popped.length = system.queue ++ stored :=
    List.drop_append_of_le_length low
  have legal : Fifo.Legal capacity system.queue (.push system.pushing) (.ok stored) := by
    cases called : system.pushing with
    | tryPush element =>
        rw [called] at offered
        have one : stored = [element] := offered
        rw [one, List.length_singleton] at room
        rw [one]
        exact (if_pos (show system.queue.length < capacity by omega)).symm
    | tryPushBatch elements =>
        rw [called] at offered
        exact ⟨offered.1, offered.2, by omega⟩
  have entry := Fifo.History.snoc good.history legal
  exact { good with
    head := by
      simp only [List.length_append]
      rw [same, add64_mod]
    inOrder := good.inOrder.trans (List.prefix_append _ _)
    lap := by
      simp only [List.length_append]
      omega
    held := by
      intro p after before
      change p < (system.pushed ++ stored).length at before
      rw [List.length_append] at before
      by_cases earlier : p < system.pushed.length
      · simp only
        rw [List.getElem?_append_left earlier]
        exact good.held p after earlier
      · have inside : p - system.pushed.length < stored.length := by omega
        have there := written (p - system.pushed.length) _ (List.getElem?_eq_getElem inside)
        rw [Nat.add_sub_cancel' (by omega)] at there
        simp only
        rw [List.getElem?_append_right (by omega), there, List.getElem?_eq_getElem inside]
    tailLap := by
      simp only [List.length_append]
      exact room
    headOld := by
      have := good.headOld
      simp only [List.length_append]
      omega
    producer := trivial
    consumer := by
      have knows := good.consumer
      simp only [queue, joined]
      cases inside : system.consumer.now with
      | read tail toRead popped =>
          rw [inside] at knows
          obtain ⟨a, b, c, d, front⟩ := knows
          exact ⟨a, b, c, d, front.trans (List.prefix_append _ _)⟩
      | storeTail tail popped =>
          rw [inside] at knows
          obtain ⟨a, b, c, d, front⟩ := knows
          exact ⟨a, b, c, d, front.trans (List.prefix_append _ _)⟩
      | _ =>
          rw [inside] at knows
          exact knows
    history := by
      simp only [queue, joined]
      exact entry }

/-- Every step of the producer keeps the invariant. -/
theorem System.Good.produce (slotted : Slotted capacity)
    (good : system.Good capacity cachedTail cachedHead) {after : System α}
    (step : system.act capacity .produce = some after) :
    ∃ copy, after.Good capacity copy cachedHead := by
  have word := slotted.word
  have low := good.length_le
  have old := good.tailOld
  have lap := good.tailLap
  have full := good.lap
  have length := system.length_queue
  have knows := good.producer
  have space : sub64 system.segment.head system.producer.cachedTail =
      system.pushed.length - cachedTail := by
    rw [good.head, good.tailCopy]
    exact sub64_mod (by omega) (by omega)
  have current : sub64 (system.pushed.length % 2 ^ 64) system.segment.tail =
      system.pushed.length - system.popped.length := by
    rw [good.tail]
    exact sub64_mod low (by omega)
  simp only [act, Producer.step, Option.some.injEq] at step
  subst step
  cases now : system.producer.now with
  | idle =>
      simp only [Turn.goOn, List.append_nil, logged]
      exact ⟨cachedTail, good⟩
  | push element =>
      rw [now] at knows
      simp only [space]
      split_ifs with looksFull
      · simp only [Turn.goOn, List.append_nil, logged, good.tailCopy]
        exact ⟨cachedTail, good.producer_quiet old lap ⟨knows, good.head⟩⟩
      · simp only [Turn.goOn, List.append_nil, logged, good.tailCopy]
        refine ⟨cachedTail, good.producer_quiet old lap
          ⟨good.head, ?_, ?_, written_nil _ _⟩⟩
        · simp only [List.nil_append, List.length_singleton]
          omega
        · rw [knows]
          rfl
  | pushTail element seen =>
      rw [now] at knows
      obtain ⟨called, rfl⟩ := knows
      simp only [current]
      split_ifs with isFull
      · simp only [Turn.finish, List.append_nil, logged, good.tail]
        refine ⟨_, good.producer_error (le_refl _) full ?_⟩
        rw [called]
        exact (if_neg (by omega)).symm
      · simp only [Turn.goOn, List.append_nil, logged, good.tail]
        refine ⟨_, good.producer_quiet (le_refl _) full ⟨rfl, ?_, ?_, written_nil _ _⟩⟩
        · simp only [List.nil_append, List.length_singleton]
          omega
        · rw [called]
          rfl
  | batch elements =>
      rw [now] at knows
      have called : system.pushing = .tryPushBatch elements := knows
      simp only [space]
      rw [sub64_of_le (by omega) word]
      split_ifs with none looksFull
      · simp only [Turn.finish, List.append_nil, logged, good.tailCopy]
        refine ⟨_, good.producer_error old lap ?_⟩
        rw [called]
        exact if_pos none
      · simp only [Turn.goOn, List.append_nil, logged, good.tailCopy]
        exact ⟨_, good.producer_quiet old lap ⟨called, by simpa using none, good.head⟩⟩
      · simp only [Turn.goOn, List.append_nil, logged, good.tailCopy, good.head]
        refine ⟨_, good.producer_quiet old lap ?_⟩
        rw [called]
        exact Pushing.knows_batch (by simpa using none) (by omega) lap looksFull
  | batchTail elements seen =>
      rw [now] at knows
      obtain ⟨called, some, rfl⟩ := knows
      simp only [current]
      rw [sub64_of_le (by omega) word]
      split_ifs with isFull
      · simp only [Turn.finish, List.append_nil, logged, good.tail]
        refine ⟨_, good.producer_error (le_refl _) full ?_⟩
        rw [called]
        refine (if_neg (by simpa using some)).trans (if_neg (by omega))
      · simp only [Turn.goOn, List.append_nil, logged, good.tail]
        refine ⟨_, good.producer_quiet (le_refl _) full ?_⟩
        rw [called]
        exact Pushing.knows_batch some low full isFull
  | write seen stored element rest =>
      simp only [Turn.goOn, List.append_nil, logged]
      exact ⟨_, good.write slotted now⟩
  | storeHead seen stored => exact ⟨_, good.storeHead now⟩

/-! ## The steps of the consumer -/

/-- A step of the consumer that changes its object only. -/
theorem System.Good.consumer_quiet (good : system.Good capacity cachedTail cachedHead)
    {copy : ℕ} {now : Popping α} (ahead : system.popped.length ≤ copy)
    (old : copy ≤ system.pushed.length)
    (knows : now.Knows system.queue system.popped.length copy system.popping) :
    System.Good capacity { system with consumer := ⟨copy % 2 ^ 64, now⟩ } cachedTail copy :=
  { good with headCopy := rfl, headAhead := ahead, headOld := old, consumer := knows }

/-- A pop that fails. -/
theorem System.Good.consumer_error (good : system.Good capacity cachedTail cachedHead)
    {copy : ℕ} {error : QueueError} (ahead : system.popped.length ≤ copy)
    (old : copy ≤ system.pushed.length)
    (legal : Fifo.Legal capacity system.queue (.pop system.popping) (.error error)) :
    System.Good capacity
      { system with
        consumer := ⟨copy % 2 ^ 64, .idle⟩
        history := system.history ++ [(.pop system.popping, .error error)] } cachedTail copy :=
  { good with
    headCopy := rfl
    headAhead := ahead
    headOld := old
    consumer := trivial
    history := Fifo.History.snoc good.history legal }

/-- What the loop over the elements goes on with. -/
theorem Popping.knows_drain {queue popped : List α} {tail head seen toRead : ℕ} {call : PopCall}
    (same : seen = tail % 2 ^ 64) (bound : tail + toRead ≤ head) (positive : 0 < toRead)
    (few : popped.length ≤ toRead) (asked : Asked toRead call) (front : popped <+: queue) :
    (Popping.drain seen toRead popped).Knows queue tail head call := by
  unfold Popping.drain
  split_ifs with more
  · exact ⟨same, bound, more, asked, front⟩
  · have all : popped.length = toRead := by omega
    refine ⟨same, by omega, ?_, all ▸ asked, front⟩
    rintro rfl
    simp only [List.length_nil] at all
    omega

/-- A pop of a batch goes on with what a copy of the head promises. -/
theorem Popping.knows_batch {queue : List α} {tail head size : ℕ} (some : size ≠ 0)
    (low : tail ≤ head) (pending : head - tail ≠ 0) :
    (Popping.drain (tail % 2 ^ 64) (min size (head - tail)) []).Knows queue tail head
      (.tryPopBatch size) :=
  Popping.knows_drain rfl (by omega) (by omega) (Nat.zero_le _) (Nat.min_le_left _ _)
    List.nil_prefix

/-- Reading the next element of the queue. -/
theorem System.Good.read (slotted : Slotted capacity)
    (good : system.Good capacity cachedTail cachedHead) {seen toRead : ℕ} {popped : List α}
    (now : system.consumer.now = .read seen toRead popped) :
    system.pushed[system.popped.length + popped.length]? =
      some (system.segment.elements (slotOf capacity (add64 seen popped.length))) := by
  have knows := good.consumer
  rw [now] at knows
  obtain ⟨same, bound, more, _, _⟩ := knows
  have old := good.headOld
  have lap := good.lap
  rw [same, add64_mod, slotted.slot _ (by omega)]
  exact good.held _ (by omega) (by omega)

/-- Giving the slots back of the elements that are read. -/
theorem System.Good.storeTail (good : system.Good capacity cachedTail cachedHead) {seen : ℕ}
    {popped : List α} (now : system.consumer.now = .storeTail seen popped) :
    System.Good capacity
      { system with
        segment := { system.segment with tail := add64 seen popped.length }
        consumer := { system.consumer with now := .idle }
        popped := system.popped ++ popped
        history := system.history ++ [(.pop system.popping, .ok popped)] }
      cachedTail cachedHead := by
  have knows := good.consumer
  rw [now] at knows
  obtain ⟨same, bound, some, asked, front⟩ := knows
  have old := good.headOld
  have low := good.length_le
  have left : system.pushed.drop (system.popped.length + popped.length) =
      system.queue.drop popped.length := by rw [System.queue, List.drop_drop]
  have nonempty : system.queue ≠ [] := by
    rintro none
    rw [none] at front
    exact some (List.prefix_nil.mp front)
  have legal : Fifo.Legal capacity system.queue (.pop system.popping) (.ok popped) := by
    cases called : system.popping with
    | tryPop =>
        rw [called] at asked
        have one : popped.length = 1 := asked
        rw [List.prefix_iff_eq_take, one] at front
        rw [front]
        exact (if_neg (by simpa using nonempty)).symm
    | tryPopBatch size =>
        rw [called] at asked
        exact ⟨some, front, asked⟩
  have entry := Fifo.History.snoc good.history legal
  exact { good with
    tail := by
      simp only [List.length_append]
      rw [same, add64_mod]
    inOrder := by
      obtain ⟨rest, split⟩ := front
      have whole : system.popped ++ system.queue = system.pushed := by
        obtain ⟨more, whole⟩ := good.inOrder
        rw [System.queue, ← whole, List.drop_left]
      refine ⟨rest, ?_⟩
      rw [List.append_assoc, split, whole]
    lap := by
      have := good.lap
      simp only [List.length_append]
      omega
    held := by
      intro p after before
      change (system.popped ++ popped).length ≤ p at after
      rw [List.length_append] at after
      exact good.held p (by omega) before
    tailOld := by
      have := good.tailOld
      simp only [List.length_append]
      omega
    headAhead := by
      simp only [List.length_append]
      exact bound
    consumer := trivial
    history := by
      simp only [queue, List.length_append, left]
      exact entry }

/-- Every step of the consumer keeps the invariant. -/
theorem System.Good.consume (slotted : Slotted capacity)
    (good : system.Good capacity cachedTail cachedHead) {after : System α}
    (step : system.act capacity .consume = some after) :
    ∃ copy, after.Good capacity cachedTail copy := by
  have word := slotted.word
  have low := good.length_le
  have lap := good.lap
  have old := good.headOld
  have ahead := good.headAhead
  have length := system.length_queue
  have knows := good.consumer
  have promised : sub64 system.consumer.cachedHead system.segment.tail =
      cachedHead - system.popped.length := by
    rw [good.headCopy, good.tail]
    exact sub64_mod ahead (by omega)
  have current : sub64 system.segment.head (system.popped.length % 2 ^ 64) =
      system.pushed.length - system.popped.length := by
    rw [good.head]
    exact sub64_mod low (by omega)
  simp only [act, Consumer.step, Option.some.injEq] at step
  subst step
  cases now : system.consumer.now with
  | idle =>
      simp only [Turn.goOn, List.append_nil, logged]
      exact ⟨cachedHead, good⟩
  | pop =>
      rw [now] at knows
      dsimp only
      split_ifs with looksEmpty
      · simp only [Turn.goOn, List.append_nil, logged, good.headCopy]
        exact ⟨_, good.consumer_quiet ahead old ⟨knows, good.tail⟩⟩
      · simp only [Turn.goOn, List.append_nil, logged, good.headCopy]
        rw [good.headCopy, good.tail] at looksEmpty
        refine ⟨_, good.consumer_quiet ahead old (Popping.knows_drain good.tail ?_ (by omega)
          (Nat.zero_le _) ?_ List.nil_prefix)⟩
        · by_contra none
          exact looksEmpty (by rw [show cachedHead = system.popped.length by omega])
        · rw [knows]
          rfl
  | popHead seen =>
      rw [now] at knows
      obtain ⟨called, rfl⟩ := knows
      simp only [good.head]
      split_ifs with isEmpty
      · simp only [Turn.finish, List.append_nil, logged]
        refine ⟨_, good.consumer_error low (le_refl _) ?_⟩
        rw [called]
        have none : system.queue = [] := List.length_eq_zero_iff.mp (by omega)
        rw [none]
        rfl
      · simp only [Turn.goOn, List.append_nil, logged]
        refine ⟨_, good.consumer_quiet low (le_refl _) (Popping.knows_drain rfl ?_ (by omega)
          (Nat.zero_le _) ?_ List.nil_prefix)⟩
        · by_contra none
          exact isEmpty (by rw [show system.pushed.length = system.popped.length by omega])
        · rw [called]
          rfl
  | batch size =>
      rw [now] at knows
      have called : system.popping = .tryPopBatch size := knows
      simp only [promised]
      split_ifs with none looksEmpty
      · simp only [Turn.finish, List.append_nil, logged, good.headCopy]
        refine ⟨_, good.consumer_error ahead old ?_⟩
        rw [called]
        exact if_pos none
      · simp only [Turn.goOn, List.append_nil, logged, good.headCopy]
        exact ⟨_, good.consumer_quiet ahead old ⟨called, none, good.tail⟩⟩
      · simp only [Turn.goOn, List.append_nil, logged, good.headCopy, good.tail]
        refine ⟨_, good.consumer_quiet ahead old ?_⟩
        rw [called]
        exact Popping.knows_batch none ahead looksEmpty
  | batchHead size seen =>
      rw [now] at knows
      obtain ⟨called, some, rfl⟩ := knows
      simp only [current]
      split_ifs with isEmpty
      · simp only [Turn.finish, List.append_nil, logged, good.head]
        refine ⟨_, good.consumer_error low (le_refl _) ?_⟩
        rw [called]
        have none : system.queue = [] := List.length_eq_zero_iff.mp (by omega)
        rw [none]
        exact if_neg some
      · simp only [Turn.goOn, List.append_nil, logged, good.head]
        refine ⟨_, good.consumer_quiet low (le_refl _) ?_⟩
        rw [called]
        exact Popping.knows_batch some low isEmpty
  | read seen toRead popped =>
      have there := good.read slotted now
      rw [now] at knows
      obtain ⟨same, bound, more, asked, front⟩ := knows
      simp only [Turn.goOn, List.append_nil, logged, good.headCopy]
      refine ⟨_, good.consumer_quiet ahead old (Popping.knows_drain same bound (by omega) ?_
        asked ?_)⟩
      · simp only [List.length_append, List.length_singleton]
        omega
      · have found : system.queue[popped.length]? =
            some (system.segment.elements (slotOf capacity (add64 seen popped.length))) := by
          rw [System.queue, List.getElem?_drop, there]
        have longer := List.take_prefix (popped.length + 1) system.queue
        rwa [List.take_add_one, found, Option.toList_some,
          ← List.prefix_iff_eq_take.mp front] at longer
  | storeTail seen popped => exact ⟨_, good.storeTail now⟩

/-! ## Calls and new objects -/

theorem System.Good.push (good : system.Good capacity cachedTail cachedHead) {call : PushCall α}
    {after : System α} (step : system.act capacity (.push call) = some after) :
    after.Good capacity cachedTail cachedHead := by
  simp only [act] at step
  split at step
  next =>
    cases step
    exact { good with producer := by cases call <;> rfl }
  next => cases step

theorem System.Good.pop (good : system.Good capacity cachedTail cachedHead) {call : PopCall}
    {after : System α} (step : system.act capacity (.pop call) = some after) :
    after.Good capacity cachedTail cachedHead := by
  simp only [act] at step
  split at step
  next =>
    cases step
    exact { good with consumer := by cases call <;> rfl }
  next => cases step

/-- A new object attaches to a segment that is initialised already. -/
theorem System.Good.attach (good : system.Good capacity cachedTail cachedHead) :
    system.segment.attach initSlots = some system.segment := by
  have different : QueueSync.magicNumber ≠ 0 := by decide
  rw [QueueSegment.attach, if_neg (by rw [good.magic]; exact different), if_pos good.magic]

/-- The states in which a copy that is zero is not harmful. For a new producer the head is
still in the first lap. For a new consumer zero is between the tail and the head, which
are words: the tail is zero, or the head has passed the wrap and the tail has not. -/
def System.Reopens (capacity : ℕ) (system : System α) : Action α → Prop
  | .reopenProducer =>
      system.segment.tail ≤ system.segment.head ∧ system.segment.head ≤ capacity
  | .reopenConsumer =>
      sub64 0 system.segment.tail ≤ sub64 system.segment.head system.segment.tail
  | _ => True

instance (capacity : ℕ) (system : System α) (action : Action α) :
    Decidable (system.Reopens capacity action) :=
  match action with
  | .reopenProducer => inferInstanceAs (Decidable (_ ∧ _))
  | .reopenConsumer => inferInstanceAs (Decidable (_ ≤ _))
  | .push _ | .produce | .pop _ | .consume => .isTrue trivial

theorem System.Good.reopenProducer (slotted : Slotted capacity)
    (good : system.Good capacity cachedTail cachedHead)
    (fits : system.Reopens capacity .reopenProducer) {after : System α}
    (step : system.act capacity .reopenProducer = some after) :
    ∃ copy, after.Good capacity copy cachedHead := by
  simp only [act, good.attach] at step
  split at step
  next =>
    cases step
    have low := good.length_le
    have lap := good.lap
    have word := slotted.word
    obtain ⟨order, first⟩ := fits
    rw [good.head] at order first
    rw [good.tail] at order
    -- zero is the word of the last multiple of the wrap before the head
    refine ⟨system.pushed.length - system.pushed.length % 2 ^ 64, ?_⟩
    have zero : (system.pushed.length - system.pushed.length % 2 ^ 64) % 2 ^ 64 = 0 := by omega
    have reopened : System.Good capacity
        { system with
          producer := ⟨(system.pushed.length - system.pushed.length % 2 ^ 64) % 2 ^ 64, .idle⟩ }
        (system.pushed.length - system.pushed.length % 2 ^ 64) cachedHead :=
      good.producer_quiet (by omega) (by omega) trivial
    rwa [zero] at reopened
  next => cases step

theorem System.Good.reopenConsumer (slotted : Slotted capacity)
    (good : system.Good capacity cachedTail cachedHead)
    (fits : system.Reopens capacity .reopenConsumer) {after : System α}
    (step : system.act capacity .reopenConsumer = some after) :
    ∃ copy, after.Good capacity cachedTail copy := by
  simp only [act, good.attach] at step
  split at step
  next =>
    cases step
    have low := good.length_le
    have lap := good.lap
    have word := slotted.word
    have between : sub64 0 system.segment.tail ≤
        sub64 system.segment.head system.segment.tail := fits
    rw [good.head, good.tail, sub64_mod low (by omega)] at between
    refine ⟨system.popped.length + sub64 0 (system.popped.length % 2 ^ 64), ?_⟩
    have zero : (system.popped.length + sub64 0 (system.popped.length % 2 ^ 64)) % 2 ^ 64 = 0 := by
      unfold sub64
      omega
    have reopened : System.Good capacity
        { system with
          consumer :=
            ⟨(system.popped.length + sub64 0 (system.popped.length % 2 ^ 64)) % 2 ^ 64, .idle⟩ }
        cachedTail (system.popped.length + sub64 0 (system.popped.length % 2 ^ 64)) :=
      good.consumer_quiet (by omega) (by omega) trivial
    rwa [zero] at reopened
  next => cases step

/-- Every action keeps the invariant, as long as new objects are opened in states that a
copy of zero fits. -/
theorem System.Good.act (slotted : Slotted capacity)
    (good : system.Good capacity cachedTail cachedHead) {action : Action α} {after : System α}
    (fits : system.Reopens capacity action) (step : system.act capacity action = some after) :
    ∃ tail head, after.Good capacity tail head := by
  cases action with
  | push call => exact ⟨_, _, good.push step⟩
  | produce =>
      obtain ⟨copy, next⟩ := good.produce slotted step
      exact ⟨_, _, next⟩
  | pop call => exact ⟨_, _, good.pop step⟩
  | consume =>
      obtain ⟨copy, next⟩ := good.consume slotted step
      exact ⟨_, _, next⟩
  | reopenProducer =>
      obtain ⟨copy, next⟩ := good.reopenProducer slotted fits step
      exact ⟨_, _, next⟩
  | reopenConsumer =>
      obtain ⟨copy, next⟩ := good.reopenConsumer slotted fits step
      exact ⟨_, _, next⟩

/-- The invariant holds along a run. -/
theorem System.Good.run (slotted : Slotted capacity)
    {Allowed : System α → Action α → Prop}
    (admits : ∀ {state action}, Allowed state action → state.Reopens capacity action)
    {start after : System α} (begin : ∃ tail head, start.Good capacity tail head)
    (run : System.Run capacity Allowed start after) :
    ∃ tail head, after.Good capacity tail head := by
  induction run with
  | refl => exact begin
  | tail _ step ih =>
      obtain ⟨action, allowed, step⟩ := step
      obtain ⟨tail, head, good⟩ := ih
      exact good.act slotted (admits allowed) step

/-! ## What the two sides are promised -/

/-- The safety of the queue at one moment: what is popped is a part from the front of what
is pushed, at most a lap lies between them, the slot that is about to be written holds no
element that is still to be popped, and the slot that is about to be read holds the
element that is. -/
structure System.Safe (capacity : ℕ) (system : System α) : Prop where
  inOrder : system.popped <+: system.pushed
  lap : system.pushed.length ≤ system.popped.length + capacity
  pending : Join.pending system.segment = system.pushed.length - system.popped.length
  unread : ∀ seen stored element rest, system.producer.now = .write seen stored element rest →
    ∀ p, system.popped.length ≤ p → p < system.pushed.length →
      slotOf capacity (p % 2 ^ 64) ≠ slotOf capacity (add64 seen stored.length)
  published : ∀ seen toRead popped, system.consumer.now = .read seen toRead popped →
    system.pushed[system.popped.length + popped.length]? =
      some (system.segment.elements (slotOf capacity (add64 seen popped.length)))

theorem System.Good.safe (slotted : Slotted capacity)
    (good : system.Good capacity cachedTail cachedHead) : system.Safe capacity where
  inOrder := good.inOrder
  lap := good.lap
  pending := by
    have word := slotted.word
    have lap := good.lap
    rw [Join.pending, good.head, good.tail]
    exact sub64_mod good.length_le (by omega)
  unread := by
    intro seen stored element rest now p after before meets
    have knows := good.producer
    rw [now] at knows
    obtain ⟨same, room, _, _⟩ := knows
    simp only [List.length_append, List.length_cons] at room
    have old := good.tailOld
    rw [same, add64_mod, slotted.slot _ (by omega), slotted.slot _ (by omega)] at meets
    have equal := eq_of_mod_eq meets (by omega) (by omega)
    omega
  published := fun seen toRead popped now => good.read slotted now

/-- The action lets the objects live. -/
def Action.KeepsOpen : Action α → Prop
  | .reopenProducer | .reopenConsumer => False
  | _ => True

instance (action : Action α) : Decidable action.KeepsOpen :=
  match action with
  | .reopenProducer | .reopenConsumer => .isFalse id
  | .push _ | .produce | .pop _ | .consume => .isTrue trivial

/-- One producer and one consumer on a fresh segment of any capacity are safe, however
their steps interleave. -/
theorem spsc_safe (requested : ℕ) (word : requested < 2 ^ 64) (memory : ℕ → α)
    {system : System α}
    (run : System.Run (roundPow2 requested) (fun _ action => action.KeepsOpen)
      (System.initial memory) system) :
    system.Safe (roundPow2 requested) := by
  have slotted := slotted_roundPow2 word
  obtain ⟨tail, head, good⟩ := System.Good.run slotted
    (fun {state action} keeps => by cases action <;> first | trivial | exact keeps.elim)
    ⟨0, 0, System.initial_good _ memory⟩ run
  exact good.safe slotted

/-- The consumer reads while the producer finds the queue of one element full. -/
def pushesIntoFull : List (Action ℕ) :=
  List.flatten [[.push (.tryPush 1)], List.replicate 3 .produce,
    [.pop .tryPop, .push (.tryPush 2)], List.replicate 4 .consume, List.replicate 4 .produce]

theorem spsc_safe_one :
    ∃ system : System ℕ, system.pushed = [1, 2] ∧ system.popped = [1] ∧ system.Safe 1 := by
  have run : ((System.perform 1 (fun _ action => action.KeepsOpen) (System.initial fun _ => 0)
      pushesIntoFull).any fun system => system.pushed == [1, 2] && system.popped == [1]) =
      true := by decide +kernel
  obtain ⟨system, performed, tested⟩ := (Option.any_eq_true ..).mp run
  simp only [Bool.and_eq_true, beq_iff_eq] at tested
  obtain ⟨pushed, popped⟩ := tested
  exact ⟨system, pushed, popped,
    spsc_safe 1 (by decide) (fun _ => 0) (System.run_of_perform performed)⟩

end Spsc

end Join
