import Join.Core.RingThreads
import Join.Library.TicketRing

/-!
# What a producer knows

Between two of its steps a producer of `Mpsc` or `Mpmc` relies on facts about the
ring that the other parties cannot spoil: the counters it has read are lower bounds,
and the positions it has claimed are its own. `Producer.Knows` states these facts for
each local state. A step of the producer is a move of the ring, or none, and leads to
what it knows next (`Producer.step_advances`); a step of another party keeps what it
knows (`Producer.Knows.stable`).
-/

set_option autoImplicit false

namespace Join

open Library

/-- A segment shows the slots and the head of a ring. The tail is left out: with one
consumer it is stored later than the slots are given back. -/
structure QueueSegment.Shows {α Writer Freer : Type} (segment : FullSegment α)
    (ring : Ring α Writer Freer) : Prop where
  head : segment.head = ring.head
  seq : segment.seq = ring.seq
  data : segment.data = ring.data

/-- The elements that a call hands over when it returns. -/
def QueueReply.elements {α : Type} : Option (QueueReply α) → List α
  | some (.ok elements) => elements
  | _ => []

namespace Producer

variable {α Writer Freer : Type}

/-- The elements of the positions that the call has claimed. -/
def inFlight : Producer α → List α
  | .wait _ stored element rest => stored ++ element :: rest
  | .write _ stored element rest => stored ++ element :: rest
  | .publish _ stored element rest => stored ++ element :: rest
  | _ => []

/-- The writer has no position. -/
def Free (ring : Ring α Writer Freer) (who : Writer) : Prop := ∀ p, ring.writer p ≠ some who

/-- The writer has claimed the positions from `head` on, and those after the stored
elements are still its own. -/
structure Owns (ring : Ring α Writer Freer) (who : Writer) (head : ℕ) (stored todo : List α) :
    Prop where
  writer : ∀ p, ring.writer p = some who ↔
    head + stored.length ≤ p ∧ p < head + stored.length + todo.length
  pushed : ∀ j element, (stored ++ todo)[j]? = some element →
    ring.pushed[head + j]? = some element

/-- The facts a producer relies on in each local state. -/
def Knows (capacity : ℕ) (ring : Ring α Writer Freer) (who : Writer) : Producer α → Prop
  | .idle | .push _ | .batch _ => Free ring who
  | .pushSlot _ head | .batchTail _ head => head ≤ ring.head ∧ Free ring who
  | .pushClaim _ head =>
      (head ≤ ring.head ∧ head ≤ ring.seq (head % capacity)) ∧ Free ring who
  | .batchClaim elements head tail toWrite =>
      (head ≤ ring.head ∧ 0 < toWrite ∧ toWrite ≤ elements.length ∧
        (ring.head = head →
          head + toWrite ≤ ring.taken + capacity ∧ sub64 head tail ≤ capacity)) ∧ Free ring who
  | .wait head stored element rest => Owns ring who head stored (element :: rest)
  | .write head stored element rest =>
      head + stored.length ≤ ring.seq ((head + stored.length) % capacity) ∧
        Owns ring who head stored (element :: rest)
  | .publish head stored element rest =>
      ring.written (head + stored.length) ∧ Owns ring who head stored (element :: rest)

/-- The position whose slot the next step of the producer writes. -/
def writing : Producer α → Option ℕ
  | .write head stored _ _ => some (add64 head stored.length)
  | _ => none

/-- The producer has claimed the position and not published it yet. -/
def Owes (position : ℕ) : Producer α → Prop
  | .wait head stored _ rest | .write head stored _ rest | .publish head stored _ rest =>
      head + stored.length ≤ position ∧ position < head + stored.length + (rest.length + 1)
  | _ => False

/-- A batch push that is about to read the tail has seen a head within the limit. -/
def Within (limit : ℕ) : Producer α → Prop
  | .batchTail _ head => head ≤ limit
  | _ => True

instance (limit : ℕ) (now : Producer α) : Decidable (now.Within limit) :=
  match now with
  | .batchTail _ head => inferInstanceAs (Decidable (head ≤ limit))
  | .idle | .push _ | .pushSlot _ _ | .pushClaim _ _ | .batch _ | .batchClaim _ _ _ _
  | .wait _ _ _ _ | .write _ _ _ _ | .publish _ _ _ _ => .isTrue trivial

/-- What a producer owes is its own. -/
theorem Knows.writer {capacity : ℕ} {ring : Ring α Writer Freer} {now : Producer α} {who : Writer}
    {position : ℕ} (knows : now.Knows capacity ring who) (owes : now.Owes position) :
    ring.writer position = some who := by
  cases now with
  | wait head stored element rest => exact (Owns.writer knows position).mpr owes
  | write head stored element rest => exact (knows.2.writer position).mpr owes
  | publish head stored element rest => exact (knows.2.writer position).mpr owes
  | _ => exact owes.elim

/-! ## The steps of others -/

section Stable

variable {ring after : Ring α Writer Freer} {who : Writer}

theorem Free.stable (free : Free ring who) (keeps : ring.KeepsWriter who after) :
    Free after who := fun p owner => free p ((keeps p).1.mpr owner)

theorem Owns.stable {head : ℕ} {stored todo : List α} (owns : Owns ring who head stored todo)
    (grows : ring.Grows after) (keeps : ring.KeepsWriter who after) :
    Owns after who head stored todo where
  writer p := (keeps p).1.symm.trans (owns.writer p)
  pushed j element there := grows.getElem? (owns.pushed j element there)

/-- A step of another party keeps what a producer knows. -/
theorem Knows.stable {capacity : ℕ} {now : Producer α} (knows : now.Knows capacity ring who)
    (grows : ring.Grows after) (keeps : ring.KeepsWriter who after) :
    now.Knows capacity after who := by
  have head := grows.head
  have taken := grows.taken
  cases now with
  | idle => exact Free.stable knows keeps
  | push element => exact Free.stable knows keeps
  | batch elements => exact Free.stable knows keeps
  | pushSlot element seen => exact ⟨knows.1.trans head, knows.2.stable keeps⟩
  | batchTail elements seen => exact ⟨knows.1.trans head, knows.2.stable keeps⟩
  | pushClaim element seen =>
      exact ⟨⟨knows.1.1.trans head, knows.1.2.trans (grows.seq _)⟩, knows.2.stable keeps⟩
  | batchClaim elements seen tail toWrite =>
      obtain ⟨⟨bound, some, few, room⟩, free⟩ := knows
      refine ⟨⟨bound.trans head, some, few, fun same => ?_⟩, free.stable keeps⟩
      -- the head has not moved between, or it would be past the value read
      have still : ring.head = seen := by omega
      exact ⟨(room still).1.trans (by omega), (room still).2⟩
  | wait seen stored element rest => exact Owns.stable knows grows keeps
  | write seen stored element rest =>
      exact ⟨knows.1.trans (grows.seq _), knows.2.stable grows keeps⟩
  | publish seen stored element rest =>
      have own : ring.writer (seen + stored.length) = some who :=
        (knows.2.writer _).mpr ⟨le_refl _, by simp⟩
      exact ⟨(keeps _).2 own knows.1, knows.2.stable grows keeps⟩

end Stable

/-! ## A step of the producer -/

/-- What a step of a producer does to the ring. -/
structure Advances (capacity : ℕ) (who : Writer) (ring : Ring α Writer Freer)
    (segment : FullSegment α) (now : Producer α) (turn : QueueTurn (Producer α) α)
    (after : Ring α Writer Freer) : Prop where
  runs : Ring.Runs capacity (.inl who) ring after
  shows : turn.memory.Shows after
  tail : turn.memory.tail = segment.tail
  knows : turn.next.Knows capacity after who
  pushed : after.pushed = ring.pushed ++ turn.moved
  taken : after.taken = ring.taken
  freer : after.freer = ring.freer
  account : QueueReply.elements turn.reply ++ turn.next.inFlight = now.inFlight ++ turn.moved

section Step

variable {capacity : ℕ} {ring : Ring α Writer Freer} {segment : FullSegment α} {who : Writer}

/-- A step that changes neither the memory nor the ring. -/
theorem Advances.quiet (shows : segment.Shows ring) {now next : Producer α}
    {reply : Option (QueueReply α)} (knows : next.Knows capacity ring who)
    (account : QueueReply.elements reply ++ next.inFlight = now.inFlight) :
    Advances capacity who ring segment now ⟨segment, next, [], reply⟩ ring where
  runs := .refl
  shows := shows
  tail := rfl
  knows := knows
  pushed := (List.append_nil _).symm
  taken := rfl
  freer := rfl
  account := account.trans (List.append_nil _).symm

/-- What the loop over the claimed slots starts with: the slot is free for the position,
or the producer is going to wait for it. -/
theorem knows_fill {waits : Bool} (sound : ring.Sound capacity)
    (orderly : waits = true ∨ ∀ p, ring.freer p = none) {head : ℕ} {stored : List α}
    {element : α} {rest : List α} (owns : Owns ring who head stored (element :: rest)) :
    (if waits then Producer.wait head stored element rest
      else .write head stored element rest).Knows capacity ring who := by
  cases waits with
  | true => exact owns
  | false =>
      refine ⟨?_, owns⟩
      have none := orderly.resolve_left Bool.false_ne_true
      have own : ring.writer (head + stored.length) ≠ Option.none := by
        rw [(owns.writer _).mpr ⟨le_refl _, by simp⟩]
        exact Option.some_ne_none who
      obtain ⟨low, high, _⟩ := sound.writing _ own
      have lap := sound.head_le
      rcases sound.phase _ low (by omega) with awaits | holds | lags
      · exact le_of_eq awaits.symm
      · exact absurd holds.2.1 own
      · exact absurd (none _) lags.2.2

/-- The claim of the next positions. -/
theorem owns_claim (free : Free ring who) (elements : List α) :
    Owns (ring.claim who elements) who ring.head [] elements where
  writer p := by
    simp only [Ring.claim, List.length_nil, Nat.add_zero]
    by_cases inside : ring.head ≤ p ∧ p < ring.head + elements.length
    · simp [inside]
    · simp only [if_neg inside, iff_false_right inside]
      exact free p
  pushed j element there := by
    simp only [Ring.claim, Ring.head, List.nil_append] at there ⊢
    rw [List.getElem?_append_right (Nat.le_add_right _ _), Nat.add_sub_cancel_left, there]

/-- The first of the positions that a producer works on is its own, and it is the
position of the element at hand. -/
theorem Owns.first {head : ℕ} {stored rest : List α} {element : α}
    (owns : Owns ring who head stored (element :: rest)) :
    ring.writer (head + stored.length) = some who ∧
      ring.pushed[head + stored.length]? = some element := by
  constructor
  · exact (owns.writer _).mpr ⟨le_refl _, by simp⟩
  · apply owns.pushed
    rw [List.getElem?_append_right (le_refl _), Nat.sub_self, List.getElem?_cons_zero]

/-- An owned position is a word. -/
theorem Owns.word (sound : ring.Sound capacity) (fits : ring.head + capacity ≤ 2 ^ 64) {head : ℕ}
    {stored rest : List α} {element : α}
    (owns : Owns ring who head stored (element :: rest)) :
    add64 head stored.length = head + stored.length ∧
      add64 (head + stored.length) 1 = head + stored.length + 1 := by
  have bound := (sound.writing _ (by rw [owns.first.1]; exact Option.some_ne_none who)).2.1
  have two := sound.two
  exact ⟨add64_of_lt (by omega), add64_of_lt (by omega)⟩

/-- The space that a batch push computes from the current head does not pass the room. -/
theorem room_of_space (size : ℕ) {head tail : ℕ} (below : tail ≤ head) (above : head ≤ tail + capacity)
    (word : head < 2 ^ 64) (small : capacity < 2 ^ 64) :
    head + min size (sub64 capacity (sub64 head tail)) ≤ tail + capacity ∧
      sub64 head tail ≤ capacity := by
  rw [sub64_of_le below word, sub64_of_le (by omega) small]
  omega

/-- Claiming positions for elements, given the room. -/
theorem advances_claim (shows : segment.Shows ring) {now next : Producer α} (idle : now.inFlight = [])
    {elements : List α} (room : ring.head + elements.length ≤ ring.taken + capacity)
    (knows : next.Knows capacity (ring.claim who elements) who) (flight : next.inFlight = elements)
    (word : add64 segment.head elements.length = ring.head + elements.length) :
    Advances capacity who ring segment now
      ⟨{ segment with head := add64 segment.head elements.length }, next, elements, none⟩
      (ring.claim who elements) where
  runs := .single (.claim who elements room)
  shows := ⟨by simp [word, Ring.claim, Ring.head], shows.seq, shows.data⟩
  tail := rfl
  knows := knows
  pushed := rfl
  taken := rfl
  freer := rfl
  account := by simp [QueueReply.elements, flight, idle]

/-- Writing the element at hand. -/
theorem advances_write (slots : ∀ p, slotOf capacity p = p % capacity)
    (sound : ring.Sound capacity) (shows : segment.Shows ring)
    (fits : ring.head + capacity ≤ 2 ^ 64) {head : ℕ} {stored rest : List α} {element : α}
    (turn : head + stored.length ≤ ring.seq ((head + stored.length) % capacity))
    (owns : Owns ring who head stored (element :: rest)) :
    Advances capacity who ring segment (.write head stored element rest)
      (.goOn (segment.storeData (slotOf capacity (add64 head stored.length)) element)
        (.publish head stored element rest))
      (ring.write capacity (head + stored.length) element) := by
  obtain ⟨owner, own⟩ := owns.first
  obtain ⟨word, _⟩ := owns.word sound fits
  have waiting := (sound.writing _ (by rw [owner]; exact Option.some_ne_none who)).2.2
  rw [word, slots]
  exact {
    runs := .single (.write who _ element owner (le_antisymm waiting turn) own)
    shows := ⟨shows.head, by simp [Turn.goOn, Ring.write, shows.seq],
      by simp [Turn.goOn, Ring.write, shows.data]⟩
    tail := rfl
    knows := ⟨by simp [Ring.write], owns.writer, owns.pushed⟩
    pushed := (List.append_nil _).symm
    taken := rfl
    freer := rfl
    account := by simp [Turn.goOn, QueueReply.elements, inFlight] }

/-- What remains after the element at hand is published. -/
theorem Owns.publish {head : ℕ} {stored rest : List α} {element : α}
    (owns : Owns ring who head stored (element :: rest)) :
    Owns (ring.publish capacity (head + stored.length)) who head (stored ++ [element]) rest where
  writer p := by
    simp only [Ring.publish, List.length_append, List.length_singleton]
    by_cases same : p = head + stored.length
    · subst same
      simp only [Function.update_self, reduceCtorEq, false_iff]
      omega
    · rw [Function.update_of_ne same, owns.writer p, List.length_cons]
      omega
  pushed j item there := by
    refine owns.pushed j item ?_
    rwa [List.append_assoc, List.singleton_append] at there

/-- Publishing the element at hand, and going to the next slot or returning. -/
theorem advances_publish (waits : Bool) (slots : ∀ p, slotOf capacity p = p % capacity)
    (sound : ring.Sound capacity) (shows : segment.Shows ring)
    (orderly : waits = true ∨ ∀ p, ring.freer p = none)
    (fits : ring.head + capacity ≤ 2 ^ 64) {head : ℕ} {stored rest : List α} {element : α}
    (done : ring.written (head + stored.length))
    (owns : Owns ring who head stored (element :: rest)) :
    Advances capacity who ring segment (.publish head stored element rest)
      (fill waits (segment.storeSeq (slotOf capacity (add64 head stored.length))
        (add64 (add64 head stored.length) 1)) head (stored ++ [element]) rest)
      (ring.publish capacity (head + stored.length)) := by
  obtain ⟨owner, _⟩ := owns.first
  obtain ⟨word, next⟩ := owns.word sound fits
  have move : ring.Moves capacity (.inl who) (ring.publish capacity (head + stored.length)) :=
    .publish who _ owner done
  rw [word, next, slots]
  have remain : Owns (ring.publish capacity (head + stored.length)) who head
      (stored ++ [element]) rest := owns.publish
  have shown : (segment.storeSeq ((head + stored.length) % capacity)
      (head + stored.length + 1)).Shows (ring.publish capacity (head + stored.length)) :=
    ⟨shows.head, by simp [Ring.publish, shows.seq], by simp [Ring.publish, shows.data]⟩
  cases rest with
  | nil =>
      exact {
        runs := .single move
        shows := shown
        tail := rfl
        knows := by
          intro p owned
          have := (remain.writer p).mp owned
          simp only [List.length_nil] at this
          omega
        pushed := (List.append_nil _).symm
        taken := rfl
        freer := rfl
        account := by simp [fill, Turn.finish, QueueReply.elements, inFlight] }
  | cons item rest =>
      exact {
        runs := .single move
        shows := shown
        tail := rfl
        knows := knows_fill (move.sound sound) orderly remain
        pushed := (List.append_nil _).symm
        taken := rfl
        freer := rfl
        account := by
          cases waits <;> simp [fill, Turn.goOn, QueueReply.elements, inFlight] }

/-- The positions claimed by a compare-exchange that succeeds. -/
theorem advances_batchClaim {waits : Bool} (sound : ring.Sound capacity)
    (shows : segment.Shows ring) (orderly : waits = true ∨ ∀ p, ring.freer p = none)
    {elements : List α} {tail toWrite : ℕ} (some : 0 < toWrite) (few : toWrite ≤ elements.length)
    (room : ring.head + toWrite ≤ ring.taken + capacity) (free : Free ring who)
    (word : ring.head + toWrite < 2 ^ 64) :
    Advances capacity who ring segment (.batchClaim elements segment.head tail toWrite)
      { fill waits { segment with head := add64 segment.head toWrite } segment.head []
          (elements.take toWrite) with
        moved := elements.take toWrite }
      (ring.claim who (elements.take toWrite)) := by
  have length : (elements.take toWrite).length = toWrite := by
    rw [List.length_take, Nat.min_eq_left few]
  have owns := owns_claim free (elements.take toWrite)
  have fit : ring.head + (elements.take toWrite).length ≤ ring.taken + capacity := by
    rwa [length]
  have claimed : (ring.claim who (elements.take toWrite)).Sound capacity :=
    sound.claim who _ fit
  have exact : add64 segment.head (elements.take toWrite).length =
      ring.head + (elements.take toWrite).length := by
    rw [length, shows.head]
    exact add64_of_lt word
  rw [← shows.head] at owns
  cases taken : elements.take toWrite with
  | nil => simp [taken] at length; omega
  | cons element rest =>
      rw [taken] at owns fit claimed exact length
      rw [← length]
      refine advances_claim shows rfl fit (knows_fill claimed orderly owns) ?_ exact
      cases waits <;> rfl

/-- Every step of a producer is a move of the ring, or none, and leads to what the
producer knows next. The space of a batch push is right when the tail it reads is not
more than a lap behind the head. -/
theorem step_advances (waits weak : Bool)
    (slots : ∀ p, slotOf capacity p = p % capacity)
    (small : capacity < 2 ^ 64) (sound : ring.Sound capacity) (shows : segment.Shows ring)
    (orderly : waits = true ∨ ∀ p, ring.freer p = none) (behind : segment.tail ≤ ring.taken)
    {now : Producer α} (knows : now.Knows capacity ring who)
    (space : ∀ elements, now = .batchTail elements ring.head →
      ring.head ≤ segment.tail + capacity)
    (fits : ring.head + (step waits capacity weak segment now).moved.length + capacity ≤ 2 ^ 64) :
    ∃ after, Advances capacity who ring segment now (step waits capacity weak segment now)
      after := by
  have two := sound.two
  have low := sound.taken_le
  have head := shows.head
  cases now with
  | idle => exact ⟨ring, .quiet shows knows rfl⟩
  | push element => exact ⟨ring, .quiet shows ⟨le_of_eq head, knows⟩ rfl⟩
  | pushSlot element seen =>
      simp only [step]
      split_ifs with same less
      · rw [shows.seq, slots] at same
        exact ⟨ring, .quiet shows ⟨⟨knows.1, le_of_eq same.symm⟩, knows.2⟩ rfl⟩
      · exact ⟨ring, .quiet shows knows.2 rfl⟩
      · exact ⟨ring, .quiet shows knows.2 rfl⟩
  | pushClaim element seen =>
      obtain ⟨⟨bound, free⟩, none⟩ := knows
      by_cases succeeds : segment.head = seen ∧ weak = false
      · simp only [step, if_pos succeeds] at fits ⊢
        obtain ⟨rfl, _⟩ := succeeds
        rw [head] at free
        obtain ⟨room, turn⟩ := sound.room_of_seq free
        have owns := owns_claim none [element]
        rw [← head] at owns
        have room : ring.head + [element].length ≤ ring.taken + capacity := room
        refine ⟨_, advances_claim shows rfl room ⟨?_, owns⟩ rfl ?_⟩
        · simp only [List.length_nil, Nat.add_zero, Ring.claim, head]
          exact le_of_eq turn.symm
        · simp only [Turn.move, List.length_singleton] at fits ⊢
          rw [head]
          exact add64_of_lt (by omega)
      · simp only [step, if_neg succeeds]
        exact ⟨ring, .quiet shows ⟨le_of_eq head, none⟩ rfl⟩
  | batch elements =>
      simp only [step]
      split_ifs
      · exact ⟨ring, .quiet shows knows rfl⟩
      · exact ⟨ring, .quiet shows ⟨le_of_eq head, knows⟩ rfl⟩
  | batchTail elements seen =>
      simp only [step]
      split_ifs with full
      · exact ⟨ring, .quiet shows knows.2 rfl⟩
      · refine ⟨ring, .quiet shows ⟨⟨knows.1, Nat.pos_of_ne_zero full, Nat.min_le_left _ _, ?_⟩,
          knows.2⟩ rfl⟩
        rintro rfl
        simp only [step, if_neg full, Turn.goOn, List.length_nil] at fits
        have below : segment.tail ≤ ring.head := behind.trans low
        obtain ⟨room, count⟩ := room_of_space elements.length below (space elements rfl)
          (by omega) small
        exact ⟨by omega, count⟩
  | batchClaim elements seen tail toWrite =>
      obtain ⟨⟨bound, some, few, room⟩, none⟩ := knows
      by_cases succeeds : segment.head = seen ∧ weak = false
      · simp only [step, if_pos succeeds, List.length_take] at fits ⊢
        obtain ⟨rfl, _⟩ := succeeds
        rw [Nat.min_eq_left few] at fits
        have lap := (room head.symm).1
        rw [head] at lap
        exact ⟨_, advances_batchClaim sound shows orderly some few lap none (by omega)⟩
      · simp only [step, if_neg succeeds]
        exact ⟨ring, .quiet shows ⟨le_of_eq head, none⟩ rfl⟩
  | wait seen stored element rest =>
      have owns : Owns ring who seen stored (element :: rest) := knows
      simp only [step, Turn.goOn] at fits ⊢
      split_ifs with turn
      · obtain ⟨word, _⟩ := owns.word sound (by split_ifs at fits; simpa using fits)
        rw [word, shows.seq, slots] at turn
        exact ⟨ring, .quiet shows ⟨le_of_eq turn.symm, owns⟩
          (by simp [inFlight, QueueReply.elements])⟩
      · exact ⟨ring, .quiet shows knows (by simp [inFlight, QueueReply.elements])⟩
  | write seen stored element rest =>
      simp only [step, Turn.goOn, List.length_nil, Nat.add_zero] at fits
      exact ⟨_, advances_write slots sound shows fits knows.1 knows.2⟩
  | publish seen stored element rest =>
      have fits : ring.head + capacity ≤ 2 ^ 64 := by omega
      exact ⟨_, advances_publish waits slots sound shows orderly fits knows.1 knows.2⟩

end Step

end Producer

end Join
