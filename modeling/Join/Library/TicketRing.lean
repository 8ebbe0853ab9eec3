import Mathlib.Data.List.Basic
import Mathlib.Data.Nat.ModEq
import Mathlib.Logic.Function.Basic
import Mathlib.Logic.Relation

/-!
# Rings of numbered tickets

Positions `0, 1, 2, …` are handed out in order, to the parties that write them and
later to the parties that take them. Position `p` lives in slot `p % capacity`, and
the slot carries a sequence number that says which position it serves: `p` when the
slot is free for position `p`, `p + 1` when the element of position `p` is in it,
`p + capacity` when it has been given back for the next lap.

A writer claims the next positions, writes each of them and publishes it; a freer
takes the oldest positions and gives their slots back. The claims are the only
points where the parties are ordered: between them every party works on the
positions it owns. The invariant `Ring.Sound` says what the sequence numbers mean at
every moment, and each move keeps it.

For the party that is not moving, a move only lets the counters grow and leaves its
positions alone (`Moves.grows`, `Moves.keeps_writer`, `Moves.keeps_freer`): these are
the facts on which what a party remembers may rest.
-/

set_option autoImplicit false

namespace Join.Library

/-- Two numbers less than a lap apart that share a slot are equal. -/
theorem eq_of_mod_eq {capacity p q : ℕ} (slot : p % capacity = q % capacity)
    (below : p < q + capacity) (above : q < p + capacity) : p = q := by
  rcases Nat.le_total p q with order | order
  · have divides : capacity ∣ q - p := (Nat.modEq_iff_dvd' order).mp slot
    have zero := Nat.eq_zero_of_dvd_of_lt divides (by omega)
    omega
  · have divides : capacity ∣ p - q := (Nat.modEq_iff_dvd' order).mp slot.symm
    have zero := Nat.eq_zero_of_dvd_of_lt divides (by omega)
    omega

/-- Neighbours do not share a slot when there are two slots. -/
theorem mod_ne_succ {capacity p : ℕ} (two : 2 ≤ capacity) :
    (p + 1) % capacity ≠ p % capacity := by
  intro same
  have equal := eq_of_mod_eq same (by omega) (by omega)
  omega

/-- A ring with what has been claimed from it. The slots are indexed by the position
modulo the capacity, the claims by the position itself. -/
structure Ring (α Writer Freer : Type) where
  seq : ℕ → ℕ
  data : ℕ → α
  /-- The elements of the positions handed out to writers. -/
  pushed : List α
  /-- The number of positions handed out to freers. -/
  taken : ℕ
  /-- The party that has claimed a position and not published it yet. -/
  writer : ℕ → Option Writer
  /-- The element of the position is in its slot, and not published yet. -/
  written : ℕ → Prop
  /-- The party that has taken a position and not given its slot back yet. -/
  freer : ℕ → Option Freer

namespace Ring

variable {α Writer Freer : Type}

/-- The number of positions handed out to writers. -/
def head (ring : Ring α Writer Freer) : ℕ := ring.pushed.length

/-- Nothing has been handed out, and slot `i` is free for position `i`. -/
def fresh (seq : ℕ → ℕ) (data : ℕ → α) : Ring α Writer Freer where
  seq := seq
  data := data
  pushed := []
  taken := 0
  writer := fun _ => none
  written := fun _ => False
  freer := fun _ => none

/-! ## Moves -/

/-- Hand out the next positions to a writer. -/
def claim (ring : Ring α Writer Freer) (who : Writer) (elements : List α) :
    Ring α Writer Freer :=
  { ring with
    pushed := ring.pushed ++ elements
    writer := fun p =>
      if ring.head ≤ p ∧ p < ring.head + elements.length then some who else ring.writer p }

/-- Put the element of a position in its slot. -/
def write (capacity : ℕ) (ring : Ring α Writer Freer) (p : ℕ) (element : α) :
    Ring α Writer Freer :=
  { ring with
    data := Function.update ring.data (p % capacity) element
    written := Function.update ring.written p True }

/-- Let the slot of a position say that its element is there. -/
def publish (capacity : ℕ) (ring : Ring α Writer Freer) (p : ℕ) : Ring α Writer Freer :=
  { ring with
    seq := Function.update ring.seq (p % capacity) (p + 1)
    writer := Function.update ring.writer p none
    written := Function.update ring.written p False }

/-- Hand out the oldest positions to a freer. -/
def take (ring : Ring α Writer Freer) (who : Freer) (count : ℕ) : Ring α Writer Freer :=
  { ring with
    taken := ring.taken + count
    freer := fun p =>
      if ring.taken ≤ p ∧ p < ring.taken + count then some who else ring.freer p }

/-- Give the slot of a position back for the next lap. -/
def free (capacity : ℕ) (ring : Ring α Writer Freer) (p : ℕ) : Ring α Writer Freer :=
  { ring with
    seq := Function.update ring.seq (p % capacity) (p + capacity)
    freer := Function.update ring.freer p none }

/-- The moves of one party, with what the party has to know to make them. -/
inductive Moves (capacity : ℕ) (ring : Ring α Writer Freer) :
    Writer ⊕ Freer → Ring α Writer Freer → Prop where
  | claim (who : Writer) (elements : List α)
      (room : ring.head + elements.length ≤ ring.taken + capacity) :
      Moves capacity ring (.inl who) (ring.claim who elements)
  | write (who : Writer) (p : ℕ) (element : α) (owner : ring.writer p = some who)
      (turn : ring.seq (p % capacity) = p) (own : ring.pushed[p]? = some element) :
      Moves capacity ring (.inl who) (ring.write capacity p element)
  | publish (who : Writer) (p : ℕ) (owner : ring.writer p = some who) (done : ring.written p) :
      Moves capacity ring (.inl who) (ring.publish capacity p)
  | take (who : Freer) (count : ℕ)
      (ready : ∀ j < count,
        ring.taken + j + 1 ≤ ring.seq ((ring.taken + j) % capacity)) :
      Moves capacity ring (.inr who) (ring.take who count)
  | free (who : Freer) (p : ℕ) (owner : ring.freer p = some who) :
      Moves capacity ring (.inr who) (ring.free capacity p)

/-! ## What the sequence numbers mean -/

/-- The slot waits for the element of the position. -/
def Awaits (capacity : ℕ) (ring : Ring α Writer Freer) (p : ℕ) : Prop :=
  ring.seq (p % capacity) = p

/-- The slot holds the published element of the position. -/
def Holds (capacity : ℕ) (ring : Ring α Writer Freer) (p : ℕ) : Prop :=
  ring.seq (p % capacity) = p + 1 ∧ ring.writer p = none ∧
    ring.pushed[p]? = some (ring.data (p % capacity))

/-- The slot has been taken one lap before and is not given back yet. -/
def Lags (capacity : ℕ) (ring : Ring α Writer Freer) (p : ℕ) : Prop :=
  capacity ≤ p ∧ ring.seq (p % capacity) + capacity = p + 1 ∧ ring.freer (p - capacity) ≠ none

/-- The invariant of a ring: at most a lap is handed out, and each slot is in one of
three phases for the position of the current lap. -/
structure Sound (capacity : ℕ) (ring : Ring α Writer Freer) : Prop where
  two : 2 ≤ capacity
  taken_le : ring.taken ≤ ring.head
  head_le : ring.head ≤ ring.taken + capacity
  phase : ∀ p, ring.taken ≤ p → p < ring.taken + capacity →
    ring.Awaits capacity p ∨ ring.Holds capacity p ∨ ring.Lags capacity p
  owed : ∀ p, ring.taken ≤ p → p < ring.head → ring.seq (p % capacity) ≤ p → ring.writer p ≠ none
  writing : ∀ p, ring.writer p ≠ none →
    ring.taken ≤ p ∧ p < ring.head ∧ ring.seq (p % capacity) ≤ p
  freeing : ∀ p, ring.freer p ≠ none → p < ring.taken ∧ ring.seq (p % capacity) = p + 1
  ready : ∀ p, ring.written p →
    ring.writer p ≠ none ∧ ring.seq (p % capacity) = p ∧
      ring.pushed[p]? = some (ring.data (p % capacity))

theorem fresh_sound {capacity : ℕ} (two : 2 ≤ capacity) {seq : ℕ → ℕ} (data : ℕ → α)
    (own : ∀ i < capacity, seq i = i) :
    (fresh seq data : Ring α Writer Freer).Sound capacity where
  two := two
  taken_le := Nat.zero_le _
  head_le := Nat.zero_le _
  phase := by
    intro p _ inside
    left
    have small : p < capacity := by simpa [fresh] using inside
    simp only [Awaits, fresh, Nat.mod_eq_of_lt small, own p small]
  owed := by
    intro p _ inside
    simp [fresh, head] at inside
  writing := by simp [fresh]
  freeing := by simp [fresh]
  ready := by simp [fresh]

namespace Sound

variable {capacity : ℕ} {ring : Ring α Writer Freer}

/-- In the current lap the sequence number is at most one past the position. -/
theorem seq_le (sound : ring.Sound capacity) {p : ℕ} (low : ring.taken ≤ p)
    (high : p < ring.taken + capacity) : ring.seq (p % capacity) ≤ p + 1 := by
  have two := sound.two
  rcases sound.phase p low high with awaits | holds | lags
  · unfold Awaits at awaits
    omega
  · exact holds.1.le
  · have := lags.2.1
    omega

/-- A sequence number past the position says that the element is there. -/
theorem holds_of_lt (sound : ring.Sound capacity) {p : ℕ} (low : ring.taken ≤ p)
    (high : p < ring.taken + capacity) (past : p + 1 ≤ ring.seq (p % capacity)) :
    ring.Holds capacity p := by
  have two := sound.two
  rcases sound.phase p low high with awaits | holds | lags
  · unfold Awaits at awaits
    omega
  · exact holds
  · have := lags.2.1
    omega

/-- Only positions of the current lap can be ahead of what is taken. -/
theorem lt_capacity_of_ready (sound : ring.Sound capacity) {count : ℕ}
    (ready : ∀ j < count, ring.taken + j + 1 ≤ ring.seq ((ring.taken + j) % capacity)) :
    count ≤ capacity := by
  by_contra many
  have two := sound.two
  have past := ready capacity (by omega)
  rw [Nat.add_mod_right] at past
  have bound := sound.seq_le (le_refl ring.taken) (by omega)
  omega

/-- Everything ready to be taken is there. -/
theorem holds_of_ready (sound : ring.Sound capacity) {count : ℕ}
    (ready : ∀ j < count, ring.taken + j + 1 ≤ ring.seq ((ring.taken + j) % capacity))
    {j : ℕ} (inside : j < count) : ring.Holds capacity (ring.taken + j) := by
  have few := sound.lt_capacity_of_ready ready
  exact sound.holds_of_lt (by omega) (by omega) (ready j inside)

/-- A slot that is free for the next position to be handed out leaves room. -/
theorem room_of_seq (sound : ring.Sound capacity)
    (free : ring.head ≤ ring.seq (ring.head % capacity)) :
    ring.head < ring.taken + capacity ∧ ring.seq (ring.head % capacity) = ring.head := by
  have two := sound.two
  have low := sound.taken_le
  have high := sound.head_le
  have room : ring.head < ring.taken + capacity := by
    by_contra full
    have last : ring.head = ring.taken + capacity := by omega
    have bound := sound.seq_le (le_refl ring.taken) (by omega)
    rw [last, Nat.add_mod_right] at free
    omega
  refine ⟨room, ?_⟩
  rcases sound.phase ring.head low room with awaits | holds | lags
  · exact awaits
  · have inside := (List.getElem?_eq_some_iff.mp holds.2.2).1
    exact absurd inside (lt_irrefl _)
  · have := lags.2.1
    omega

/-- Two claimed positions never share a slot. -/
theorem writer_eq (sound : ring.Sound capacity) {p q : ℕ} (first : ring.writer p ≠ none)
    (second : ring.writer q ≠ none) (slot : p % capacity = q % capacity) : p = q := by
  have left := sound.writing p first
  have right := sound.writing q second
  have high := sound.head_le
  exact eq_of_mod_eq slot (by omega) (by omega)

/-- The slot of a taken position serves the next lap. -/
theorem lags_of_freer (sound : ring.Sound capacity) {p q : ℕ} (freer : ring.freer p ≠ none)
    (low : ring.taken ≤ q) (high : q < ring.taken + capacity)
    (slot : q % capacity = p % capacity) : q = p + capacity ∧ ring.Lags capacity q := by
  have two := sound.two
  obtain ⟨before, number⟩ := sound.freeing p freer
  rcases sound.phase q low high with awaits | holds | lags
  · unfold Awaits at awaits
    rw [slot, number] at awaits
    exact absurd (awaits ▸ slot) (mod_ne_succ two)
  · have := holds.1
    rw [slot, number] at this
    omega
  · have := lags.2.1
    rw [slot, number] at this
    exact ⟨by omega, lags⟩

/-! ## Each move keeps the invariant -/

theorem claim (sound : ring.Sound capacity) (who : Writer) (elements : List α)
    (room : ring.head + elements.length ≤ ring.taken + capacity) :
    (ring.claim who elements).Sound capacity := by
  have low := sound.taken_le
  have grown : (ring.claim who elements).head = ring.head + elements.length := by
    simp [Ring.claim, head]
  have old : ∀ p < ring.head, (ring.claim who elements).writer p = ring.writer p := by
    intro p inside
    simp only [Ring.claim]
    rw [if_neg (by omega)]
  have new : ∀ p, ring.head ≤ p → p < ring.head + elements.length →
      (ring.claim who elements).writer p ≠ none := by
    intro p after inside
    simp only [Ring.claim]
    rw [if_pos ⟨after, inside⟩]
    exact Option.some_ne_none who
  have same : ∀ p, (ring.claim who elements).writer p ≠ none → ring.head ≤ p ∧
      p < ring.head + elements.length ∨ ring.writer p ≠ none := by
    intro p owned
    by_cases inside : ring.head ≤ p ∧ p < ring.head + elements.length
    · exact .inl inside
    · simp only [Ring.claim, if_neg inside] at owned
      exact .inr owned
  have extend : ∀ {p : ℕ} {element : α}, ring.pushed[p]? = some element →
      (ring.pushed ++ elements)[p]? = some element := by
    intro p element there
    rw [List.getElem?_append_left (List.getElem?_eq_some_iff.mp there).1, there]
  exact {
    two := sound.two
    taken_le := by
      rw [grown]
      exact Nat.le_add_right_of_le low
    head_le := grown ▸ room
    phase := by
      intro p after inside
      rcases sound.phase p after inside with awaits | holds | lags
      · exact .inl awaits
      · have before := (List.getElem?_eq_some_iff.mp holds.2.2).1
        exact .inr (.inl ⟨holds.1, by rw [old p before, holds.2.1], extend holds.2.2⟩)
      · exact .inr (.inr lags)
    owed := by
      intro p after inside waiting
      rw [grown] at inside
      by_cases before : p < ring.head
      · rw [old p before]
        exact sound.owed p after before waiting
      · exact new p (by omega) inside
    writing := by
      intro p owned
      rw [grown]
      rcases same p owned with ⟨after, inside⟩ | before
      · refine ⟨le_trans low after, inside, ?_⟩
        rcases sound.phase p (le_trans low after) (by omega) with awaits | holds | lags
        · exact le_of_eq awaits
        · have := (List.getElem?_eq_some_iff.mp holds.2.2).1
          exact absurd after (by simpa [head] using this)
        · have := lags.2.1
          have := sound.two
          show ring.seq (p % capacity) ≤ p
          omega
      · obtain ⟨after, inside, waiting⟩ := sound.writing p before
        exact ⟨after, by omega, waiting⟩
    freeing := sound.freeing
    ready := by
      intro p done
      obtain ⟨owned, turn, there⟩ := sound.ready p done
      refine ⟨?_, turn, extend there⟩
      rw [old p (sound.writing p owned).2.1]
      exact owned }

theorem write (sound : ring.Sound capacity) {p : ℕ} {element : α} (owned : ring.writer p ≠ none)
    (turn : ring.seq (p % capacity) = p) (own : ring.pushed[p]? = some element) :
    (ring.write capacity p element).Sound capacity := by
  -- a slot that holds or has been written for another position is another slot
  have apart : ∀ q, ring.pushed[q]? = some (ring.data (q % capacity)) →
      (q % capacity = p % capacity → q = p) →
      ring.pushed[q]? = some (Function.update ring.data (p % capacity) element (q % capacity)) := by
    intro q there only
    by_cases slot : q % capacity = p % capacity
    · rw [only slot, Function.update_self, own]
    · rw [Function.update_of_ne slot, there]
  exact {
    two := sound.two
    taken_le := sound.taken_le
    head_le := sound.head_le
    phase := by
      intro q after inside
      rcases sound.phase q after inside with awaits | holds | lags
      · exact .inl awaits
      · refine .inr (.inl ⟨holds.1, holds.2.1, apart q holds.2.2 fun slot => ?_⟩)
        have bounds := sound.writing p owned
        have high := sound.head_le
        change ring.taken ≤ q at after
        change q < ring.taken + capacity at inside
        exact eq_of_mod_eq slot (by omega) (by omega)
      · exact .inr (.inr lags)
    owed := sound.owed
    writing := sound.writing
    freeing := sound.freeing
    ready := by
      intro q done
      by_cases same : q = p
      · subst same
        exact ⟨owned, turn, by simpa [Ring.write] using own⟩
      · have before : ring.written q := by simpa [Ring.write, same] using done
        obtain ⟨other, waits, there⟩ := sound.ready q before
        exact ⟨other, waits, apart q there fun slot => sound.writer_eq other owned slot⟩ }

theorem publish (sound : ring.Sound capacity) {p : ℕ} (done : ring.written p) :
    (ring.publish capacity p).Sound capacity := by
  have two := sound.two
  obtain ⟨owned, turn, there⟩ := sound.ready p done
  obtain ⟨low, inside, _⟩ := sound.writing p owned
  have high := sound.head_le
  have number : ∀ q, q ≠ p → ring.taken ≤ q → q < ring.taken + capacity →
      (ring.publish capacity p).seq (q % capacity) = ring.seq (q % capacity) := by
    intro q other after before
    have slot : q % capacity ≠ p % capacity := fun same =>
      other (eq_of_mod_eq same (by omega) (by omega))
    simp only [Ring.publish, Function.update_of_ne slot]
  have writer : ∀ q, (ring.publish capacity p).writer q ≠ none →
      q ≠ p ∧ ring.writer q ≠ none := by
    intro q held
    by_cases same : q = p
    · simp [Ring.publish, same] at held
    · exact ⟨same, by simpa [Ring.publish, same] using held⟩
  exact {
    two := two
    taken_le := sound.taken_le
    head_le := sound.head_le
    phase := by
      intro q after before
      by_cases same : q = p
      · subst same
        exact .inr (.inl ⟨by simp [Ring.publish], by simp [Ring.publish], there⟩)
      · have keep := number q same after before
        rcases sound.phase q after before with awaits | holds | lags
        · exact .inl (keep.trans awaits)
        · refine .inr (.inl ⟨keep.trans holds.1, ?_, holds.2.2⟩)
          simpa [Ring.publish, same] using holds.2.1
        · exact .inr (.inr ⟨lags.1, by rw [keep]; exact lags.2.1, lags.2.2⟩)
    owed := by
      intro q after before waiting
      by_cases same : q = p
      · subst same
        simp only [Ring.publish, Function.update_self] at waiting
        exact absurd waiting (Nat.not_succ_le_self q)
      · have keep := number q same after (lt_of_lt_of_le before high)
        rw [keep] at waiting
        simpa [Ring.publish, same] using sound.owed q after before waiting
    writing := by
      intro q held
      obtain ⟨same, other⟩ := writer q held
      obtain ⟨after, before, waiting⟩ := sound.writing q other
      refine ⟨after, before, ?_⟩
      rw [number q same after (by omega)]
      exact waiting
    freeing := by
      intro q freer
      obtain ⟨before, given⟩ := sound.freeing q freer
      refine ⟨before, ?_⟩
      have slot : q % capacity ≠ p % capacity := by
        intro same
        rw [same, turn] at given
        exact mod_ne_succ two ((congrArg (· % capacity) given).symm.trans same.symm)
      simp only [Ring.publish, Function.update_of_ne slot]
      exact given
    ready := by
      intro q before
      by_cases same : q = p
      · simp [Ring.publish, same] at before
      · have still : ring.written q := by simpa [Ring.publish, same] using before
        obtain ⟨other, waits, data⟩ := sound.ready q still
        obtain ⟨after, below, _⟩ := sound.writing q other
        refine ⟨by simpa [Ring.publish, same] using other, ?_, data⟩
        rw [number q same after (by omega)]
        exact waits }

theorem take (sound : ring.Sound capacity) (who : Freer) {count : ℕ}
    (ready : ∀ j < count, ring.taken + j + 1 ≤ ring.seq ((ring.taken + j) % capacity)) :
    (ring.take who count).Sound capacity := by
  have two := sound.two
  have few := sound.lt_capacity_of_ready ready
  have holds : ∀ p, ring.taken ≤ p → p < ring.taken + count → ring.Holds capacity p := by
    intro p after before
    have there := sound.holds_of_ready ready (j := p - ring.taken) (by omega)
    rwa [Nat.add_sub_cancel' after] at there
  have high := sound.head_le
  have pushed : ring.taken + count ≤ ring.head := by
    rcases Nat.eq_zero_or_pos count with none | some
    · exact none ▸ sound.taken_le
    · have last := holds (ring.taken + count - 1) (by omega) (by omega)
      have := (List.getElem?_eq_some_iff.mp last.2.2).1
      show ring.taken + count ≤ ring.pushed.length
      omega
  have writer : ∀ p, ring.writer p ≠ none → ring.taken + count ≤ p := by
    intro p owned
    by_contra before
    have bounds := sound.writing p owned
    exact owned (holds p bounds.1 (by omega)).2.1
  have freer : ∀ p, ring.freer p ≠ none → (ring.take who count).freer p ≠ none := by
    intro p owned
    simp only [Ring.take]
    split
    · exact Option.some_ne_none who
    · exact owned
  exact {
    two := two
    taken_le := pushed
    head_le := by
      show ring.head ≤ ring.taken + count + capacity
      omega
    phase := by
      intro p after before
      change ring.taken + count ≤ p at after
      change p < ring.taken + count + capacity at before
      by_cases lap : p < ring.taken + capacity
      · rcases sound.phase p (by omega) lap with awaits | there | lags
        · exact .inl awaits
        · exact .inr (.inl there)
        · exact .inr (.inr ⟨lags.1, lags.2.1, freer _ lags.2.2⟩)
      · -- the slots just taken are those of the end of the new lap
        obtain ⟨q, rfl⟩ : ∃ q, p = q + capacity := ⟨p - capacity, by omega⟩
        have there := holds q (by omega) (by omega)
        refine .inr (.inr ⟨Nat.le_add_left _ _, ?_, ?_⟩)
        · have number := there.1
          simp only [Ring.take, Nat.add_mod_right]
          omega
        · simp only [Ring.take, Nat.add_sub_cancel]
          rw [if_pos (by omega)]
          exact Option.some_ne_none who
    owed := by
      intro p after before waiting
      change ring.taken + count ≤ p at after
      exact sound.owed p (by omega) before waiting
    writing := by
      intro p owned
      obtain ⟨_, before, waiting⟩ := sound.writing p owned
      exact ⟨writer p owned, before, waiting⟩
    freeing := by
      intro p owned
      by_cases new : ring.taken ≤ p ∧ p < ring.taken + count
      · exact ⟨new.2, (holds p new.1 new.2).1⟩
      · simp only [Ring.take, if_neg new] at owned
        obtain ⟨before, given⟩ := sound.freeing p owned
        exact ⟨Nat.lt_add_right count before, given⟩
    ready := sound.ready }

theorem free (sound : ring.Sound capacity) {p : ℕ} (owned : ring.freer p ≠ none) :
    (ring.free capacity p).Sound capacity := by
  have two := sound.two
  have high := sound.head_le
  obtain ⟨taken, given⟩ := sound.freeing p owned
  have apart : ∀ q, q % capacity ≠ p % capacity →
      (ring.free capacity p).seq (q % capacity) = ring.seq (q % capacity) := by
    intro q slot
    simp only [Ring.free, Function.update_of_ne slot]
  have here : ∀ q, ring.taken ≤ q → q < ring.taken + capacity → q % capacity = p % capacity →
      (ring.free capacity p).seq (q % capacity) = q := by
    intro q after before slot
    rw [(sound.lags_of_freer owned after before slot).1, Nat.add_mod_right]
    simp only [Ring.free, Function.update_self]
  exact {
    two := two
    taken_le := sound.taken_le
    head_le := sound.head_le
    phase := by
      intro q after before
      by_cases slot : q % capacity = p % capacity
      · exact .inl (here q after before slot)
      · have keep := apart q slot
        rcases sound.phase q after before with awaits | holds | lags
        · exact .inl (keep.trans awaits)
        · exact .inr (.inl ⟨keep.trans holds.1, holds.2⟩)
        · refine .inr (.inr ⟨lags.1, by rw [keep]; exact lags.2.1, ?_⟩)
          have other : q - capacity ≠ p := by
            rintro rfl
            exact slot (Nat.mod_eq_sub_mod lags.1)
          simpa [Ring.free, other] using lags.2.2
    owed := by
      intro q after before waiting
      have inside : q < ring.taken + capacity := lt_of_lt_of_le before high
      by_cases slot : q % capacity = p % capacity
      · obtain ⟨_, lags⟩ := sound.lags_of_freer owned after inside slot
        refine sound.owed q after before ?_
        have := lags.2.1
        omega
      · rw [apart q slot] at waiting
        exact sound.owed q after before waiting
    writing := by
      intro q writer
      obtain ⟨after, before, waiting⟩ := sound.writing q writer
      refine ⟨after, before, ?_⟩
      by_cases slot : q % capacity = p % capacity
      · exact le_of_eq (here q after (lt_of_lt_of_le before high) slot)
      · rw [apart q slot]
        exact waiting
    freeing := by
      intro q other
      have different : q ≠ p := by
        rintro rfl
        simp [Ring.free] at other
      obtain ⟨before, number⟩ := sound.freeing q (by simpa [Ring.free, different] using other)
      refine ⟨before, ?_⟩
      rw [apart q fun slot => different ?_]
      · exact number
      · rw [slot, given] at number
        omega
    ready := by
      intro q done
      obtain ⟨writer, turn, data⟩ := sound.ready q done
      refine ⟨writer, ?_, data⟩
      obtain ⟨after, before, _⟩ := sound.writing q writer
      by_cases slot : q % capacity = p % capacity
      · exact here q after (lt_of_lt_of_le before high) slot
      · rw [apart q slot]
        exact turn }

end Sound

/-- Every move keeps the invariant. -/
theorem Moves.sound {capacity : ℕ} {ring after : Ring α Writer Freer} {who : Writer ⊕ Freer}
    (move : ring.Moves capacity who after) (sound : ring.Sound capacity) :
    after.Sound capacity := by
  cases move with
  | claim who elements room => exact sound.claim who elements room
  | write who p element owner turn own => exact sound.write (by simp [owner]) turn own
  | publish who p owner done => exact sound.publish done
  | take who count ready => exact sound.take who ready
  | free who p owner => exact sound.free (by simp [owner])

/-! ## What a party may rely on -/

/-- The counters and the sequence numbers only grow. -/
structure Grows (before after : Ring α Writer Freer) : Prop where
  pushed : before.pushed <+: after.pushed
  taken : before.taken ≤ after.taken
  seq : ∀ i, before.seq i ≤ after.seq i

/-- The positions a writer has claimed stay its own. -/
def KeepsWriter (who : Writer) (before after : Ring α Writer Freer) : Prop :=
  ∀ p, (before.writer p = some who ↔ after.writer p = some who) ∧
    (before.writer p = some who → before.written p → after.written p)

/-- The positions a freer has taken stay its own. -/
def KeepsFreer (who : Freer) (before after : Ring α Writer Freer) : Prop :=
  ∀ p, before.freer p = some who ↔ after.freer p = some who

theorem Grows.head {before after : Ring α Writer Freer} (grows : before.Grows after) :
    before.head ≤ after.head :=
  grows.pushed.length_le

theorem Grows.getElem? {before after : Ring α Writer Freer} (grows : before.Grows after) {p : ℕ}
    {element : α} (there : before.pushed[p]? = some element) :
    after.pushed[p]? = some element := by
  obtain ⟨more, equal⟩ := grows.pushed
  rw [← equal, List.getElem?_append_left (List.getElem?_eq_some_iff.mp there).1, there]

variable {capacity : ℕ} {ring after : Ring α Writer Freer}

theorem Moves.grows {who : Writer ⊕ Freer} (move : ring.Moves capacity who after)
    (sound : ring.Sound capacity) : ring.Grows after := by
  have two := sound.two
  have raise : ∀ {slot number : ℕ}, ring.seq slot ≤ number → ∀ i,
      ring.seq i ≤ Function.update ring.seq slot number i := by
    intro slot number more i
    by_cases same : i = slot
    · rw [same, Function.update_self]
      exact more
    · rw [Function.update_of_ne same]
  cases move with
  | claim who elements room =>
      exact ⟨List.prefix_append _ _, le_refl _, fun _ => le_refl _⟩
  | write who p element owner turn own =>
      exact ⟨List.prefix_refl _, le_refl _, fun _ => le_refl _⟩
  | publish who p owner done =>
      refine ⟨List.prefix_refl _, le_refl _, raise ?_⟩
      have := (sound.ready p done).2.1
      omega
  | take who count ready =>
      exact ⟨List.prefix_refl _, Nat.le_add_right _ _, fun _ => le_refl _⟩
  | free who p owner =>
      refine ⟨List.prefix_refl _, le_refl _, raise ?_⟩
      have := (sound.freeing p (by simp [owner])).2
      omega

theorem Moves.keeps_writer {who : Writer ⊕ Freer} {other : Writer}
    (move : ring.Moves capacity who after) (sound : ring.Sound capacity)
    (different : who ≠ .inl other) : ring.KeepsWriter other after := by
  intro p
  cases move with
  | claim who elements room =>
      have outside : ring.head ≤ p → ring.writer p = none := by
        intro beyond
        by_contra owned
        have := (sound.writing p owned).2.1
        omega
      by_cases inside : ring.head ≤ p ∧ p < ring.head + elements.length
      · have none := outside inside.1
        have stranger : who ≠ other := fun same => different (same ▸ rfl)
        simp [Ring.claim, inside, none, stranger]
      · simp [Ring.claim, inside]
  | write who q element owner turn own =>
      refine ⟨Iff.rfl, fun _ done => ?_⟩
      by_cases same : p = q
      · simp [Ring.write, same]
      · simpa [Ring.write, same] using done
  | publish who q owner done =>
      by_cases same : p = q
      · subst same
        have stranger : who ≠ other := fun same => different (same ▸ rfl)
        simp [Ring.publish, owner, stranger]
      · simp [Ring.publish, same]
  | take who count ready => exact ⟨Iff.rfl, fun _ done => done⟩
  | free who q owner => exact ⟨Iff.rfl, fun _ done => done⟩

theorem Moves.keeps_freer {who : Writer ⊕ Freer} {other : Freer}
    (move : ring.Moves capacity who after) (sound : ring.Sound capacity)
    (different : who ≠ .inr other) : ring.KeepsFreer other after := by
  intro p
  cases move with
  | claim who elements room => exact Iff.rfl
  | write who q element owner turn own => exact Iff.rfl
  | publish who q owner done => exact Iff.rfl
  | take who count ready =>
      by_cases inside : ring.taken ≤ p ∧ p < ring.taken + count
      · have none : ring.freer p = none := by
          by_contra owned
          have := (sound.freeing p owned).1
          omega
        have stranger : who ≠ other := fun same => different (same ▸ rfl)
        simp [Ring.take, inside, none, stranger]
      · simp [Ring.take, inside]
  | free who q owner =>
      by_cases same : p = q
      · subst same
        have stranger : who ≠ other := fun same => different (same ▸ rfl)
        simp [Ring.free, owner, stranger]
      · simp [Ring.free, same]

/-! ## Several moves of one party -/

/-- A party moves any number of times. -/
def Runs (capacity : ℕ) (who : Writer ⊕ Freer) : Ring α Writer Freer → Ring α Writer Freer → Prop :=
  Relation.ReflTransGen fun before after => before.Moves capacity who after

theorem Runs.sound {who : Writer ⊕ Freer} (runs : Runs capacity who ring after)
    (sound : ring.Sound capacity) : after.Sound capacity := by
  induction runs with
  | refl => exact sound
  | tail _ move ih => exact move.sound ih

theorem Grows.refl (ring : Ring α Writer Freer) : ring.Grows ring :=
  ⟨List.prefix_refl _, le_refl _, fun _ => le_refl _⟩

theorem Grows.trans {first second third : Ring α Writer Freer} (left : first.Grows second)
    (right : second.Grows third) : first.Grows third :=
  ⟨left.pushed.trans right.pushed, left.taken.trans right.taken,
    fun i => (left.seq i).trans (right.seq i)⟩

theorem Runs.grows {who : Writer ⊕ Freer} (runs : Runs capacity who ring after)
    (sound : ring.Sound capacity) : ring.Grows after := by
  induction runs with
  | refl => exact .refl ring
  | tail before move ih => exact ih.trans (move.grows (Runs.sound before sound))

theorem Runs.keeps_writer {who : Writer ⊕ Freer} {other : Writer}
    (runs : Runs capacity who ring after) (sound : ring.Sound capacity)
    (different : who ≠ .inl other) : ring.KeepsWriter other after := by
  induction runs with
  | refl => exact fun p => ⟨Iff.rfl, fun _ done => done⟩
  | tail before move ih =>
      intro p
      have step := move.keeps_writer (Runs.sound before sound) different p
      exact ⟨(ih p).1.trans step.1, fun owner done =>
        step.2 ((ih p).1.mp owner) ((ih p).2 owner done)⟩

theorem Runs.keeps_freer {who : Writer ⊕ Freer} {other : Freer}
    (runs : Runs capacity who ring after) (sound : ring.Sound capacity)
    (different : who ≠ .inr other) : ring.KeepsFreer other after := by
  induction runs with
  | refl => exact fun p => Iff.rfl
  | tail before move ih =>
      exact fun p => (ih p).trans (move.keeps_freer (Runs.sound before sound) different p)

end Ring

end Join.Library
