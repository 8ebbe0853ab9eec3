import Mathlib.Data.List.Basic
import Mathlib.Logic.Function.Basic

/-!
# Requests that wait for their answers

A call makes an entry under a key that nobody else uses, waits, and takes its entry away. Events
arrive meanwhile, and each of them may change the entries. So the entry of a call is what the
events that arrived since it was made have made of a fresh one, no two calls have one entry, and
what a call does leaves the entries of the others alone.
-/

set_option autoImplicit false

namespace Join.Library

variable {Call Key Slot Event : Type}

/-- The entries; for every call that has one, its key and how many events had arrived when it was
made; and all events that arrived. -/
structure PendingTable (Call Key Slot Event : Type) where
  entries : Key → Option Slot
  held : Call → Option (Key × ℕ)
  events : List Event

namespace PendingTable

/-- No entries. -/
def empty : PendingTable Call Key Slot Event := ⟨fun _ => none, fun _ => none, []⟩

variable [DecidableEq Call] [DecidableEq Key]

/-- A call makes an entry. -/
def insert (fresh : Slot) (table : PendingTable Call Key Slot Event) (call : Call) (key : Key) :
    PendingTable Call Key Slot Event where
  entries := Function.update table.entries key (some fresh)
  held := Function.update table.held call (some (key, table.events.length))
  events := table.events

/-- A call takes the entry with its key away. -/
def remove (table : PendingTable Call Key Slot Event) (call : Call) (key : Key) :
    PendingTable Call Key Slot Event where
  entries := Function.update table.entries key none
  held := Function.update table.held call none
  events := table.events

omit [DecidableEq Call] [DecidableEq Key] in
/-- An event arrives. -/
def deliver (apply : Key → Event → Slot → Slot) (table : PendingTable Call Key Slot Event)
    (event : Event) : PendingTable Call Key Slot Event where
  entries key := (table.entries key).map (apply key event)
  held := table.held
  events := table.events ++ [event]

omit [DecidableEq Call] [DecidableEq Key] in
/-- The key of a call and what stands in its entry. -/
def own (table : PendingTable Call Key Slot Event) (call : Call) : Option (Key × Slot) :=
  (table.held call).bind fun ticket => (table.entries ticket.1).map fun slot => (ticket.1, slot)

omit [DecidableEq Call] [DecidableEq Key] in
theorem exists_of_own {table : PendingTable Call Key Slot Event} {call : Call}
    {entry : Key × Slot} (own : table.own call = some entry) :
    ∃ since, table.held call = some (entry.1, since) ∧ table.entries entry.1 = some entry.2 := by
  obtain ⟨ticket, held, own⟩ := Option.bind_eq_some_iff.mp own
  obtain ⟨slot, present, rfl⟩ := Option.map_eq_some_iff.mp own
  exact ⟨ticket.2, held, present⟩

section

variable {fresh : Slot} {table : PendingTable Call Key Slot Event} {call other : Call}
variable {key place : Key}

@[simp]
theorem entries_insert_self : (table.insert fresh call key).entries key = some fresh :=
  Function.update_self ..

theorem entries_insert_of_ne (apart : place ≠ key) :
    (table.insert fresh call key).entries place = table.entries place :=
  Function.update_of_ne apart _ _

@[simp]
theorem held_insert_self :
    (table.insert fresh call key).held call = some (key, table.events.length) :=
  Function.update_self ..

theorem held_insert_of_ne (apart : other ≠ call) :
    (table.insert fresh call key).held other = table.held other :=
  Function.update_of_ne apart _ _

@[simp]
theorem entries_remove_self : (table.remove call key).entries key = none :=
  Function.update_self ..

theorem entries_remove_of_ne (apart : place ≠ key) :
    (table.remove call key).entries place = table.entries place :=
  Function.update_of_ne apart _ _

@[simp]
theorem held_remove_self : (table.remove call key).held call = none :=
  Function.update_self ..

theorem held_remove_of_ne (apart : other ≠ call) :
    (table.remove call key).held other = table.held other :=
  Function.update_of_ne apart _ _

end

/-- What events make of a fresh entry. -/
def slotAfter (apply : Key → Event → Slot → Slot) (fresh : Slot) (key : Key)
    (events : List Event) : Slot :=
  events.foldl (fun slot event => apply key event slot) fresh

/-- Every entry belongs to one call, and is what the events since then have made of it. -/
structure Kept (apply : Key → Event → Slot → Slot) (fresh : Slot)
    (table : PendingTable Call Key Slot Event) : Prop where
  since_le : ∀ call key since, table.held call = some (key, since) → since ≤ table.events.length
  entry : ∀ call key since, table.held call = some (key, since) →
    table.entries key = some (slotAfter apply fresh key (table.events.drop since))
  owner : ∀ left right key since since', table.held left = some (key, since) →
    table.held right = some (key, since') → left = right
  owned : ∀ key, (table.entries key).isSome = true → ∃ call since,
    table.held call = some (key, since)

variable {apply : Key → Event → Slot → Slot} {fresh : Slot}
variable {table : PendingTable Call Key Slot Event} {call : Call} {key : Key}

omit [DecidableEq Call] [DecidableEq Key] in
theorem kept_empty : Kept apply fresh (empty : PendingTable Call Key Slot Event) := by
  constructor
  · intro call key since held
    cases held
  · intro call key since held
    cases held
  · intro left right key since since' held
    cases held
  · intro key present
    cases present

omit [DecidableEq Call] [DecidableEq Key] in
/-- A call that has an entry finds it. -/
theorem Kept.own_eq (kept : Kept apply fresh table) {since : ℕ}
    (held : table.held call = some (key, since)) :
    table.own call = some (key, slotAfter apply fresh key (table.events.drop since)) := by
  rw [own, held, Option.bind_some, kept.entry call key since held]
  rfl

/-- An entry is made where there was none, by a call that had none. -/
theorem Kept.insert (kept : Kept apply fresh table) (absent : table.entries key = none)
    (free : table.held call = none) : Kept apply fresh (table.insert fresh call key) := by
  have other {someone : Call} {place : Key} {since : ℕ}
      (held : table.held someone = some (place, since)) : someone ≠ call ∧ place ≠ key := by
    constructor
    · rintro rfl
      rw [free] at held
      cases held
    · rintro rfl
      have present := kept.entry _ _ _ held
      rw [absent] at present
      cases present
  have split {someone : Call} {place : Key} {since : ℕ}
      (held : (table.insert fresh call key).held someone = some (place, since)) :
      (someone = call ∧ place = key ∧ since = table.events.length) ∨
        (someone ≠ call ∧ place ≠ key ∧ table.held someone = some (place, since)) := by
    by_cases same : someone = call
    · rw [same, held_insert_self] at held
      cases held
      exact Or.inl ⟨same, rfl, rfl⟩
    · rw [held_insert_of_ne same] at held
      exact Or.inr ⟨same, (other held).2, held⟩
  constructor
  · intro someone place since held
    rcases split held with ⟨-, -, rfl⟩ | ⟨-, -, held⟩
    · exact Nat.le_refl _
    · exact kept.since_le _ _ _ held
  · intro someone place since held
    rcases split held with ⟨-, rfl, rfl⟩ | ⟨-, apart, held⟩
    · rw [entries_insert_self]
      exact congrArg some (congrArg (slotAfter apply fresh place) List.drop_length.symm)
    · rw [entries_insert_of_ne apart]
      exact kept.entry _ _ _ held
  · intro left right place since since' first second
    rcases split first with ⟨rfl, rfl, -⟩ | ⟨-, apart, first⟩
    · rcases split second with ⟨rfl, -, -⟩ | ⟨-, apart, -⟩
      · rfl
      · exact absurd rfl apart
    · rcases split second with ⟨-, same, -⟩ | ⟨-, -, second⟩
      · exact absurd same apart
      · exact kept.owner _ _ _ _ _ first second
  · intro place present
    by_cases same : place = key
    · exact ⟨call, table.events.length, by rw [held_insert_self, same]⟩
    · rw [entries_insert_of_ne same] at present
      obtain ⟨someone, since, held⟩ := kept.owned place present
      refine ⟨someone, since, ?_⟩
      rw [held_insert_of_ne (other held).1]
      exact held

omit [DecidableEq Call] [DecidableEq Key] in
/-- An event changes what it concerns. -/
theorem Kept.deliver (kept : Kept apply fresh table) (event : Event) :
    Kept apply fresh (table.deliver apply event) := by
  constructor
  · intro call key since held
    have before := kept.since_le call key since held
    rw [PendingTable.deliver, List.length_append]
    exact Nat.le_trans before (Nat.le_add_right _ _)
  · intro call key since held
    have before := kept.since_le call key since held
    change (table.entries key).map (apply key event) = _
    rw [kept.entry call key since held, PendingTable.deliver, List.drop_append_of_le_length before,
      slotAfter, slotAfter, List.foldl_append]
    rfl
  · intro left right key since since' first second
    exact kept.owner left right key since since' first second
  · intro key present
    change ((table.entries key).map (apply key event)).isSome = true at present
    rw [Option.isSome_map] at present
    exact kept.owned key present

/-- A call takes its own entry away. -/
theorem Kept.remove (kept : Kept apply fresh table) {since : ℕ}
    (own : table.held call = some (key, since)) : Kept apply fresh (table.remove call key) := by
  have split {someone : Call} {place : Key} {since' : ℕ}
      (held : (table.remove call key).held someone = some (place, since')) :
      someone ≠ call ∧ place ≠ key ∧ table.held someone = some (place, since') := by
    have different : someone ≠ call := by
      rintro rfl
      rw [held_remove_self] at held
      cases held
    rw [held_remove_of_ne different] at held
    refine ⟨different, ?_, held⟩
    rintro rfl
    exact different (kept.owner _ _ _ _ _ held own)
  constructor
  · intro someone place since' held
    exact kept.since_le _ _ _ (split held).2.2
  · intro someone place since' held
    obtain ⟨-, apart, held⟩ := split held
    rw [entries_remove_of_ne apart]
    exact kept.entry _ _ _ held
  · intro left right place since' since'' first second
    exact kept.owner _ _ _ _ _ (split first).2.2 (split second).2.2
  · intro place present
    have apart : place ≠ key := by
      rintro rfl
      rw [entries_remove_self] at present
      cases present
    rw [entries_remove_of_ne apart] at present
    obtain ⟨someone, since', held⟩ := kept.owned place present
    refine ⟨someone, since', ?_⟩
    have different : someone ≠ call := by
      rintro rfl
      rw [own] at held
      cases held
      exact apart rfl
    rw [held_remove_of_ne different]
    exact held

/-! ## What a call does to the others -/

/-- The entries of all other calls are as they were. -/
def OthersKept (call : Call) (before after : PendingTable Call Key Slot Event) : Prop :=
  ∀ other ≠ call, after.held other = before.held other ∧
    ∀ key since, before.held other = some (key, since) → after.entries key = before.entries key

omit [DecidableEq Call] [DecidableEq Key] in
theorem othersKept_refl (call : Call) (table : PendingTable Call Key Slot Event) :
    OthersKept call table table := fun _ _ => ⟨rfl, fun _ _ _ => rfl⟩

theorem Kept.othersKept_insert (kept : Kept apply fresh table)
    (absent : table.entries key = none) : OthersKept call table (table.insert fresh call key) := by
  intro other different
  refine ⟨Function.update_of_ne different _ _, fun place since held => ?_⟩
  apply Function.update_of_ne
  rintro rfl
  have present := kept.entry other _ since held
  rw [absent] at present
  cases present

theorem Kept.othersKept_remove (kept : Kept apply fresh table) {since : ℕ}
    (own : table.held call = some (key, since)) :
    OthersKept call table (table.remove call key) := by
  intro other different
  refine ⟨Function.update_of_ne different _ _, fun place since' held => ?_⟩
  apply Function.update_of_ne
  rintro rfl
  exact different (kept.owner other call _ since' since held own)

/-- An entry that was made and taken away again was never seen. -/
theorem remove_insert (absent : table.entries key = none) (free : table.held call = none) :
    (table.insert fresh call key).remove call key = table := by
  rw [remove, insert, Function.update_idem, Function.update_idem, ← absent, ← free,
    Function.update_eq_self, Function.update_eq_self]

/-! ## Turns -/

/-- What one turn may do to the table, and what a call returns at its end: an event arrives; a
call is turned down; a call makes an entry; a call lets everything as it is; or a call takes its
entry away. -/
inductive Turn {Result : Type} (apply : Key → Event → Slot → Slot) (fresh : Slot)
    (before : PendingTable Call Key Slot Event) :
    Option Call → PendingTable Call Key Slot Event → Option (Call × Result) → Prop
  | arrive (event : Event) : Turn apply fresh before none (before.deliver apply event) none
  | refuse {call : Call} (result : Result) (free : before.held call = none) :
      Turn apply fresh before (some call) before (some (call, result))
  | make {call : Call} {key : Key} (free : before.held call = none)
      (absent : before.entries key = none) :
      Turn apply fresh before (some call) (before.insert fresh call key) none
  | stay (call : Call) : Turn apply fresh before (some call) before none
  | leave {call : Call} {key : Key} {since : ℕ} (result : Result)
      (own : before.held call = some (key, since)) :
      Turn apply fresh before (some call) (before.remove call key) (some (call, result))

namespace Turn

variable {Result : Type} {before after : PendingTable Call Key Slot Event}
variable {caller : Option Call} {outcome : Option (Call × Result)}

theorem kept (kept : Kept apply fresh before) (turn : Turn apply fresh before caller after outcome) :
    Kept apply fresh after := by
  cases turn with
  | arrive event => exact kept.deliver event
  | refuse result free => exact kept
  | make free absent => exact kept.insert absent free
  | stay call => exact kept
  | leave result own => exact kept.remove own

/-- A call that returns has no entry any more. -/
theorem gone {result : Result} (turn : Turn apply fresh before caller after outcome)
    (returns : outcome = some (call, result)) :
    after.held call = none ∧
      ∀ key since, before.held call = some (key, since) → after.entries key = none := by
  cases turn with
  | arrive event => cases returns
  | refuse result free =>
      cases returns
      refine ⟨free, fun key since held => ?_⟩
      rw [free] at held
      cases held
  | make free absent => cases returns
  | stay call => cases returns
  | leave result own =>
      cases returns
      refine ⟨held_remove_self, fun key since held => ?_⟩
      rw [own] at held
      cases held
      exact entries_remove_self

/-- A call leaves the entries of the others alone. -/
theorem others (kept : Kept apply fresh before)
    (turn : Turn apply fresh before (some call) after outcome) :
    OthersKept call before after := by
  cases turn with
  | refuse result free => exact othersKept_refl call before
  | make free absent => exact kept.othersKept_insert absent
  | stay call => exact othersKept_refl call before
  | leave result own => exact kept.othersKept_remove own

end Turn

end PendingTable

end Join.Library
