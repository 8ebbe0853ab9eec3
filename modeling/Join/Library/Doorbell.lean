import Mathlib.Algebra.Group.Nat.Defs
import Join.Library.Trace
import Mathlib.Logic.Function.Basic

/-!
# A queue with a doorbell

Senders put messages into a queue, and one receiver sleeps until a bell is rung. A sender
claims a place, writes it, and sets a flag; only the sender that finds the flag clear rings
the bell. The receiver that wakes takes the bell back, clears the flag, and empties the
queue until the oldest place is missing or not written yet. A receiver that never sleeps
needs no bell: it looks at the queue by itself, and its senders are done when they have
written.

At every moment the right to ring is in one place: nowhere while the flag is clear, else with one
sender, in the bell, or with the receiver that has taken the bell back and not cleared the
flag. So a message that is in the queue while nobody is sending is known to the receiver:
it is awake, or the bell is rung.
-/

set_option autoImplicit false

namespace Join.Library

variable {Sender Message : Type}

/-- A place of the queue, claimed by a sender and perhaps not written yet. -/
structure Slot (Sender Message : Type) where
  sender : Sender
  message : Message
  published : Bool

/-- Where a sender stands. -/
inductive Sending (Message : Type) where
  | outside
  | entering (message : Message)
  | claimed (message : Message)
  | published
  | ringing
  /-- The bell could not be rung. -/
  | failed

/-- Where the receiver stands. -/
inductive Receiving where
  | away
  | summoned
  | clearing (woken : Bool)
  | draining
  deriving DecidableEq

/-- The places of the queue, how often the bell can be rung before it is answered, and
whether the receiver looks at the queue by itself. -/
structure DoorbellConfig where
  capacity : ℕ
  limit : ℕ
  polled : Bool

/-- The queue, the flag, the bell, and where everybody stands; with all messages that were
claimed a place and all that were taken, in order. -/
structure Doorbell (Sender Message : Type) where
  slots : List (Slot Sender Message)
  notified : Bool
  bell : ℕ
  sending : Sender → Sending Message
  receiving : Receiving
  claims : List Message
  taken : List Message

/-- A sender starts or makes its next step; the receiver answers the bell, looks by itself,
or makes its next step. -/
inductive DoorbellAction (Sender Message : Type) where
  | enter (who : Sender) (message : Message)
  | advance (who : Sender)
  | wake
  | poll
  | receive

/-- The sender is between the start and the end of sending. -/
def Sending.inside : Sending Message → Bool
  | .outside | .failed => false
  | _ => true

/-- The sender writes its places. -/
def Slot.publish [DecidableEq Sender] (who : Sender) (slot : Slot Sender Message) :
    Slot Sender Message :=
  if slot.sender = who then { slot with published := true } else slot

@[simp]
theorem Slot.publish_message [DecidableEq Sender] (who : Sender) (slot : Slot Sender Message) :
    (slot.publish who).message = slot.message := by
  unfold Slot.publish
  split_ifs <;> rfl

namespace Doorbell

/-- An empty queue, a quiet bell, and nobody there. -/
def initial (Sender Message : Type) : Doorbell Sender Message where
  slots := []
  notified := false
  bell := 0
  sending := fun _ => .outside
  receiving := .away
  claims := []
  taken := []

/-- The oldest message, if its place is written, and the queue without it. -/
def tryPop (door : Doorbell Sender Message) : Option (Message × Doorbell Sender Message) :=
  match door.slots with
  | slot :: rest =>
      if slot.published then
        some (slot.message,
          { door with slots := rest, taken := door.taken ++ [slot.message] })
      else none
  | [] => none

/-- The message that the receiver is about to take, if it is to take one. -/
def upcoming (door : Doorbell Sender Message) : Option Message :=
  match door.receiving with
  | .draining => door.tryPop.map Prod.fst
  | _ => none

/-- The next step of the receiver. -/
def receive (door : Doorbell Sender Message) : Option (Doorbell Sender Message) :=
  match door.receiving with
  | .away => none
  | .summoned => some { door with bell := 0, receiving := .clearing (decide (0 < door.bell)) }
  | .clearing woken =>
      some { door with notified := false, receiving := if woken then .draining else .away }
  | .draining =>
      match door.tryPop with
      | some (_, after) => some after
      | none => some { door with receiving := .away }

variable [DecidableEq Sender]

/-- The sender moves on. -/
def moveTo (door : Doorbell Sender Message) (who : Sender) (next : Sending Message) :
    Doorbell Sender Message :=
  { door with sending := Function.update door.sending who next }

/-- The sender claims the next place. -/
def claim (door : Doorbell Sender Message) (who : Sender) (message : Message) :
    Doorbell Sender Message :=
  moveTo { door with
    slots := door.slots ++ [⟨who, message, false⟩]
    claims := door.claims ++ [message] } who (.claimed message)

/-- The sender writes the place that it has claimed. -/
def write (door : Doorbell Sender Message) (who : Sender) (next : Sending Message) :
    Doorbell Sender Message :=
  moveTo { door with slots := door.slots.map (Slot.publish who) } who next

/-- The sender sets the flag; if it was clear, the sender has to ring. -/
def exchange (door : Doorbell Sender Message) (who : Sender) : Doorbell Sender Message :=
  moveTo { door with notified := true } who (if door.notified then .outside else .ringing)

/-- The sender rings the bell. -/
def ring (door : Doorbell Sender Message) (who : Sender) : Doorbell Sender Message :=
  moveTo { door with bell := door.bell + 1 } who .outside

/-- The sender cannot ring the bell and clears the flag. -/
def giveUp (door : Doorbell Sender Message) (who : Sender) : Doorbell Sender Message :=
  moveTo { door with notified := false } who .failed

/-- The next step of a sender. -/
def advance (config : DoorbellConfig) (door : Doorbell Sender Message) (who : Sender) :
    Option (Doorbell Sender Message) :=
  match door.sending who with
  | .outside | .failed => none
  | .entering message =>
      if door.slots.length < config.capacity then some (door.claim who message) else none
  | .claimed _ => some (door.write who (if config.polled then .outside else .published))
  | .published => some (door.exchange who)
  | .ringing =>
      if door.bell + 1 ≤ config.limit then some (door.ring who) else some (door.giveUp who)

/-- One action. A sender starts when it is not sending, and the receiver is away when it is
called to the queue. -/
def act (config : DoorbellConfig) (door : Doorbell Sender Message) :
    DoorbellAction Sender Message → Option (Doorbell Sender Message)
  | .enter who message =>
      if (door.sending who).inside then none else some (door.moveTo who (.entering message))
  | .advance who => door.advance config who
  | .wake =>
      if door.receiving = .away ∧ 0 < door.bell ∧ config.polled = false then
        some { door with receiving := .summoned }
      else none
  | .poll =>
      if door.receiving = .away ∧ config.polled then some { door with receiving := .draining }
      else none
  | .receive => door.receive

@[simp]
theorem moveTo_sending_self (door : Doorbell Sender Message) (who : Sender)
    (next : Sending Message) : (door.moveTo who next).sending who = next :=
  Function.update_self ..

theorem moveTo_sending_of_ne (door : Doorbell Sender Message) {who other : Sender}
    (next : Sending Message) (differs : other ≠ who) :
    (door.moveTo who next).sending other = door.sending other :=
  Function.update_of_ne differs ..

/-! ## The places of the queue -/

/-- The queue is what was claimed and not taken, and the places that are not written are
those of the senders that still have to write. -/
structure Sound (door : Doorbell Sender Message) : Prop where
  account : door.claims = door.taken ++ door.slots.map Slot.message
  unwritten : ∀ slot ∈ door.slots, slot.published = false →
    door.sending slot.sender = .claimed slot.message
  claimed : ∀ who message, door.sending who = .claimed message →
    ⟨who, message, false⟩ ∈ door.slots

variable {config : DoorbellConfig} {door after : Doorbell Sender Message}

omit [DecidableEq Sender] in
theorem initial_sound : (initial Sender Message).Sound where
  account := rfl
  unwritten := fun _ member => absurd member List.not_mem_nil
  claimed := fun _ _ claimed => nomatch claimed

/-- A sender that has not claimed a place, and does not, moves on. -/
theorem Sound.moveTo (sound : door.Sound) {who : Sender} {next : Sending Message}
    (before : ∀ message, door.sending who ≠ .claimed message)
    (then' : ∀ message, next ≠ .claimed message) : (door.moveTo who next).Sound where
  account := sound.account
  unwritten := by
    intro slot member unwritten
    have claimed := sound.unwritten slot member unwritten
    rw [moveTo_sending_of_ne]
    · exact claimed
    · intro same
      rw [same] at claimed
      exact before _ claimed
  claimed := by
    intro other message claimed
    by_cases same : other = who
    · rw [same, moveTo_sending_self] at claimed
      exact absurd claimed (then' message)
    · rw [moveTo_sending_of_ne _ _ same] at claimed
      exact sound.claimed other message claimed

omit [DecidableEq Sender] in
/-- The bell, the flag and the receiver do not touch the queue. -/
theorem Sound.keep (sound : door.Sound) (notified : Bool) (bell : ℕ) (receiving : Receiving) :
    { door with notified := notified, bell := bell, receiving := receiving }.Sound :=
  ⟨sound.account, sound.unwritten, sound.claimed⟩

/-- A sender claims the next place. -/
theorem Sound.claim (sound : door.Sound) {who : Sender} {message : Message}
    (entering : door.sending who = .entering message) : (door.claim who message).Sound where
  account := by
    change door.claims ++ [message] = door.taken ++ (door.slots ++ [_]).map Slot.message
    rw [sound.account, List.map_append, List.append_assoc]
    rfl
  unwritten := by
    intro slot member unwritten
    rcases List.mem_append.mp member with old | new
    · have claimed := sound.unwritten slot old unwritten
      have differs : slot.sender ≠ who := by
        intro same
        rw [same, entering] at claimed
        cases claimed
      exact (moveTo_sending_of_ne _ _ differs).trans claimed
    · rw [List.mem_singleton.mp new]
      exact moveTo_sending_self ..
  claimed := by
    intro other message' claimed
    by_cases same : other = who
    · rw [same, Doorbell.claim, moveTo_sending_self] at claimed
      cases claimed
      rw [same]
      exact List.mem_append_right _ (List.mem_singleton_self _)
    · rw [Doorbell.claim, moveTo_sending_of_ne _ _ same] at claimed
      exact List.mem_append_left _ (sound.claimed other message' claimed)

/-- A sender writes the place that it has claimed. -/
theorem Sound.write (sound : door.Sound) {who : Sender} {next : Sending Message}
    (then' : ∀ message, next ≠ .claimed message) : (door.write who next).Sound where
  account := by
    change door.claims = door.taken ++ (door.slots.map (Slot.publish who)).map Slot.message
    rw [sound.account, List.map_map]
    congr 2
    funext slot
    exact (slot.publish_message who).symm
  unwritten := by
    intro slot member unwritten
    obtain ⟨old, inside, rfl⟩ := List.mem_map.mp member
    by_cases same : old.sender = who
    · simp [Slot.publish, same] at unwritten
    · rw [Slot.publish, if_neg same] at unwritten ⊢
      exact (moveTo_sending_of_ne _ _ same).trans (sound.unwritten old inside unwritten)
  claimed := by
    intro other message claimed
    by_cases same : other = who
    · rw [same, Doorbell.write, moveTo_sending_self] at claimed
      exact absurd claimed (then' message)
    · rw [Doorbell.write, moveTo_sending_of_ne _ _ same] at claimed
      exact List.mem_map.mpr ⟨_, sound.claimed other message claimed, if_neg same⟩

omit [DecidableEq Sender] in
theorem tryPop_eq {message : Message} (popped : door.tryPop = some (message, after)) :
    ∃ slot rest, door.slots = slot :: rest ∧ slot.published = true ∧ slot.message = message ∧
      after = { door with slots := rest, taken := door.taken ++ [message] } := by
  unfold tryPop at popped
  split at popped
  · rename_i slot rest slots
    split_ifs at popped with published
    cases popped
    exact ⟨slot, rest, slots, published, rfl, rfl⟩
  · cases popped

omit [DecidableEq Sender] in
/-- The receiver finds the queue empty, or its oldest place claimed and not written. -/
theorem tryPop_eq_none (empty : door.tryPop = none) :
    door.slots = [] ∨ ∃ slot ∈ door.slots, slot.published = false := by
  unfold tryPop at empty
  split at empty
  · rename_i slot rest slots
    split_ifs at empty with published
    right
    rw [slots]
    exact ⟨slot, List.mem_cons_self .., Bool.not_eq_true _ ▸ published⟩
  · left
    assumption

omit [DecidableEq Sender] in
/-- The receiver takes the oldest message. -/
theorem Sound.pop (sound : door.Sound) {slot : Slot Sender Message}
    {rest : List (Slot Sender Message)} (slots : door.slots = slot :: rest)
    (published : slot.published = true) :
    { door with slots := rest, taken := door.taken ++ [slot.message] }.Sound where
  account := by
    change door.claims = (door.taken ++ [slot.message]) ++ rest.map Slot.message
    rw [sound.account, slots, List.map_cons, List.append_assoc]
    rfl
  unwritten := fun other member =>
    sound.unwritten other (slots ▸ List.mem_cons_of_mem _ member)
  claimed := by
    intro who message claimed
    have member := sound.claimed who message claimed
    rw [slots] at member
    rcases List.mem_cons.mp member with same | inside
    · rw [← same] at published
      cases published
    · exact inside

/-- A step of a sender is one of four. -/
theorem advance_cases {who : Sender} (advances : door.advance config who = some after) :
    (∃ message, door.sending who = .entering message ∧ after = door.claim who message) ∨
    (∃ message, door.sending who = .claimed message ∧
      after = door.write who (if config.polled then .outside else .published)) ∨
    (door.sending who = .published ∧ after = door.exchange who) ∨
    (door.sending who = .ringing ∧ door.bell + 1 ≤ config.limit ∧ after = door.ring who) ∨
    (door.sending who = .ringing ∧ config.limit < door.bell + 1 ∧ after = door.giveUp who) := by
  unfold advance at advances
  split at advances
  · cases advances
  · cases advances
  · rename_i message entering
    split_ifs at advances
    cases advances
    exact .inl ⟨message, entering, rfl⟩
  · rename_i message claimed
    cases advances
    exact .inr (.inl ⟨message, claimed, rfl⟩)
  · rename_i published
    cases advances
    exact .inr (.inr (.inl ⟨published, rfl⟩))
  · rename_i ringing
    split_ifs at advances with room
    · cases advances
      exact .inr (.inr (.inr (.inl ⟨ringing, room, rfl⟩)))
    · cases advances
      exact .inr (.inr (.inr (.inr ⟨ringing, Nat.lt_of_not_le room, rfl⟩)))

omit [DecidableEq Sender] in
/-- A step of the receiver is one of four. -/
theorem receive_cases (receives : door.receive = some after) :
    (door.receiving = .summoned ∧
      after = { door with bell := 0, receiving := .clearing (decide (0 < door.bell)) }) ∨
    (∃ woken, door.receiving = .clearing woken ∧
      after =
        { door with notified := false, receiving := if woken then .draining else .away }) ∨
    (door.receiving = .draining ∧ ∃ message, door.tryPop = some (message, after)) ∨
    (door.receiving = .draining ∧ door.tryPop = none ∧
      after = { door with receiving := .away }) := by
  unfold receive at receives
  split at receives
  · cases receives
  · rename_i summoned
    cases receives
    exact .inl ⟨summoned, rfl⟩
  · rename_i woken clearing
    cases receives
    exact .inr (.inl ⟨woken, clearing, rfl⟩)
  · rename_i draining
    split at receives
    · rename_i message next popped
      cases receives
      exact .inr (.inr (.inl ⟨draining, message, popped⟩))
    · rename_i empty
      cases receives
      exact .inr (.inr (.inr ⟨draining, empty, rfl⟩))

omit [DecidableEq Sender] in
/-- The message to be taken is what the queue gives. -/
theorem upcoming_eq_some {message : Message} (next : door.upcoming = some message) :
    door.receiving = .draining ∧ ∃ rest, door.tryPop = some (message, rest) := by
  unfold upcoming at next
  split at next
  · rename_i draining
    obtain ⟨⟨_, rest⟩, popped, rfl⟩ := Option.map_eq_some_iff.mp next
    exact ⟨draining, rest, popped⟩
  · cases next

omit [DecidableEq Sender] in
/-- The receiver takes the message that it was about to take, or none. -/
theorem receive_upcoming (receives : door.receive = some after) :
    (∃ slot, door.upcoming = some slot.message ∧ slot.published = true ∧
      door.slots = slot :: after.slots ∧ after.taken = door.taken ++ [slot.message] ∧
      after.sending = door.sending) ∨
    door.upcoming = none ∧ after.slots = door.slots ∧ after.taken = door.taken ∧
      after.sending = door.sending := by
  rcases receive_cases receives with ⟨summoned, rfl⟩ | ⟨_, clearing, rfl⟩ |
    ⟨draining, message, popped⟩ | ⟨draining, empty, rfl⟩
  · right
    rw [upcoming, summoned]
    exact ⟨rfl, rfl, rfl, rfl⟩
  · right
    rw [upcoming, clearing]
    exact ⟨rfl, rfl, rfl, rfl⟩
  · left
    obtain ⟨slot, rest, slots, published, rfl, rfl⟩ := tryPop_eq popped
    refine ⟨slot, ?_, published, slots, rfl, rfl⟩
    rw [upcoming, draining, popped]
    rfl
  · right
    rw [upcoming, draining, empty]
    exact ⟨rfl, rfl, rfl, rfl⟩

/-- A sender leaves the receiver and what was taken alone. -/
theorem advance_keeps {who : Sender} (advances : door.advance config who = some after) :
    after.receiving = door.receiving ∧ after.taken = door.taken := by
  rcases advance_cases advances with ⟨_, _, rfl⟩ | ⟨_, _, rfl⟩ | ⟨_, rfl⟩ | ⟨_, _, rfl⟩ |
    ⟨_, _, rfl⟩ <;> exact ⟨rfl, rfl⟩

/-- Every action keeps the queue sound. -/
theorem Sound.act (sound : door.Sound) {action : DoorbellAction Sender Message}
    (happens : door.act config action = some after) : after.Sound := by
  cases action with
  | enter who message =>
      rw [Doorbell.act] at happens
      split_ifs at happens with inside
      cases happens
      refine sound.moveTo ?_ fun _ => nofun
      intro other claimed
      rw [claimed] at inside
      exact inside rfl
  | advance who =>
      rcases advance_cases happens with ⟨message, entering, rfl⟩ | ⟨_, _, rfl⟩ |
        ⟨published, rfl⟩ | ⟨ringing, _, rfl⟩ | ⟨ringing, _, rfl⟩
      · exact sound.claim entering
      · refine sound.write ?_
        intro message
        split_ifs <;> exact nofun
      · refine (sound.keep true door.bell door.receiving).moveTo (fun _ => ?_) fun _ => ?_
        · simp [published]
        · split_ifs <;> exact nofun
      · refine (sound.keep _ _ _).moveTo (fun _ => ?_) fun _ => nofun
        rw [ringing]
        exact nofun
      · refine (sound.keep _ _ _).moveTo (fun _ => ?_) fun _ => nofun
        rw [ringing]
        exact nofun
  | wake =>
      rw [Doorbell.act] at happens
      split_ifs at happens
      cases happens
      exact sound.keep _ _ _
  | poll =>
      rw [Doorbell.act] at happens
      split_ifs at happens
      cases happens
      exact sound.keep _ _ _
  | receive =>
      rcases receive_cases happens with ⟨_, rfl⟩ | ⟨_, _, rfl⟩ | ⟨_, message, popped⟩ | ⟨_, _, rfl⟩
      · exact sound.keep _ _ _
      · exact sound.keep _ _ _
      · obtain ⟨slot, rest, slots, published, rfl, rfl⟩ := tryPop_eq popped
        exact sound.pop slots published
      · exact sound.keep _ _ _

/-! ## The messages -/

/-- The messages that are sent or in the queue have a property. -/
structure Carries (door : Doorbell Sender Message) (property : Message → Prop) : Prop where
  entering : ∀ who message, door.sending who = .entering message → property message
  slots : ∀ slot ∈ door.slots, property slot.message

variable {property : Message → Prop}

omit [DecidableEq Sender] in
theorem initial_carries : (initial Sender Message).Carries property :=
  ⟨fun _ _ => nofun, fun _ member => absurd member List.not_mem_nil⟩

omit [DecidableEq Sender] in
/-- A message that is taken has the property. -/
theorem Carries.tryPop (carries : door.Carries property) {message : Message}
    (popped : door.tryPop = some (message, after)) : property message := by
  obtain ⟨slot, rest, slots, _, rfl, _⟩ := tryPop_eq popped
  exact carries.slots slot (slots ▸ List.mem_cons_self ..)

/-- A sender moves on and enters no message. -/
theorem Carries.moveTo (carries : door.Carries property) {changed : Doorbell Sender Message}
    {who : Sender} {next : Sending Message} (sending : changed.sending = door.sending)
    (slots : ∀ slot ∈ changed.slots, property slot.message)
    (then' : ∀ message, next = .entering message → property message) :
    (changed.moveTo who next).Carries property := by
  refine ⟨fun other message entering => ?_, slots⟩
  by_cases same : other = who
  · rw [same, moveTo_sending_self] at entering
    exact then' message entering
  · rw [moveTo_sending_of_ne _ _ same, sending] at entering
    exact carries.entering other message entering

/-- An action that enters only messages with the property leaves only such messages. -/
theorem Carries.act (carries : door.Carries property) {action : DoorbellAction Sender Message}
    (happens : door.act config action = some after)
    (enters : ∀ who message, action = .enter who message → property message) :
    after.Carries property := by
  cases action with
  | enter who message =>
      rw [Doorbell.act] at happens
      split_ifs at happens
      cases happens
      refine carries.moveTo rfl carries.slots fun other same => ?_
      cases same
      exact enters who _ rfl
  | advance who =>
      rcases advance_cases happens with ⟨message, entering, rfl⟩ | ⟨_, _, rfl⟩ | ⟨_, rfl⟩ |
        ⟨_, _, rfl⟩ | ⟨_, _, rfl⟩
      · refine carries.moveTo rfl (fun slot member => ?_) fun _ => nofun
        rcases List.mem_append.mp member with old | new
        · exact carries.slots slot old
        · rw [List.mem_singleton.mp new]
          exact carries.entering who message entering
      · refine carries.moveTo rfl (fun slot member => ?_) fun message => ?_
        · obtain ⟨old, inside, rfl⟩ := List.mem_map.mp member
          rw [Slot.publish_message]
          exact carries.slots old inside
        · split_ifs <;> exact nofun
      · refine carries.moveTo rfl carries.slots fun message => ?_
        split_ifs <;> exact nofun
      · exact carries.moveTo rfl carries.slots fun _ => nofun
      · exact carries.moveTo rfl carries.slots fun _ => nofun
  | wake =>
      rw [Doorbell.act] at happens
      split_ifs at happens
      cases happens
      exact ⟨carries.entering, carries.slots⟩
  | poll =>
      rw [Doorbell.act] at happens
      split_ifs at happens
      cases happens
      exact ⟨carries.entering, carries.slots⟩
  | receive =>
      rcases receive_cases happens with ⟨_, rfl⟩ | ⟨_, _, rfl⟩ | ⟨_, message, popped⟩ | ⟨_, _, rfl⟩
      · exact ⟨carries.entering, carries.slots⟩
      · exact ⟨carries.entering, carries.slots⟩
      · obtain ⟨slot, rest, slots, _, rfl, rfl⟩ := tryPop_eq popped
        exact ⟨carries.entering, fun other member =>
          carries.slots other (slots ▸ List.mem_cons_of_mem _ member)⟩
      · exact ⟨carries.entering, carries.slots⟩

omit [DecidableEq Sender] in
/-- A message with the property is about to get a place, or has one. -/
def Underway (door : Doorbell Sender Message) (property : Message → Prop) : Prop :=
  (∃ who message, door.sending who = .entering message ∧ property message) ∨
    ∃ slot ∈ door.slots, property slot.message

omit [DecidableEq Sender] in
theorem Carries.not_underway (carries : door.Carries fun message => ¬property message) :
    ¬door.Underway property := by
  rintro (⟨who, message, entering, holds⟩ | ⟨slot, member, holds⟩)
  · exact carries.entering who message entering holds
  · exact carries.slots slot member holds

omit [DecidableEq Sender] in
theorem not_underway_of_empty (slots : door.slots = [])
    (nobody : ∀ who, (door.sending who).inside = false) : ¬door.Underway property := by
  rintro (⟨who, message, entering, _⟩ | ⟨slot, member, _⟩)
  · have outside := nobody who
    rw [entering] at outside
    cases outside
  · rw [slots] at member
    cases member

/-- A sender that starts has its message under way. -/
theorem underway_of_enter {who : Sender} {message : Message}
    (enters : door.act config (.enter who message) = some after) (holds : property message) :
    after.Underway property := by
  rw [act] at enters
  split_ifs at enters
  cases enters
  exact .inl ⟨who, message, moveTo_sending_self .., holds⟩

/-- Another sender that is about to get a place stays so. -/
theorem Underway.moveTo {changed : Doorbell Sender Message} {who : Sender}
    {next : Sending Message} (underway : door.Underway property)
    (elsewhere : ∀ message, door.sending who ≠ .entering message)
    (sending : changed.sending = door.sending)
    (slots : (∃ slot ∈ door.slots, property slot.message) →
      ∃ slot ∈ changed.slots, property slot.message) :
    (changed.moveTo who next).Underway property := by
  rcases underway with ⟨other, message, entering, holds⟩ | placed
  · refine .inl ⟨other, message, ?_, holds⟩
    rw [moveTo_sending_of_ne, sending]
    · exact entering
    · rintro rfl
      exact elsewhere message entering
  · exact .inr (slots placed)

/-- A message stays under way until the receiver takes it. -/
theorem Underway.act (underway : door.Underway property) {action : DoorbellAction Sender Message}
    (happens : door.act config action = some after) :
    after.Underway property ∨
      action = .receive ∧ ∃ message, door.upcoming = some message ∧ property message := by
  cases action with
  | enter who message =>
      left
      rw [Doorbell.act] at happens
      split_ifs at happens with inside
      cases happens
      refine underway.moveTo (fun other entering => ?_) rfl id
      rw [entering] at inside
      exact inside rfl
  | advance who =>
      left
      rcases advance_cases happens with ⟨message, entering, rfl⟩ | ⟨_, claimed, rfl⟩ |
        ⟨published, rfl⟩ | ⟨ringing, _, rfl⟩ | ⟨ringing, _, rfl⟩
      · rcases underway with ⟨other, first, enters, holds⟩ | ⟨slot, member, holds⟩
        · by_cases same : other = who
          · subst same
            rw [entering] at enters
            cases enters
            exact .inr ⟨⟨other, message, false⟩,
              List.mem_append_right _ (List.mem_singleton_self _), holds⟩
          · exact .inl ⟨other, first, (moveTo_sending_of_ne _ _ same).trans enters, holds⟩
        · exact .inr ⟨slot, List.mem_append_left _ member, holds⟩
      · refine underway.moveTo (fun _ entering => ?_) rfl ?_
        · rw [claimed] at entering
          cases entering
        · rintro ⟨slot, member, holds⟩
          refine ⟨slot.publish who, List.mem_map.mpr ⟨slot, member, rfl⟩, ?_⟩
          rw [Slot.publish_message]
          exact holds
      · refine underway.moveTo (fun _ entering => ?_) rfl id
        rw [published] at entering
        cases entering
      · refine underway.moveTo (fun _ entering => ?_) rfl id
        rw [ringing] at entering
        cases entering
      · refine underway.moveTo (fun _ entering => ?_) rfl id
        rw [ringing] at entering
        cases entering
  | wake =>
      left
      rw [Doorbell.act] at happens
      split_ifs at happens
      cases happens
      exact underway
  | poll =>
      left
      rw [Doorbell.act] at happens
      split_ifs at happens
      cases happens
      exact underway
  | receive =>
      rcases receive_upcoming happens with ⟨first, next, _, slots, _, sending⟩ |
        ⟨_, slots, _, sending⟩
      · rcases underway with ⟨who, message, entering, holds⟩ | ⟨slot, member, holds⟩
        · exact .inl (.inl ⟨who, message, sending ▸ entering, holds⟩)
        · rw [slots] at member
          rcases List.mem_cons.mp member with rfl | inside
          · exact .inr ⟨rfl, _, next, holds⟩
          · exact .inl (.inr ⟨slot, inside, holds⟩)
      · rw [Underway, slots, sending]
        exact .inl underway

/-! ## The right to ring -/

/-- Where the right to ring is. -/
inductive Right (Sender : Type) where
  | nobody
  | sender (who : Sender)
  | bell
  | receiver

/-- The right to ring is in one place, and the receiver knows of what is in the queue unless
somebody is sending. -/
structure Good (door : Doorbell Sender Message) (right : Right Sender) : Prop
    extends door.Sound where
  notified : door.notified = true ↔ right ≠ .nobody
  rung : 0 < door.bell ↔ right = .bell
  once : door.bell ≤ 1
  ringing : ∀ who, door.sending who = .ringing ↔ right = .sender who
  clearing : ∀ woken, door.receiving = .clearing woken ↔ right = .receiver ∧ woken = true
  summoned : door.receiving = .summoned → right = .bell
  rang : ∀ who, door.sending who ≠ .failed
  heard : door.slots ≠ [] → (∃ who, (door.sending who).inside = true) ∨ right = .bell ∨
    right = .receiver ∨ door.receiving = .draining

variable {right : Right Sender}

omit [DecidableEq Sender] in
theorem initial_good : (initial Sender Message).Good .nobody where
  toSound := initial_sound
  notified := by simp [initial]
  rung := by simp [initial]
  once := Nat.zero_le _
  ringing := by simp [initial]
  clearing := by simp [initial]
  summoned := nofun
  rang := fun _ => nofun
  heard := fun some => absurd rfl some

/-- A sender that has not the right to ring, and does not get it, moves on. -/
theorem Good.moveTo (good : door.Good right) {changed : Doorbell Sender Message} {who : Sender}
    {next : Sending Message} (sound : (changed.moveTo who next).Sound)
    (same : changed = { door with slots := changed.slots, claims := changed.claims })
    (before : door.sending who ≠ .ringing) (then' : next ≠ .ringing ∧ next ≠ .failed)
    (heard : next.inside = true ∨ changed.slots = door.slots ∧
      ((door.sending who).inside = false ∨ right ≠ .nobody)) :
    (changed.moveTo who next).Good right := by
  rw [same] at sound ⊢
  refine { sound with
    notified := good.notified
    rung := good.rung
    once := good.once
    clearing := good.clearing
    summoned := good.summoned
    ringing := ?_
    rang := ?_
    heard := ?_ }
  · intro other
    by_cases self : other = who
    · rw [self, moveTo_sending_self, ← good.ringing]
      exact iff_of_false then'.1 before
    · rw [moveTo_sending_of_ne _ _ self]
      exact good.ringing other
  · intro other
    by_cases self : other = who
    · rw [self, moveTo_sending_self]
      exact then'.2
    · rw [moveTo_sending_of_ne _ _ self]
      exact good.rang other
  · intro some
    rcases heard with inside | ⟨slots, quiet⟩
    · exact .inl ⟨who, by rw [moveTo_sending_self]; exact inside⟩
    · rcases good.heard (slots ▸ some) with ⟨other, inside⟩ | known
      · by_cases self : other = who
        · rw [self] at inside
          rcases quiet with outside | given
          · rw [inside] at outside
            cases outside
          · cases right with
            | nobody => exact absurd rfl given
            | sender ringer =>
                have ringing := (good.ringing ringer).mpr rfl
                have differs : ringer ≠ who := by
                  rintro rfl
                  exact before ringing
                refine .inl ⟨ringer, ?_⟩
                rw [moveTo_sending_of_ne _ _ differs]
                change (door.sending ringer).inside = true
                rw [ringing]
                rfl
            | bell => exact .inr (.inl rfl)
            | receiver => exact .inr (.inr (.inl rfl))
        · exact .inl ⟨other, by rw [moveTo_sending_of_ne _ _ self]; exact inside⟩
      · exact .inr known

/-- A sender that finds the flag clear sets it and gets the right to ring. -/
theorem Good.take (good : door.Good right) {who : Sender} (clear : door.notified = false)
    (sound : (door.exchange who).Sound) : (door.exchange who).Good (.sender who) := by
  have reached : (door.exchange who).sending who = .ringing := by
    rw [exchange, moveTo_sending_self, clear, if_neg Bool.false_ne_true]
  have others : ∀ other, other ≠ who → (door.exchange who).sending other = door.sending other :=
    fun other differs => moveTo_sending_of_ne _ _ differs
  have nobody : right = .nobody := by
    by_contra given
    rw [good.notified.mpr given] at clear
    cases clear
  refine { sound with
    notified := iff_of_true rfl nofun
    rung := ?_
    once := good.once
    ringing := ?_
    clearing := ?_
    summoned := ?_
    rang := ?_
    heard := fun _ => .inl ⟨who, by rw [reached]; rfl⟩ }
  · refine iff_of_false (fun rung => ?_) nofun
    rw [nobody] at good
    cases good.rung.mp rung
  · intro other
    by_cases self : other = who
    · rw [self, reached]
      exact iff_of_true rfl rfl
    · rw [others other self]
      refine iff_of_false (fun ringing => ?_) fun same => self (by cases same; rfl)
      rw [nobody] at good
      cases (good.ringing other).mp ringing
  · intro woken
    refine iff_of_false (fun clearing => ?_) nofun
    rw [nobody] at good
    cases ((good.clearing woken).mp clearing).1
  · intro summoned
    rw [nobody] at good
    cases good.summoned summoned
  · intro other
    by_cases self : other = who
    · rw [self, reached]
      exact nofun
    · rw [others other self]
      exact good.rang other

/-- The sender that has the right to ring rings. -/
theorem Good.ring (good : door.Good right) {who : Sender} (ringing : door.sending who = .ringing)
    (sound : (door.ring who).Sound) : (door.ring who).Good .bell := by
  have mine := (good.ringing who).mp ringing
  subst mine
  have reached : (door.ring who).sending who = .outside := moveTo_sending_self ..
  have others : ∀ other, other ≠ who → (door.ring who).sending other = door.sending other :=
    fun other differs => moveTo_sending_of_ne _ _ differs
  refine { sound with
    notified := iff_of_true (good.notified.mpr nofun) nofun
    rung := iff_of_true (Nat.succ_pos _) rfl
    once := ?_
    ringing := ?_
    clearing := ?_
    summoned := fun _ => rfl
    rang := ?_
    heard := fun _ => .inr (.inl rfl) }
  · have quiet : ¬0 < door.bell := fun rung => nomatch good.rung.mp rung
    change door.bell + 1 ≤ 1
    omega
  · intro other
    refine iff_of_false (fun ringing' => ?_) nofun
    by_cases self : other = who
    · rw [self, reached] at ringing'
      cases ringing'
    · rw [others other self] at ringing'
      cases (good.ringing other).mp ringing'
      exact self rfl
  · intro woken
    exact iff_of_false (fun clearing => nomatch ((good.clearing woken).mp clearing).1) nofun
  · intro other
    by_cases self : other = who
    · rw [self, reached]
      exact nofun
    · rw [others other self]
      exact good.rang other

omit [DecidableEq Sender] in
/-- The receiver makes a step that leaves the right to ring and the senders alone. -/
theorem Good.receive (good : door.Good right) {receiving : Receiving}
    {slots : List (Slot Sender Message)} {taken : List Message}
    (sound : { door with slots := slots, taken := taken, receiving := receiving }.Sound)
    (before : ∀ woken, door.receiving ≠ .clearing woken)
    (then' : ∀ woken, receiving ≠ .clearing woken)
    (summoned : receiving = .summoned → right = .bell)
    (heard : slots ≠ [] → door.slots ≠ [] ∧ receiving = door.receiving ∨
      (∃ who, (door.sending who).inside = true) ∨ receiving = .draining) :
    { door with slots := slots, taken := taken, receiving := receiving }.Good right := by
  refine { sound with
    notified := good.notified
    rung := good.rung
    once := good.once
    ringing := good.ringing
    clearing := ?_
    summoned := summoned
    rang := good.rang
    heard := ?_ }
  · intro woken
    rw [← good.clearing]
    exact iff_of_false (then' woken) (before woken)
  · intro some
    rcases heard some with ⟨old, same⟩ | sending | draining
    · rw [same]
      exact good.heard old
    · exact .inl sending
    · exact .inr (.inr (.inr draining))

/-- Every action keeps the right to ring in one place. -/
theorem Good.act (good : door.Good right) (bell : config.polled = false) (loud : 0 < config.limit)
    {action : DoorbellAction Sender Message} (happens : door.act config action = some after) :
    ∃ right, after.Good right := by
  have sound := good.toSound.act happens
  cases action with
  | enter who message =>
      rw [Doorbell.act] at happens
      split_ifs at happens with inside
      cases happens
      refine ⟨right, good.moveTo sound rfl ?_ ⟨nofun, nofun⟩ (.inl rfl)⟩
      intro ringing
      rw [ringing] at inside
      exact inside rfl
  | advance who =>
      rcases advance_cases happens with ⟨message, entering, rfl⟩ | ⟨message, claimed, rfl⟩ |
        ⟨published, rfl⟩ | ⟨ringing, _, rfl⟩ | ⟨ringing, soft, rfl⟩
      · refine ⟨right, good.moveTo sound rfl ?_ ⟨nofun, nofun⟩ (.inl rfl)⟩
        rw [entering]
        exact nofun
      · rw [bell, if_neg Bool.false_ne_true] at sound ⊢
        refine ⟨right, good.moveTo sound rfl ?_ ⟨nofun, nofun⟩ (.inl rfl)⟩
        rw [claimed]
        exact nofun
      · cases notified : door.notified with
        | false => exact ⟨_, good.take notified sound⟩
        | true =>
            refine ⟨right, ?_⟩
            have same : door.exchange who = door.moveTo who .outside := by
              rw [exchange, if_pos notified, ← notified]
            rw [same] at sound ⊢
            refine good.moveTo sound rfl ?_ ⟨nofun, nofun⟩
              (.inr ⟨rfl, .inr (good.notified.mp notified)⟩)
            rw [published]
            exact nofun
      · exact ⟨_, good.ring ringing sound⟩
      · have mine := (good.ringing who).mp ringing
        have quiet : ¬0 < door.bell := fun rung => by
          rw [good.rung.mp rung] at mine
          cases mine
        omega
  | wake =>
      rw [Doorbell.act] at happens
      split_ifs at happens with woken
      cases happens
      obtain ⟨away, rung, -⟩ := woken
      have rings := good.rung.mp rung
      refine ⟨right, { sound with
        notified := good.notified
        rung := good.rung
        once := good.once
        ringing := good.ringing
        clearing := ?_
        summoned := fun _ => rings
        rang := good.rang
        heard := fun _ => .inr (.inl rings) }⟩
      intro woken
      rw [rings]
      exact iff_of_false nofun nofun
  | poll =>
      rw [Doorbell.act, bell] at happens
      simp at happens
  | receive =>
      rcases receive_cases happens with ⟨summoned, rfl⟩ | ⟨woken, clearing, rfl⟩ |
        ⟨draining, message, popped⟩ | ⟨draining, empty, rfl⟩
      · have rings := good.summoned summoned
        subst rings
        have rung := good.rung.mpr rfl
        refine ⟨.receiver, { sound with
          notified := iff_of_true (good.notified.mpr nofun) nofun
          rung := iff_of_false (Nat.lt_irrefl 0) nofun
          once := Nat.zero_le 1
          ringing := ?_
          clearing := ?_
          summoned := nofun
          rang := good.rang
          heard := fun _ => .inr (.inr (.inl rfl)) }⟩
        · intro who
          exact iff_of_false (fun ringing => nomatch (good.ringing who).mp ringing) nofun
        · intro woken
          simp only [rung, decide_true, true_and]
          exact ⟨fun same => by cases same; rfl, fun same => by rw [same]⟩
      · obtain ⟨rfl, rfl⟩ := (good.clearing woken).mp clearing
        refine ⟨.nobody, { sound with
          notified := iff_of_false Bool.false_ne_true fun given => given rfl
          rung := iff_of_false (fun rung => nomatch good.rung.mp rung) nofun
          once := good.once
          ringing := ?_
          clearing := fun _ => iff_of_false nofun nofun
          summoned := nofun
          rang := good.rang
          heard := fun _ => .inr (.inr (.inr rfl)) }⟩
        intro who
        exact iff_of_false (fun ringing => nomatch (good.ringing who).mp ringing) nofun
      · obtain ⟨slot, rest, slots, published, rfl, rfl⟩ := tryPop_eq popped
        refine ⟨right, good.receive sound ?_ ?_ ?_ fun _ => .inr (.inr draining)⟩
        · rw [draining]
          exact fun _ => nofun
        · rw [draining]
          exact fun _ => nofun
        · rw [draining]
          exact nofun
      · refine ⟨right, good.receive sound ?_ (fun _ => nofun) nofun fun some => .inr (.inl ?_)⟩
        · rw [draining]
          exact fun _ => nofun
        · rcases tryPop_eq_none empty with none | ⟨slot, member, unwritten⟩
          · exact absurd none some
          · refine ⟨slot.sender, ?_⟩
            rw [good.unwritten slot member unwritten]
            rfl

omit [DecidableEq Sender] in
/-- Nothing is left in the queue of a receiver that sleeps by a quiet bell while nobody is
sending. -/
theorem Good.empty (good : door.Good right) (away : door.receiving = .away)
    (quiet : door.bell = 0) (nobody : ∀ who, (door.sending who).inside = false) :
    door.slots = [] := by
  by_contra some
  rcases good.heard some with ⟨who, inside⟩ | rung | answered | draining
  · rw [nobody who] at inside
    cases inside
  · have rings := good.rung.mpr rung
    omega
  · have clearing := (good.clearing true).mpr ⟨answered, rfl⟩
    rw [away] at clearing
    cases clearing
  · rw [away] at draining
    cases draining

/-- From the empty queue on, the right to ring stays in one place. -/
theorem Good.of_trace (bell : config.polled = false) (loud : 0 < config.limit)
    {actions : List (DoorbellAction Sender Message)}
    (trace : Trace (Doorbell.act config) (initial Sender Message) actions door) :
    ∃ right, door.Good right := by
  refine trace.invariant (fun door => ∃ right, door.Good right) ?_ ⟨_, initial_good⟩
  rintro _ _ _ ⟨_, good⟩ happens
  exact good.act bell loud happens

end Doorbell

end Join.Library
