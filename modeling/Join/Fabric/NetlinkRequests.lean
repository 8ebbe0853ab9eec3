import Mathlib.Data.Int.Basic
import Mathlib.Data.List.Induction
import Join.Library.PendingTable
import Join.Library.Trace

/-!
# Requests to the kernel

`NetlinkManager::sendRequest` makes an entry for its sequence number, sends the request, and
waits until the entry is done or the time is over. The reactor thread marks the entries: the
kernel's answers name the sequence number of the request they belong to, and a failed read of
the socket marks them all, with its error.

All this is done under one mutex, which a call releases while it sends and while it waits. So a
run is a sequence of sections under the mutex, of any calls and of the reactor thread, in any
order; a wait may end without a signal, and finds out from the entry whether it is done.
-/

set_option autoImplicit false

namespace Join

open Library

/-- A message of the kernel: its type and sequence number, and for `NLMSG_ERROR` the error and
the sequence number of the request that it is about. -/
structure NetlinkMessage where
  type : UInt16
  seq : UInt32
  error : ℤ
  requestSeq : UInt32
deriving DecidableEq

/-- What `onReadable` finds: a message, or the error of a failed read. -/
inductive NetlinkEvent
  | message (message : NetlinkMessage)
  | readFailed (error : {error : ℤ // error ≠ 0})
deriving DecidableEq

/-- `NetlinkManager::PendingRequest`; the error is zero when there is none. -/
structure NetlinkRequest where
  error : ℤ := 0
  done : Bool := false
deriving DecidableEq

/-- What a call of `sendRequest` returns. -/
inductive NetlinkResult
  | success
  | operationFailed
  | notSent
  | timedOut
  | failed (error : ℤ)
deriving DecidableEq

/-- `_pending`, and the calls that wait. -/
structure NetlinkManager (Call : Type) where
  pending : PendingTable Call UInt32 NetlinkRequest NetlinkEvent
  waiting : Call → Bool

/-- The sections under the mutex: a call begins with its sequence number; it has sent its
request, or failed to; its wait ends, with or without the time being over; and the reactor
thread handles what it has found. -/
inductive NetlinkAction (Call : Type)
  | begin (call : Call) (seq : UInt32)
  | sent (call : Call) (success : Bool)
  | wake (call : Call) (expired : Bool)
  | handle (event : NetlinkEvent)

/-- The call whose section it is. -/
def NetlinkAction.caller {Call : Type} : NetlinkAction Call → Option Call
  | begin call _ => some call
  | sent call _ => some call
  | wake call _ => some call
  | handle _ => none

/-- `NetlinkManager::notifyRequest` and `NetlinkManager::notifyAllRequests`, as they concern the
entry of a sequence number: `NLMSG_DONE` and `NLMSG_ERROR`. -/
def NetlinkEvent.notify (seq : UInt32) (event : NetlinkEvent) (request : NetlinkRequest) :
    NetlinkRequest :=
  match event with
  | message found =>
      if found.type = 3 then
        if found.seq = seq then ⟨0, true⟩ else request
      else if found.type = 2 then
        if found.requestSeq = seq then ⟨-found.error, true⟩ else request
      else request
  | readFailed error => ⟨error.val, true⟩

/-- The message answers the request with a sequence number, without an error. -/
def NetlinkMessage.Answers (message : NetlinkMessage) (seq : UInt32) : Prop :=
  message.type = 3 ∧ message.seq = seq ∨
    message.type = 2 ∧ message.requestSeq = seq ∧ message.error = 0

namespace NetlinkManager

variable {Call : Type} [DecidableEq Call]

/-- Nobody has called. -/
def start : NetlinkManager Call := ⟨.empty, fun _ => false⟩

/-- The call erases its entry and returns. -/
def leave (manager : NetlinkManager Call) (call : Call) (seq : UInt32) : NetlinkManager Call where
  pending := manager.pending.remove call seq
  waiting := Function.update manager.waiting call false

/-- The call waits. -/
def wait (manager : NetlinkManager Call) (call : Call) : NetlinkManager Call where
  pending := manager.pending
  waiting := Function.update manager.waiting call true

/-- A turn of the wait: the call looks whether its request is done, and returns if it is, or if
the time is over. -/
def look (manager : NetlinkManager Call) (call : Call) (seq : UInt32) (request : NetlinkRequest)
    (expired : Bool) : NetlinkManager Call × Option (Call × NetlinkResult) :=
  if request.done then
    if request.error ≠ 0 then (manager.leave call seq, some (call, .failed request.error))
    else (manager.leave call seq, some (call, .success))
  else if expired then (manager.leave call seq, some (call, .timedOut))
  else (manager.wait call, none)

/-- A section under the mutex, and what a call returns at its end. -/
def perform (manager : NetlinkManager Call) :
    NetlinkAction Call → Option (NetlinkManager Call × Option (Call × NetlinkResult))
  | .begin call seq =>
      match manager.pending.held call, manager.pending.entries seq with
      | some _, _ => none
      | none, some _ => some (manager, some (call, .operationFailed))
      | none, none => some ({ manager with pending := manager.pending.insert {} call seq }, none)
  | .sent call success =>
      if manager.waiting call then none
      else (manager.pending.own call).map fun entry =>
        if success then manager.look call entry.1 entry.2 false
        else (manager.leave call entry.1, some (call, .notSent))
  | .wake call expired =>
      if manager.waiting call then (manager.pending.own call).map fun entry =>
        manager.look call entry.1 entry.2 expired
      else none
  | .handle event =>
      some ({ manager with pending := manager.pending.deliver NetlinkEvent.notify event }, none)

/-- The state after a section. -/
def act (manager : NetlinkManager Call) (action : NetlinkAction Call) :
    Option (NetlinkManager Call) :=
  (manager.perform action).map Prod.fst

/-- What a call returns at the end of a section. -/
def returned (manager : NetlinkManager Call) (action : NetlinkAction Call) :
    Option (Call × NetlinkResult) :=
  (manager.perform action).bind Prod.snd

/-! ## The answers -/

/-- The entries are what has arrived since they were made. -/
def Sound (manager : NetlinkManager Call) : Prop :=
  manager.pending.Kept NetlinkEvent.notify {}

/-- What is right about a section: a call that succeeds had an entry, and since it was made an
answer to its request arrived; a call that returns has no entry any more; and a call leaves the
entries of the others alone. -/
structure Correct (before : NetlinkManager Call) (action : NetlinkAction Call)
    (after : NetlinkManager Call) : Prop where
  answered : ∀ call, before.returned action = some (call, .success) → ∃ seq since message,
    before.pending.held call = some (seq, since) ∧
      .message message ∈ before.pending.events.drop since ∧ message.Answers seq
  gone : ∀ call result, before.returned action = some (call, result) →
    after.pending.held call = none ∧ ∀ seq since,
      before.pending.held call = some (seq, since) → after.pending.entries seq = none
  others : ∀ call, action.caller = some call →
    PendingTable.OthersKept call before.pending after.pending

/-- A message marks an entry as done without an error only when it answers the request. -/
theorem notify_success {seq : UInt32} {event : NetlinkEvent} {request : NetlinkRequest}
    (done : (event.notify seq request).done = true)
    (error : (event.notify seq request).error = 0) :
    (∃ message, event = .message message ∧ message.Answers seq) ∨
      (request.done = true ∧ request.error = 0) := by
  cases event with
  | readFailed failure => exact absurd (show failure.val = 0 from error) failure.property
  | message message =>
      rw [NetlinkEvent.notify] at done error
      by_cases isDone : message.type = 3
      · rw [if_pos isDone] at done error
        by_cases same : message.seq = seq
        · exact Or.inl ⟨message, rfl, Or.inl ⟨isDone, same⟩⟩
        · rw [if_neg same] at done error
          exact Or.inr ⟨done, error⟩
      · rw [if_neg isDone] at done error
        by_cases isError : message.type = 2
        · rw [if_pos isError] at done error
          by_cases same : message.requestSeq = seq
          · rw [if_pos same] at error
            exact Or.inl ⟨message, rfl, Or.inr ⟨isError, same, Int.neg_eq_zero.mp error⟩⟩
          · rw [if_neg same] at done error
            exact Or.inr ⟨done, error⟩
        · rw [if_neg isError] at done error
          exact Or.inr ⟨done, error⟩

/-- An entry that is done without an error was answered. -/
theorem exists_answer {seq : UInt32} {events : List NetlinkEvent}
    (done : (PendingTable.slotAfter NetlinkEvent.notify {} seq events).done = true)
    (error : (PendingTable.slotAfter NetlinkEvent.notify {} seq events).error = 0) :
    ∃ message, .message message ∈ events ∧ message.Answers seq := by
  induction events using List.reverseRecOn with
  | nil => cases done
  | append_singleton events event inductionHypothesis =>
      rw [PendingTable.slotAfter, List.foldl_append, List.foldl_cons, List.foldl_nil] at done error
      rcases notify_success done error with ⟨message, rfl, answers⟩ | ⟨done, error⟩
      · exact ⟨message, List.mem_append_right _ (List.mem_singleton_self _), answers⟩
      · obtain ⟨message, member, answers⟩ := inductionHypothesis done error
        exact ⟨message, List.mem_append_left _ member, answers⟩

/-! ## A section -/

variable {before after : NetlinkManager Call} {call : Call} {seq : UInt32} {since : ℕ}

/-- What a look at an entry does. -/
theorem look_cases (manager : NetlinkManager Call) (call : Call) (seq : UInt32)
    (request : NetlinkRequest) (expired : Bool) :
    (manager.look call seq request expired = (manager.wait call, none)) ∨
      ∃ result, manager.look call seq request expired =
          (manager.leave call seq, some (call, result)) ∧
        (result = .success → request.done = true ∧ request.error = 0) := by
  rw [look]
  by_cases done : request.done = true
  · rw [if_pos done]
    by_cases error : request.error = 0
    · rw [if_neg (not_not_intro error)]
      exact Or.inr ⟨_, rfl, fun _ => ⟨done, error⟩⟩
    · rw [if_pos error]
      exact Or.inr ⟨_, rfl, fun same => by cases same⟩
  · rw [if_neg done]
    cases expired with
    | true => exact Or.inr ⟨_, rfl, fun same => by cases same⟩
    | false => exact Or.inl rfl

/-- A call that has sent its request looks at its entry or leaves. -/
theorem perform_sent {success : Bool} {outcome : Option (Call × NetlinkResult)}
    (happens : before.perform (.sent call success) = some (after, outcome)) :
    ∃ entry, before.pending.own call = some entry ∧
      (before.look call entry.1 entry.2 false = (after, outcome) ∨
        (before.leave call entry.1, some (call, .notSent)) = (after, outcome)) := by
  rw [perform] at happens
  by_cases waits : before.waiting call = true
  · rw [if_pos waits] at happens
    cases happens
  · rw [if_neg waits] at happens
    obtain ⟨entry, own, same⟩ := Option.map_eq_some_iff.mp happens
    refine ⟨entry, own, ?_⟩
    cases success with
    | true => exact Or.inl same
    | false => exact Or.inr same

/-- A call whose wait ends looks at its entry. -/
theorem perform_wake {expired : Bool} {outcome : Option (Call × NetlinkResult)}
    (happens : before.perform (.wake call expired) = some (after, outcome)) :
    ∃ entry, before.pending.own call = some entry ∧
      before.look call entry.1 entry.2 expired = (after, outcome) := by
  rw [perform] at happens
  by_cases waits : before.waiting call = true
  · rw [if_pos waits] at happens
    exact Option.map_eq_some_iff.mp happens
  · rw [if_neg waits] at happens
    cases happens

/-- A look at its entry is a turn of a call that has one. -/
theorem turn_look (own : before.pending.held call = some (seq, since))
    (request : NetlinkRequest) (expired : Bool) :
    PendingTable.Turn NetlinkEvent.notify {} before.pending (some call)
      (before.look call seq request expired).1.pending
      (before.look call seq request expired).2 := by
  rcases look_cases before call seq request expired with same | ⟨result, same, -⟩
  · rw [same]
    exact .stay call
  · rw [same]
    exact .leave result own

/-- Every section is a turn. -/
theorem turn_perform {action : NetlinkAction Call} {outcome : Option (Call × NetlinkResult)}
    (happens : before.perform action = some (after, outcome)) :
    PendingTable.Turn NetlinkEvent.notify {} before.pending action.caller after.pending
      outcome := by
  cases action with
  | begin call seq =>
      rw [perform] at happens
      cases free : before.pending.held call with
      | some held =>
          rw [free] at happens
          cases happens
      | none =>
          rw [free] at happens
          cases absent : before.pending.entries seq with
          | some request =>
              rw [absent] at happens
              cases happens
              exact .refuse _ free
          | none =>
              rw [absent] at happens
              cases happens
              exact .make free absent
  | sent call success =>
      obtain ⟨entry, own, same⟩ := perform_sent happens
      obtain ⟨since, held, -⟩ := PendingTable.exists_of_own own
      rcases same with same | same
      · have turn := turn_look held entry.2 false
        rwa [same] at turn
      · cases same
        exact .leave _ held
  | wake call expired =>
      obtain ⟨entry, own, same⟩ := perform_wake happens
      obtain ⟨since, held, -⟩ := PendingTable.exists_of_own own
      have turn := turn_look held entry.2 expired
      rwa [same] at turn
  | handle event =>
      cases happens
      exact .arrive event

/-- A call succeeds only when its entry is done without an error. -/
theorem entry_of_success {action : NetlinkAction Call}
    (happens : before.perform action = some (after, some (call, .success))) :
    ∃ entry, before.pending.own call = some entry ∧ entry.2.done = true ∧ entry.2.error = 0 := by
  have look {someone : Call} {entry : UInt32 × NetlinkRequest} {expired : Bool}
      (same : before.look someone entry.1 entry.2 expired = (after, some (call, .success))) :
      someone = call ∧ entry.2.done = true ∧ entry.2.error = 0 := by
    rcases look_cases before someone entry.1 entry.2 expired with stays | ⟨result, goes, good⟩
    · rw [stays] at same
      cases same
    · rw [goes] at same
      cases same
      exact ⟨rfl, good rfl⟩
  cases action with
  | begin someone seq =>
      rw [perform] at happens
      cases free : before.pending.held someone with
      | some held =>
          rw [free] at happens
          cases happens
      | none =>
          rw [free] at happens
          cases absent : before.pending.entries seq with
          | some request =>
              rw [absent] at happens
              cases happens
          | none =>
              rw [absent] at happens
              cases happens
  | sent someone success =>
      obtain ⟨entry, own, same⟩ := perform_sent happens
      rcases same with same | same
      · obtain ⟨rfl, good⟩ := look same
        exact ⟨entry, own, good⟩
      · cases same
  | wake someone expired =>
      obtain ⟨entry, own, same⟩ := perform_wake happens
      obtain ⟨rfl, good⟩ := look same
      exact ⟨entry, own, good⟩
  | handle event => cases happens

/-! ## Runs -/

theorem perform_of_act {action : NetlinkAction Call} (happens : before.act action = some after) :
    ∃ outcome, before.perform action = some (after, outcome) ∧
      before.returned action = outcome := by
  obtain ⟨⟨manager, outcome⟩, performed, rfl⟩ := Option.map_eq_some_iff.mp happens
  refine ⟨outcome, performed, ?_⟩
  rw [returned, performed]
  rfl

theorem Sound.act (sound : before.Sound) {action : NetlinkAction Call}
    (happens : before.act action = some after) : after.Sound := by
  obtain ⟨outcome, performed, -⟩ := perform_of_act happens
  exact (turn_perform performed).kept sound

omit [DecidableEq Call] in
theorem sound_start : (start : NetlinkManager Call).Sound := PendingTable.kept_empty

/-- A section in a sound state is right. -/
theorem Sound.correct (sound : before.Sound) {action : NetlinkAction Call}
    (happens : before.act action = some after) : Correct before action after := by
  obtain ⟨outcome, performed, returns⟩ := perform_of_act happens
  have turn := turn_perform performed
  constructor
  · intro call success
    rw [returns] at success
    rw [success] at performed
    obtain ⟨entry, own, done, error⟩ := entry_of_success performed
    obtain ⟨since, held, -⟩ := PendingTable.exists_of_own own
    have slot := own.symm.trans (sound.own_eq held)
    rw [congrArg Prod.snd (Option.some.inj slot)] at done error
    obtain ⟨message, member, answers⟩ := exists_answer done error
    exact ⟨entry.1, since, message, held, member, answers⟩
  · intro call result returned
    exact turn.gone (returns.symm.trans returned)
  · intro call caller
    rw [caller] at turn
    exact turn.others sound

/-- Every section of a run is right. -/
theorem correct_of_trace {actions : List (NetlinkAction Call)} {action : NetlinkAction Call}
    (run : Trace act start actions before) (happens : before.act action = some after) :
    Correct before action after := by
  have sound : before.Sound :=
    run.invariant Sound (fun _ _ _ sound => Sound.act sound) sound_start
  exact sound.correct happens

end NetlinkManager

end Join
