import Join.Fabric.DhcpMessage
import Join.Fabric.NetlinkRequests

/-!
# Messages to a server

`BasicDhcpClient::exchange` makes an entry for the transaction identifier of its message, sends
the message and waits until there is an answer or the time is over; `onMessage` hands a reply
that was received to the entry with its identifier. An exchange holds the mutex from its entry to
its wait, so no reply can come between.
-/

set_option autoImplicit false

namespace Join

open Library

/-- What a call of `exchange` returns. -/
inductive DhcpResult
  | answer (packet : DhcpPacket)
  | inUse
  | notSent
  | timedOut
  | messageUnknown
  | connectionRefused
deriving DecidableEq

/-- `_pending` and `_reason`, and of the calls that wait the message type they expect. -/
structure DhcpClient (Call : Type) where
  pending : PendingTable Call UInt32 (Option DhcpPacket) DhcpPacket
  expected : Call → UInt8
  reason : List UInt8

/-- The sections under the mutex: a call sends its message, or fails to; its wait ends, with or
without the time being over; and a message was received. -/
inductive DhcpAction (Call : Type)
  | exchange (call : Call) (id : UInt32) (expected : UInt8) (transmitted : Bool)
  | wake (call : Call) (expired : Bool)
  | receive (packet : DhcpPacket)

/-- The call whose section it is. -/
def DhcpAction.caller {Call : Type} : DhcpAction Call → Option Call
  | exchange call _ _ _ => some call
  | wake call _ => some call
  | receive _ => none

/-- `BasicDhcpClient::onMessage`, as it concerns the entry of an identifier: `BootReply`. -/
def DhcpPacket.hand (id : UInt32) (packet : DhcpPacket) (answer : Option DhcpPacket) :
    Option DhcpPacket :=
  if packet.op = 2 ∧ packet.id = id then some packet else answer

/-- The message type of a packet: `getIf<uint8_t> (DhcpOption::DhcpMessageType)`. -/
def DhcpPacket.messageType (packet : DhcpPacket) : Option UInt8 :=
  match packet.options.find 53 with
  | some (.byte type) => some type
  | _ => none

/-- The reason of a refusal: `getIf<std::string> (DhcpOption::Message)`. -/
def DhcpPacket.refusal (packet : DhcpPacket) : Option (List UInt8) :=
  match packet.options.find 56 with
  | some (.text reason) => some reason
  | _ => none

namespace DhcpClient

variable {Call : Type} [DecidableEq Call]

/-- Nobody has called. -/
def start : DhcpClient Call := ⟨.empty, fun _ => 0, []⟩

/-- The end of an exchange that has an answer: `DhcpMessage::Nak`, another type than expected,
or the answer. -/
def judge (client : DhcpClient Call) (expected : UInt8) (packet : DhcpPacket) :
    DhcpResult × DhcpClient Call :=
  match packet.messageType with
  | none => (.messageUnknown, client)
  | some type =>
      if type = 6 then
        (.connectionRefused, { client with reason := packet.refusal.getD client.reason })
      else if type ≠ expected then (.messageUnknown, client)
      else (.answer packet, client)

/-- The call erases its entry. -/
def leave (client : DhcpClient Call) (call : Call) (id : UInt32) : DhcpClient Call :=
  { client with pending := client.pending.remove call id }

/-- A turn of the wait: the call looks whether there is an answer, and returns if there is, or if
the time is over. -/
def look (client : DhcpClient Call) (call : Call) (id : UInt32) (answer : Option DhcpPacket)
    (expired : Bool) : DhcpClient Call × Option (Call × DhcpResult) :=
  match answer with
  | some packet =>
      let judged := (client.leave call id).judge (client.expected call) packet
      (judged.2, some (call, judged.1))
  | none =>
      if expired then (client.leave call id, some (call, .timedOut)) else (client, none)

/-- The beginning of `BasicDhcpClient::exchange`, up to its wait. -/
def begin (client : DhcpClient Call) (call : Call) (id : UInt32) (expected : UInt8)
    (transmitted : Bool) : DhcpClient Call × Option (Call × DhcpResult) :=
  let cleared := { client with reason := [] }
  match client.pending.entries id with
  | some _ => (cleared, some (call, .inUse))
  | none =>
      let inserted : DhcpClient Call := { cleared with
        pending := client.pending.insert none call id
        expected := Function.update client.expected call expected }
      if transmitted then inserted.look call id none false
      else (inserted.leave call id, some (call, .notSent))

/-- A section under the mutex, and what a call returns at its end. -/
def perform (client : DhcpClient Call) :
    DhcpAction Call → Option (DhcpClient Call × Option (Call × DhcpResult))
  | .exchange call id expected transmitted =>
      if client.pending.held call = none then some (client.begin call id expected transmitted)
      else none
  | .wake call expired =>
      (client.pending.own call).map fun entry => client.look call entry.1 entry.2 expired
  | .receive packet =>
      some ({ client with pending := client.pending.deliver DhcpPacket.hand packet }, none)

/-- The state after a section. -/
def act (client : DhcpClient Call) (action : DhcpAction Call) : Option (DhcpClient Call) :=
  (client.perform action).map Prod.fst

/-- What a call returns at the end of a section. -/
def returned (client : DhcpClient Call) (action : DhcpAction Call) : Option (Call × DhcpResult) :=
  (client.perform action).bind Prod.snd

/-! ## The answers -/

/-- The entries are what has arrived since they were made. -/
def Sound (client : DhcpClient Call) : Prop := client.pending.Kept DhcpPacket.hand none

/-- What is right about a section: a call that returns a packet had an entry, and since it was
made the packet arrived, a reply with its identifier and the type it expects; a call that returns
has no entry any more; and a call leaves the entries of the others alone. -/
structure Correct (before : DhcpClient Call) (action : DhcpAction Call)
    (after : DhcpClient Call) : Prop where
  answered : ∀ call packet, before.returned action = some (call, .answer packet) → ∃ id since,
    before.pending.held call = some (id, since) ∧ packet ∈ before.pending.events.drop since ∧
      packet.op = 2 ∧ packet.id = id ∧ packet.messageType = some (before.expected call)
  gone : ∀ call result, before.returned action = some (call, result) →
    after.pending.held call = none ∧ ∀ id since,
      before.pending.held call = some (id, since) → after.pending.entries id = none
  others : ∀ call, action.caller = some call →
    PendingTable.OthersKept call before.pending after.pending

/-- What stands in an entry is a reply with its identifier that arrived. -/
theorem exists_reply {id : UInt32} {packets : List DhcpPacket} {packet : DhcpPacket}
    (answer : PendingTable.slotAfter DhcpPacket.hand none id packets = some packet) :
    packet ∈ packets ∧ packet.op = 2 ∧ packet.id = id := by
  induction packets using List.reverseRecOn with
  | nil => cases answer
  | append_singleton packets last inductionHypothesis =>
      rw [PendingTable.slotAfter, List.foldl_append, List.foldl_cons, List.foldl_nil,
        DhcpPacket.hand] at answer
      by_cases reply : last.op = 2 ∧ last.id = id
      · rw [if_pos reply] at answer
        cases answer
        exact ⟨List.mem_append_right _ (List.mem_singleton_self _), reply⟩
      · rw [if_neg reply] at answer
        obtain ⟨member, reply⟩ := inductionHypothesis answer
        exact ⟨List.mem_append_left _ member, reply⟩

/-! ## A section -/

variable {before after : DhcpClient Call} {call : Call} {id : UInt32} {since : ℕ}

omit [DecidableEq Call] in
@[simp]
theorem pending_judge (client : DhcpClient Call) (expected : UInt8) (packet : DhcpPacket) :
    (client.judge expected packet).2.pending = client.pending := by
  rw [judge]
  cases packet.messageType with
  | none => rfl
  | some type =>
      dsimp only
      by_cases nak : type = 6
      · rw [if_pos nak]
      · rw [if_neg nak]
        by_cases other : type ≠ expected
        · rw [if_pos other]
        · rw [if_neg other]

omit [DecidableEq Call] in
/-- An answer is given only when it is of the type that is expected. -/
theorem judge_answer {client : DhcpClient Call} {expected : UInt8} {packet given : DhcpPacket}
    (judged : (client.judge expected packet).1 = .answer given) :
    given = packet ∧ packet.messageType = some expected := by
  rw [judge] at judged
  cases known : packet.messageType with
  | none =>
      rw [known] at judged
      cases judged
  | some type =>
      rw [known] at judged
      dsimp only at judged
      by_cases nak : type = 6
      · rw [if_pos nak] at judged
        cases judged
      · rw [if_neg nak] at judged
        by_cases other : type ≠ expected
        · rw [if_pos other] at judged
          cases judged
        · rw [if_neg other] at judged
          cases judged
          exact ⟨rfl, congrArg some (not_not.mp other)⟩

/-- A look at its entry is a turn of a call that has one. -/
theorem turn_look (own : before.pending.held call = some (id, since))
    (answer : Option DhcpPacket) (expired : Bool) :
    PendingTable.Turn DhcpPacket.hand none before.pending (some call)
      (before.look call id answer expired).1.pending (before.look call id answer expired).2 := by
  cases answer with
  | some packet =>
      have same : (before.look call id (some packet) expired).1.pending =
          before.pending.remove call id := pending_judge _ _ _
      rw [same]
      exact .leave _ own
  | none =>
      cases expired with
      | true => exact .leave _ own
      | false => exact .stay call

/-- The beginning of an exchange is a turn of a call that has no entry. -/
theorem turn_begin (free : before.pending.held call = none) (id : UInt32) (expected : UInt8)
    (transmitted : Bool) :
    PendingTable.Turn DhcpPacket.hand none before.pending (some call)
      (before.begin call id expected transmitted).1.pending
      (before.begin call id expected transmitted).2 := by
  rw [begin]
  cases absent : before.pending.entries id with
  | some answer => exact .refuse _ free
  | none =>
      cases transmitted with
      | true => exact .make free absent
      | false =>
          have same : (before.pending.insert none call id).remove call id = before.pending :=
            PendingTable.remove_insert absent free
          have turn : PendingTable.Turn DhcpPacket.hand none before.pending (some call)
              ((before.pending.insert none call id).remove call id)
              (some (call, DhcpResult.notSent)) := by
            rw [same]
            exact .refuse _ free
          exact turn

/-- Every section is a turn. -/
theorem turn_perform {action : DhcpAction Call} {outcome : Option (Call × DhcpResult)}
    (happens : before.perform action = some (after, outcome)) :
    PendingTable.Turn DhcpPacket.hand none before.pending action.caller after.pending outcome := by
  cases action with
  | exchange call id expected transmitted =>
      rw [perform] at happens
      by_cases free : before.pending.held call = none
      · have turn := turn_begin free id expected transmitted
        rw [if_pos free] at happens
        rwa [Option.some.inj happens] at turn
      · rw [if_neg free] at happens
        cases happens
  | wake call expired =>
      obtain ⟨entry, own, same⟩ := Option.map_eq_some_iff.mp happens
      obtain ⟨since, held, -⟩ := PendingTable.exists_of_own own
      have turn := turn_look held entry.2 expired
      rwa [same] at turn
  | receive packet =>
      cases happens
      exact .arrive packet

/-- A call returns a packet only when that stands in its entry and is of the type it expects. -/
theorem entry_of_answer {action : DhcpAction Call} {packet : DhcpPacket}
    (happens : before.perform action = some (after, some (call, .answer packet))) :
    ∃ entry, before.pending.own call = some entry ∧ entry.2 = some packet ∧
      packet.messageType = some (before.expected call) := by
  cases action with
  | exchange someone id expected transmitted =>
      rw [perform] at happens
      by_cases free : before.pending.held someone = none
      · rw [if_pos free] at happens
        have began := Option.some.inj happens
        rw [begin] at began
        cases absent : before.pending.entries id with
        | some answer =>
            rw [absent] at began
            cases began
        | none =>
            rw [absent] at began
            cases transmitted with
            | true => cases began
            | false => cases began
      · rw [if_neg free] at happens
        cases happens
  | wake someone expired =>
      obtain ⟨⟨id, answer⟩, own, same⟩ := Option.map_eq_some_iff.mp happens
      cases answer with
      | none =>
          cases expired with
          | true => cases same
          | false => cases same
      | some given =>
          obtain ⟨rfl, judged⟩ := Prod.mk.inj (Option.some.inj (congrArg Prod.snd same))
          obtain ⟨rfl, known⟩ := judge_answer judged
          exact ⟨_, own, rfl, known⟩
  | receive given => cases happens

/-! ## Runs -/

theorem perform_of_act {action : DhcpAction Call} (happens : before.act action = some after) :
    ∃ outcome, before.perform action = some (after, outcome) ∧
      before.returned action = outcome := by
  obtain ⟨⟨client, outcome⟩, performed, rfl⟩ := Option.map_eq_some_iff.mp happens
  refine ⟨outcome, performed, ?_⟩
  rw [returned, performed]
  rfl

theorem Sound.act (sound : before.Sound) {action : DhcpAction Call}
    (happens : before.act action = some after) : after.Sound := by
  obtain ⟨outcome, performed, -⟩ := perform_of_act happens
  exact (turn_perform performed).kept sound

omit [DecidableEq Call] in
theorem sound_start : (start : DhcpClient Call).Sound := PendingTable.kept_empty

/-- A section in a sound state is right. -/
theorem Sound.correct (sound : before.Sound) {action : DhcpAction Call}
    (happens : before.act action = some after) : Correct before action after := by
  obtain ⟨outcome, performed, returns⟩ := perform_of_act happens
  have turn := turn_perform performed
  constructor
  · intro call packet answer
    rw [returns] at answer
    rw [answer] at performed
    obtain ⟨entry, own, given, known⟩ := entry_of_answer performed
    obtain ⟨since, held, -⟩ := PendingTable.exists_of_own own
    have slot := own.symm.trans (sound.own_eq held)
    rw [congrArg Prod.snd (Option.some.inj slot)] at given
    obtain ⟨member, reply, same⟩ := exists_reply given
    exact ⟨entry.1, since, held, member, reply, same, known⟩
  · intro call result returned
    exact turn.gone (returns.symm.trans returned)
  · intro call caller
    rw [caller] at turn
    exact turn.others sound

/-- Every section of a run is right. -/
theorem correct_of_trace {actions : List (DhcpAction Call)} {action : DhcpAction Call}
    (run : Trace act start actions before) (happens : before.act action = some after) :
    Correct before action after := by
  have sound : before.Sound :=
    run.invariant Sound (fun _ _ _ sound => Sound.act sound) sound_start
  exact sound.correct happens

end DhcpClient

/-! ## Both -/

/-- In every run of requests to the kernel, and in every run of exchanges with a server, every
section is right: a call succeeds only with an answer that is its own and arrived while its entry
was there, leaves no entry behind, and does not touch the entries of other calls. -/
theorem requests_answered {Call : Type} [DecidableEq Call] :
    (∀ (actions : List (NetlinkAction Call)) (action : NetlinkAction Call)
      (before after : NetlinkManager Call),
      Trace NetlinkManager.act NetlinkManager.start actions before →
        before.act action = some after → NetlinkManager.Correct before action after) ∧
    (∀ (actions : List (DhcpAction Call)) (action : DhcpAction Call)
      (before after : DhcpClient Call),
      Trace DhcpClient.act DhcpClient.start actions before →
        before.act action = some after → DhcpClient.Correct before action after) := by
  constructor
  · intro actions action before after run happens
    exact NetlinkManager.correct_of_trace run happens
  · intro actions action before after run happens
    exact DhcpClient.correct_of_trace run happens

end Join
