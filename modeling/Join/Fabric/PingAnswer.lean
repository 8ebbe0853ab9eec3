import Mathlib.Data.Int.Basic
import Mathlib.Data.List.Induction
import Mathlib.Tactic.Push
import Join.Core.ErrorCode
import Join.Core.Ipv6Text
import Join.Library.PendingTable

/-!
# Answers to an echo request

A pending request has room for one answer, and two handlers fill it. An echo reply sets the
address, the time to live, the size and the round trip time; an ICMP error sets the address, the
round trip time, the MTU, the flag of a message that expired, the text and the code. Neither
clears what the other has set.

So the answer to a request is what one message would have made of a fresh request exactly when
the messages that arrived are all replies or all errors. Of both kinds, what is in the answer is
the size of a reply together with the code of an error.
-/

set_option autoImplicit false

namespace Join

open Library

/-! ## Messages -/

/-- `PingAnswer`, with the round trip time in microseconds. -/
structure PingAnswer where
  fromAddress : IpAddress := .default
  rtt : ℤ := 0
  ttl : ℤ := 0
  size : ℤ := 0
  mtu : UInt32 := 0
  expired : Bool := false
  error : List UInt8 := []
  code : ErrorCode := .success
deriving DecidableEq

/-- The size of an ICMP header. -/
def icmpHeaderSize : ℤ := 8

/-- What `onReadable` takes from an echo reply that it does not pass over: a message is at least
as long as its header. -/
structure EchoReply where
  sequence : UInt16
  fromAddress : IpAddress
  ttl : ℤ
  size : ℤ
  rtt : ℤ
  header_le : icmpHeaderSize ≤ size

/-- What `onError` takes from an error for an echo request, with the time at which it is read, in
nanoseconds. -/
structure IcmpError where
  sequence : UInt16
  inet6 : Bool
  type : UInt8
  code : UInt8
  info : UInt32
  offender : IpAddress
  now : ℤ

namespace Ping

/-- `Ping::message` for an unreachable destination, IPv6. -/
def unreachable6 (code : UInt8) : List UInt8 :=
  match code with
  | 0 => ascii "destination unreachable: no route"
  | 1 => ascii "destination unreachable: administratively prohibited"
  | 2 => ascii "destination unreachable: beyond scope of source address"
  | 3 => ascii "destination unreachable: address unreachable"
  | 4 => ascii "destination unreachable: port unreachable"
  | _ => ascii "destination unreachable"

/-- `Ping::message` for an unreachable destination, IPv4. -/
def unreachable4 (code : UInt8) : List UInt8 :=
  match code with
  | 0 => ascii "destination net unreachable"
  | 1 => ascii "destination host unreachable"
  | 2 => ascii "destination protocol unreachable"
  | 3 => ascii "destination port unreachable"
  | 4 => ascii "fragmentation needed and don't fragment set"
  | 5 => ascii "source route failed"
  | 6 => ascii "destination net unknown"
  | 7 => ascii "destination host unknown"
  | 8 => ascii "source host isolated"
  | 9 => ascii "destination net prohibited"
  | 10 => ascii "destination host prohibited"
  | 11 => ascii "destination net unreachable for type of service"
  | 12 => ascii "destination host unreachable for type of service"
  | 13 => ascii "packet filtered"
  | 14 => ascii "precedence violation"
  | 15 => ascii "precedence cutoff"
  | _ => ascii "destination unreachable"

/-- `Ping::message` for IPv6. -/
def message6 (type code : UInt8) : List UInt8 :=
  match type with
  | 1 => unreachable6 code
  | 2 => ascii "packet too big"
  | 3 =>
      match code with
      | 0 => ascii "time exceeded: hop limit"
      | 1 => ascii "time exceeded: defragmentation failure"
      | _ => ascii "time exceeded"
  | 4 =>
      match code with
      | 0 => ascii "parameter problem: wrong header field"
      | 1 => ascii "parameter problem: unknown header"
      | 2 => ascii "parameter problem: unknown option"
      | _ => ascii "parameter problem"
  | _ => ascii "unknown error"

/-- `Ping::message` for IPv4. -/
def message4 (type code : UInt8) : List UInt8 :=
  match type with
  | 3 => unreachable4 code
  | 5 => ascii "redirect"
  | 11 =>
      match code with
      | 0 => ascii "time to live exceeded"
      | 1 => ascii "fragment reassembly time exceeded"
      | _ => ascii "time exceeded"
  | 12 => ascii "parameter problem"
  | _ => ascii "unknown error"

/-- `Ping::message`. -/
def message (inet6 : Bool) (type code : UInt8) : List UInt8 :=
  if inet6 then message6 type code else message4 type code

end Ping

namespace IcmpError

/-- A message whose time to live was over. -/
def expired (error : IcmpError) : Bool :=
  if error.inet6 then error.type == 3 else error.type == 11

/-- A packet that is larger than the next link takes. -/
def tooBig (error : IcmpError) : Bool :=
  if error.inet6 then error.type == 2 else error.type == 3 && error.code == 4

/-- The MTU that an error reports. -/
def mtu (error : IcmpError) : UInt32 := if error.tooBig then error.info else 0

/-- The text of an error. -/
def text (network : Network) (error : IcmpError) : List UInt8 :=
  ascii "from " ++ error.offender.toString network ++ ascii " icmp_seq=" ++
    toDecimal error.sequence.toNat ++ ascii " " ++
      Ping.message error.inet6 error.type error.code ++
        if error.tooBig then ascii " mtu=" ++ toDecimal error.mtu.toNat else []

/-- The code of an error. -/
def errorCode (error : IcmpError) : ErrorCode :=
  if error.tooBig then .libjoin .messageTooLong
  else if error.expired then .libjoin .timedOut
  else .libjoin .connectionRefused

theorem isError_errorCode (error : IcmpError) : error.errorCode.isError = true := by
  rw [errorCode]
  split
  · rfl
  · split
    · rfl
    · rfl

end IcmpError

/-! ## Handlers -/

/-- `PendingRequest`, with the time in nanoseconds. -/
structure PingRequest where
  sent : ℤ := 0
  answer : PingAnswer := {}
  answered : Bool := false
deriving DecidableEq

namespace PingRequest

/-- What `onReadable` does to the request that a reply is for. -/
def onReadable (request : PingRequest) (reply : EchoReply) : PingRequest :=
  { request with
    answer := { request.answer with
      fromAddress := reply.fromAddress
      ttl := reply.ttl
      size := reply.size
      rtt := reply.rtt }
    answered := true }

/-- What `onError` does to the request that an error is for. -/
def onError (network : Network) (request : PingRequest) (error : IcmpError) : PingRequest :=
  { request with
    answer := { request.answer with
      fromAddress := error.offender
      rtt := (error.now - request.sent).tdiv 1000
      mtu := error.mtu
      expired := error.expired
      error := error.text network
      code := error.errorCode }
    answered := true }

end PingRequest

/-- What happens to the pending requests while a call waits: a call is about to write its
request, a reply has arrived, or an error has. -/
inductive PingEvent
  | sent (sequence : UInt16) (time : ℤ)
  | reply (reply : EchoReply)
  | error (error : IcmpError)

namespace PingEvent

/-- A reply to a request. -/
def isReply (sequence : UInt16) : PingEvent → Bool
  | .reply message => message.sequence == sequence
  | _ => false

/-- An error for a request. -/
def isError (sequence : UInt16) : PingEvent → Bool
  | .error message => message.sequence == sequence
  | _ => false

/-- A message for a request. -/
def answers (sequence : UInt16) (event : PingEvent) : Bool :=
  event.isReply sequence || event.isError sequence

variable (network : Network)

/-- What an event does to a pending request. -/
def apply (sequence : UInt16) (event : PingEvent) (request : PingRequest) : PingRequest :=
  match event with
  | .sent place time => if place = sequence then { request with sent := time } else request
  | .reply message =>
      if message.sequence = sequence then request.onReadable message else request
  | .error message =>
      if message.sequence = sequence then request.onError network message else request

/-- The answer of a fresh request that was sent at a time, after one message. -/
def alone (sequence : UInt16) (time : ℤ) (message : PingEvent) : PingAnswer :=
  (message.apply network sequence { sent := time }).answer

/-! ## Requests after some events -/

variable {network} {sequence : UInt16} {event : PingEvent} {request : PingRequest}

/-- What events make of a fresh request. -/
abbrev requestAfter (network : Network) (sequence : UInt16) (events : List PingEvent) :
    PingRequest :=
  PendingTable.slotAfter (apply network) {} sequence events

theorem requestAfter_snoc (events : List PingEvent) :
    requestAfter network sequence (events ++ [event]) =
      event.apply network sequence (requestAfter network sequence events) :=
  List.foldl_concat ..

/-- A reply leaves what only errors set. -/
theorem apply_of_not_isError (other : event.isError sequence = false) :
    (event.apply network sequence request).answer.mtu = request.answer.mtu ∧
      (event.apply network sequence request).answer.expired = request.answer.expired ∧
      (event.apply network sequence request).answer.error = request.answer.error ∧
      (event.apply network sequence request).answer.code = request.answer.code := by
  cases event with
  | sent place time =>
      rw [apply]
      split
      · exact ⟨rfl, rfl, rfl, rfl⟩
      · exact ⟨rfl, rfl, rfl, rfl⟩
  | reply message =>
      rw [apply]
      split
      · exact ⟨rfl, rfl, rfl, rfl⟩
      · exact ⟨rfl, rfl, rfl, rfl⟩
  | error message =>
      rw [apply, if_neg (by simpa [isError] using other)]
      exact ⟨rfl, rfl, rfl, rfl⟩

/-- An error leaves what only replies set. -/
theorem apply_of_not_isReply (other : event.isReply sequence = false) :
    (event.apply network sequence request).answer.ttl = request.answer.ttl ∧
      (event.apply network sequence request).answer.size = request.answer.size := by
  cases event with
  | sent place time =>
      rw [apply]
      split
      · exact ⟨rfl, rfl⟩
      · exact ⟨rfl, rfl⟩
  | reply message =>
      rw [apply, if_neg (by simpa [isReply] using other)]
      exact ⟨rfl, rfl⟩
  | error message =>
      rw [apply]
      split
      · exact ⟨rfl, rfl⟩
      · exact ⟨rfl, rfl⟩

/-- What is no message for a request leaves its answer. -/
theorem apply_of_not_answers (other : event.answers sequence = false) :
    (event.apply network sequence request).answer = request.answer ∧
      (event.apply network sequence request).answered = request.answered := by
  cases event with
  | sent place time =>
      rw [apply]
      split
      · exact ⟨rfl, rfl⟩
      · exact ⟨rfl, rfl⟩
  | reply message =>
      rw [apply, if_neg (by simpa [answers, isReply, isError] using other)]
      exact ⟨rfl, rfl⟩
  | error message =>
      rw [apply, if_neg (by simpa [answers, isReply, isError] using other)]
      exact ⟨rfl, rfl⟩

/-- A reply leaves a size that a reply has. -/
theorem size_apply_of_isReply (reply : event.isReply sequence = true) :
    icmpHeaderSize ≤ (event.apply network sequence request).answer.size := by
  cases event with
  | sent place time => cases reply
  | reply message =>
      rw [apply, if_pos (by simpa [isReply] using reply)]
      exact message.header_le
  | error message => cases reply

/-- An error leaves a code. -/
theorem code_apply_of_isError (error : event.isError sequence = true) :
    (event.apply network sequence request).answer.code.isError = true := by
  cases event with
  | sent place time => cases error
  | reply message => cases error
  | error message =>
      rw [apply, if_pos (by simpa [isError] using error)]
      exact message.isError_errorCode

/-- A message is not both a reply and an error. -/
theorem isError_of_isReply (reply : event.isReply sequence = true) :
    event.isError sequence = false := by
  cases event with
  | sent place time => rfl
  | reply message => rfl
  | error message => cases reply

/-- Without errors nothing is set that only errors set. -/
theorem requestAfter_of_no_error {events : List PingEvent}
    (none : ∀ event ∈ events, event.isError sequence = false) :
    (requestAfter network sequence events).answer.mtu = 0 ∧
      (requestAfter network sequence events).answer.expired = false ∧
      (requestAfter network sequence events).answer.error = [] ∧
      (requestAfter network sequence events).answer.code = .success := by
  induction events using List.reverseRecOn with
  | nil => exact ⟨rfl, rfl, rfl, rfl⟩
  | append_singleton events event inductionHypothesis =>
      have last : event.isError sequence = false := none event (by simp)
      have before := inductionHypothesis fun event member => none event (by simp [member])
      obtain ⟨mtu, expired, error, code⟩ := @apply_of_not_isError network sequence event
        (requestAfter network sequence events) last
      rw [requestAfter_snoc, mtu, expired, error, code]
      exact before

/-- Without replies nothing is set that only replies set. -/
theorem requestAfter_of_no_reply {events : List PingEvent}
    (none : ∀ event ∈ events, event.isReply sequence = false) :
    (requestAfter network sequence events).answer.ttl = 0 ∧
      (requestAfter network sequence events).answer.size = 0 := by
  induction events using List.reverseRecOn with
  | nil => exact ⟨rfl, rfl⟩
  | append_singleton events event inductionHypothesis =>
      have last : event.isReply sequence = false := none event (by simp)
      have before := inductionHypothesis fun event member => none event (by simp [member])
      obtain ⟨ttl, size⟩ := @apply_of_not_isReply network sequence event
        (requestAfter network sequence events) last
      rw [requestAfter_snoc, ttl, size]
      exact before

/-- After a reply the size is the size of a reply. -/
theorem size_requestAfter {events : List PingEvent}
    (some : ∃ event ∈ events, event.isReply sequence = true) :
    icmpHeaderSize ≤ (requestAfter network sequence events).answer.size := by
  induction events using List.reverseRecOn with
  | nil =>
      obtain ⟨event, member, -⟩ := some
      cases member
  | append_singleton events event inductionHypothesis =>
      rw [requestAfter_snoc]
      cases last : event.isReply sequence with
      | true => exact size_apply_of_isReply last
      | false =>
          rw [(apply_of_not_isReply last).2]
          apply inductionHypothesis
          obtain ⟨reply, member, holds⟩ := some
          rcases List.mem_append.mp member with earlier | same
          · exact ⟨reply, earlier, holds⟩
          · rw [List.mem_singleton.mp same, last] at holds
            cases holds

/-- After an error there is a code. -/
theorem code_requestAfter {events : List PingEvent}
    (some : ∃ event ∈ events, event.isError sequence = true) :
    (requestAfter network sequence events).answer.code.isError = true := by
  induction events using List.reverseRecOn with
  | nil =>
      obtain ⟨event, member, -⟩ := some
      cases member
  | append_singleton events event inductionHypothesis =>
      rw [requestAfter_snoc]
      cases last : event.isError sequence with
      | true => exact code_apply_of_isError last
      | false =>
          rw [(apply_of_not_isError last).2.2.2]
          apply inductionHypothesis
          obtain ⟨error, member, holds⟩ := some
          rcases List.mem_append.mp member with earlier | same
          · exact ⟨error, earlier, holds⟩
          · rw [List.mem_singleton.mp same, last] at holds
            cases holds

theorem answered_apply_of_answers (message : event.answers sequence = true) :
    (event.apply network sequence request).answered = true := by
  cases event with
  | sent place time => cases message
  | reply reply =>
      rw [apply, if_pos (by simpa [answers, isReply, isError] using message)]
      rfl
  | error error =>
      rw [apply, if_pos (by simpa [answers, isReply, isError] using message)]
      rfl

/-- A request is answered when a message has arrived. -/
theorem answered_requestAfter (network : Network) (sequence : UInt16) (events : List PingEvent) :
    (requestAfter network sequence events).answered = events.any (answers sequence) := by
  induction events using List.reverseRecOn with
  | nil => rfl
  | append_singleton events event inductionHypothesis =>
      rw [requestAfter_snoc, List.any_append, List.any_cons, List.any_nil, Bool.or_false]
      cases last : event.answers sequence with
      | true => rw [answered_apply_of_answers last, Bool.or_true]
      | false => rw [(apply_of_not_answers last).2, inductionHypothesis, Bool.or_false]

/-- A request that is answered has a last message. -/
theorem exists_last {events : List PingEvent}
    (answered : (requestAfter network sequence events).answered = true) :
    ∃ earlier message later, events = earlier ++ message :: later ∧
      message.answers sequence = true ∧
        (requestAfter network sequence events).answer =
          (message.apply network sequence (requestAfter network sequence earlier)).answer := by
  induction events using List.reverseRecOn with
  | nil => cases answered
  | append_singleton events event inductionHypothesis =>
      rw [requestAfter_snoc] at answered ⊢
      cases last : event.answers sequence with
      | true => exact ⟨events, event, [], rfl, last, rfl⟩
      | false =>
          obtain ⟨answer, same⟩ := @apply_of_not_answers network sequence event
            (requestAfter network sequence events) last
          rw [same] at answered
          obtain ⟨earlier, message, later, split, holds, made⟩ := inductionHypothesis answered
          refine ⟨earlier, message, later ++ [event], ?_, holds, answer.trans made⟩
          rw [split, List.append_assoc, List.cons_append]

/-! ## Answers that come from one message -/

/-- An answer is what one of the messages that arrived would have made of a fresh request. -/
def FromOne (network : Network) (sequence : UInt16) (events : List PingEvent)
    (answer : PingAnswer) : Prop :=
  ∃ earlier message later, events = earlier ++ message :: later ∧
    message.answers sequence = true ∧
      answer = message.alone network sequence (requestAfter network sequence earlier).sent

/-- The messages that arrived for a request are not of both kinds. -/
def OneKind (sequence : UInt16) (events : List PingEvent) : Prop :=
  (∀ event ∈ events, event.isError sequence = false) ∨
    ∀ event ∈ events, event.isReply sequence = false

/-- A reply that comes after replies only makes what it makes alone. -/
theorem apply_reply {earlier : List PingEvent} {message : PingEvent}
    (none : ∀ event ∈ earlier, event.isError sequence = false)
    (reply : message.isReply sequence = true) :
    (message.apply network sequence (requestAfter network sequence earlier)).answer =
      message.alone network sequence (requestAfter network sequence earlier).sent := by
  obtain ⟨mtu, expired, error, code⟩ := @requestAfter_of_no_error network sequence earlier none
  cases message with
  | sent place time => cases reply
  | reply message =>
      have same : message.sequence = sequence := by simpa [isReply] using reply
      rw [alone, apply, apply, if_pos same, if_pos same, PingRequest.onReadable,
        PingRequest.onReadable]
      dsimp only
      rw [mtu, expired, error, code]
  | error message => cases reply

/-- An error that comes after errors only makes what it makes alone. -/
theorem apply_error {earlier : List PingEvent} {message : PingEvent}
    (none : ∀ event ∈ earlier, event.isReply sequence = false)
    (error : message.isError sequence = true) :
    (message.apply network sequence (requestAfter network sequence earlier)).answer =
      message.alone network sequence (requestAfter network sequence earlier).sent := by
  obtain ⟨ttl, size⟩ := @requestAfter_of_no_reply network sequence earlier none
  cases message with
  | sent place time => cases error
  | reply message => cases error
  | error message =>
      have same : message.sequence = sequence := by simpa [isError] using error
      rw [alone, apply, apply, if_pos same, if_pos same, PingRequest.onError,
        PingRequest.onError]
      dsimp only
      rw [ttl, size]

/-- What one message makes alone is not both the size of a reply and the code of an error. -/
theorem alone_size_or_code (network : Network) (sequence : UInt16) (time : ℤ)
    (message : PingEvent) :
    (message.alone network sequence time).size = 0 ∨
      (message.alone network sequence time).code = .success := by
  cases kind : message.isReply sequence with
  | true => exact Or.inr (apply_of_not_isError (isError_of_isReply kind)).2.2.2
  | false => exact Or.inl (apply_of_not_isReply kind).2

/-- The answer of a request comes from one message exactly when the messages are of one kind. -/
theorem fromOne_iff {events : List PingEvent}
    (answered : (requestAfter network sequence events).answered = true) :
    FromOne network sequence events (requestAfter network sequence events).answer ↔
      OneKind sequence events := by
  constructor
  · rintro ⟨earlier, message, later, -, -, same⟩
    by_contra mixed
    rw [OneKind, not_or] at mixed
    push Not at mixed
    obtain ⟨⟨error, errorMember, isError⟩, reply, replyMember, isReply⟩ := mixed
    have size := @size_requestAfter network sequence events
      ⟨reply, replyMember, Bool.eq_true_of_not_eq_false isReply⟩
    have code := @code_requestAfter network sequence events
      ⟨error, errorMember, Bool.eq_true_of_not_eq_false isError⟩
    rw [same] at size code
    rcases alone_size_or_code network sequence _ message with zero | success
    · rw [zero] at size
      exact absurd size (by decide)
    · rw [success] at code
      cases code
  · intro oneKind
    obtain ⟨earlier, message, later, split, holds, made⟩ := exists_last answered
    have member : message ∈ events := by simp [split]
    have before {event : PingEvent} (earlierMember : event ∈ earlier) : event ∈ events := by
      simp [split, earlierMember]
    refine ⟨earlier, message, later, split, holds, made.trans ?_⟩
    rcases Bool.or_eq_true _ _ ▸ holds with reply | error
    · rcases oneKind with noError | noReply
      · exact apply_reply (fun event earlier => noError event (before earlier)) reply
      · rw [noReply message member] at reply
        cases reply
    · rcases oneKind with noError | noReply
      · rw [noError message member] at error
        cases error
      · exact apply_error (fun event earlier => noReply event (before earlier)) error

end PingEvent

end Join
