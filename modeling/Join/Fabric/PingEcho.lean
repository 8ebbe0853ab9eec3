import Join.Fabric.PingAnswer
import Join.Library.Trace

/-!
# Echo requests

`echo` takes the next sequence number, makes an entry for it, writes its request, a second time
when there was no room for it the first time, and waits until its entry is answered or the time
is over. Every section is under the mutex that `onReadable` and `onError` take too, and the wait
looks at the entry when it is woken.

The entry of a call is gone when the call returns, whatever it returns. The answer that it
returns comes from one message exactly when the messages for its sequence number that arrived
since the entry was made are all replies or all errors.
-/

set_option autoImplicit false

namespace Join

open Library

/-! ## Results -/

/-- How an echo ends: before it has a sequence number, because the one that it got is in use,
because its request is not written, because the time is over, or with an answer. -/
inductive EchoResult
  | unprepared (error : ErrorCode)
  | noSequence
  | notWritten (error : ErrorCode) (mtu : UInt32)
  | timedOut
  | answered (answer : PingAnswer)
deriving DecidableEq

namespace EchoResult

/-- What `fail` puts into the statistics. -/
def failed (error : ErrorCode) (text : List UInt8) : PingAnswer := { code := error, error := text }

/-- The answer in the statistics. -/
def answer (strerror : ℕ → List UInt8) : EchoResult → PingAnswer
  | unprepared error =>
      failed error (ascii "ping: set time to live: " ++ error.message strerror)
  | noSequence => failed (.libjoin .inUse) (ascii "ping: no sequence number available")
  | notWritten error mtu =>
      { failed error (ascii "ping: write: " ++ error.message strerror ++
          if mtu = 0 then [] else ascii " mtu=" ++ toDecimal mtu.toNat) with mtu := mtu }
  | timedOut => failed (.libjoin .timedOut) (ascii "ping: timed out")
  | answered answer => answer

/-- Whether the request was written: whether the number of requests went up. -/
def sent : EchoResult → Bool
  | timedOut => true
  | answered _ => true
  | _ => false

/-- Whether `echo` returns zero. -/
def replied : EchoResult → Bool
  | answered answer => !answer.code.isError
  | _ => false

end EchoResult

/-! ## Sections -/

/-- What becomes of a request: it is written, or not, with what the socket then has for the MTU
of the route. -/
inductive WriteOutcome
  | written
  | failed (error : ErrorCode) (route : Int32)

/-- Where a call is: before its first or its second attempt to write, or in its wait. -/
inductive EchoStage
  | first
  | second
  | waiting
deriving DecidableEq

/-- The state that the calls share, and where each of them is. -/
structure EchoCalls (Call : Type) where
  sequence : UInt16
  stage : Call → EchoStage
  pending : PendingTable Call UInt16 PingRequest PingEvent

/-- The sections: a call begins, unless the time to live of its socket cannot be set; it tries to
write its request; its wait is woken, with or without the time being over; and a reply or an
error has been read. -/
inductive EchoAction (Call : Type)
  | echo (call : Call) (unset : Option ErrorCode)
  | write (call : Call) (now : ℤ) (outcome : WriteOutcome)
  | wake (call : Call) (expired : Bool)
  | onReadable (reply : EchoReply)
  | onError (error : IcmpError)

namespace EchoCalls

variable {Call : Type} [DecidableEq Call]

/-- Nobody has called. -/
def start : EchoCalls Call := ⟨0, fun _ => .first, .empty⟩

/-- The sequence number and the entry of a call. -/
def begin (calls : EchoCalls Call) (call : Call) : EchoCalls Call × Option (Call × EchoResult) :=
  let sequence := calls.sequence + 1
  match calls.pending.entries sequence with
  | some _ => ({ calls with sequence := sequence }, some (call, .noSequence))
  | none =>
      ({ sequence := sequence
         stage := Function.update calls.stage call .first
         pending := calls.pending.insert {} call sequence }, none)

/-- The MTU that is reported for a request that is not written. -/
def routeMtu (error : ErrorCode) (route : Int32) : UInt32 :=
  if error = .messageSize ∧ 0 < route then route.toUInt32 else 0

/-- The beginning of a call. -/
def echo (calls : EchoCalls Call) (call : Call) (unset : Option ErrorCode) :
    EchoCalls Call × Option (Call × EchoResult) :=
  match unset with
  | some error => (calls, some (call, .unprepared error))
  | none => calls.begin call

variable (network : Network)

/-- An attempt to write the request of a call. -/
def write (calls : EchoCalls Call) (call : Call) (sequence : UInt16) (now : ℤ)
    (outcome : WriteOutcome) : EchoCalls Call × Option (Call × EchoResult) :=
  let stamped := calls.pending.deliver (PingEvent.apply network) (.sent sequence now)
  match outcome with
  | .written =>
      ({ calls with stage := Function.update calls.stage call .waiting, pending := stamped }, none)
  | .failed error route =>
      if error = .noBufferSpace ∧ calls.stage call = .first then
        ({ calls with stage := Function.update calls.stage call .second, pending := stamped }, none)
      else
        ({ calls with pending := stamped.remove call sequence },
          some (call, .notWritten error (routeMtu error route)))

omit network in
/-- A call in its wait is woken. -/
def wake (calls : EchoCalls Call) (call : Call) (sequence : UInt16) (request : PingRequest)
    (expired : Bool) : EchoCalls Call × Option (Call × EchoResult) :=
  let left : EchoCalls Call := { calls with pending := calls.pending.remove call sequence }
  if request.answered then (left, some (call, .answered request.answer))
  else if expired then (left, some (call, .timedOut))
  else (calls, none)

/-- A section, and what a call returns at its end. -/
def perform (calls : EchoCalls Call) :
    EchoAction Call → Option (EchoCalls Call × Option (Call × EchoResult))
  | .echo call unset =>
      if calls.pending.held call = none then some (calls.echo call unset) else none
  | .write call now outcome =>
      if calls.stage call ≠ .waiting then
        (calls.pending.own call).map fun entry => calls.write network call entry.1 now outcome
      else none
  | .wake call expired =>
      if calls.stage call = .waiting then
        (calls.pending.own call).map fun entry => calls.wake call entry.1 entry.2 expired
      else none
  | .onReadable reply =>
      some ({ calls with
        pending := calls.pending.deliver (PingEvent.apply network) (.reply reply) }, none)
  | .onError error =>
      some ({ calls with
        pending := calls.pending.deliver (PingEvent.apply network) (.error error) }, none)

/-- The state after a section. -/
def act (calls : EchoCalls Call) (action : EchoAction Call) : Option (EchoCalls Call) :=
  (calls.perform network action).map Prod.fst

/-- What a call returns at the end of a section. -/
def returned (calls : EchoCalls Call) (action : EchoAction Call) : Option (Call × EchoResult) :=
  (calls.perform network action).bind Prod.snd

/-! ## What is right about a section -/

/-- An answer that a call returns comes from one of the messages that arrived since its entry was
made, and a call that returns has no entry any more. -/
structure Correct (before : EchoCalls Call) (action : EchoAction Call)
    (after : EchoCalls Call) : Prop where
  single : ∀ call answer, before.returned network action = some (call, .answered answer) →
    ∃ sequence since, before.pending.held call = some (sequence, since) ∧
      PingEvent.FromOne network sequence (before.pending.events.drop since) answer
  gone : ∀ call result, before.returned network action = some (call, result) →
    after.pending.held call = none ∧ ∀ sequence since,
      before.pending.held call = some (sequence, since) →
        after.pending.entries sequence = none

omit [DecidableEq Call] network in
/-- A call that is woken has got replies only, or errors only. -/
def OneKind (before : EchoCalls Call) : EchoAction Call → Prop
  | .wake call _ => ∀ sequence since, before.pending.held call = some (sequence, since) →
      PingEvent.OneKind sequence (before.pending.events.drop since)
  | _ => True

section

variable {network} {before after : EchoCalls Call} {call : Call}
variable {action : EchoAction Call} {outcome : Option (Call × EchoResult)}

/-! ## Turns -/

/-- A section is a turn, with an event in front of it when a call writes. -/
def Moves (network : Network) (before : EchoCalls Call) (caller : Option Call)
    (after : EchoCalls Call) (outcome : Option (Call × EchoResult)) : Prop :=
  ∃ middle : PendingTable Call UInt16 PingRequest PingEvent,
    (middle = before.pending ∨
      ∃ event, middle = before.pending.deliver (PingEvent.apply network) event) ∧
    PendingTable.Turn (PingEvent.apply network) {} middle caller after.pending outcome

theorem moves_echo (free : before.pending.held call = none) (unset : Option ErrorCode) :
    Moves network before (some call) (before.echo call unset).1 (before.echo call unset).2 := by
  refine ⟨before.pending, Or.inl rfl, ?_⟩
  cases unset with
  | some error => exact .refuse _ free
  | none =>
      rw [echo, begin]
      cases absent : before.pending.entries (before.sequence + 1) with
      | some request => exact .refuse _ free
      | none => exact .make free absent

theorem moves_write {sequence : UInt16} {since : ℕ}
    (own : before.pending.held call = some (sequence, since)) (now : ℤ)
    (attempt : WriteOutcome) :
    Moves network before (some call) (before.write network call sequence now attempt).1
      (before.write network call sequence now attempt).2 := by
  refine ⟨_, Or.inr ⟨.sent sequence now, rfl⟩, ?_⟩
  cases attempt with
  | written => exact .stay call
  | failed error route =>
      rw [write]
      by_cases again : error = .noBufferSpace ∧ before.stage call = .first
      · rw [if_pos again]
        exact .stay call
      · rw [if_neg again]
        exact .leave _ own

theorem moves_wake {sequence : UInt16} {since : ℕ}
    (own : before.pending.held call = some (sequence, since)) (request : PingRequest)
    (expired : Bool) :
    Moves network before (some call) (before.wake call sequence request expired).1
      (before.wake call sequence request expired).2 := by
  refine ⟨before.pending, Or.inl rfl, ?_⟩
  rw [wake]
  cases request.answered with
  | true => exact .leave _ own
  | false =>
      cases expired with
      | true => exact .leave _ own
      | false => exact .stay call

/-- Every section moves. -/
theorem moves_of_perform
    (happens : before.perform network action = some (after, outcome)) :
    ∃ caller, Moves network before caller after outcome := by
  cases action with
  | echo call unset =>
      rw [perform] at happens
      by_cases free : before.pending.held call = none
      · have moves := @moves_echo _ _ network before call free unset
        rw [if_pos free] at happens
        rw [Option.some.inj happens] at moves
        exact ⟨some call, moves⟩
      · rw [if_neg free] at happens
        cases happens
  | write call now attempt =>
      rw [perform] at happens
      by_cases ready : before.stage call ≠ .waiting
      · rw [if_pos ready] at happens
        obtain ⟨entry, own, same⟩ := Option.map_eq_some_iff.mp happens
        obtain ⟨since, held, -⟩ := PendingTable.exists_of_own own
        have moves := @moves_write _ _ network before call entry.1 since held now attempt
        rw [same] at moves
        exact ⟨some call, moves⟩
      · rw [if_neg ready] at happens
        cases happens
  | wake call expired =>
      rw [perform] at happens
      by_cases waits : before.stage call = .waiting
      · rw [if_pos waits] at happens
        obtain ⟨entry, own, same⟩ := Option.map_eq_some_iff.mp happens
        obtain ⟨since, held, -⟩ := PendingTable.exists_of_own own
        have moves := @moves_wake _ _ network before call entry.1 since held entry.2 expired
        rw [same] at moves
        exact ⟨some call, moves⟩
      · rw [if_neg waits] at happens
        cases happens
  | onReadable reply =>
      cases happens
      exact ⟨none, before.pending, Or.inl rfl, .arrive (PingEvent.reply reply)⟩
  | onError error =>
      cases happens
      exact ⟨none, before.pending, Or.inl rfl, .arrive (PingEvent.error error)⟩

/-- Only a call that is woken returns an answer, and it is the one in its entry. -/
theorem request_of_answered {answer : PingAnswer}
    (happens : before.perform network action = some (after, some (call, .answered answer))) :
    ∃ expired entry, action = .wake call expired ∧ before.pending.own call = some entry ∧
      entry.2.answered = true ∧ entry.2.answer = answer := by
  cases action with
  | echo someone unset =>
      rw [perform] at happens
      by_cases free : before.pending.held someone = none
      · rw [if_pos free] at happens
        have began := Option.some.inj happens
        cases unset with
        | some error => cases began
        | none =>
            rw [echo, begin] at began
            cases absent : before.pending.entries (before.sequence + 1) with
            | some request =>
                rw [absent] at began
                cases began
            | none =>
                rw [absent] at began
                cases began
      · rw [if_neg free] at happens
        cases happens
  | write someone now attempt =>
      rw [perform] at happens
      by_cases ready : before.stage someone ≠ .waiting
      · rw [if_pos ready] at happens
        obtain ⟨entry, own, same⟩ := Option.map_eq_some_iff.mp happens
        cases attempt with
        | written => cases same
        | failed error route =>
            rw [write] at same
            by_cases again : error = .noBufferSpace ∧ before.stage someone = .first
            · rw [if_pos again] at same
              cases same
            · rw [if_neg again] at same
              cases same
      · rw [if_neg ready] at happens
        cases happens
  | wake someone expired =>
      rw [perform] at happens
      by_cases waits : before.stage someone = .waiting
      · rw [if_pos waits] at happens
        obtain ⟨entry, own, same⟩ := Option.map_eq_some_iff.mp happens
        rw [wake] at same
        cases answered : entry.2.answered with
        | true =>
            rw [answered] at same
            cases same
            exact ⟨expired, entry, rfl, own, answered, rfl⟩
        | false =>
            rw [answered] at same
            cases expired with
            | true => cases same
            | false => cases same
      · rw [if_neg waits] at happens
        cases happens
  | onReadable reply => cases happens
  | onError error => cases happens

/-! ## Runs -/

/-- The entries are what has happened since they were made. -/
def Sound (network : Network) (calls : EchoCalls Call) : Prop :=
  calls.pending.Kept (PingEvent.apply network) {}

theorem perform_of_act (happens : before.act network action = some after) :
    ∃ outcome, before.perform network action = some (after, outcome) ∧
      before.returned network action = outcome := by
  obtain ⟨⟨calls, outcome⟩, performed, rfl⟩ := Option.map_eq_some_iff.mp happens
  refine ⟨outcome, performed, ?_⟩
  rw [returned, performed]
  rfl

omit [DecidableEq Call] in
theorem sound_start : Sound network (start : EchoCalls Call) := PendingTable.kept_empty

theorem Sound.act (sound : Sound network before)
    (happens : before.act network action = some after) : Sound network after := by
  obtain ⟨outcome, performed, -⟩ := perform_of_act happens
  obtain ⟨caller, middle, begins, turn⟩ := moves_of_perform performed
  apply turn.kept
  rcases begins with rfl | ⟨event, rfl⟩
  · exact sound
  · exact PendingTable.Kept.deliver sound event

/-- A call that returns has no entry any more. -/
theorem gone_of_perform {result : EchoResult}
    (happens : before.perform network action = some (after, some (call, result))) :
    after.pending.held call = none ∧ ∀ sequence since,
      before.pending.held call = some (sequence, since) →
        after.pending.entries sequence = none := by
  obtain ⟨caller, middle, begins, turn⟩ := moves_of_perform happens
  have gone := turn.gone rfl
  rcases begins with rfl | ⟨event, rfl⟩
  · exact gone
  · exact gone

omit [DecidableEq Call] in
/-- The entry of a call. -/
theorem Sound.request_eq (sound : Sound network before) {entry : UInt16 × PingRequest} {since : ℕ}
    (held : before.pending.held call = some (entry.1, since))
    (own : before.pending.own call = some entry) :
    entry.2 = PingEvent.requestAfter network entry.1 (before.pending.events.drop since) :=
  congrArg Prod.snd (Option.some.inj (own.symm.trans (sound.own_eq held)))

/-- A call that is woken when its entry is answered returns the answer. -/
theorem returned_wake {expired : Bool} {entry : UInt16 × PingRequest}
    (happens : before.act network (.wake call expired) = some after)
    (own : before.pending.own call = some entry) (answered : entry.2.answered = true) :
    before.returned network (.wake call expired) = some (call, .answered entry.2.answer) := by
  obtain ⟨outcome, performed, -⟩ := perform_of_act happens
  rw [perform] at performed
  rw [returned, perform]
  by_cases waits : before.stage call = .waiting
  · rw [if_pos waits, own, Option.map_some, Option.bind_some, wake, if_pos answered]
  · rw [if_neg waits] at performed
    cases performed

/-- A call that is right when it is woken has got messages of one kind. -/
theorem Sound.oneKind (sound : Sound network before) {expired : Bool}
    (happens : before.act network (.wake call expired) = some after)
    (correct : Correct network before (.wake call expired) after) :
    before.OneKind (.wake call expired) := by
  intro sequence since held
  have own := sound.own_eq held
  cases answered : (PingEvent.requestAfter network sequence
      (before.pending.events.drop since)).answered with
  | true =>
      obtain ⟨sequence', since', held', fromOne⟩ :=
        correct.single call _ (returned_wake happens own answered)
      rw [held] at held'
      cases held'
      exact (PingEvent.fromOne_iff answered).mp fromOne
  | false =>
      rw [PingEvent.answered_requestAfter] at answered
      refine Or.inl fun event member => ?_
      have silent := List.any_eq_false.mp answered event member
      rw [PingEvent.answers, Bool.or_eq_true, not_or] at silent
      exact Bool.eq_false_of_not_eq_true silent.2

/-- A section in a sound state is right exactly when a call that it wakes has got messages of
one kind. -/
theorem Sound.correct_iff (sound : Sound network before)
    (happens : before.act network action = some after) :
    Correct network before action after ↔ before.OneKind action := by
  obtain ⟨outcome, performed, returns⟩ := perform_of_act happens
  constructor
  · intro correct
    cases action with
    | wake call expired => exact sound.oneKind happens correct
    | echo call unset => trivial
    | write call now attempt => trivial
    | onReadable reply => trivial
    | onError error => trivial
  · intro oneKind
    constructor
    · intro call answer answered
      rw [returns] at answered
      rw [answered] at performed
      obtain ⟨expired, entry, rfl, own, done, rfl⟩ := request_of_answered performed
      obtain ⟨since, held, -⟩ := PendingTable.exists_of_own own
      have slot := sound.request_eq held own
      refine ⟨entry.1, since, held, ?_⟩
      rw [slot] at done ⊢
      exact (PingEvent.fromOne_iff done).mpr (oneKind _ _ held)
    · intro call result returned
      rw [returns.symm.trans returned] at performed
      exact gone_of_perform performed

end

variable {network}

/-- In every run, a section is right exactly when a call that it wakes has got replies only, or
errors only, since its entry was made. -/
theorem echo_correct_iff {actions : List (EchoAction Call)} {action : EchoAction Call}
    {before after : EchoCalls Call} (run : Trace (act network) start actions before)
    (happens : before.act network action = some after) :
    Correct network before action after ↔ before.OneKind action := by
  have sound : Sound network before :=
    run.invariant (Sound network) (fun _ _ _ sound => Sound.act sound) sound_start
  exact sound.correct_iff happens

/-! ## Two runs of one echo -/

theorem header_le_header : icmpHeaderSize ≤ icmpHeaderSize := Int.le_refl _

/-- A reply without data to the first request. -/
def bareReply (ttl : ℤ) : EchoReply :=
  ⟨1, .ipv6 IpAddress.linkLocal 0, ttl, icmpHeaderSize, 20, header_le_header⟩

/-- A router tells of the first request that its time to live was over. -/
def lateError : IcmpError := ⟨1, true, 3, 0, 0, .ipv6 IpAddress.linkLocal 0, 4000⟩

/-- A call that has written its request, and the messages that have arrived since. -/
def written (messages : List PingEvent) : EchoCalls Unit where
  sequence := 1
  stage := Function.update (Function.update (fun _ => .first) () .first) () .waiting
  pending := (PingEvent.sent 1 1000 :: messages).foldl
    (PendingTable.deliver (PingEvent.apply IpAddress.loneNetwork)) (PendingTable.empty.insert {} () 1)

/-- Two replies before the call is woken are one answer, the second one. -/
theorem echo_correct_replies :
    Trace (act IpAddress.loneNetwork) start [.echo () none, .write () 1000 .written,
      .onReadable (bareReply 60), .onReadable (bareReply 61)]
      (written [.reply (bareReply 60), .reply (bareReply 61)]) ∧
    ∃ after, Correct IpAddress.loneNetwork (written [.reply (bareReply 60), .reply (bareReply 61)])
      (.wake () false) after := by
  have run : Trace (act IpAddress.loneNetwork) start [.echo () none, .write () 1000 .written,
      .onReadable (bareReply 60), .onReadable (bareReply 61)]
      (written [.reply (bareReply 60), .reply (bareReply 61)]) :=
    .snoc (.snoc (.snoc (.snoc .nil rfl) rfl) rfl) rfl
  refine ⟨run, _, (echo_correct_iff run rfl).mpr ?_⟩
  intro sequence since held
  cases held
  exact Or.inl (by decide)

/-- A reply and an error before the call is woken are mixed into one answer. -/
theorem reply_and_error_mixed : ¬ ∀ (network : Network) (actions : List (EchoAction Unit))
    (action : EchoAction Unit) (before after : EchoCalls Unit),
    Trace (act network) start actions before → before.act network action = some after →
      Correct network before action after := by
  intro always
  have run : Trace (act IpAddress.loneNetwork) start [.echo () none, .write () 1000 .written,
      .onReadable (bareReply 60), .onError lateError]
      (written [.reply (bareReply 60), .error lateError]) :=
    .snoc (.snoc (.snoc (.snoc .nil rfl) rfl) rfl) rfl
  have correct := always _ _ (.wake () false) _ _ run rfl
  obtain ⟨sequence, since, held, earlier, message, later, -, -, same⟩ :=
    correct.single () _ rfl
  cases held
  rcases PingEvent.alone_size_or_code IpAddress.loneNetwork 1 _ message with zero | success
  · rw [← same] at zero
    exact absurd zero (by decide)
  · rw [← same] at success
    cases success

end EchoCalls

end Join
