import Mathlib.Data.List.Induction
import Join.Fabric.DnsMessage
import Join.Library.PendingTable
import Join.Library.Trace

/-!
# Queries of a name server

`query` makes an entry for the identifier of its packet, sends the packet and waits once, until
it is woken or the time is over; `onReadable` puts a response that arrived into the entry with
its identifier. The resolver for one server and the peer of the local network differ in that
only the resolver looks at the bit for a truncated response.

Two things can go wrong. `onReadable` does not look at what `deserialize` returns, so a response
that is not accepted is put into the entry as far as it was read. And `query` does not look for
a response when it is woken, so a wait that ends for no reason returns the empty packet. As long
as neither happens, a query returns only with a genuine answer.
-/

set_option autoImplicit false

namespace Join

open Library

namespace DnsMessage

/-! ## What a failed decoding leaves -/

/-- The loop over the records of a section: the records that were read, and the stream if all of
them were. -/
def fillSection {Record : Type} (decode : InStream → Option (Record × InStream)) :
    ℕ → InStream → List Record × Option InStream
  | 0, data => ([], some data)
  | count + 1, data =>
      match decode data with
      | none => ([], none)
      | some read =>
          let rest := fillSection decode count read.2
          (read.1 :: rest.1, rest.2)

/-- The loops of `DnsMessage::deserialize` with the packet that they leave in either case. -/
def fillSections (stack : ℕ → UInt8) (head : DnsPacket) (qcount ancount nscount arcount : UInt16)
    (data : InStream) : DnsPacket × Bool :=
  let questions := fillSection decodeQuestion qcount.toNat data
  let asked : DnsPacket := { head with questions := questions.1 }
  match questions.2 with
  | none => (asked, false)
  | some data =>
      let answers := fillSection (decodeResource stack) ancount.toNat data
      let answered : DnsPacket := { asked with answers := answers.1 }
      match answers.2 with
      | none => (answered, false)
      | some data =>
          let authorities := fillSection (decodeResource stack) nscount.toNat data
          let named : DnsPacket := { answered with authorities := authorities.1 }
          match authorities.2 with
          | none => (named, false)
          | some data =>
              let additionals := fillSection (decodeResource stack) arcount.toNat data
              ({ named with additionals := additionals.1 }, additionals.2.isSome)

/-- `DnsMessage::deserialize` with the packet that it leaves in either case. -/
def fill (stack : ℕ → UInt8) (packet : DnsPacket) (data : InStream) : DnsPacket × Bool :=
  let id := read16 packet.id data
  let flags := read16 packet.flags id.2
  let qcount := read16 0 flags.2
  let ancount := read16 0 qcount.2
  let nscount := read16 0 ancount.2
  let arcount := read16 0 nscount.2
  fillSections stack { packet with id := id.1, flags := flags.1 } qcount.1 ancount.1 nscount.1
    arcount.1 arcount.2

variable {Record : Type} {decode : InStream → Option (Record × InStream)}

theorem fillSection_of_some {count : ℕ} {data : InStream} {read : List Record × InStream}
    (decoded : decodeSection decode count data = some read) :
    fillSection decode count data = (read.1, some read.2) := by
  induction count generalizing data read with
  | zero =>
      cases decoded
      rfl
  | succ count inductionHypothesis =>
      rw [decodeSection] at decoded
      obtain ⟨⟨record, next⟩, first, decoded⟩ := Option.bind_eq_some_iff.mp decoded
      obtain ⟨⟨records, after⟩, others, decoded⟩ := Option.bind_eq_some_iff.mp decoded
      cases decoded
      rw [fillSection, first]
      dsimp only
      rw [inductionHypothesis others]

/-- What is accepted is left in the packet. -/
theorem fill_of_some {stack : ℕ → UInt8} {packet : DnsPacket} {data : InStream}
    {read : DnsPacket × InStream} (decoded : deserialize stack packet data = some read) :
    fill stack packet data = (read.1, true) := by
  rw [deserialize] at decoded
  obtain ⟨questions, asked, decoded⟩ := Option.bind_eq_some_iff.mp decoded
  obtain ⟨answers, answered, decoded⟩ := Option.bind_eq_some_iff.mp decoded
  obtain ⟨authorities, named, decoded⟩ := Option.bind_eq_some_iff.mp decoded
  obtain ⟨additionals, added, decoded⟩ := Option.bind_eq_some_iff.mp decoded
  cases decoded
  rw [fill]
  dsimp only
  rw [fillSections, fillSection_of_some asked]
  dsimp only
  rw [fillSection_of_some answered]
  dsimp only
  rw [fillSection_of_some named]
  dsimp only
  rw [fillSection_of_some added]
  rfl

end DnsMessage

/-! ## The requests -/

/-- The errors that a response can carry. -/
inductive DnsError
  | invalidParam
  | operationFailed
  | notFound
  | permissionDenied
  | unknownError
  | messageTooLong
deriving DecidableEq

/-- `DnsMessage::decodeError`. -/
def DnsMessage.decodeError (error : UInt16) : Option DnsError :=
  if error = 0 then none
  else if error = 1 ∨ error = 4 then some .invalidParam
  else if error = 2 then some .operationFailed
  else if error = 3 then some .notFound
  else if error = 5 then some .permissionDenied
  else some .unknownError

/-- The resolver for one server, or the peer of the local network. -/
inductive DnsClient
  | resolver
  | peer
deriving DecidableEq

/-- The error of a response with some flags: the resolver looks at the bit for a truncated
response too. -/
def DnsClient.errorOf (client : DnsClient) (flags : UInt16) : Option DnsError :=
  let error := DnsMessage.decodeError (flags &&& 0x000F)
  match client with
  | .resolver => if flags &&& 0x0200 ≠ 0 ∧ error = none then some .messageTooLong else error
  | .peer => error

/-- `PendingRequest`. -/
structure DnsRequest where
  packet : DnsPacket := {}
  ec : Option DnsError := none
deriving DecidableEq

section

variable (stack : ℕ → UInt8)

/-- The packet that `onReadable` gets out of a datagram. -/
def received (datagram : List UInt8) : DnsPacket :=
  (DnsMessage.fill stack {} (.ofBytes datagram)).1

/-- A datagram that `onReadable` takes for the response to an identifier. -/
def Responds (datagram : List UInt8) (id : UInt16) : Prop :=
  12 ≤ datagram.length ∧ (received stack datagram).flags &&& 0x8000 ≠ 0 ∧
    (received stack datagram).id = id

instance (datagram : List UInt8) (id : UInt16) : Decidable (Responds stack datagram id) :=
  inferInstanceAs (Decidable (_ ∧ _ ∧ _))

/-- `onReadable`, as it concerns the entry of an identifier. -/
def DnsClient.onReadable (client : DnsClient) (id : UInt16) (datagram : List UInt8)
    (request : DnsRequest) : DnsRequest :=
  if Responds stack datagram id then
    ⟨received stack datagram, client.errorOf (received stack datagram).flags⟩
  else request

/-- A datagram that `deserialize` accepts, and the packet it decodes to. -/
def Accepts (datagram : List UInt8) (packet : DnsPacket) : Prop :=
  (DnsMessage.deserialize stack {} (.ofBytes datagram)).map Prod.fst = some packet

theorem received_of_accepts {stack : ℕ → UInt8} {datagram : List UInt8} {packet : DnsPacket}
    (accepts : Accepts stack datagram packet) : received stack datagram = packet := by
  obtain ⟨read, decoded, rfl⟩ := Option.map_eq_some_iff.mp accepts
  rw [received, DnsMessage.fill_of_some decoded]

end

/-- What a call of `query` returns. -/
inductive DnsResult
  | success (packet : DnsPacket)
  | operationFailed
  | notSent
  | timedOut
  | failed (error : DnsError)
deriving DecidableEq

/-- `_pending`. -/
structure DnsQueries (Call : Type) where
  pending : PendingTable Call UInt16 DnsRequest (List UInt8)

/-- The sections under the mutex: a call that has something to send sends it, or fails to; its
wait ends, with or without the time being over; and a datagram has arrived. -/
inductive DnsAction (Call : Type)
  | query (call : Call) (id : UInt16) (written : Bool)
  | wake (call : Call) (expired : Bool)
  | receive (datagram : List UInt8)

/-- The call whose section it is. -/
def DnsAction.caller {Call : Type} : DnsAction Call → Option Call
  | query call _ _ => some call
  | wake call _ => some call
  | receive _ => none

namespace DnsQueries

variable {Call : Type} [DecidableEq Call]

/-- Nobody has called. -/
def start : DnsQueries Call := ⟨.empty⟩

/-- The beginning of `query` under the mutex, up to its wait. -/
def begin (queries : DnsQueries Call) (call : Call) (id : UInt16) (written : Bool) :
    DnsQueries Call × Option (Call × DnsResult) :=
  match queries.pending.entries id with
  | some _ => (queries, some (call, .operationFailed))
  | none =>
      let inserted : DnsQueries Call := ⟨queries.pending.insert {} call id⟩
      if written then (inserted, none)
      else (⟨inserted.pending.remove call id⟩, some (call, .notSent))

/-- The end of `query`: the entry is erased whatever has woken the call. -/
def finish (queries : DnsQueries Call) (call : Call) (id : UInt16) (request : DnsRequest)
    (expired : Bool) : DnsQueries Call × Option (Call × DnsResult) :=
  let left : DnsQueries Call := ⟨queries.pending.remove call id⟩
  if expired then (left, some (call, .timedOut))
  else
    match request.ec with
    | some error => (left, some (call, .failed error))
    | none => (left, some (call, .success request.packet))

variable (stack : ℕ → UInt8) (client : DnsClient)

/-- A section under the mutex, and what a call returns at its end. -/
def perform (queries : DnsQueries Call) :
    DnsAction Call → Option (DnsQueries Call × Option (Call × DnsResult))
  | .query call id written =>
      if queries.pending.held call = none then some (queries.begin call id written) else none
  | .wake call expired =>
      (queries.pending.own call).map fun entry => queries.finish call entry.1 entry.2 expired
  | .receive datagram =>
      some (⟨queries.pending.deliver (client.onReadable stack) datagram⟩, none)

/-- The state after a section. -/
def act (queries : DnsQueries Call) (action : DnsAction Call) : Option (DnsQueries Call) :=
  (queries.perform stack client action).map Prod.fst

/-- What a call returns at the end of a section. -/
def returned (queries : DnsQueries Call) (action : DnsAction Call) : Option (Call × DnsResult) :=
  (queries.perform stack client action).bind Prod.snd

/-! ## Genuine answers -/

/-- What is right about a section: a query that returns a packet had an entry, and since it was
made a response arrived that is accepted as this packet, with its identifier and without an
error; a response concerns one query; a query that returns has no entry any more; and a query
leaves the entries of the others alone. -/
structure Correct (before : DnsQueries Call) (action : DnsAction Call)
    (after : DnsQueries Call) : Prop where
  genuine : ∀ call packet, before.returned stack client action = some (call, .success packet) →
    ∃ id since datagram, before.pending.held call = some (id, since) ∧
      datagram ∈ before.pending.events.drop since ∧ Accepts stack datagram packet ∧
        packet.flags &&& 0x8000 ≠ 0 ∧ packet.id = id ∧
          DnsMessage.decodeError (packet.flags &&& 0x000F) = none
  once : ∀ datagram, action = .receive datagram → ∀ left right id id' since since',
    before.pending.held left = some (id, since) → before.pending.held right = some (id', since') →
      Responds stack datagram id → Responds stack datagram id' → left = right
  gone : ∀ call result, before.returned stack client action = some (call, result) →
    after.pending.held call = none ∧ ∀ id since,
      before.pending.held call = some (id, since) → after.pending.entries id = none
  others : ∀ call, action.caller = some call →
    PendingTable.OthersKept call before.pending after.pending

/-- The newest response to an identifier. -/
def newest (id : UInt16) (datagrams : List (List UInt8)) : Option (List UInt8) :=
  datagrams.reverse.find? fun datagram => Responds stack datagram id

/-- A wait that ends in time ends after a response has arrived, and the newest one is accepted
or carries an error. -/
def Answered (before : DnsQueries Call) : DnsAction Call → Prop
  | .wake call false => ∀ id since, before.pending.held call = some (id, since) →
      ∃ datagram, newest stack id (before.pending.events.drop since) = some datagram ∧
        (client.errorOf (received stack datagram).flags ≠ none ∨
          (DnsMessage.deserialize stack {} (.ofBytes datagram)).isSome = true)
  | _ => True

section

variable {stack} {client} {before after : DnsQueries Call} {call : Call} {id : UInt16} {since : ℕ}

omit [DecidableEq Call] in
theorem newest_snoc (datagrams : List (List UInt8)) (datagram : List UInt8) :
    newest stack id (datagrams ++ [datagram]) =
      if Responds stack datagram id then some datagram else newest stack id datagrams := by
  rw [newest, List.reverse_append, List.reverse_singleton, List.singleton_append, List.find?_cons]
  by_cases responds : Responds stack datagram id
  · rw [if_pos responds, decide_eq_true responds]
  · rw [if_neg responds, decide_eq_false responds]
    rfl

/-- What stands in an entry is the newest response. -/
theorem slotAfter_eq (datagrams : List (List UInt8)) :
    PendingTable.slotAfter (client.onReadable stack) {} id datagrams =
      ((newest stack id datagrams).map fun datagram =>
        ⟨received stack datagram, client.errorOf (received stack datagram).flags⟩).getD {} := by
  induction datagrams using List.reverseRecOn with
  | nil => rfl
  | append_singleton datagrams datagram inductionHypothesis =>
      rw [PendingTable.slotAfter] at inductionHypothesis
      rw [PendingTable.slotAfter, List.foldl_append, List.foldl_cons, List.foldl_nil, newest_snoc,
        inductionHypothesis, DnsClient.onReadable]
      by_cases responds : Responds stack datagram id
      · rw [if_pos responds, if_pos responds]
        rfl
      · rw [if_neg responds, if_neg responds]

theorem newest_mem {datagrams : List (List UInt8)} {datagram : List UInt8}
    (found : newest stack id datagrams = some datagram) :
    datagram ∈ datagrams ∧ Responds stack datagram id := by
  have chosen : decide (Responds stack datagram id) = true :=
    @List.find?_some _ (fun datagram => decide (Responds stack datagram id)) _ _ found
  exact ⟨List.mem_reverse.mp (List.mem_of_find?_eq_some found), of_decide_eq_true chosen⟩

/-- A response without an error has no error code. -/
theorem decodeError_of_errorOf {flags : UInt16} (none : client.errorOf flags = none) :
    DnsMessage.decodeError (flags &&& 0x000F) = Option.none := by
  cases client with
  | peer => exact none
  | resolver =>
      rw [DnsClient.errorOf] at none
      by_cases truncated : flags &&& 0x0200 ≠ 0 ∧ DnsMessage.decodeError (flags &&& 0x000F) = .none
      · exact truncated.2
      · rwa [if_neg truncated] at none

/-! ## A section -/

/-- The end of a query is a turn of a call that has an entry. -/
theorem turn_finish (own : before.pending.held call = some (id, since)) (request : DnsRequest)
    (expired : Bool) :
    PendingTable.Turn (client.onReadable stack) {} before.pending (some call)
      (before.finish call id request expired).1.pending
      (before.finish call id request expired).2 := by
  cases expired with
  | true => exact .leave _ own
  | false =>
      cases carried : request.ec with
      | some error =>
          rw [finish, if_neg Bool.false_ne_true, carried]
          exact .leave _ own
      | none =>
          rw [finish, if_neg Bool.false_ne_true, carried]
          exact .leave _ own

/-- The beginning of a query is a turn of a call that has no entry. -/
theorem turn_begin (free : before.pending.held call = none) (id : UInt16) (written : Bool) :
    PendingTable.Turn (client.onReadable stack) {} before.pending (some call)
      (before.begin call id written).1.pending (before.begin call id written).2 := by
  rw [begin]
  cases absent : before.pending.entries id with
  | some request => exact .refuse _ free
  | none =>
      cases written with
      | true => exact .make free absent
      | false =>
          have same : (before.pending.insert {} call id).remove call id = before.pending :=
            PendingTable.remove_insert absent free
          have turn : PendingTable.Turn (client.onReadable stack) {} before.pending (some call)
              ((before.pending.insert {} call id).remove call id)
              (some (call, DnsResult.notSent)) := by
            rw [same]
            exact .refuse _ free
          exact turn

/-- Every section is a turn. -/
theorem turn_perform {action : DnsAction Call} {outcome : Option (Call × DnsResult)}
    (happens : before.perform stack client action = some (after, outcome)) :
    PendingTable.Turn (client.onReadable stack) {} before.pending action.caller after.pending
      outcome := by
  cases action with
  | query call id written =>
      rw [perform] at happens
      by_cases free : before.pending.held call = none
      · have turn := @turn_begin _ _ stack client before call free id written
        rw [if_pos free] at happens
        rwa [Option.some.inj happens] at turn
      · rw [if_neg free] at happens
        cases happens
  | wake call expired =>
      obtain ⟨entry, own, same⟩ := Option.map_eq_some_iff.mp happens
      obtain ⟨since, held, -⟩ := PendingTable.exists_of_own own
      have turn := @turn_finish _ _ stack client before call entry.1 since held entry.2 expired
      rwa [same] at turn
  | receive datagram =>
      cases happens
      exact .arrive datagram

/-- A query succeeds when it is woken in time and there is no error in its entry. -/
theorem entry_of_success {action : DnsAction Call} {packet : DnsPacket}
    (happens : before.perform stack client action = some (after, some (call, .success packet))) :
    action = .wake call false ∧ ∃ entry, before.pending.own call = some entry ∧
      entry.2.ec = none ∧ entry.2.packet = packet := by
  cases action with
  | query someone id written =>
      rw [perform] at happens
      by_cases free : before.pending.held someone = none
      · rw [if_pos free] at happens
        have began := Option.some.inj happens
        rw [begin] at began
        cases absent : before.pending.entries id with
        | some request =>
            rw [absent] at began
            cases began
        | none =>
            rw [absent] at began
            cases written with
            | true => cases began
            | false => cases began
      · rw [if_neg free] at happens
        cases happens
  | wake someone expired =>
      obtain ⟨entry, own, same⟩ := Option.map_eq_some_iff.mp happens
      cases expired with
      | true => cases same
      | false =>
          rw [finish, if_neg Bool.false_ne_true] at same
          cases carried : entry.2.ec with
          | some error =>
              rw [carried] at same
              cases same
          | none =>
              rw [carried] at same
              cases same
              exact ⟨rfl, entry, own, carried, rfl⟩
  | receive datagram => cases happens

/-! ## Runs -/

/-- The entries are what has arrived since they were made. -/
def Sound (stack : ℕ → UInt8) (client : DnsClient) (queries : DnsQueries Call) : Prop :=
  queries.pending.Kept (client.onReadable stack) {}

theorem perform_of_act {action : DnsAction Call}
    (happens : before.act stack client action = some after) :
    ∃ outcome, before.perform stack client action = some (after, outcome) ∧
      before.returned stack client action = outcome := by
  obtain ⟨⟨queries, outcome⟩, performed, rfl⟩ := Option.map_eq_some_iff.mp happens
  refine ⟨outcome, performed, ?_⟩
  rw [returned, performed]
  rfl

theorem Sound.act (sound : Sound stack client before) {action : DnsAction Call}
    (happens : before.act stack client action = some after) : Sound stack client after := by
  obtain ⟨outcome, performed, -⟩ := perform_of_act happens
  exact (turn_perform performed).kept sound

omit [DecidableEq Call] in
theorem sound_start : Sound stack client (start : DnsQueries Call) := PendingTable.kept_empty

omit [DecidableEq Call] in
/-- A query that is woken with an answer returns a genuine one. -/
theorem genuine_of_answered (sound : Sound stack client before) {packet : DnsPacket}
    {entry : UInt16 × DnsRequest} (own : before.pending.own call = some entry)
    (fine : entry.2.ec = none) (filled : entry.2.packet = packet)
    (answered : before.Answered stack client (.wake call false)) :
    ∃ id since datagram, before.pending.held call = some (id, since) ∧
      datagram ∈ before.pending.events.drop since ∧ Accepts stack datagram packet ∧
        packet.flags &&& 0x8000 ≠ 0 ∧ packet.id = id ∧
          DnsMessage.decodeError (packet.flags &&& 0x000F) = none := by
  obtain ⟨since, held, -⟩ := PendingTable.exists_of_own own
  obtain ⟨datagram, found, good⟩ := answered _ _ held
  obtain ⟨member, responds⟩ := newest_mem found
  have slot := congrArg Prod.snd (Option.some.inj (own.symm.trans (sound.own_eq held)))
  dsimp only at slot
  rw [slotAfter_eq, found, Option.map_some, Option.getD_some] at slot
  rw [slot] at fine filled
  dsimp only at fine filled
  have accepted : (DnsMessage.deserialize stack {} (.ofBytes datagram)).isSome = true := by
    rcases good with carried | accepted
    · exact absurd fine carried
    · exact accepted
  obtain ⟨read, decoded⟩ := Option.isSome_iff_exists.mp accepted
  have accepts : Accepts stack datagram read.1 := by
    rw [Accepts, decoded]
    rfl
  have same := received_of_accepts accepts
  rw [← filled]
  refine ⟨_, since, datagram, held, member, ?_, responds.2.1, responds.2.2, ?_⟩
  · rw [same]
    exact accepts
  · exact decodeError_of_errorOf fine

/-- A section in a sound state is right when a wait that ends in time ends with an answer. -/
theorem Sound.correct (sound : Sound stack client before) {action : DnsAction Call}
    (answered : before.Answered stack client action)
    (happens : before.act stack client action = some after) :
    Correct stack client before action after := by
  obtain ⟨outcome, performed, returns⟩ := perform_of_act happens
  have turn := turn_perform performed
  constructor
  · intro call packet success
    rw [returns] at success
    rw [success] at performed
    obtain ⟨rfl, entry, own, fine, filled⟩ := entry_of_success performed
    exact genuine_of_answered sound own fine filled answered
  · intro datagram _ left right id id' since since' first second responds responds'
    have same : id = id' := responds.2.2.symm.trans responds'.2.2
    rw [← same] at second
    exact sound.owner left right id since since' first second
  · intro call result returned
    exact turn.gone (returns.symm.trans returned)
  · intro call caller
    rw [caller] at turn
    exact turn.others sound

end

/-- In every run in which a wait that ends in time ends with an answer, every section is right. -/
theorem queries_correct {actions : List (DnsAction Call)}
    (answered : Along (act stack client) (fun before action => before.Answered stack client action)
      start actions) :
    Along (act stack client)
      (fun before action => ∀ after, before.act stack client action = some after →
        Correct stack client before action after) start actions := by
  intro earlier action later before split run after happens
  have sound : Sound stack client before :=
    run.invariant (Sound stack client) (fun _ _ _ sound => Sound.act sound) sound_start
  exact sound.correct (answered earlier action later before split run) happens

/-! ## Three runs of one query -/

/-- A response to the identifier 5 that has nothing but a header, with a number of questions. -/
def headerOnly (questions : UInt8) : List UInt8 := [0, 5, 0x80, 0, 0, questions, 0, 0, 0, 0, 0, 0]

/-- A wait that ends in time has an answer, as a test. -/
def answeredTest (before : DnsQueries Call) : DnsAction Call → Bool
  | .wake call false =>
      match before.pending.held call with
      | some (id, since) => (newest stack id (before.pending.events.drop since)).any fun datagram =>
          decide (client.errorOf (received stack datagram).flags ≠ none) ||
            (DnsMessage.deserialize stack {} (.ofBytes datagram)).isSome
      | none => true
  | _ => true

omit [DecidableEq Call] in
theorem answered_of_test (before : DnsQueries Call) (action : DnsAction Call)
    (tested : before.answeredTest stack client action = true) :
    before.Answered stack client action := by
  cases action with
  | query call id written => trivial
  | receive datagram => trivial
  | wake call expired =>
      cases expired with
      | true => trivial
      | false =>
          intro id since held
          rw [answeredTest, held] at tested
          dsimp only at tested
          cases found : newest stack id (before.pending.events.drop since) with
          | none =>
              rw [found] at tested
              cases tested
          | some datagram =>
              rw [found, Option.any_some, Bool.or_eq_true, decide_eq_true_eq] at tested
              exact ⟨datagram, rfl, tested⟩

/-- A response of a header without questions is returned as the answer that it is. -/
theorem queries_correct_header :
    (follow (act (fun _ => 0) .resolver) (start : DnsQueries Unit)
      [.query () 5 true, .receive (headerOnly 0)]).any (fun queries =>
        decide (queries.returned (fun _ => 0) .resolver (.wake () false) =
          some ((), .success { id := 5, flags := 0x8000 }))) = true ∧
    Along (act (fun _ => 0) .resolver)
      (fun before action => ∀ after, before.act (fun _ => 0) .resolver action = some after →
        Correct (fun _ => 0) .resolver before action after)
      (start : DnsQueries Unit) [.query () 5 true, .receive (headerOnly 0), .wake () false] := by
  have answered : Along (act (fun _ => 0) .resolver)
      (fun before action => before.Answered (fun _ => 0) .resolver action)
      (start : DnsQueries Unit) [.query () 5 true, .receive (headerOnly 0), .wake () false] :=
    along_of_checks (answered_of_test _ _) (by decide)
  exact ⟨by decide, queries_correct _ _ answered⟩

/-- A query that was sent, and the datagrams that have arrived since. -/
def sentQuery (datagrams : List (List UInt8)) : DnsQueries Unit :=
  ⟨datagrams.foldl (PendingTable.deliver (DnsClient.resolver.onReadable fun _ => 0))
    (PendingTable.empty.insert {} () 5)⟩

/-- The question that a header announces is missing. -/
theorem decodeQuestion_missing :
    DnsMessage.decodeQuestion ⟨headerOnly 1, 12, false⟩ = none := by
  rw [DnsMessage.decodeQuestion, DnsMessage.decodeName]
  rfl

theorem fill_headerOnly : DnsMessage.fill (fun _ => 0) {} (.ofBytes (headerOnly 1)) =
    ({ id := 5, flags := 0x8000 }, false) := by
  have header : DnsMessage.fill (fun _ => 0) {} (.ofBytes (headerOnly 1)) =
      DnsMessage.fillSections (fun _ => 0) { id := 5, flags := 0x8000 } 1 0 0 0
        ⟨headerOnly 1, 12, false⟩ := rfl
  have questions : DnsMessage.fillSection DnsMessage.decodeQuestion (1 : UInt16).toNat
      ⟨headerOnly 1, 12, false⟩ = ([], none) := by
    change DnsMessage.fillSection DnsMessage.decodeQuestion (0 + 1) _ = _
    rw [DnsMessage.fillSection, decodeQuestion_missing]
  rw [header, DnsMessage.fillSections, questions]

/-- The header stands in the entry although the datagram was not accepted. -/
theorem onReadable_headerOnly :
    DnsClient.resolver.onReadable (fun _ => 0) 5 (headerOnly 1) {} =
      ⟨{ id := 5, flags := 0x8000 }, none⟩ := by
  have got : received (fun _ => 0) (headerOnly 1) = { id := 5, flags := 0x8000 } :=
    congrArg Prod.fst fill_headerOnly
  have responds : Responds (fun _ => 0) (headerOnly 1) 5 := by
    rw [Responds, got]
    decide
  rw [DnsClient.onReadable, if_pos responds, got]
  rfl

/-- A datagram that no packet is accepted from, and that a query returns nevertheless. -/
theorem malformed_response_returned :
    Trace (act (fun _ => 0) .resolver) start [.query () 5 true, .receive (headerOnly 1)]
      (sentQuery [headerOnly 1]) ∧
    (sentQuery [headerOnly 1]).returned (fun _ => 0) .resolver (.wake () false) =
      some ((), .success { id := 5, flags := 0x8000 }) ∧
    DnsMessage.deserialize (fun _ => 0) {} (.ofBytes (headerOnly 1)) = none := by
  have begins : Trace (act (fun _ => 0) .resolver) start [.query () 5 true] (sentQuery []) :=
    .single rfl
  have own : (sentQuery [headerOnly 1]).pending.own () =
      some (5, ⟨{ id := 5, flags := 0x8000 }, none⟩) := by
    rw [← onReadable_headerOnly]
    rfl
  refine ⟨begins.snoc rfl, ?_, ?_⟩
  · rw [returned, perform, own]
    rfl
  · cases decoded : DnsMessage.deserialize (fun _ => 0) {} (.ofBytes (headerOnly 1)) with
    | none => rfl
    | some read =>
        have accepted := DnsMessage.fill_of_some decoded
        rw [fill_headerOnly] at accepted
        exact absurd (congrArg Prod.snd accepted) Bool.false_ne_true

/-- A query that is woken for no reason returns the empty packet although nothing has arrived. -/
theorem woken_without_response : ¬ ∀ (stack : ℕ → UInt8) (client : DnsClient)
    (actions : List (DnsAction Unit)) (action : DnsAction Unit) (before after : DnsQueries Unit),
    Trace (act stack client) start actions before → before.act stack client action = some after →
      Correct stack client before action after := by
  intro always
  have run : Trace (act (fun _ => 0) .resolver) start [.query () 5 true] (sentQuery []) :=
    .single rfl
  have returns : (sentQuery []).returned (fun _ => 0) .resolver (.wake () false) =
      some ((), .success {}) := by decide
  obtain ⟨id, since, datagram, -, member, -⟩ :=
    (always _ _ _ (.wake () false) _ _ run rfl).genuine () {} returns
  have nothing : (sentQuery []).pending.events.drop since = [] := List.drop_nil
  rw [nothing] at member
  cases member

end DnsQueries

end Join
