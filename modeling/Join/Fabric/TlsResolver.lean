import Join.Library.Framing
import Join.Library.Trace

/-!
# The framing of DNS over TLS

`BasicTlsResolver::read` reads a message with a length of two bytes in front of it. A call
reads what the socket has and remembers in the resolver how far it is, and the length and the
payload go to the front of one buffer. `close` forgets where the resolver is, and so does a
read that fails; a `disconnect` that succeeds does not.

A message that is longer than the buffer is reported when its length is known, and its payload
stays in the stream.
-/

set_option autoImplicit false

namespace Join

open Library

/-- What one read of the socket gives. -/
inductive SocketRead where
  | bytes (count : ℕ)
  | temporary
  | failed

/-- What a call of `read` gives the caller: a message, or the report that one is too long. -/
inductive TlsMessage where
  | payload (bytes : List UInt8)
  | tooLong
  deriving DecidableEq

/-- What a call of `read` returns. -/
inductive TlsResult where
  | message (message : TlsMessage)
  | temporary
  | failed
  deriving DecidableEq

/-- `_offset` and `_size`, the buffer of the caller, the bytes of the connection that were not
read, and whether there is a connection that gives more. Of the connection, the payloads
that the server sends and what `read` has given the caller; `overrun` tells that a message
was reported as too long. -/
structure TlsResolver where
  offset : ℕ
  size : ℕ
  buffer : ℕ → UInt8
  incoming : List UInt8
  opened : Bool
  live : Bool
  sent : List (List UInt8)
  given : List TlsMessage
  overrun : Bool

/-- A call of `read`, with what the reads of the socket give; the end of a connection, with
or without success; a failure that closes the socket; and a new connection. -/
inductive TlsAction where
  | read (first second : SocketRead)
  | disconnect (success : Bool)
  | close
  | connect (payloads : List (List UInt8))

namespace TlsResolver

/-- A resolver that was never connected. -/
def initial : TlsResolver where
  offset := 0
  size := 0
  buffer := fun _ => 0
  incoming := []
  opened := false
  live := false
  sent := []
  given := []
  overrun := false

/-- `_frameHeaderSize`. -/
def frameHeaderSize : ℕ := 2

/-- The framing state is forgotten. -/
def reset (resolver : TlsResolver) : TlsResolver := { resolver with offset := 0, size := 0 }

/-- The socket gives bytes to a position of the buffer, at least one and not more than were
asked for. -/
def receive (resolver : TlsResolver) (position asked count : ℕ) : Option TlsResolver :=
  if resolver.live ∧ 1 ≤ count ∧ count ≤ asked ∧ count ≤ resolver.incoming.length then
    some { resolver with
      offset := resolver.offset + count
      buffer := fill resolver.buffer position (resolver.incoming.take count)
      incoming := resolver.incoming.drop count }
  else none

/-- A read of the socket fails. -/
def fail (resolver : TlsResolver) : TlsResolver := { resolver.reset with live := false }

/-- The caller is given a message, and the framing begins again. -/
def give (resolver : TlsResolver) (message : TlsMessage) : TlsResolver :=
  { resolver.reset with given := resolver.given ++ [message] }

/-- The part of `read` behind the length. -/
def readPayload (resolver : TlsResolver) : SocketRead → Option (TlsResult × TlsResolver)
  | .temporary => some (.temporary, resolver)
  | .failed => some (.failed, resolver.fail)
  | .bytes count =>
      (resolver.receive (resolver.offset - frameHeaderSize)
        (resolver.size - (resolver.offset - frameHeaderSize)) count).map fun resolver =>
          if resolver.offset < resolver.size + frameHeaderSize then (.temporary, resolver)
          else
            let message := TlsMessage.payload (contents resolver.buffer resolver.size)
            (.message message, resolver.give message)

/-- `BasicTlsResolver::read`. -/
def read (resolver : TlsResolver) (maxSize : ℕ) (first second : SocketRead) :
    Option (TlsResult × TlsResolver) :=
  if resolver.offset < frameHeaderSize then
    match first with
    | .temporary => some (.temporary, resolver)
    | .failed => some (.failed, resolver.fail)
    | .bytes count =>
        (resolver.receive resolver.offset (frameHeaderSize - resolver.offset) count).bind
          fun resolver =>
            if resolver.offset < frameHeaderSize then some (.temporary, resolver)
            else
              let size := beValue (contents resolver.buffer frameHeaderSize)
              if maxSize < size then
                some (.message .tooLong, { resolver.give .tooLong with overrun := true })
              else readPayload { resolver with size := size } second
  else resolver.readPayload second

/-- `BasicTlsResolver::close`. -/
def close (resolver : TlsResolver) : TlsResolver :=
  { resolver.reset with opened := false, live := false }

/-- One action; a payload has a length that two bytes can tell, and is not empty. -/
def act (maxSize : ℕ) (resolver : TlsResolver) : TlsAction → Option TlsResolver
  | .read first second => (resolver.read maxSize first second).map Prod.snd
  | .disconnect success =>
      if resolver.opened then
        some (if success then { resolver with opened := false, live := false }
          else resolver.close)
      else some resolver
  | .close => some resolver.close
  | .connect payloads =>
      if resolver.opened = false ∧
          ∀ payload ∈ payloads, 1 ≤ payload.length ∧ payload.length < 2 ^ 16 then
        some { resolver with
          incoming := frames frameHeaderSize payloads
          opened := true
          live := true
          sent := payloads
          given := []
          overrun := false }
      else none

/-! ## What the caller is to be given -/

/-- What a payload is to become. -/
def outcome (maxSize : ℕ) (payload : List UInt8) : TlsMessage :=
  if payload.length ≤ maxSize then .payload payload else .tooLong

/-- The caller was given the first of the payloads, each as it is to be, and at least those
that the socket has given completely. -/
structure Exact (maxSize : ℕ) (resolver : TlsResolver) : Prop where
  first : resolver.given <+: resolver.sent.map (outcome maxSize)
  all : ∀ count ≤ resolver.sent.length,
    (frames frameHeaderSize (resolver.sent.take count)).length ≤
      (frames frameHeaderSize resolver.sent).length - resolver.incoming.length →
    count ≤ resolver.given.length

/-- A connection begins with no part of a message left, and when a message was reported as
too long the socket gives no byte more. -/
def Undisturbed (resolver : TlsResolver) : TlsAction → Prop
  | .read (.bytes _) _ => resolver.overrun = false
  | .connect _ => resolver.offset = 0
  | _ => True

/-! ## The invariant -/

/-- The resolver stands in the frame of the first of some payloads: the buffer holds what was
read of the length, or what was read of the payload behind the length. -/
structure Aligned (maxSize : ℕ) (resolver : TlsResolver) (rest : List (List UInt8)) : Prop where
  incoming : resolver.incoming = (frames frameHeaderSize rest).drop resolver.offset
  finished : rest = [] → resolver.offset = 0
  header : ∀ payload tail, rest = payload :: tail → resolver.offset < frameHeaderSize →
    contents resolver.buffer resolver.offset =
      (beBytes frameHeaderSize payload.length).take resolver.offset
  payload : ∀ payload tail, rest = payload :: tail → frameHeaderSize ≤ resolver.offset →
    resolver.size = payload.length ∧ payload.length ≤ maxSize ∧
      resolver.offset - frameHeaderSize < payload.length ∧
      contents resolver.buffer (resolver.offset - frameHeaderSize) =
        payload.take (resolver.offset - frameHeaderSize)

/-- The caller was given what the first payloads are to become, the socket has not given the
next payload completely, and the resolver stands in its frame. -/
structure Framed (maxSize : ℕ) (resolver : TlsResolver) : Prop where
  reset : resolver.overrun = true → resolver.offset = 0
  lengths : ∀ payload ∈ resolver.sent, 1 ≤ payload.length ∧ payload.length < 2 ^ 16
  split : ∃ done rest, resolver.sent = done ++ rest ∧
    resolver.given = done.map (outcome maxSize) ∧
    (∀ payload tail, rest = payload :: tail →
      (frames frameHeaderSize tail).length < resolver.incoming.length) ∧
    (resolver.live = true → resolver.overrun = false → resolver.Aligned maxSize rest)

variable {maxSize : ℕ} {resolver after : TlsResolver} {rest : List (List UInt8)}

theorem receive_eq_some {position asked count : ℕ}
    (receives : resolver.receive position asked count = some after) :
    resolver.live = true ∧ 1 ≤ count ∧ count ≤ asked ∧ count ≤ resolver.incoming.length ∧
      after = { resolver with
        offset := resolver.offset + count
        buffer := fill resolver.buffer position (resolver.incoming.take count)
        incoming := resolver.incoming.drop count } := by
  unfold receive at receives
  split_ifs at receives with possible
  cases receives
  exact ⟨possible.1, possible.2.1, possible.2.2.1, possible.2.2.2, rfl⟩

/-- While the socket has bytes there is a payload whose frame they belong to. -/
theorem Aligned.exists_payload (aligned : resolver.Aligned maxSize rest)
    (some : 1 ≤ resolver.incoming.length) : ∃ payload tail, rest = payload :: tail := by
  cases rest with
  | nil =>
      rw [aligned.incoming] at some
      simp [frames] at some
  | cons payload tail => exact ⟨payload, tail, rfl⟩

/-- The bytes of a frame behind some of the length. -/
theorem drop_frames {payload : List UInt8} {tail : List (List UInt8)} {position : ℕ}
    (inside : position ≤ frameHeaderSize) :
    (frames frameHeaderSize (payload :: tail)).drop position =
      (beBytes frameHeaderSize payload.length).drop position ++
        (payload ++ frames frameHeaderSize tail) := by
  rw [frames_cons, frame, List.append_assoc, List.drop_append_of_le_length]
  rw [length_beBytes]
  exact inside

/-- The bytes of a frame behind the length. -/
theorem drop_frames_payload {payload : List UInt8} {tail : List (List UInt8)} {position : ℕ}
    (behind : frameHeaderSize ≤ position) (inside : position - frameHeaderSize ≤ payload.length) :
    (frames frameHeaderSize (payload :: tail)).drop position =
      payload.drop (position - frameHeaderSize) ++ frames frameHeaderSize tail := by
  obtain ⟨more, rfl⟩ := Nat.exists_eq_add_of_le behind
  rw [Nat.add_sub_cancel_left] at inside ⊢
  have header : (beBytes frameHeaderSize payload.length).drop frameHeaderSize = [] :=
    List.drop_of_length_le (length_beBytes _ _).le
  rw [← List.drop_drop, drop_frames (Nat.le_refl _), header, List.nil_append,
    List.drop_append_of_le_length inside]

/-- The caller is given the message that the payload is to become. -/
theorem given_concat {done : List (List UInt8)} {payload : List UInt8} {message : TlsMessage}
    (given : resolver.given = done.map (outcome maxSize))
    (right : message = outcome maxSize payload) :
    resolver.given ++ [message] = (done ++ [payload]).map (outcome maxSize) := by
  rw [given, right, List.map_append]
  rfl

/-- What is left behind the first of some payloads. -/
theorem behind_of_incoming {payloads : List (List UInt8)} {incoming : List UInt8}
    (enough : (frames frameHeaderSize payloads).length ≤ incoming.length) :
    ∀ payload tail, payloads = payload :: tail →
      (frames frameHeaderSize tail).length < incoming.length := by
  rintro payload tail rfl
  rw [frames_cons, List.length_append, length_frame] at enough
  unfold frameHeaderSize at enough ⊢
  omega

/-- A resolver that stands behind the length of a payload reads some of the payload, or all. -/
theorem Framed.readPayload (framed : resolver.Framed maxSize) {result : TlsResult}
    {second : SocketRead} (header : frameHeaderSize ≤ resolver.offset)
    (reads : resolver.readPayload second = some (result, after)) : after.Framed maxSize := by
  obtain ⟨reset, lengths, done, rest, sent, given, behind, aligned⟩ := framed
  cases second with
  | temporary =>
      cases reads
      exact ⟨reset, lengths, done, rest, sent, given, behind, aligned⟩
  | failed =>
      cases reads
      exact ⟨fun _ => rfl, lengths, done, rest, sent, given, behind, nofun⟩
  | bytes count =>
      obtain ⟨received, receives, ends⟩ := Option.map_eq_some_iff.mp reads
      obtain ⟨live, some, asked, there, rfl⟩ := receive_eq_some receives
      have now : resolver.overrun = false := by
        by_contra past
        rw [reset (Bool.of_not_eq_false past)] at header
        exact absurd header (by decide)
      have aligned := aligned live now
      obtain ⟨payload, tail, rfl⟩ := aligned.exists_payload (some.trans there)
      obtain ⟨size, small, inside, held⟩ := aligned.payload payload tail rfl header
      have stream : resolver.incoming =
          payload.drop (resolver.offset - frameHeaderSize) ++ frames frameHeaderSize tail := by
        rw [aligned.incoming]
        exact drop_frames_payload header inside.le
      rw [size] at asked
      have short : count ≤ (payload.drop (resolver.offset - frameHeaderSize)).length := by
        rw [List.length_drop]
        exact asked
      have piece : resolver.incoming.take count =
          (payload.drop (resolver.offset - frameHeaderSize)).take count := by
        rw [stream, List.take_append_of_le_length short]
      have left : resolver.incoming.drop count =
          payload.drop (resolver.offset - frameHeaderSize + count) ++
            frames frameHeaderSize tail := by
        rw [stream, List.drop_append_of_le_length short, List.drop_drop]
      have holds := contents_fill_take held
        (show resolver.offset - frameHeaderSize + count ≤ payload.length by omega)
      rw [← piece] at holds
      dsimp only at ends
      split_ifs at ends with partly
      · cases ends
        rw [size] at partly
        refine ⟨fun past => ?_, lengths, done, payload :: tail, sent, given, ?_,
          fun _ _ => ⟨?_, nofun, ?_, ?_⟩⟩
        · rw [show resolver.overrun = true from past] at now
          cases now
        · rintro _ _ ⟨⟩
          rw [left, List.length_append, List.length_drop]
          omega
        · dsimp only
          rw [aligned.incoming, List.drop_drop]
        · rintro _ _ ⟨⟩ early
          dsimp only at early
          omega
        · rintro _ _ ⟨⟩ _
          dsimp only
          rw [Nat.sub_add_comm header]
          exact ⟨size, small, by omega, holds⟩
      · cases ends
        rw [size] at partly
        have whole : resolver.offset - frameHeaderSize + count = payload.length := by omega
        rw [whole] at holds left
        rw [List.drop_length, List.nil_append] at left
        rw [List.take_length] at holds
        refine ⟨fun _ => rfl, lengths, done ++ [payload], tail, ?_, ?_, ?_,
          fun _ _ => ⟨left, fun _ => rfl, fun _ _ _ _ => rfl, fun _ _ _ late => ?_⟩⟩
        · change resolver.sent = _
          rw [sent, List.append_assoc]
          rfl
        · refine given_concat given ?_
          rw [size, holds, outcome, if_pos small]
        · change ∀ first more, tail = first :: more → _ < (resolver.incoming.drop count).length
          rw [left]
          exact behind_of_incoming (Nat.le_refl _)
        · exact absurd late (by change ¬2 ≤ 0; decide)

/-- Every call of `read` that is not disturbed keeps the framing. -/
theorem Framed.read (framed : resolver.Framed maxSize) {result : TlsResult}
    {first second : SocketRead} (undisturbed : resolver.Undisturbed (.read first second))
    (reads : resolver.read maxSize first second = some (result, after)) :
    after.Framed maxSize := by
  unfold TlsResolver.read at reads
  split_ifs at reads with short
  · obtain ⟨reset, lengths, done, rest, sent, given, behind, aligned⟩ := framed
    cases first with
    | temporary =>
        cases reads
        exact ⟨reset, lengths, done, rest, sent, given, behind, aligned⟩
    | failed =>
        cases reads
        exact ⟨fun _ => rfl, lengths, done, rest, sent, given, behind, nofun⟩
    | bytes count =>
        obtain ⟨received, receives, ends⟩ := Option.bind_eq_some_iff.mp reads
        obtain ⟨live, some, asked, there, rfl⟩ := receive_eq_some receives
        have aligned := aligned live undisturbed
        obtain ⟨payload, tail, rfl⟩ := aligned.exists_payload (some.trans there)
        have held := aligned.header payload tail rfl short
        have size : 1 ≤ payload.length ∧ payload.length < 2 ^ 16 :=
          lengths payload (by rw [sent]; simp)
        have fits : count ≤ ((beBytes frameHeaderSize payload.length).drop resolver.offset).length := by
          rw [List.length_drop, length_beBytes]
          exact asked
        have stream := aligned.incoming
        rw [drop_frames short.le] at stream
        have piece : resolver.incoming.take count =
            ((beBytes frameHeaderSize payload.length).drop resolver.offset).take count := by
          rw [stream, List.take_append_of_le_length fits]
        have holds := contents_fill_take held
          (show resolver.offset + count ≤ (beBytes frameHeaderSize payload.length).length by
            rw [length_beBytes]
            omega)
        rw [← piece] at holds
        have left : resolver.incoming.drop count =
            (frames frameHeaderSize (payload :: tail)).drop (resolver.offset + count) := by
          rw [aligned.incoming, List.drop_drop]
        have remaining : (resolver.incoming.drop count).length =
            frameHeaderSize - (resolver.offset + count) + payload.length +
              (frames frameHeaderSize tail).length := by
          rw [left, drop_frames (by omega), List.length_append, List.length_append,
            List.length_drop, length_beBytes]
          omega
        have keeps : resolver.overrun = true → resolver.offset + count = 0 := by
          intro past
          rw [show resolver.overrun = false from undisturbed] at past
          cases past
        have ahead : ∀ first more, payload :: tail = first :: more →
            (frames frameHeaderSize more).length < (resolver.incoming.drop count).length := by
          rintro _ _ ⟨⟩
          omega
        dsimp only at ends
        split_ifs at ends with partly long
        · cases ends
          refine ⟨keeps, lengths, done, payload :: tail, sent, given, ahead,
            fun _ _ => ⟨left, nofun, ?_, ?_⟩⟩
          · rintro _ _ ⟨⟩ _
            exact holds
          · rintro _ _ ⟨⟩ late
            exact absurd partly (Nat.not_lt.mpr late)
        · cases ends
          have complete : resolver.offset + count = frameHeaderSize := by omega
          rw [complete] at holds
          rw [holds, List.take_of_length_le (length_beBytes _ _).le, beValue_header size.2] at long
          refine ⟨fun _ => rfl, lengths, done ++ [payload], tail, ?_, ?_, behind_of_incoming ?_,
            fun _ => nofun⟩
          · change resolver.sent = _
            rw [sent, List.append_assoc]
            rfl
          · refine given_concat given ?_
            rw [outcome, if_neg (Nat.not_le.mpr long)]
          · change _ ≤ (resolver.incoming.drop count).length
            omega
        · have complete : resolver.offset + count = frameHeaderSize := by omega
          rw [complete] at holds
          have length : beValue (contents (fill resolver.buffer resolver.offset
              (resolver.incoming.take count)) frameHeaderSize) = payload.length := by
            rw [holds, List.take_of_length_le (length_beBytes _ _).le, beValue_header size.2]
          rw [length] at long
          refine Framed.readPayload ?_ ?_ ends
          · refine ⟨keeps, lengths, done, payload :: tail, sent, given, ahead,
              fun _ _ => ⟨left, nofun, ?_, ?_⟩⟩
            · rintro _ _ ⟨⟩ early
              exact absurd early (Nat.not_lt.mpr complete.ge)
            · rintro _ _ ⟨⟩ _
              dsimp only
              rw [complete]
              exact ⟨length, Nat.not_lt.mp long, size.1, rfl⟩
          · exact complete.ge
  · exact framed.readPayload (Nat.not_lt.mp short) reads

/-- Every action that is not disturbed keeps the framing. -/
theorem Framed.act (framed : resolver.Framed maxSize) {action : TlsAction}
    (undisturbed : resolver.Undisturbed action)
    (happens : resolver.act maxSize action = some after) : after.Framed maxSize := by
  have closed : resolver.close.Framed maxSize := by
    obtain ⟨_, lengths, done, rest, sent, given, behind, _⟩ := framed
    exact ⟨fun _ => rfl, lengths, done, rest, sent, given, behind, nofun⟩
  cases action with
  | read first second =>
      obtain ⟨⟨result, next⟩, reads, rfl⟩ := Option.map_eq_some_iff.mp happens
      exact framed.read undisturbed reads
  | disconnect success =>
      simp only [TlsResolver.act] at happens
      split_ifs at happens with opened clean
      · cases happens
        obtain ⟨reset, lengths, done, rest, sent, given, behind, _⟩ := framed
        exact ⟨reset, lengths, done, rest, sent, given, behind, nofun⟩
      · cases happens
        exact closed
      · cases happens
        exact framed
  | close =>
      cases happens
      exact closed
  | connect payloads =>
      simp only [TlsResolver.act] at happens
      split_ifs at happens with possible
      cases happens
      have start : resolver.offset = 0 := undisturbed
      refine ⟨fun _ => start, possible.2, [], payloads, rfl, rfl,
        behind_of_incoming (Nat.le_refl _), fun _ _ => ⟨?_, fun _ => start, ?_, ?_⟩⟩
      · change frames frameHeaderSize payloads = _
        rw [start, List.drop_zero]
      · intro payload tail _ _
        dsimp only
        rw [start]
        rfl
      · intro payload tail _ late
        dsimp only at late
        rw [start] at late
        exact absurd late (by decide)

theorem initial_framed : initial.Framed maxSize where
  reset := nofun
  lengths := fun _ member => absurd member List.not_mem_nil
  split := ⟨[], [], rfl, rfl, fun _ _ => nofun, nofun⟩

/-- A resolver that keeps the framing has given the caller what it should. -/
theorem Framed.exact (framed : resolver.Framed maxSize) : resolver.Exact maxSize := by
  obtain ⟨_, _, done, rest, sent, given, behind, _⟩ := framed
  refine ⟨?_, fun count inside received => ?_⟩
  · rw [given, sent, List.map_append]
    exact List.prefix_append _ _
  · rw [given, List.length_map]
    by_contra more
    obtain ⟨extra, rfl⟩ := Nat.exists_eq_add_of_lt (Nat.not_le.mp more)
    cases rest with
    | nil =>
        rw [sent, List.append_nil] at inside
        omega
    | cons payload tail =>
        have before := behind payload tail rfl
        have taken : resolver.sent.take (done.length + extra + 1) =
            done ++ payload :: tail.take extra := by
          rw [sent, Nat.add_assoc, List.take_length_add_append]
          rfl
        rw [taken, sent] at received
        simp only [frames_append, frames_cons, List.length_append, length_frame] at received
        unfold frameHeaderSize at received before
        omega

/-- The test that `Undisturbed` is, for runs that are computed. -/
def undisturbed (resolver : TlsResolver) : TlsAction → Bool
  | .read (.bytes _) _ => !resolver.overrun
  | .connect _ => decide (resolver.offset = 0)
  | _ => true

theorem undisturbed_of_test (resolver : TlsResolver) (action : TlsAction)
    (test : resolver.undisturbed action = true) : resolver.Undisturbed action := by
  cases action with
  | read first second =>
      cases first with
      | bytes count =>
          have still : resolver.overrun = false := by simpa [undisturbed] using test
          exact still
      | _ => trivial
  | connect payloads =>
      have start : resolver.offset = 0 := of_decide_eq_true test
      exact start
  | _ => trivial

/-- A connection that gives a message in pieces and another that is too long, and one that
gives two messages. -/
def readsPieces : List TlsAction :=
  [.connect [[7, 8, 9], [1, 2, 3, 4, 5]], .read (.bytes 1) .temporary,
    .read (.bytes 1) (.bytes 2), .read .temporary .temporary, .read .temporary (.bytes 1),
    .read (.bytes 2) .temporary, .disconnect true, .connect [[4], [5, 6]],
    .read (.bytes 2) (.bytes 1), .read (.bytes 2) (.bytes 2)]

end TlsResolver

end Join
