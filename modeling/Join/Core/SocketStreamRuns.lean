import Join.Core.SocketStream

/-!
# A socket stream keeps its connections apart

A stream is used: its functions are called in any order, and the calls of its sockets come to
anything. What the reader obtains from a connection is to be a prefix of what the peer of
that connection sends, and what is put on its socket a prefix of what has been written since
it was made.

While a connection lasts, the bytes that the reader has obtained, those in the get area and
those that can still arrive are all that the peer sends, and the bytes on the socket and those
in the put area are all that was written. Neither area is cleared when a socket is closed, so
this holds on the next connection only if both are empty when it is made.
-/

set_option autoImplicit false

namespace Join

/-! ## Runs -/

/-- A stream, what the peer of its last connection sends, and what has been obtained from and
written to the stream since that connection was made. -/
structure SocketSystem where
  stream : SocketStream
  sent : List UInt8
  obtained : List UInt8
  written : List UInt8
deriving DecidableEq, Repr

/-- A function of a stream that is called. A call that connects comes with its outcome. -/
inductive SocketAction where
  | get
  | read (count : ℕ)
  | write (data : List UInt8)
  | flush
  | connect (outcome : Option Peer)
  | disconnect
  | close
  | clear
  | destroy
deriving DecidableEq, Repr

/-- The peer that a stream gets connected to, if it does. -/
def SocketStream.reached (outcome : Option Peer) (stream : SocketStream) : Option Peer :=
  if stream.state = .closed ∨ stream.state = .disconnected then outcome else none

/-- `~BasicSocketStreambuf`, which sends the put area, and the end of the socket. -/
def SocketStream.destroy (stream : SocketStream) : SocketStream :=
  if stream.state = .connected then (stream.overflow none).2.close else stream.close

namespace SocketSystem

/-- A stream has been constructed. -/
def construct (socket : Option Peer) : SocketSystem :=
  ⟨.construct socket, socket.elim [] Peer.sent, [], []⟩

def act (system : SocketSystem) : SocketAction → SocketSystem
  | .get =>
      let result := system.stream.get
      { system with stream := result.2, obtained := system.obtained ++ result.1.toList }
  | .read count =>
      let result := system.stream.read count
      { system with stream := result.2, obtained := system.obtained ++ result.1 }
  | .write data =>
      let result := system.stream.write data
      { system with stream := result.2, written := system.written ++ data.take result.1 }
  | .flush => { system with stream := system.stream.flush }
  | .connect outcome =>
      match system.stream.reached outcome with
      | some peer => ⟨system.stream.connect outcome, peer.sent, [], []⟩
      | none => { system with stream := system.stream.connect outcome }
  | .disconnect => { system with stream := system.stream.disconnect }
  | .close => { system with stream := system.stream.close }
  | .clear => { system with stream := system.stream.clear }
  | .destroy => { system with stream := system.stream.destroy }

/-- What was obtained comes from the peer of the connection, and what is on its socket was
written since it was made. -/
def Apart (system : SocketSystem) : Prop :=
  system.obtained <+: system.sent ∧ system.stream.wire <+: system.written

/-- The stream is used. -/
def Run : SocketSystem → SocketSystem → Prop :=
  Relation.ReflTransGen fun before after => ∃ action, before.act action = after

/-- No connection is made while there are bytes in the get area or in the put area. -/
def StartsEmpty (system : SocketSystem) (action : SocketAction) : Prop :=
  ∀ outcome, action = .connect outcome → (system.stream.reached outcome).isSome = true →
    system.stream.getArea = [] ∧ system.stream.putArea = []

/-- The stream is used, and its connections are made while its areas are empty. -/
def EmptyRun : SocketSystem → SocketSystem → Prop :=
  Relation.ReflTransGen fun before after =>
    ∃ action, before.StartsEmpty action ∧ before.act action = after

end SocketSystem

/-! ## What a connection has received and is to send -/

/-- The bytes that were obtained, those in the get area and those that still arrive are all
that the peer sends. -/
structure SocketStream.Receives (stream : SocketStream) (sent obtained : List UInt8) : Prop where
  behind : obtained ++ stream.getArea <+: sent
  arriving : stream.state = .connected →
    obtained ++ stream.getArea ++ stream.reads.flatMap ReadCall.arriving = sent

/-- The bytes on the socket and those in the put area are all that was written. -/
structure SocketStream.Posts (stream : SocketStream) (written : List UInt8) : Prop where
  behind : stream.wire <+: written
  pending : stream.state = .connected → stream.wire ++ stream.putArea = written

namespace SocketStream

variable {stream next : SocketStream} {sent obtained written : List UInt8}

/-- What does not touch the get area and reads only from a socket that is given up. -/
theorem Receives.frame (receives : stream.Receives sent obtained)
    (area : next.getArea = stream.getArea)
    (kept : next.state = .connected → stream.state = .connected ∧ next.reads = stream.reads) :
    next.Receives sent obtained := by
  constructor
  · rw [area]
    exact receives.behind
  · intro connected
    rw [area, (kept connected).2]
    exact receives.arriving (kept connected).1

/-- What does not touch the put area and writes nothing. -/
theorem Posts.frame (posts : stream.Posts written) (wire : next.wire = stream.wire)
    (area : next.putArea = stream.putArea)
    (kept : next.state = .connected → stream.state = .connected) : next.Posts written := by
  constructor
  · rw [wire]
    exact posts.behind
  · intro connected
    rw [wire, area]
    exact posts.pending (kept connected)

/-! ## Reading -/

theorem underflowLoop_spec {calls rest : List ReadCall} {chunk : List UInt8}
    (filled : underflowLoop calls = (some chunk, rest)) :
    chunk ≠ [] ∧ chunk ++ rest.flatMap ReadCall.arriving = calls.flatMap ReadCall.arriving := by
  induction calls with
  | nil => cases filled
  | cons call calls ih =>
      cases call with
      | bytes arrived =>
          rw [underflowLoop] at filled
          split_ifs at filled with nothing short
          · cases filled
          · cases filled
            exact ⟨nothing, rfl⟩
          · cases filled
            refine ⟨fun none => ?_, ?_⟩
            · rcases List.take_eq_nil_iff.mp none with zero | empty
              · cases zero
              · exact nothing empty
            · rw [List.flatMap_cons, ← List.append_assoc, ReadCall.arriving,
                List.take_append_drop, List.flatMap_cons, ReadCall.arriving]
      | again => exact ih filled
      | timeout => cases filled
      | failed => cases filled

theorem Receives.sbumpc (receives : stream.Receives sent obtained) :
    stream.sbumpc.2.Receives sent (obtained ++ stream.sbumpc.1.toList) := by
  rw [SocketStream.sbumpc]
  cases area : stream.getArea with
  | cons byte rest =>
      constructor
      · have behind := receives.behind
        rw [area] at behind
        simpa using behind
      · intro connected
        have arriving := receives.arriving connected
        rw [area] at arriving
        simpa using arriving
  | nil =>
      dsimp only
      rw [underflow]
      split_ifs with connected
      · rw [area]
        have all := receives.arriving connected
        rw [area, List.append_nil] at all
        rcases filled : underflowLoop stream.reads with ⟨_ | chunk, calls⟩
        · refine ⟨?_, nofun⟩
          simp only [Option.toList_none, List.append_nil]
          exact ⟨_, all⟩
        · obtain ⟨some, split⟩ := underflowLoop_spec filled
          obtain ⟨byte, rest, rfl⟩ := List.exists_cons_of_ne_nil some
          rw [← split, List.cons_append] at all
          constructor
          · exact ⟨calls.flatMap ReadCall.arriving, by simpa using all⟩
          · intro _
            simpa using all
      · simp only [Option.toList_none, List.append_nil]
        exact receives

theorem Posts.sbumpc (posts : stream.Posts written) : stream.sbumpc.2.Posts written := by
  rw [SocketStream.sbumpc]
  cases area : stream.getArea with
  | cons byte rest => exact posts.frame rfl rfl id
  | nil =>
      dsimp only
      rw [underflow]
      split_ifs
      · rw [area]
        rcases underflowLoop stream.reads with ⟨_ | chunk, calls⟩
        · exact posts.frame rfl rfl nofun
        · cases chunk with
          | nil => exact posts.frame rfl rfl id
          | cons byte rest => exact posts.frame rfl rfl id
      · exact posts

theorem Receives.sgetn (count : ℕ) (receives : stream.Receives sent obtained) :
    (stream.sgetn count).2.Receives sent (obtained ++ (stream.sgetn count).1) := by
  induction count generalizing stream obtained with
  | zero =>
      rw [SocketStream.sgetn, List.append_nil]
      exact receives
  | succ count ih =>
      have first := receives.sbumpc
      rw [SocketStream.sgetn]
      rcases taken : stream.sbumpc with ⟨_ | byte, after⟩
      · rw [taken] at first
        exact first
      · rw [taken] at first
        have rest := ih first
        rw [List.append_assoc] at rest
        exact rest

theorem Posts.sgetn (count : ℕ) (posts : stream.Posts written) :
    (stream.sgetn count).2.Posts written := by
  induction count generalizing stream with
  | zero => exact posts
  | succ count ih =>
      have first := posts.sbumpc
      rw [SocketStream.sgetn]
      rcases taken : stream.sbumpc with ⟨_ | byte, after⟩
      · rw [taken] at first
        exact first
      · rw [taken] at first
        exact ih first

/-! ## Writing -/

theorem writeExactly_spec (calls : List WriteCall) (data : List UInt8) :
    (writeExactly calls data).2.1 <+: data ∧
      ((writeExactly calls data).1 = true → (writeExactly calls data).2.1 = data) := by
  induction calls generalizing data with
  | nil =>
      cases data with
      | nil => exact ⟨List.prefix_rfl, fun _ => rfl⟩
      | cons byte data => exact ⟨List.nil_prefix, nofun⟩
  | cons call calls ih =>
      cases data with
      | nil => exact ⟨List.prefix_rfl, fun _ => rfl⟩
      | cons byte data =>
          cases call with
          | accepted count =>
              obtain ⟨⟨left, part⟩, whole⟩ := ih ((byte :: data).drop count)
              rw [writeExactly]
              refine ⟨⟨left, ?_⟩, fun all => ?_⟩
              · rw [List.append_assoc, part, List.take_append_drop]
              · rw [whole all, List.take_append_drop]
          | again => exact ih (byte :: data)
          | timeout => exact ⟨List.nil_prefix, nofun⟩
          | failed => exact ⟨List.nil_prefix, nofun⟩

theorem Receives.sendPending (receives : stream.Receives sent obtained) :
    stream.sendPending.2.Receives sent obtained := by
  rw [SocketStream.sendPending]
  rcases writeExactly stream.writes stream.putArea with ⟨_ | _, gone, calls⟩
  · exact receives.frame rfl nofun
  · exact receives.frame rfl fun connected => ⟨connected, rfl⟩

/-- A put area that is sent is empty then, and goes behind what is on the socket. -/
theorem Posts.sendPending (posts : stream.Posts written) (connected : stream.state = .connected) :
    stream.sendPending.2.Posts written ∧
      (stream.sendPending.1 = true → stream.sendPending.2.state = .connected ∧
        stream.sendPending.2.putArea = []) := by
  have all := posts.pending connected
  obtain ⟨part, whole⟩ := writeExactly_spec stream.writes stream.putArea
  rw [SocketStream.sendPending]
  rcases written : writeExactly stream.writes stream.putArea with ⟨_ | _, gone, calls⟩
  · rw [written] at part
    refine ⟨⟨?_, nofun⟩, nofun⟩
    rw [← all]
    exact List.prefix_append_right_inj _ |>.mpr part
  · rw [written] at whole
    obtain rfl : gone = stream.putArea := whole rfl
    refine ⟨⟨all ▸ List.prefix_rfl, fun _ => ?_⟩, fun _ => ⟨connected, rfl⟩⟩
    rw [List.append_nil]
    exact all

/-- What `overflow` makes of a stream. -/
theorem overflow_cases (c : Option UInt8) (stream : SocketStream) :
    (stream.state ≠ .connected ∧ stream.overflow c = (false, stream)) ∨
      ∃ ready, ready = { stream with hasPutArea := true } ∧ stream.state = .connected ∧
        ((ready.sendPending.1 = false ∧ stream.overflow c = ready.sendPending) ∨
          (ready.sendPending.1 = true ∧
            stream.overflow c = (true, ready.sendPending.2.store c)) ∨
          (c ≠ none ∧ stream.overflow c = (true, ready.store c))) := by
  rw [overflow]
  split_ifs with connected full
  · refine .inr ⟨_, rfl, connected, ?_⟩
    dsimp only
    rcases SocketStream.sendPending { stream with hasPutArea := true } with ⟨_ | _, flushed⟩
    · exact .inl ⟨rfl, rfl⟩
    · exact .inr (.inl ⟨rfl, rfl⟩)
  · exact .inr ⟨_, rfl, connected, .inr (.inr ⟨fun none => full (.inr none), rfl⟩)⟩
  · exact .inl ⟨connected, rfl⟩

theorem Receives.overflow (c : Option UInt8) (receives : stream.Receives sent obtained) :
    (stream.overflow c).2.Receives sent obtained := by
  rcases overflow_cases c stream with ⟨-, result⟩ | ⟨ready, rfl, -, kept⟩
  · rw [result]
    exact receives
  · have same : ({ stream with hasPutArea := true } : SocketStream).Receives sent obtained :=
      receives.frame rfl fun connected => ⟨connected, rfl⟩
    rcases kept with ⟨-, result⟩ | ⟨-, result⟩ | ⟨-, result⟩
    · rw [result]
      exact same.sendPending
    · rw [result]
      exact same.sendPending.frame rfl fun still => ⟨still, rfl⟩
    · rw [result]
      exact same.frame rfl fun still => ⟨still, rfl⟩

theorem Posts.store {byte : Option UInt8} (posts : stream.Posts written) :
    (stream.store byte).Posts (written ++ byte.toList) := by
  constructor
  · exact posts.behind.trans (List.prefix_append _ _)
  · intro connected
    rw [SocketStream.store, ← posts.pending connected, List.append_assoc]

/-- `overflow` puts its byte behind what was written, if it succeeds. -/
theorem Posts.overflow (c : Option UInt8) (posts : stream.Posts written) :
    (stream.overflow c).2.Posts
      (if (stream.overflow c).1 then written ++ c.toList else written) := by
  rcases overflow_cases c stream with ⟨-, result⟩ | ⟨ready, rfl, connected, kept⟩
  · rw [result]
    exact posts
  · have same : ({ stream with hasPutArea := true } : SocketStream).Posts written :=
      posts.frame rfl rfl id
    obtain ⟨sends, -⟩ := same.sendPending connected
    rcases kept with ⟨fails, result⟩ | ⟨-, result⟩ | ⟨-, result⟩
    · rw [result, fails]
      exact sends
    · rw [result]
      exact sends.store
    · rw [result]
      exact same.store

theorem Receives.sputc (byte : UInt8) (receives : stream.Receives sent obtained) :
    (stream.sputc byte).2.Receives sent obtained := by
  rw [SocketStream.sputc]
  split_ifs
  · exact receives.frame rfl fun connected => ⟨connected, rfl⟩
  · exact receives.overflow _

theorem Posts.sputc (byte : UInt8) (posts : stream.Posts written) :
    (stream.sputc byte).2.Posts (if (stream.sputc byte).1 then written ++ [byte] else written) := by
  rw [SocketStream.sputc]
  split_ifs with room
  · exact posts.store
  · exact absurd rfl ‹_›
  · have result := posts.overflow (some byte)
    rwa [if_pos ‹_›] at result
  · have result := posts.overflow (some byte)
    rwa [if_neg ‹_›] at result

theorem Receives.sputn (data : List UInt8) (receives : stream.Receives sent obtained) :
    (stream.sputn data).2.Receives sent obtained := by
  induction data generalizing stream with
  | nil => exact receives
  | cons byte data ih =>
      have first := receives.sputc byte
      rw [SocketStream.sputn]
      rcases put : stream.sputc byte with ⟨_ | _, after⟩
      · rw [put] at first
        exact first
      · rw [put] at first
        exact ih first

theorem Posts.sputn (data : List UInt8) (posts : stream.Posts written) :
    (stream.sputn data).2.Posts (written ++ data.take (stream.sputn data).1) := by
  induction data generalizing stream written with
  | nil =>
      rw [SocketStream.sputn, List.take_nil, List.append_nil]
      exact posts
  | cons byte data ih =>
      have first := posts.sputc byte
      rw [SocketStream.sputn]
      rcases put : stream.sputc byte with ⟨_ | _, after⟩
      · rw [put] at first
        rw [List.take_zero, List.append_nil]
        exact first
      · rw [put] at first
        have rest := ih first
        rw [if_pos rfl, List.append_assoc] at rest
        exact rest

/-! ## The calls -/

theorem Receives.settle {result : Bool × SocketStream} (receives : result.2.Receives sent obtained) :
    (settle result).Receives sent obtained :=
  receives.frame rfl fun connected => ⟨connected, rfl⟩

theorem Posts.settle {result : Bool × SocketStream} (posts : result.2.Posts written) :
    (settle result).Posts written :=
  posts.frame rfl rfl id

theorem Receives.close (receives : stream.Receives sent obtained) :
    stream.close.Receives sent obtained :=
  receives.frame rfl nofun

theorem Posts.close (posts : stream.Posts written) : stream.close.Posts written :=
  posts.frame rfl rfl nofun

theorem Receives.socketDisconnect (receives : stream.Receives sent obtained) :
    stream.socketDisconnect.2.Receives sent obtained := by
  rw [SocketStream.socketDisconnect]
  split_ifs
  · refine receives.frame rfl fun connected => ?_
    dsimp only at connected
    split_ifs at connected
  · exact receives

theorem Posts.socketDisconnect (posts : stream.Posts written) :
    stream.socketDisconnect.2.Posts written := by
  rw [SocketStream.socketDisconnect]
  split_ifs
  · refine posts.frame rfl rfl fun connected => ?_
    dsimp only at connected
    split_ifs at connected
  · exact posts

theorem Receives.bufDisconnect (receives : stream.Receives sent obtained) :
    stream.bufDisconnect.2.Receives sent obtained := by
  rw [SocketStream.bufDisconnect]
  split_ifs
  · exact (receives.overflow none).socketDisconnect
  · exact receives.overflow none
  · exact receives.socketDisconnect
  · exact receives

theorem Posts.bufDisconnect (posts : stream.Posts written) :
    stream.bufDisconnect.2.Posts written := by
  have flushed := posts.overflow none
  rw [Option.toList_none, List.append_nil, ite_self] at flushed
  rw [SocketStream.bufDisconnect]
  split_ifs
  · exact flushed.socketDisconnect
  · exact flushed
  · exact posts.socketDisconnect
  · exact posts

theorem Receives.destroy (receives : stream.Receives sent obtained) :
    stream.destroy.Receives sent obtained := by
  rw [SocketStream.destroy]
  split_ifs
  · exact (receives.overflow none).close
  · exact receives.close

theorem Posts.destroy (posts : stream.Posts written) : stream.destroy.Posts written := by
  have flushed := posts.overflow none
  rw [Option.toList_none, List.append_nil, ite_self] at flushed
  rw [SocketStream.destroy]
  split_ifs
  · exact flushed.close
  · exact posts.close

/-- A connect that does not succeed leaves a socket that is not used, or the one that is. -/
theorem connect_of_not_reached {outcome : Option Peer} (not : stream.reached outcome = none) :
    (stream.connect outcome).getArea = stream.getArea ∧
      (stream.connect outcome).putArea = stream.putArea ∧
      (stream.connect outcome).wire = stream.wire ∧
      ((stream.connect outcome).state = .connected →
        stream.state = .connected ∧ (stream.connect outcome).reads = stream.reads) := by
  rw [reached] at not
  unfold connect bufConnect
  split_ifs at not ⊢ with idle
  · subst not
    exact ⟨rfl, rfl, rfl, nofun⟩
  · exact ⟨rfl, rfl, rfl, fun connected => ⟨connected, rfl⟩⟩

/-- A connect that succeeds keeps the areas. -/
theorem connect_of_reached {outcome : Option Peer} {peer : Peer}
    (found : stream.reached outcome = some peer) :
    (stream.connect outcome).getArea = stream.getArea ∧
      (stream.connect outcome).putArea = stream.putArea ∧
      (stream.connect outcome).wire = [] ∧ (stream.connect outcome).reads = peer.reads := by
  rw [reached] at found
  unfold connect bufConnect
  split_ifs at found ⊢
  subst found
  exact ⟨rfl, rfl, rfl, rfl⟩

end SocketStream

/-! ## Connections -/

/-- The connection has received, and is to send, what it should. -/
structure SocketSystem.Good (system : SocketSystem) : Prop where
  receives : system.stream.Receives system.sent system.obtained
  posts : system.stream.Posts system.written

namespace SocketSystem

open SocketStream

variable {system start : SocketSystem}

theorem Good.apart (good : system.Good) : system.Apart :=
  ⟨(List.prefix_append _ _).trans good.receives.behind, good.posts.behind⟩

theorem construct_good (socket : Option Peer) : (construct socket).Good := by
  cases socket with
  | none => exact ⟨⟨List.prefix_rfl, nofun⟩, ⟨List.prefix_rfl, nofun⟩⟩
  | some peer => exact ⟨⟨List.nil_prefix, fun _ => rfl⟩, ⟨List.prefix_rfl, fun _ => rfl⟩⟩

theorem Good.get (good : system.Good) : (system.act .get).Good := by
  obtain ⟨receives, posts⟩ := good
  rw [act, SocketStream.get]
  split_ifs
  · exact ⟨receives.sbumpc.settle, posts.sbumpc.settle⟩
  · refine ⟨?_, posts⟩
    rw [Option.toList_none, List.append_nil]
    exact receives

theorem Good.read (good : system.Good) (count : ℕ) : (system.act (.read count)).Good := by
  obtain ⟨receives, posts⟩ := good
  rw [act, SocketStream.read]
  split_ifs
  · exact ⟨(receives.sgetn count).settle, (posts.sgetn count).settle⟩
  · refine ⟨?_, posts⟩
    rw [List.append_nil]
    exact receives

theorem Good.write (good : system.Good) (data : List UInt8) :
    (system.act (.write data)).Good := by
  obtain ⟨receives, posts⟩ := good
  rw [act, SocketStream.write]
  split_ifs
  · exact ⟨(receives.sputn data).settle, (posts.sputn data).settle⟩
  · refine ⟨receives, ?_⟩
    rw [List.take_zero, List.append_nil]
    exact posts

theorem Good.flush (good : system.Good) : (system.act .flush).Good := by
  obtain ⟨receives, posts⟩ := good
  have flushed := posts.overflow none
  rw [Option.toList_none, List.append_nil, ite_self] at flushed
  rw [act, SocketStream.flush]
  split_ifs
  · exact ⟨(receives.overflow none).settle, flushed.settle⟩
  · exact ⟨receives, posts⟩

/-- A connection that is made while the areas are empty starts with nothing. -/
theorem Good.connect (good : system.Good) {outcome : Option Peer}
    (empty : (system.stream.reached outcome).isSome = true →
      system.stream.getArea = [] ∧ system.stream.putArea = []) :
    (system.act (.connect outcome)).Good := by
  obtain ⟨receives, posts⟩ := good
  rw [act]
  rcases reached : system.stream.reached outcome with _ | peer
  · obtain ⟨getArea, putArea, wire, kept⟩ := connect_of_not_reached reached
    exact ⟨receives.frame getArea kept, posts.frame wire putArea fun connected => (kept connected).1⟩
  · obtain ⟨getArea, putArea, wire, reads⟩ := connect_of_reached reached
    rw [reached] at empty
    obtain ⟨nothingRead, nothingWritten⟩ := empty rfl
    refine ⟨⟨?_, fun _ => ?_⟩, ⟨?_, fun _ => ?_⟩⟩
    · rw [getArea, nothingRead]
      exact List.nil_prefix
    · rw [getArea, nothingRead, reads]
      rfl
    · exact List.prefix_nil.mpr wire
    · rw [wire, putArea, nothingWritten]
      rfl

/-- What one action preserves. -/
theorem Good.act (good : system.Good) {action : SocketAction}
    (empty : system.StartsEmpty action) : (system.act action).Good := by
  cases action with
  | get => exact good.get
  | read count => exact good.read count
  | write data => exact good.write data
  | flush => exact good.flush
  | connect outcome => exact good.connect (empty outcome rfl)
  | disconnect => exact ⟨good.receives.bufDisconnect.settle, good.posts.bufDisconnect.settle⟩
  | close => exact ⟨good.receives.close, good.posts.close⟩
  | clear =>
      exact ⟨good.receives.frame rfl fun connected => ⟨connected, rfl⟩,
        good.posts.frame rfl rfl id⟩
  | destroy => exact ⟨good.receives.destroy, good.posts.destroy⟩

theorem Good.run (good : start.Good) (run : EmptyRun start system) : system.Good := by
  induction run with
  | refl => exact good
  | tail _ step ih =>
      obtain ⟨action, empty, rfl⟩ := step
      exact ih.act empty

end SocketSystem

/-- A stream whose connections are made while its areas are empty keeps them apart, whatever
is called and whatever the calls of its sockets come to. -/
theorem connections_apart (socket : Option Peer) (system : SocketSystem)
    (run : SocketSystem.EmptyRun (.construct socket) system) : system.Apart :=
  ((SocketSystem.construct_good socket).run run).apart

/-- The peer answers with three bytes, and takes what it is sent. -/
def answering : Peer := ⟨[.bytes [97, 98, 99]], [.accepted 4096]⟩

/-- A response is read to its end, a request is flushed, and a second connection is made. -/
theorem connections_apart_reconnect : ∃ system,
    SocketSystem.EmptyRun (.construct (some answering)) system ∧
      system.obtained = [97, 98, 99] ∧ system.stream.wire = [120] ∧ system.Apart := by
  have run : SocketSystem.EmptyRun (.construct (some answering))
      (([.read 3, .close, .connect (some answering), .write [120], .flush, .read 3] :
        List SocketAction).foldl SocketSystem.act (.construct (some answering))) := by
    refine .tail (.tail (.tail (.tail (.tail (.tail .refl ⟨.read 3, nofun, rfl⟩)
      ⟨.close, nofun, rfl⟩) ⟨.connect (some answering), ?_, rfl⟩) ⟨.write [120], nofun, rfl⟩)
      ⟨.flush, nofun, rfl⟩) ⟨.read 3, nofun, rfl⟩
    intro outcome _ _
    exact ⟨rfl, rfl⟩
  exact ⟨_, run, rfl, rfl, connections_apart _ _ run⟩

/-- A response is abandoned behind its first byte, and the stream is shut down, closed and
connected again, as `BasicHttpClient::reconnect` does: the second byte is read as the first of
the next connection, whose peer sends nothing. -/
theorem abandoned_response_read_later : ¬ ∀ (socket : Option Peer) (system : SocketSystem),
    SocketSystem.Run (.construct socket) system → system.Apart := by
  intro apart
  have run : SocketSystem.Run (.construct (some answering))
      (([.get, .disconnect, .close, .connect (some ⟨[], []⟩), .get] : List SocketAction).foldl
        SocketSystem.act (.construct (some answering))) :=
    .tail (.tail (.tail (.tail (.tail .refl ⟨.get, rfl⟩) ⟨.disconnect, rfl⟩) ⟨.close, rfl⟩)
      ⟨.connect (some ⟨[], []⟩), rfl⟩) ⟨.get, rfl⟩
  exact absurd (apart _ _ run).1 (by decide)

end Join
