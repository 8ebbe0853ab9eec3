import Join.Core.EpollSeats

/-!
# Reads of a stream socket

The peer of a stream socket appends bytes and closes its end at last. A Read that is served
by the socket takes the bytes that are there, and has the result zero once they are all taken
and the end is closed: so the bytes of the Reads before that one are all that the peer has
sent. The epoll proactor serves a Read when epoll reports the socket readable, but a report
that the peer has closed comes first, and completes the Read with zero, whatever is still to
be read.
-/

set_option autoImplicit false

namespace Join

open Library

/-! ## The socket -/

/-- `EAGAIN`. -/
def eagain : ℤ := 11

/-- `EPOLLIN` while bytes or the end can be read, and `EPOLLRDHUP` from the close on. -/
structure StreamSocket where
  queue : List UInt8
  closed : Bool
  sent : List UInt8

namespace StreamSocket

def initial : StreamSocket := ⟨[], false, []⟩

/-- The peer appends bytes. -/
def append (socket : StreamSocket) (bytes : List UInt8) : Option StreamSocket :=
  if socket.closed then none
  else some { socket with queue := socket.queue ++ bytes, sent := socket.sent ++ bytes }

/-- The peer closes its end. -/
def close (socket : StreamSocket) : Option StreamSocket :=
  if socket.closed then none else some { socket with closed := true }

/-- What epoll reports of a socket that is read. -/
def readiness (socket : StreamSocket) : UInt32 :=
  (if socket.queue ≠ [] ∨ socket.closed = true then epollIn else 0) |||
    (if socket.closed = true then epollRdHup else 0)

/-- The bytes that `read` takes. -/
def taken (socket : StreamSocket) (length : ℕ) : List UInt8 := socket.queue.take length

/-- What `read` returns. -/
def result (socket : StreamSocket) (length : ℕ) : ℤ :=
  if socket.queue = [] ∧ socket.closed = false then -eagain else (socket.taken length).length

/-- What `read` leaves. -/
def read (socket : StreamSocket) (length : ℕ) : StreamSocket :=
  { socket with queue := socket.queue.drop length }

end StreamSocket

/-- The bytes of the Reads before the first that had the result zero, and whether there was
one. -/
structure Reception where
  delivered : List UInt8
  ended : Bool

namespace Reception

def initial : Reception := ⟨[], false⟩

/-- A Read is completed. -/
def complete (reception : Reception) (bytes : List UInt8) (result : ℤ) : Reception :=
  if reception.ended then reception else ⟨reception.delivered ++ bytes, result == 0⟩

end Reception

/-- The bytes that were received and those that can still be are what the peer has sent, and
after the end there are none. -/
structure StreamSocket.Delivers (socket : StreamSocket) (reception : Reception) : Prop where
  order : reception.delivered ++ socket.queue = socket.sent
  finished : reception.ended = true → socket.closed = true ∧ socket.queue = []

variable {socket next : StreamSocket} {reception : Reception}

theorem initial_delivers : StreamSocket.initial.Delivers .initial := ⟨rfl, nofun⟩

theorem StreamSocket.Delivers.append (delivers : socket.Delivers reception) {bytes : List UInt8}
    (appended : socket.append bytes = some next) : next.Delivers reception := by
  unfold StreamSocket.append at appended
  split_ifs at appended with closed
  cases appended
  refine ⟨?_, fun ended => absurd (delivers.finished ended).1 closed⟩
  rw [← List.append_assoc, delivers.order]

theorem StreamSocket.Delivers.close (delivers : socket.Delivers reception)
    (closed : socket.close = some next) : next.Delivers reception := by
  unfold StreamSocket.close at closed
  split_ifs at closed
  cases closed
  exact ⟨delivers.order, fun ended => ⟨rfl, (delivers.finished ended).2⟩⟩

/-- A Read that the socket serves. -/
theorem StreamSocket.Delivers.read (delivers : socket.Delivers reception) {length : ℕ}
    (positive : 0 < length) : (socket.read length).Delivers
      (reception.complete (socket.taken length) (socket.result length)) := by
  unfold Reception.complete
  split_ifs with ended
  · obtain ⟨closed, empty⟩ := delivers.finished ended
    have same : socket.read length = socket := by
      unfold StreamSocket.read
      rw [empty, List.drop_nil, ← empty]
    rw [same]
    exact delivers
  · refine ⟨?_, ?_⟩
    · change (reception.delivered ++ socket.queue.take length) ++ socket.queue.drop length = _
      rw [List.append_assoc, List.take_append_drop]
      exact delivers.order
    · intro zero
      have zero := eq_of_beq zero
      unfold StreamSocket.result at zero
      split_ifs at zero with early
      · exact absurd zero (by decide)
      · have none' : socket.queue = [] := by
          rw [StreamSocket.taken, List.length_take, Int.natCast_eq_zero, Nat.min_eq_zero_iff] at zero
          exact List.length_eq_zero_iff.mp (zero.resolve_left positive.ne')
        refine ⟨?_, ?_⟩
        · change socket.closed = true
          by_contra open'
          exact early ⟨none', Bool.eq_false_of_not_eq_true open'⟩
        · change socket.queue.drop length = []
          rw [none', List.drop_nil]

/-- What was received at the end is all that was sent. -/
theorem StreamSocket.Delivers.complete (delivers : socket.Delivers reception)
    (ended : reception.ended = true) : reception.delivered = socket.sent := by
  rw [← delivers.order, (delivers.finished ended).2, List.append_nil]

/-! ## Reads that the socket serves -/

/-- The peer appends or closes, or a Read of a positive length is served. -/
inductive DirectStep where
  | append (bytes : List UInt8)
  | close
  | read (length : ℕ) (positive : 0 < length)

/-- One step of a stream whose Reads are served by the socket. -/
def directAct (stream : StreamSocket × Reception) : DirectStep → Option (StreamSocket × Reception)
  | .append bytes => (stream.1.append bytes).map fun socket => (socket, stream.2)
  | .close => stream.1.close.map fun socket => (socket, stream.2)
  | .read length _ => some (stream.1.read length,
      stream.2.complete (stream.1.taken length) (stream.1.result length))

/-- The Reads that the socket serves deliver everything. -/
theorem direct_delivers {steps : List DirectStep} {stream : StreamSocket × Reception}
    (trace : Trace directAct (.initial, .initial) steps stream) (ended : stream.2.ended = true) :
    stream.2.delivered = stream.1.sent := by
  refine @StreamSocket.Delivers.complete stream.1 stream.2 ?_ ended
  refine trace.invariant (fun stream => stream.1.Delivers stream.2) ?_ initial_delivers
  intro stream step after delivers happens
  cases step with
  | append bytes =>
      obtain ⟨socket, appended, rfl⟩ := Option.map_eq_some_iff.mp happens
      exact delivers.append appended
  | close =>
      obtain ⟨socket, closed, rfl⟩ := Option.map_eq_some_iff.mp happens
      exact delivers.close closed
  | read length positive =>
      cases happens
      exact delivers.read positive

/-! ## Reads that the epoll proactor serves -/

/-- An epoll proactor, a stream socket that its client reads, and what the client has got. -/
structure EpollStream where
  proactor : EpollOperations
  socket : StreamSocket
  reception : Reception

/-- The peer appends or closes, or the proactor makes a step. -/
inductive StreamStep where
  | append (bytes : List UInt8)
  | close
  | loop (step : EpollStep)
  deriving DecidableEq

namespace EpollStream

/-- The loop has just been entered, and the peer has done nothing. -/
def initial (wakeup : ℤ) : EpollStream := ⟨.initial wakeup, .initial, .initial⟩

/-- The event that is next is for the socket: what is called for it, and the Read that it
completes. -/
def served (stream : EpollStream) (fd : ℤ) : Option (Callback × IoOperation) :=
  match stream.proactor.stack, stream.proactor.pending with
  | [], event :: _ =>
      if event.fd = fd then
        match stream.proactor.registry.dispatchEvent event, stream.proactor.slots .read fd with
        | some ((), callback), some op => some (callback, op)
        | _, _ => none
      else none
  | _, _ => none

/-- Epoll reports what is the case for the socket, the client submits only Reads of a positive
length for it, and a Read has the result that the socket gives. -/
def Permitted (stream : EpollStream) (fd : ℤ) (length : IoOperation → ℕ) : EpollStep → Prop
  | .wait batch _ => ∀ event ∈ batch, event.fd = fd →
      event.events = stream.socket.readiness ∧ event.events ≠ 0
  | .perform (.submit op) _ _ => op.fd = fd → op.code = .read ∧ 0 < length op
  | .dispatch result _ => ∀ op, stream.served fd = some (.onReadable, op) →
      result = stream.socket.result (length op)
  | _ => True

instance (stream : EpollStream) (fd : ℤ) (length : IoOperation → ℕ) :
    (step : EpollStep) → Decidable (stream.Permitted fd length step)
  | .wait batch _ => inferInstanceAs (Decidable (∀ event ∈ batch, _))
  | .perform (.submit _) _ _ => inferInstanceAs (Decidable (_ → _))
  | .dispatch result _ =>
      match served : stream.served fd with
      | some (.onReadable, op) =>
          if same : result = stream.socket.result (length op) then
            .isTrue fun other served' => by
              rw [served] at served'
              cases served'
              exact same
          else .isFalse fun all => same (all op served)
      | some (.onWriteable, _) | some (.onClose, _) | some (.onError, _) | none =>
          .isTrue fun other served' => by
            rw [served] at served'
            cases served'
  | .perform (.cancel _) _ _ | .perform .stop _ _ | .proceed | .sweep | .leave =>
      inferInstanceAs (Decidable True)

/-- What a step of the proactor does to the socket and to what the client has got. -/
def serve (stream : EpollStream) (fd : ℤ) (length : IoOperation → ℕ) :
    EpollStep → StreamSocket × Reception
  | .dispatch result _ =>
      match stream.served fd with
      | some (.onReadable, op) => (stream.socket.read (length op),
          stream.reception.complete (stream.socket.taken (length op)) result)
      | some (.onClose, _) => (stream.socket, stream.reception.complete [] 0)
      | _ => (stream.socket, stream.reception)
  | _ => (stream.socket, stream.reception)

/-- One step. -/
def act (wakeup fd : ℤ) (length : IoOperation → ℕ) (stream : EpollStream) :
    StreamStep → Option EpollStream
  | .append bytes => (stream.socket.append bytes).map fun socket => { stream with socket := socket }
  | .close => stream.socket.close.map fun socket => { stream with socket := socket }
  | .loop step =>
      if stream.Permitted fd length step then
        (stream.proactor.act wakeup step).map fun proactor =>
          ⟨proactor, (stream.serve fd length step).1, (stream.serve fd length step).2⟩
      else none

/-- Epoll reports the socket closed only when there is nothing left to be read. -/
def Drained (fd : ℤ) (stream : EpollStream) : StreamStep → Prop
  | .loop (.wait batch _) => (∃ event ∈ batch, event.fd = fd) → stream.socket.closed = true →
      stream.socket.queue = []
  | _ => True

instance (fd : ℤ) (stream : EpollStream) : (step : StreamStep) → Decidable (stream.Drained fd step)
  | .loop (.wait batch _) => inferInstanceAs (Decidable ((∃ event ∈ batch, _) → _))
  | .loop (.dispatch _ _) | .loop (.perform _ _ _) | .loop .proceed | .loop .sweep | .loop .leave =>
      inferInstanceAs (Decidable True)
  | .append _ | .close => inferInstanceAs (Decidable True)

/-! ## What is delivered -/

variable {stream after : EpollStream} {wakeup fd : ℤ} {length : IoOperation → ℕ}

/-- The peer has closed if epoll says so first of all. -/
theorem closed_of_readiness (told : Registry.callbackOf socket.readiness = some .onClose) :
    socket.closed = true := by
  by_contra open'
  unfold StreamSocket.readiness at told
  rw [if_neg open'] at told
  split_ifs at told
  · cases told
  · cases told

/-- The bytes are delivered in order, a report of the close that is still to be dispatched finds
nothing left to be read, and the Read has a positive length. -/
structure Sound (fd : ℤ) (length : IoOperation → ℕ) (stream : EpollStream) : Prop where
  seated : stream.proactor.Seated
  delivers : stream.socket.Delivers stream.reception
  told : ∀ event ∈ stream.proactor.pending, event.fd = fd →
    Registry.callbackOf event.events = some .onClose →
      stream.socket.closed = true ∧ stream.socket.queue = []
  positive : ∀ op, stream.proactor.slots .read fd = some op → 0 < length op

theorem initial_sound (wakeup fd : ℤ) (length : IoOperation → ℕ) :
    Sound fd length (initial wakeup) where
  seated := EpollOperations.initial_seated wakeup
  delivers := initial_delivers
  told := fun _ => nofun
  positive := fun _ => nofun

theorem served_eq_some {callback : Callback} {op : IoOperation}
    (served : stream.served fd = some (callback, op)) :
    stream.proactor.slots .read fd = some op ∧ ∃ event ∈ stream.proactor.pending,
      event.fd = fd ∧ Registry.callbackOf event.events = some callback := by
  unfold EpollStream.served at served
  split at served
  · rename_i event rest returned pending
    split_ifs at served with here
    split at served
    · rename_i dispatched full
      cases served
      refine ⟨full, event, ?_, here, (Registry.dispatchEvent_eq_some.mp dispatched).2.2⟩
      rw [pending]
      exact List.mem_cons_self ..
    · cases served
  · cases served

/-- What a Read gets that is completed when an event is dispatched. -/
theorem Sound.serve (sound : Sound fd length stream) {result : ℤ} {verdict : Option Errno}
    (permitted : stream.Permitted fd length (.dispatch result verdict)) :
    (stream.serve fd length (.dispatch result verdict)).1.Delivers
        (stream.serve fd length (.dispatch result verdict)).2 ∧
      (stream.socket.closed = true ∧ stream.socket.queue = [] →
        (stream.serve fd length (.dispatch result verdict)).1.closed = true ∧
          (stream.serve fd length (.dispatch result verdict)).1.queue = []) := by
  have same : stream.socket.Delivers stream.reception ∧
      (stream.socket.closed = true ∧ stream.socket.queue = [] →
        stream.socket.closed = true ∧ stream.socket.queue = []) := ⟨sound.delivers, id⟩
  unfold EpollStream.serve
  dsimp only
  split
  · rename_i op served
    rw [permitted op served]
    refine ⟨sound.delivers.read (sound.positive op (served_eq_some served).1), ?_⟩
    rintro ⟨closed, empty⟩
    refine ⟨closed, ?_⟩
    change stream.socket.queue.drop _ = []
    rw [empty, List.drop_nil]
  · rename_i op served
    obtain ⟨-, event, inside, here, callback⟩ := served_eq_some served
    obtain ⟨closed, empty⟩ := sound.told event inside here callback
    refine ⟨?_, id⟩
    unfold Reception.complete
    split_ifs
    · exact sound.delivers
    · refine ⟨?_, fun _ => ⟨closed, empty⟩⟩
      rw [List.append_nil]
      exact sound.delivers.order
  · exact same

theorem Sound.loop (sound : Sound fd length stream) {step : EpollStep}
    (permitted : stream.Permitted fd length step) (drained : stream.Drained fd (.loop step))
    {proactor : EpollOperations} (happens : stream.proactor.act wakeup step = some proactor) :
    Sound fd length
      ⟨proactor, (stream.serve fd length step).1, (stream.serve fd length step).2⟩ := by
  have made := EpollOperations.step_of_act happens
  have seated := sound.seated.step made
  cases made with
  | @wait batch stop checking running fetched =>
      refine ⟨seated, sound.delivers, ?_, sound.positive⟩
      intro event inside here callback
      rw [(permitted event inside here).1] at callback
      have closed := closed_of_readiness callback
      exact ⟨closed, drained ⟨event, inside, here⟩ closed⟩
  | @dispatch event rest result verdict proactor returned pending dispatched =>
      obtain ⟨delivers, empty⟩ := sound.serve permitted
      have taken : EpollOperations.Seated { stream.proactor with pending := rest } :=
        sound.seated.same rfl le_rfl rfl rfl rfl
      have kept := taken.kept_dispatchEvent dispatched
      refine ⟨seated, delivers, ?_, ?_⟩
      · intro other inside here callback
        rw [kept.pending] at inside
        refine empty (sound.told other ?_ here callback)
        rw [pending]
        exact List.mem_cons_of_mem _ inside
      · intro op full
        exact sound.positive op (kept.slots _ _ _ full)
  | @perform request connected verdict own rest top =>
      refine ⟨seated, sound.delivers, ?_, ?_⟩
      · intro event inside
        rw [EpollOperations.pending_serve] at inside
        exact sound.told event inside
      · intro op full
        rcases EpollOperations.slots_serve full with before | ⟨rfl, -, here⟩
        · exact sound.positive op before
        · exact (permitted here.symm).2
  | proceed goes =>
      have kept := sound.seated.kept_proceed goes
      refine ⟨seated, sound.delivers, ?_, ?_⟩
      · intro event inside
        rw [kept.pending] at inside
        exact sound.told event inside
      · intro op full
        exact sound.positive op (kept.slots _ _ _ full)
  | sweep dispatching returned empty =>
      exact ⟨seated, sound.delivers, sound.told, sound.positive⟩
  | leave checking stopped => exact ⟨seated, sound.delivers, sound.told, sound.positive⟩

theorem Sound.step (sound : Sound fd length stream) {step : StreamStep}
    (drained : stream.Drained fd step)
    (happens : stream.act wakeup fd length step = some after) : Sound fd length after := by
  cases step with
  | append bytes =>
      obtain ⟨socket, appended, rfl⟩ := Option.map_eq_some_iff.mp happens
      refine ⟨sound.seated, sound.delivers.append appended, ?_, sound.positive⟩
      intro event inside here callback
      unfold StreamSocket.append at appended
      rw [(sound.told event inside here callback).1] at appended
      cases appended
  | close =>
      obtain ⟨socket, closed, rfl⟩ := Option.map_eq_some_iff.mp happens
      refine ⟨sound.seated, sound.delivers.close closed, ?_, sound.positive⟩
      intro event inside here callback
      unfold StreamSocket.close at closed
      rw [(sound.told event inside here callback).1] at closed
      cases closed
  | loop step =>
      obtain ⟨permitted, made⟩ := Option.ite_none_right_eq_some.mp happens
      obtain ⟨proactor, stepped, rfl⟩ := Option.map_eq_some_iff.mp made
      exact sound.loop permitted drained stepped

/-- In a run in which epoll reports the socket closed only when there is nothing left to be
read, the Reads before the first with the result zero deliver all that the peer has sent. -/
theorem reads_everything {steps : List StreamStep}
    (trace : Trace (act wakeup fd length) (initial wakeup) steps stream)
    (drained : Along (act wakeup fd length) (Drained fd) (initial wakeup) steps)
    (ended : stream.reception.ended = true) :
    stream.reception.delivered = stream.socket.sent := by
  have sound : Sound fd length stream := by
    refine trace.invariant_along (Sound fd length) ?_ (initial_sound wakeup fd length) drained
    intro state step after sound met happens
    exact sound.step met happens
  exact sound.delivers.complete ended

/-- Two Reads of one socket. -/
def firstRead : IoOperation := ⟨0, .read, 5⟩
def secondRead : IoOperation := ⟨1, .read, 5⟩

/-- The first Read is submitted. -/
def submitted : List StreamStep :=
  [.loop (.wait [⟨3, epollIn, 0⟩] false), .loop (.dispatch 0 none),
    .loop (.perform (.submit firstRead) true none), .loop .proceed, .loop .sweep]

/-- The peer sends two bytes, which are read, and closes. -/
def readThenClosed : List StreamStep :=
  submitted ++ [.append [1, 2], .loop (.wait [⟨5, epollIn, 0⟩] false), .loop (.dispatch 2 none),
    .loop .proceed, .loop (.perform (.submit secondRead) true none), .loop .proceed, .loop .sweep,
    .close, .loop (.wait [⟨5, epollIn ||| epollRdHup, 0⟩] false), .loop (.dispatch 0 none)]

theorem reads_everything_sample : ∃ stream : EpollStream,
    stream.reception.ended = true ∧ stream.socket.sent = [1, 2] ∧
      stream.reception.delivered = stream.socket.sent := by
  have run : ((follow (act 3 5 fun _ => 4) (initial 3) readThenClosed).any fun stream =>
      stream.reception.ended && stream.socket.sent == [1, 2]) = true := by
    decide +kernel
  have checked : checks (act 3 5 fun _ => 4) (fun stream step => decide (stream.Drained 5 step))
      (initial 3) readThenClosed = true := by
    decide +kernel
  obtain ⟨stream, trace, tested⟩ := Trace.exists_of_follow run
  obtain ⟨ended, sent⟩ := Bool.and_eq_true_iff.mp tested
  exact ⟨stream, ended, eq_of_beq sent,
    reads_everything trace (along_of_checks (fun _ _ met => of_decide_eq_true met) checked) ended⟩

/-- The peer sends two bytes and closes before the loop waits. -/
theorem bytes_lost : ¬∀ (wakeup fd : ℤ) (length : IoOperation → ℕ) (steps : List StreamStep)
    (stream : EpollStream), Trace (act wakeup fd length) (initial wakeup) steps stream →
      stream.reception.ended = true → stream.reception.delivered = stream.socket.sent := by
  intro always
  have run : ((follow (act 3 5 fun _ => 4) (initial 3) (submitted ++ [.append [1, 2], .close,
      .loop (.wait [⟨5, epollIn ||| epollRdHup, 0⟩] false), .loop (.dispatch 0 none)])).any
      fun stream => stream.reception.ended &&
        (stream.reception.delivered == [] && stream.socket.sent == [1, 2])) = true := by
    decide +kernel
  obtain ⟨stream, trace, tested⟩ := Trace.exists_of_follow run
  simp only [Bool.and_eq_true, beq_iff_eq] at tested
  obtain ⟨ended, delivered, sent⟩ := tested
  have all := always 3 5 (fun _ => 4) _ stream trace ended
  rw [delivered, sent] at all
  cases all

end EpollStream

end Join
