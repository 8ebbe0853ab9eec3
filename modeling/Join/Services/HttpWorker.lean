import Join.Services.HttpMessage

/-!
# The request loop of a worker

`BasicHttpWorker::processRequest` serves the requests of one connection. It counts in `_max`
how many are left, and a response that says the connection closes sets the counter to zero.
The loop then tests `(_max < 0) || (--_max != 0)`: a counter of zero becomes `-1` and the loop
goes on, from now on without a bound.

What the client sends is a list: each element is what `readHeaders` makes of it, a request or
an error, and the end of the list is the end of the stream. A handler is what it calls of the
worker. Of the headers of a response only `Connection` matters here.
-/

set_option autoImplicit false

namespace Join.HttpWorker

open Library

/-- `keep-alive`. -/
def keepAlive : List UInt8 := [107, 101, 101, 112, 45, 97, 108, 105, 118, 101]

/-- `Keep-Alive`. -/
def keepAliveValue : List UInt8 := [75, 101, 101, 112, 45, 65, 108, 105, 118, 101]

/-- `close`. -/
def closeValue : List UInt8 := [99, 108, 111, 115, 101]

/-- `Connection`. -/
def connectionName : List UInt8 := [67, 111, 110, 110, 101, 99, 116, 105, 111, 110]

/-- `Host`. -/
def hostName : List UInt8 := [72, 111, 115, 116]

/-- `Authorization`. -/
def authorizationName : List UInt8 := [65, 117, 116, 104, 111, 114, 105, 122, 97, 116, 105, 111, 110]

/-- `compareNoCase`. -/
def compareNoCase (left right : List UInt8) : Bool := left.map lowerCase == right.map lowerCase

/-- `HttpMessage::header`. -/
def header (request : HttpRequest) (name : List UInt8) : List UInt8 :=
  (request.headers.find name).getD []

/-- `HttpRequest::host`. -/
def host (request : HttpRequest) : List UInt8 :=
  let host := header request hostName
  if host.headD 0 = 91 then
    match HttpRequest.cut [93] host with
    | none => []
    | some (address, _) => address ++ [93]
  else host.takeWhile fun byte => byte != 58

/-- What a response head or a handler does to the worker. -/
inductive Action
  | header (name value : List UInt8)
  | sendHeaders
  | sendError
deriving DecidableEq, Repr

/-- The answer of an access handler. -/
inductive Access
  | granted
  | unauthorized
  | forbidden
  | refused
deriving DecidableEq, Repr

/-- What `sendFile` finds. -/
inductive File
  | missing
  | unmodified
  | present
deriving DecidableEq, Repr

/-- What a content serves: a file of the document root or of an alias, what a handler does, or
a redirection. -/
inductive Serves
  | file (lookup : HttpRequest → File)
  | exec (handler : Option (HttpRequest → List Action))
  | redirect

/-- A content as the worker uses it. -/
structure Content where
  access : Option (HttpRequest → Access)
  serves : Serves

/-- The content that a server finds for a request. -/
abbrev Server : Type := HttpRequest → Option Content

/-- `BasicHttpWorker::sendFile`. A file that was not modified is answered by `sendRedirect`. -/
def sendFile : File → List Action
  | .missing => [.sendError]
  | .unmodified => [.sendHeaders]
  | .present => [.sendHeaders]

/-- The end of `BasicHttpWorker::writeResponse`, once access is granted. -/
def serve (request : HttpRequest) : Serves → List Action
  | .file lookup => sendFile (lookup request)
  | .exec none => [.sendError]
  | .exec (some handler) => handler request
  | .redirect => [.sendHeaders]

/-- `BasicHttpWorker::writeResponse`. -/
def writeResponse (server : Server) (request : HttpRequest) : List Action :=
  match server request with
  | none => [.sendError]
  | some content =>
      match content.access with
      | none => serve request content.serves
      | some access =>
          if (request.headers.find authorizationName).isNone then [.sendError]
          else
            match access request with
            | .granted => serve request content.serves
            | .unauthorized => [.sendError]
            | .forbidden => [.sendError]
            | .refused => []

/-! ## The worker -/

/-- What happens on a connection: a request is read, one is served, or a response head is sent
with a value of its `Connection` header. -/
inductive Event
  | read
  | served
  | sent (connection : List UInt8)
deriving DecidableEq, Repr

/-- A worker while it serves a request: the counter, the `Connection` header of the response
and the events. -/
structure Worker where
  max : ℤ
  connection : Option (List UInt8)
  events : List Event
deriving DecidableEq, Repr

/-- The request asks to keep the connection. -/
def wantsKeepAlive (request : HttpRequest) : Bool :=
  compareNoCase (header request connectionName) keepAlive

/-- `BasicHttpWorker::sendHeaders`. -/
def sendHeaders (request : HttpRequest) (worker : Worker) : Worker :=
  match worker.connection with
  | some value => { worker with events := worker.events ++ [.sent value] }
  | none =>
      if worker.max ≠ 0 ∧ wantsKeepAlive request then
        { worker with
          connection := some keepAliveValue
          events := worker.events ++ [.sent keepAliveValue] }
      else ⟨0, some closeValue, worker.events ++ [.sent closeValue]⟩

/-- What a call does to the worker. -/
def perform (request : HttpRequest) (worker : Worker) : Action → Worker
  | .header name value =>
      if noCaseRank name = noCaseRank connectionName then { worker with connection := some value }
      else worker
  | .sendHeaders => sendHeaders request worker
  | .sendError => sendHeaders request { worker with max := 0, connection := some closeValue }

/-- `BasicHttpWorker::readRequest` on what the client has sent: the request, or the events of
the error response. -/
def readRequest (input : Except HttpErrc HttpRequest) : Except (List Event) HttpRequest :=
  match input with
  | .error .stream => .error []
  | .error _ => .error [.sent closeValue]
  | .ok request => if (host request).isEmpty then .error [.sent closeValue] else .ok request

/-- `writeResponse` and `cleanUp`. -/
def respond (server : Server) (max : ℤ) (request : HttpRequest) : Worker :=
  (writeResponse server request).foldl (perform request) ⟨max, none, []⟩

/-- `BasicHttpWorker::processRequest` with the counter at `max`: the events on the connection. -/
def processRequest (server : Server) (max : ℤ) : List (Except HttpErrc HttpRequest) → List Event
  | [] => []
  | input :: inputs =>
      match readRequest input with
      | .error events => .read :: events
      | .ok request =>
          let worker := respond server max request
          .read :: .served :: worker.events ++
            if worker.max < 0 then processRequest server worker.max inputs
            else if worker.max - 1 ≠ 0 then processRequest server (worker.max - 1) inputs
            else []

/-! ## The bound -/

/-- A `Connection` header says that the connection closes. -/
def isClose (value : List UInt8) : Bool := compareNoCase value closeValue

/-- No request is read after a response that says the connection closes. -/
def NoReadAfterClose (events : List Event) : Prop :=
  ∀ before value after, events = before ++ .sent value :: after → isClose value → .read ∉ after

/-- At most `max` requests are served, and none is read after the connection is said to close. -/
def KeepAliveBound (max : ℕ) (events : List Event) : Prop :=
  events.count .served ≤ max ∧ NoReadAfterClose events

/-- The calls set the counter to zero, with the `Connection` header that is set before them. -/
def zeroes (request : HttpRequest) : Option (List UInt8) → List Action → Bool
  | _, [] => false
  | connection, .header name value :: actions =>
      zeroes request
        (if noCaseRank name = noCaseRank connectionName then some value else connection) actions
  | _, .sendError :: _ => true
  | none, .sendHeaders :: actions =>
      !wantsKeepAlive request || zeroes request (some keepAliveValue) actions
  | some value, .sendHeaders :: actions => zeroes request (some value) actions

/-- The calls send a response that says the connection closes. -/
def closes (request : HttpRequest) : Option (List UInt8) → List Action → Bool
  | _, [] => false
  | connection, .header name value :: actions =>
      closes request
        (if noCaseRank name = noCaseRank connectionName then some value else connection) actions
  | _, .sendError :: _ => true
  | none, .sendHeaders :: actions =>
      !wantsKeepAlive request || closes request (some keepAliveValue) actions
  | some value, .sendHeaders :: actions => isClose value || closes request (some value) actions

/-- What the client sends does not reach the loop's test with a counter of zero, nor a request
behind a response that closes: each request that another one follows, up to the last one that
is allowed, keeps the connection alive. -/
def Polite (server : Server) : ℕ → List (Except HttpErrc HttpRequest) → Prop
  | _, [] => True
  | max, input :: inputs =>
      match readRequest input with
      | .error _ => True
      | .ok request =>
          inputs = [] ∨
            zeroes request none (writeResponse server request) = false ∧
              (max ≤ 1 ∨ closes request none (writeResponse server request) = false ∧
                Polite server (max - 1) inputs)

/-! ## One response -/

/-- A worker that has already been told to close. -/
theorem foldl_perform_closed (request : HttpRequest) (actions : List Action) (worker : Worker)
    (zero : worker.max = 0) (set : worker.connection.isSome) :
    (actions.foldl (perform request) worker).max = 0 ∧
      ∃ more, (actions.foldl (perform request) worker).events = worker.events ++ more ∧
        ∀ event ∈ more, ∃ value, event = .sent value := by
  induction actions generalizing worker with
  | nil => exact ⟨zero, [], (List.append_nil _).symm, fun _ member => absurd member List.not_mem_nil⟩
  | cons action actions ih =>
      have step : (perform request worker action).max = 0 ∧
          (perform request worker action).connection.isSome ∧
          ∃ sent, (perform request worker action).events = worker.events ++ sent ∧
            ∀ event ∈ sent, ∃ value, event = .sent value := by
        obtain ⟨value, known⟩ := Option.isSome_iff_exists.mp set
        have one : ∀ value, ∀ event ∈ [Event.sent value], ∃ value, event = .sent value :=
          fun value event member => ⟨value, List.mem_singleton.mp member⟩
        cases action with
        | header name value =>
            rw [perform]
            split_ifs
            · exact ⟨zero, rfl, [], (List.append_nil _).symm,
                fun _ member => absurd member List.not_mem_nil⟩
            · exact ⟨zero, set, [], (List.append_nil _).symm,
                fun _ member => absurd member List.not_mem_nil⟩
        | sendHeaders =>
            rw [perform, sendHeaders, known]
            exact ⟨zero, rfl, [.sent value], rfl, one value⟩
        | sendError => exact ⟨rfl, rfl, [.sent closeValue], rfl, one closeValue⟩
      obtain ⟨still, stillSet, sent, grown, heads⟩ := step
      obtain ⟨final, more, all, others⟩ := ih _ still stillSet
      refine ⟨final, sent ++ more, ?_, ?_⟩
      · rw [List.foldl_cons, all, grown, List.append_assoc]
      · intro event member
        rcases List.mem_append.mp member with first | second
        · exact heads event first
        · exact others event second

/-- The events of a response are response heads, one of which closes or not. -/
structure Heads (closing : Bool) (events : List Event) : Prop where
  heads : ∀ event ∈ events, ∃ value, event = .sent value
  closing : (∃ value, .sent value ∈ events ∧ isClose value) ↔ closing = true

theorem Heads.nil : Heads false [] :=
  ⟨fun _ member => absurd member List.not_mem_nil,
    iff_of_false (fun some => absurd some.choose_spec.1 List.not_mem_nil) Bool.false_ne_true⟩

theorem Heads.cons {closing : Bool} {events : List Event} (heads : Heads closing events)
    (value : List UInt8) : Heads (isClose value || closing) (.sent value :: events) := by
  refine ⟨?_, ?_⟩
  · intro event member
    rcases List.mem_cons.mp member with rfl | member
    · exact ⟨value, rfl⟩
    · exact heads.heads event member
  · rw [Bool.or_eq_true, ← heads.closing]
    constructor
    · rintro ⟨other, member, closed⟩
      rcases List.mem_cons.mp member with same | member
      · cases same
        exact .inl closed
      · exact .inr ⟨other, member, closed⟩
    · rintro (closed | ⟨other, member, closed⟩)
      · exact ⟨value, List.mem_cons_self, closed⟩
      · exact ⟨other, List.mem_cons_of_mem _ member, closed⟩

/-- Heads behind one that closes. -/
theorem heads_closed {events : List Event} (heads : ∀ event ∈ events, ∃ value, event = .sent value) :
    Heads true (.sent closeValue :: events) := by
  refine ⟨?_, ?_⟩
  · intro event member
    rcases List.mem_cons.mp member with rfl | member
    · exact ⟨closeValue, rfl⟩
    · exact heads event member
  · exact iff_of_true ⟨closeValue, List.mem_cons_self, rfl⟩ rfl

/-- What the calls of a response do to a worker whose counter is not zero. -/
theorem foldl_perform (request : HttpRequest) (actions : List Action) (worker : Worker)
    (counting : worker.max ≠ 0) :
    (actions.foldl (perform request) worker).max =
        (if zeroes request worker.connection actions then 0 else worker.max) ∧
      ∃ more, (actions.foldl (perform request) worker).events = worker.events ++ more ∧
        Heads (closes request worker.connection actions) more := by
  induction actions generalizing worker with
  | nil => exact ⟨rfl, [], (List.append_nil _).symm, Heads.nil⟩
  | cons action actions ih =>
      rw [List.foldl_cons]
      cases action with
      | header name value =>
          rw [perform, zeroes, closes]
          by_cases connection : noCaseRank name = noCaseRank connectionName
          · rw [if_pos connection, if_pos connection]
            exact ih _ counting
          · rw [if_neg connection, if_neg connection]
            exact ih _ counting
      | sendError =>
          obtain ⟨zero, more, events, heads⟩ := foldl_perform_closed request actions
            (perform request worker .sendError) rfl rfl
          refine ⟨zero, .sent closeValue :: more, ?_, heads_closed heads⟩
          rw [events]
          exact List.append_assoc _ _ _
      | sendHeaders =>
          obtain ⟨max, connection, old⟩ := worker
          cases connection with
          | some value =>
              obtain ⟨zero, more, events, heads⟩ :=
                ih ⟨max, some value, old ++ [.sent value]⟩ counting
              refine ⟨zero, .sent value :: more, ?_, heads.cons value⟩
              exact events.trans (List.append_assoc _ _ _)
          | none =>
              by_cases wants : wantsKeepAlive request = true
              · have step : perform request ⟨max, none, old⟩ .sendHeaders =
                    ⟨max, some keepAliveValue, old ++ [.sent keepAliveValue]⟩ := by
                  rw [perform, sendHeaders]
                  exact if_pos ⟨counting, wants⟩
                obtain ⟨zero, more, events, heads⟩ :=
                  ih ⟨max, some keepAliveValue, old ++ [.sent keepAliveValue]⟩ counting
                have open_ : isClose keepAliveValue = false := by decide
                have whole := heads.cons keepAliveValue
                rw [open_, Bool.false_or] at whole
                rw [step, zeroes, closes, wants]
                refine ⟨zero, .sent keepAliveValue :: more, ?_, whole⟩
                exact events.trans (List.append_assoc _ _ _)
              · have step : perform request ⟨max, none, old⟩ .sendHeaders =
                    ⟨0, some closeValue, old ++ [.sent closeValue]⟩ := by
                  rw [perform, sendHeaders]
                  exact if_neg fun both => wants both.2
                obtain ⟨zero, more, events, heads⟩ := foldl_perform_closed request actions
                  ⟨0, some closeValue, old ++ [.sent closeValue]⟩ rfl rfl
                rw [Bool.not_eq_true] at wants
                rw [step, zeroes, closes, wants]
                refine ⟨zero, .sent closeValue :: more, ?_, heads_closed heads⟩
                exact events.trans (List.append_assoc _ _ _)

/-- What a response does to the counter, and what it sends. -/
theorem respond_spec (server : Server) {max : ℤ} (counting : max ≠ 0) (request : HttpRequest) :
    (respond server max request).max =
        (if zeroes request none (writeResponse server request) then 0 else max) ∧
      Heads (closes request none (writeResponse server request))
        (respond server max request).events := by
  obtain ⟨counter, more, events, heads⟩ := foldl_perform request (writeResponse server request)
    ⟨max, none, []⟩ counting
  refine ⟨counter, ?_⟩
  rw [respond, events, List.nil_append]
  exact heads

/-- A response that sets the counter to zero says that the connection closes. -/
theorem closes_of_zeroes {request : HttpRequest} {connection : Option (List UInt8)}
    {actions : List Action} (zero : zeroes request connection actions = true) :
    closes request connection actions = true := by
  induction actions generalizing connection with
  | nil => exact zero
  | cons action actions ih =>
      cases action with
      | header name value => exact ih zero
      | sendError => rfl
      | sendHeaders =>
          cases connection with
          | some value =>
              rw [closes, ih zero, Bool.or_true]
          | none =>
              rw [zeroes, Bool.or_eq_true] at zero
              rw [closes, Bool.or_eq_true]
              exact zero.imp id ih

/-! ## The loop -/

theorem count_heads {closing : Bool} {events : List Event} (heads : Heads closing events) :
    events.count .served = 0 := by
  rw [List.count_eq_zero]
  intro member
  obtain ⟨value, same⟩ := heads.heads _ member
  cases same

/-- Events behind a request and its response. -/
theorem noReadAfterClose_iff {closing : Bool} {events later : List Event}
    (heads : Heads closing events) :
    NoReadAfterClose (.read :: .served :: events ++ later) ↔
      (closing = true → .read ∉ later) ∧ NoReadAfterClose later := by
  constructor
  · intro none
    refine ⟨?_, ?_⟩
    · intro closed member
      obtain ⟨value, sent, close⟩ := heads.closing.mpr closed
      obtain ⟨before, after, rfl⟩ := List.append_of_mem sent
      refine none (.read :: .served :: before) value (after ++ later) ?_ close
        (List.mem_append_right _ member)
      simp
    · rintro before value after rfl close
      exact none (.read :: .served :: events ++ before) value after (by simp) close
  · rintro ⟨quiet, none⟩ before value after split close
    -- the response that closes is one of this request's, or one behind it
    have inside : ∀ events before : List Event, Heads closing events →
        events ++ later = before ++ .sent value :: after → .read ∉ after := by
      intro events before heads split
      rcases List.append_eq_append_iff.mp split with ⟨more, rfl, rest⟩ | ⟨more, rfl, rest⟩
      · exact none more value after rest close
      · cases more with
        | nil => exact none [] value after rest.symm close
        | cons first more =>
            rw [List.cons_append, List.cons.injEq] at rest
            obtain ⟨rfl, rfl⟩ := rest
            have closed : closing = true := heads.closing.mp
              ⟨value, List.mem_append_right _ List.mem_cons_self, close⟩
            intro member
            rcases List.mem_append.mp member with here | there
            · obtain ⟨other, same⟩ := heads.heads _
                (List.mem_append_right _ (List.mem_cons_of_mem _ here))
              cases same
            · exact quiet closed there
    cases before with
    | nil => cases split
    | cons first before =>
        cases before with
        | nil => cases split
        | cons second before =>
            rw [List.cons_append, List.cons_append, List.cons_append, List.cons_append] at split
            obtain ⟨-, rest⟩ := List.cons.inj split
            obtain ⟨-, rest⟩ := List.cons.inj rest
            exact inside events before heads rest

/-- A loop with more to read reads. -/
theorem read_mem_processRequest (server : Server) (max : ℤ)
    {inputs : List (Except HttpErrc HttpRequest)} (some : inputs ≠ []) :
    .read ∈ processRequest server max inputs := by
  cases inputs with
  | nil => exact absurd rfl some
  | cons input inputs =>
      rw [processRequest]
      split
      · exact List.mem_cons_self
      · exact List.mem_cons_self

/-- A request that is not read is answered by at most one response, and the loop ends. -/
theorem keepAliveBound_refused {input : Except HttpErrc HttpRequest} {events : List Event}
    (refused : readRequest input = .error events) (max : ℕ) :
    KeepAliveBound max (.read :: events) := by
  have few : events = [] ∨ events = [.sent closeValue] := by
    unfold readRequest at refused
    split at refused
    · exact .inl (Except.error.inj refused).symm
    · exact .inr (Except.error.inj refused).symm
    · split_ifs at refused
      exact .inr (Except.error.inj refused).symm
  rcases few with rfl | rfl
  · refine ⟨Nat.zero_le _, ?_⟩
    intro before value after split
    simp [List.cons_eq_append_iff] at split
  · refine ⟨Nat.zero_le _, ?_⟩
    intro before value after split close member
    have behind : after = [] := by
      cases before with
      | nil => cases split
      | cons first before =>
          have length := congrArg List.length split
          simp only [List.length_cons, List.length_append, List.length_nil] at length
          exact List.eq_nil_of_length_eq_zero (by omega)
    rw [behind] at member
    exact absurd member List.not_mem_nil

/-- A request that is served, with what follows it. -/
theorem keepAliveBound_served {closing : Bool} {events later : List Event}
    (heads : Heads closing events) {max : ℕ} (positive : 0 < max) :
    KeepAliveBound max (.read :: .served :: events ++ later) ↔
      (closing = true → .read ∉ later) ∧ KeepAliveBound (max - 1) later := by
  have counted : (Event.read :: .served :: events ++ later).count .served =
      later.count .served + 1 := by
    have none := count_heads heads
    rw [List.cons_append, List.cons_append, List.count_cons_of_ne (by decide),
      List.count_cons_self, List.count_append, none, Nat.zero_add]
  rw [KeepAliveBound, KeepAliveBound, counted, noReadAfterClose_iff heads]
  constructor
  · rintro ⟨few, quiet, none⟩
    exact ⟨quiet, by omega, none⟩
  · rintro ⟨quiet, few, none⟩
    exact ⟨by omega, quiet, none⟩

theorem keepAliveBound_nil (max : ℕ) : KeepAliveBound max [] :=
  ⟨Nat.zero_le _, fun before value after split => by simp at split⟩

/-- On every connection, at most `max` requests are served and none is read after the connection
is said to close, exactly when each request that another one follows, up to the last one that is
allowed, keeps the connection alive: it asks for that, it is not answered by an error, and no
handler closes the connection. -/
theorem keep_alive_bound_iff (server : Server) (max : ℕ) (positive : 0 < max)
    (inputs : List (Except HttpErrc HttpRequest)) :
    KeepAliveBound max (processRequest server max inputs) ↔ Polite server max inputs := by
  induction inputs generalizing max with
  | nil => exact iff_of_true (keepAliveBound_nil max) trivial
  | cons input inputs ih =>
      rw [processRequest, Polite]
      cases read : readRequest input with
      | error events => exact iff_of_true (keepAliveBound_refused read max) trivial
      | ok request =>
          have counting : (max : ℤ) ≠ 0 := by omega
          obtain ⟨counter, heads⟩ := respond_spec server counting request
          dsimp only
          rw [keepAliveBound_served heads positive, counter]
          by_cases last : inputs = []
          · subst last
            refine iff_of_true ?_ (.inl rfl)
            simp only [processRequest, ite_self]
            exact ⟨fun _ => List.not_mem_nil, keepAliveBound_nil _⟩
          cases zero : zeroes request none (writeResponse server request) with
          | true =>
              -- the counter goes from zero to `-1`, and the loop reads on
              have reads := read_mem_processRequest server (0 - 1) last
              rw [if_pos rfl, if_neg (lt_irrefl 0), if_pos (by decide)]
              refine iff_of_false ?_ ?_
              · exact fun bound => bound.1 (closes_of_zeroes zero) reads
              · rintro (none | ⟨kept, -⟩)
                · exact last none
                · exact Bool.noConfusion kept
          | false =>
              rw [if_neg Bool.false_ne_true, if_neg (by omega)]
              by_cases single : max = 1
              · subst single
                rw [if_neg (by decide)]
                exact iff_of_true ⟨fun _ => List.not_mem_nil, keepAliveBound_nil _⟩
                  (.inr ⟨rfl, .inl le_rfl⟩)
              · have next : ((max : ℤ) - 1) = ((max - 1 : ℕ) : ℤ) := by omega
                have reads := read_mem_processRequest server ((max - 1 : ℕ) : ℤ) last
                rw [if_pos (by omega), next, ih (max - 1) (by omega)]
                constructor
                · rintro ⟨quiet, polite⟩
                  refine .inr ⟨rfl, .inr ⟨?_, polite⟩⟩
                  rw [Bool.eq_false_iff]
                  exact fun closed => quiet closed reads
                · rintro (none | ⟨-, few | ⟨kept, polite⟩⟩)
                  · exact absurd none last
                  · omega
                  · exact ⟨fun closed => absurd (kept.symm.trans closed) Bool.false_ne_true, polite⟩

/-- A request for the host `h`, with a value of its `Connection` header. -/
def sampleRequest (connection : List UInt8) : HttpRequest :=
  { headers := (SortedMap.empty.assign hostName [104]).assign connectionName connection }

/-- A server with a redirection for every path. -/
def sampleServer : Server := fun _ => some ⟨none, .redirect⟩

theorem keep_alive_bound_two : KeepAliveBound 2 (processRequest sampleServer 2
    [.ok (sampleRequest keepAlive), .ok (sampleRequest keepAlive), .ok (sampleRequest [])]) :=
  (keep_alive_bound_iff sampleServer 2 (by decide) _).mpr
    (.inr ⟨by decide, .inr ⟨by decide, .inr ⟨by decide, .inl le_rfl⟩⟩⟩)

/-- Three requests that do not ask to keep the connection are all served, although one is allowed
and each response says that the connection closes. -/
theorem close_not_kept : ¬ KeepAliveBound 1 (processRequest sampleServer 1
    [.ok (sampleRequest []), .ok (sampleRequest []), .ok (sampleRequest [])]) := by
  rintro ⟨few, -⟩
  exact absurd few (by decide)

end Join.HttpWorker
