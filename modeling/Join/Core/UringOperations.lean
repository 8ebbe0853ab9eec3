import Join.Core.Operations
import Mathlib.Logic.Function.Basic

/-!
# The operations of the io_uring proactor

The io_uring proactor hands an operation to the kernel in a submission and lists it in
`_pendingOps`, where the operation knows its place, until the completion of the submission is
dispatched. One thread does all this, in its event loop, which looks at the oldest completion
that is not marked as seen, dispatches it and marks it. A handler that is called meanwhile can
submit and cancel operations, and can stop the proactor: then a second loop runs inside the
handler, until no operation is pending. What the thread has still to come back to is a stack of
frames.

What another thread or the kernel decides is in the action: the command that is next, whether
there is room for another submission, and which submission is completed with which result.
-/

set_option autoImplicit false

namespace Join

/-- What is set as the data of a submission: the operation, nothing for a cancel, or the read of
the eventfd that other threads ring. -/
inductive UringData where
  | operation (op : IoOperation)
  | cancel
  | wakeup
  deriving DecidableEq

/-- A completion. -/
structure Cqe where
  data : UringData
  result : ℤ
  deriving DecidableEq

/-- A call that has not returned yet. -/
inductive UringFrame where
  /-- `eventLoop`, before the test of the loop. -/
  | looping
  /-- `eventLoop`, before it looks at the oldest completion. -/
  | peeking
  /-- `eventLoop`, before it marks the completion that was dispatched as seen. -/
  | seeing
  /-- `readCommands`; `rearms` tells of the one that the eventfd has asked for. -/
  | reading (rearms : Bool)
  /-- `dispatchOperation`, in the handler. -/
  | handling (op : IoOperation)
  deriving DecidableEq

/-- The operations, the two rings, and the calls under way. `prepared` are the submissions that
the kernel does not know of yet, `completions` are all completions, the oldest first, of which
`head` are marked as seen, and `dispatched` are the places of those that `dispatchCqe` was called
for. `stopped` tells that `cancelAllOperations` was called. -/
structure UringOperations where
  pendingOps : List IoOperation
  state : IoOperation → OperationState
  index : IoOperation → ℕ
  prepared : List UringData
  inFlight : List UringData
  completions : List Cqe
  head : ℕ
  dispatched : List ℕ
  running : Bool
  stopped : Bool
  stack : List UringFrame
  history : OperationHistory

/-- The kernel completes a submission; the next command is processed, or a handler calls the
proactor; the submissions are flushed by a command, by a handler, or by a loop before it looks at
the completions; the call on top of the stack goes on. -/
inductive UringStep where
  | complete (data : UringData) (result : ℤ)
  | perform (request : OperationRequest) (flush : Bool) (room : IoOperation → Bool)
  | flush
  | proceed (room : Bool)

namespace UringOperations

/-- The loop has just been entered; without spinning it has asked for the eventfd. -/
def initial (spin : Bool) : UringOperations where
  pendingOps := []
  state := fun _ => .idle
  index := fun _ => 0
  prepared := []
  inFlight := if spin then [] else [.wakeup]
  completions := []
  head := 0
  dispatched := []
  running := true
  stopped := false
  stack := [.looping]
  history := []

/-! ## The methods -/

/-- `io_uring_submit`. -/
def flush (proactor : UringOperations) : UringOperations :=
  { proactor with inFlight := proactor.inFlight ++ proactor.prepared, prepared := [] }

/-- `getSqe`: whether there is a submission to fill; `room` tells of a ring that was full whether
there is after `io_uring_submit`. -/
def getSqe (entries : ℕ) (proactor : UringOperations) (room : Bool) : Bool × UringOperations :=
  if proactor.prepared.length < entries then (true, proactor) else (room, proactor.flush)

/-- A submission is filled. -/
def prepare (proactor : UringOperations) (data : UringData) : UringOperations :=
  { proactor with prepared := proactor.prepared ++ [data] }

/-- `io_uring_submit`, if it is asked for. -/
def flushIf (proactor : UringOperations) (flush : Bool) : UringOperations :=
  if flush then proactor.flush else proactor

/-- `submitOperation`. -/
def submitOperation (entries : ℕ) (proactor : UringOperations) (op : IoOperation) (flush : Bool)
    (room : Bool) : Bool × UringOperations :=
  if op.fd < 0 then (false, proactor)
  else if proactor.state op ≠ .idle then (false, proactor)
  else
    let sqe := proactor.getSqe entries room
    if sqe.1 = false then (false, sqe.2)
    else
      let filled := sqe.2.prepare (.operation op)
      let listed := { filled with
        state := Function.update filled.state op .submitted
        index := Function.update filled.index op filled.pendingOps.length
        pendingOps := filled.pendingOps ++ [op]
        history := .submitted op true :: filled.history }
      (true, listed.flushIf flush)

/-- `cancelOperation`. -/
def cancelOperation (entries : ℕ) (proactor : UringOperations) (op : IoOperation) (flush : Bool)
    (room : Bool) : Bool × UringOperations :=
  if op.fd < 0 then (false, proactor)
  else if proactor.state op ≠ .submitted then (false, proactor)
  else if proactor.pendingOps[proactor.index op]? ≠ some op then (false, proactor)
  else
    let sqe := proactor.getSqe entries room
    if sqe.1 = false then (false, sqe.2)
    else
      let filled := sqe.2.prepare .cancel
      let marked := { filled with state := Function.update filled.state op .cancelling }
      (true, marked.flushIf flush)

/-- `cancelAllOperations`: the operations are cancelled one after the other. -/
def cancelEach (entries : ℕ) (room : IoOperation → Bool) :
    UringOperations → List IoOperation → UringOperations
  | proactor, [] => proactor
  | proactor, op :: rest =>
      cancelEach entries room (proactor.cancelOperation entries op false (room op)).2 rest

/-- `cancelAllOperations`. -/
def cancelAllOperations (entries : ℕ) (room : IoOperation → Bool) (proactor : UringOperations) :
    UringOperations :=
  cancelEach entries room proactor proactor.pendingOps

/-- An operation leaves `_pendingOps`: the last one takes its place. -/
def unlist (proactor : UringOperations) (op : IoOperation) : UringOperations :=
  match proactor.pendingOps.getLast? with
  | some last =>
      if proactor.pendingOps[proactor.index op]? = some op then
        { proactor with
          pendingOps := (proactor.pendingOps.set (proactor.index op) last).dropLast
          index := Function.update proactor.index last (proactor.index op) }
      else proactor
  | none => proactor

/-- `endOperation`, up to the handler. -/
def endOperation (proactor : UringOperations) (op : IoOperation) (result : ℤ)
    (cancelled : Bool) : UringOperations :=
  let left := proactor.unlist op
  { left with
    stack := .handling op :: left.stack
    history := .called op result cancelled :: left.history }

/-- `rearmWakeup`. -/
def rearmWakeup (entries : ℕ) (proactor : UringOperations) (room : Bool) : UringOperations :=
  let sqe := proactor.getSqe entries room
  if sqe.1 then (sqe.2.prepare .wakeup).flush else sqe.2

/-- `dispatchCqe`. -/
def dispatchCqe (proactor : UringOperations) (cqe : Cqe) : UringOperations :=
  match cqe.data with
  | .cancel => proactor
  | .wakeup => { proactor with stack := .reading true :: proactor.stack }
  | .operation op =>
      if proactor.state op = .idle then proactor
      else
        proactor.endOperation op cqe.result (decide (cqe.result < 0) &&
          (decide (cqe.result = -ecanceled) || decide (proactor.state op = .cancelling)))

/-! ## The loop -/

/-- A request is served; `own` tells that it is a call in a handler. A `stop` there runs
another loop. -/
def serve (entries : ℕ) (proactor : UringOperations) (own flush : Bool)
    (room : IoOperation → Bool) : OperationRequest → UringOperations
  | .submit op => (proactor.submitOperation entries op flush (room op)).2
  | .cancel op => (proactor.cancelOperation entries op flush (room op)).2
  | .stop =>
      let cancelled := { proactor with running := false, stopped := true }.cancelAllOperations
        entries room
      if own then { cancelled with stack := .looping :: cancelled.stack }
      else cancelled.flushIf flush

/-- The call on top of the stack goes on. A wait for a completion that is interrupted is a look
that finds none. -/
def proceed (spin : Bool) (entries : ℕ) (proactor : UringOperations) (room : Bool) :
    Option UringOperations :=
  match proactor.stack with
  | [] => none
  | .looping :: rest =>
      some (if proactor.running then
        { proactor with stack := (if spin then [.reading false] else []) ++ .peeking :: rest }
      else if proactor.pendingOps = [] then { proactor with stack := rest }
      else { proactor.flush with stack := .peeking :: rest })
  | .peeking :: rest =>
      some (match proactor.completions[proactor.head]? with
      | none => { proactor with stack := .looping :: rest }
      | some cqe =>
          { proactor with
            stack := .seeing :: rest
            dispatched := proactor.dispatched ++ [proactor.head] }.dispatchCqe cqe)
  | .seeing :: rest =>
      some { proactor with stack := .peeking :: rest, head := proactor.head + 1 }
  | .reading rearms :: rest =>
      let read := { proactor with stack := rest }
      some (if rearms && proactor.running then read.rearmWakeup entries room else read)
  | .handling op :: rest =>
      some { proactor with
        stack := rest
        state := Function.update proactor.state op .idle }

/-- One step. -/
def act (spin : Bool) (entries : ℕ) (proactor : UringOperations) :
    UringStep → Option UringOperations
  | .complete data result =>
      if data ∈ proactor.inFlight then
        some { proactor with
          inFlight := proactor.inFlight.erase data
          completions := proactor.completions ++ [⟨data, result⟩] }
      else none
  | .perform request flush room =>
      match proactor.stack with
      | .reading _ :: _ => some (proactor.serve entries false flush room request)
      | .handling _ :: _ => some (proactor.serve entries true flush room request)
      | _ => none
  | .flush =>
      match proactor.stack with
      | .reading _ :: _ | .handling _ :: _ | .peeking :: _ => some proactor.flush
      | _ => none
  | .proceed room => proactor.proceed spin entries room

end UringOperations

end Join
