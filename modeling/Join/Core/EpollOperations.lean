import Join.Core.Operations
import Join.Core.ReactorSystem

/-!
# The operations of the epoll proactor

The epoll proactor keeps, for each descriptor, the operation that waits until the descriptor
can be read, and the one that waits until it can be written. Everything it does with them is
done by one thread, in its event loop: it fetches a batch of events, and while it goes
through the batch it reads commands and calls handlers, which call the proactor again. What
it has still to come back to is a stack of frames.

What another thread or the kernel decides is in the action: the command that is next, the
events that are fetched, the result of a system call, the answer of epoll to a change of its
interest set.
-/

set_option autoImplicit false

namespace Join

/-! ## The state -/

/-- The two slots of a descriptor, `_readOps` and `_writeOps`. -/
inductive Side where
  | read
  | write
  deriving DecidableEq, Repr

namespace Side

def other : Side → Side
  | .read => .write
  | .write => .read

/-- The method of the proactor that serves the slot. -/
def callback : Side → Callback
  | .read => .onReadable
  | .write => .onWriteable

end Side

/-- The slot that an operation waits in. -/
def IoOperation.side (op : IoOperation) : Side := if op.code.isWriteOp then .write else .read

/-- A call that has not returned yet. -/
inductive Frame where
  /-- `dispatchOperation`, before it calls the handler. -/
  | dispatching (op : IoOperation) (result : ℤ) (cancelled : Bool)
  /-- `dispatchOperation`, in the handler. -/
  | handling (op : IoOperation)
  /-- `cancelAllOperations`, before a descriptor; `stops` tells of the one in `stop`. -/
  | cancelling (next : ℕ) (stops : Bool)
  /-- `readCommands`. -/
  | reading
  deriving DecidableEq

/-- Where the event loop stands. -/
inductive Phase where
  | checking
  | dispatching
  | returned
  deriving DecidableEq

/-- The slots, the operations, the reactor, the calls under way, and what the owners of the
operations have seen. `size` is the length of the vectors of slots; `stopped` tells that
`cancelAllOperations` was called. -/
structure EpollOperations where
  slots : Side → ℤ → Option IoOperation
  size : ℕ
  state : IoOperation → OperationState
  registry : Registry Unit
  pending : List EpollEvent
  stack : List Frame
  phase : Phase
  running : Bool
  stopped : Bool
  history : OperationHistory

/-- A batch of events is fetched, with the reactor's own command to stop or without; the next
event is dispatched; the next command is processed, or a handler calls the proactor; the call
on top of the stack goes on; an iteration ends; the loop ends. -/
inductive EpollStep where
  | wait (batch : List EpollEvent) (stop : Bool)
  | dispatch (result : ℤ) (verdict : Option Errno)
  | perform (request : OperationRequest) (connected : Bool) (verdict : Option Errno)
  | proceed
  | sweep
  | leave
  deriving DecidableEq

/-- The events that epoll fetches: at most one for a descriptor, with events that are asked
for, or that are always reported. -/
def InterestSet.Fetches (interest : InterestSet) (batch : List EpollEvent) : Prop :=
  (batch.map EpollEvent.fd).Nodup ∧
    ∀ event ∈ batch, ∃ entry ∈ interest event.fd,
      event.events &&& (entry.events ||| epollErr ||| epollHup) = event.events

instance (interest : InterestSet) (batch : List EpollEvent) :
    Decidable (interest.Fetches batch) :=
  inferInstanceAs (Decidable (_ ∧ _))

namespace EpollOperations

/-- The loop has just been entered; the constructor has registered the wakeup descriptor. -/
def initial (wakeup : ℤ) : EpollOperations where
  slots := fun _ _ => none
  size := 256
  state := fun _ => .idle
  registry :=
    { interest := Function.update (fun _ => none) wakeup (some ⟨Request.eventsOf true false, 0⟩)
      handlers := Function.update (fun _ => none) wakeup (some ())
      deleted := ∅ }
  pending := []
  stack := []
  phase := .checking
  running := true
  stopped := false
  history := []

/-! ## The methods -/

/-- `Reactor::addHandler` for the slots of a descriptor. -/
def addHandler (proactor : EpollOperations) (verdict : Option Errno) (fd : ℤ) :
    Bool × EpollOperations :=
  match proactor.registry.registerHandler verdict 0 fd (some ())
    (Request.eventsOf (proactor.slots .read fd).isSome (proactor.slots .write fd).isSome) with
  | .ok registry => (true, { proactor with registry := registry })
  | .error _ => (false, proactor)

/-- `Reactor::delHandler`. -/
def delHandler (proactor : EpollOperations) (fd : ℤ) : Bool × EpollOperations :=
  let left := proactor.registry.unregisterHandler none fd
  (left.1.isNone, { proactor with registry := left.2 })

/-- What is done to the handler of a descriptor when a slot was emptied. -/
def rewatch (proactor : EpollOperations) (verdict : Option Errno) (fd : ℤ) :
    Bool × EpollOperations :=
  if proactor.slots .read fd = none ∧ proactor.slots .write fd = none then
    proactor.delHandler fd
  else proactor.addHandler verdict fd

/-- The slot of an operation. -/
def slot (proactor : EpollOperations) (op : IoOperation) : Option IoOperation :=
  proactor.slots op.side op.fd

/-- The slot of an operation is set. -/
def setSlot (proactor : EpollOperations) (op : IoOperation) (content : Option IoOperation) :
    EpollOperations :=
  { proactor with slots := fun side fd =>
      if side = op.side ∧ fd = op.fd then content else proactor.slots side fd }

/-- The state of an operation is set. -/
def setState (proactor : EpollOperations) (op : IoOperation) (state : OperationState) :
    EpollOperations :=
  { proactor with state := Function.update proactor.state op state }

/-- Something is called. -/
def push (proactor : EpollOperations) (frames : List Frame) : EpollOperations :=
  { proactor with stack := frames ++ proactor.stack }

/-- `submitOperation`; `connected` tells of a Connect whether `connect` has not failed. -/
def submitOperation (proactor : EpollOperations) (op : IoOperation) (connected : Bool)
    (verdict : Option Errno) : Bool × EpollOperations :=
  if op.fd < 0 then (false, proactor)
  else if proactor.state op ≠ .idle then (false, proactor)
  else if op.code = .connect ∧ connected = false then (false, proactor)
  else
    let grown := { proactor with size := max proactor.size (op.fd.toNat + 1) }
    if grown.slot op ≠ none then (false, grown)
    else
      let added := ((grown.setSlot op (some op)).setState op .submitted).addHandler verdict op.fd
      (added.1, { added.2 with history := .submitted op added.1 :: added.2.history })

/-- `cancelOperation`. -/
def cancelOperation (proactor : EpollOperations) (op : IoOperation) (verdict : Option Errno) :
    Bool × EpollOperations :=
  if op.fd < 0 then (false, proactor)
  else if proactor.state op ≠ .submitted then (false, proactor)
  else if proactor.size ≤ op.fd.toNat then (false, proactor)
  else if proactor.slot op ≠ some op then (false, proactor)
  else
    let left := ((proactor.setState op .cancelling).setSlot op none).rewatch verdict op.fd
    (left.1, left.2.push [.dispatching op (-ecanceled) true])

/-- Both slots of a descriptor are emptied and its handler is removed, then both operations
are dispatched. -/
def release (proactor : EpollOperations) (fd : ℤ) (result : ℤ) (cancelled : Bool) :
    EpollOperations :=
  let ops := (proactor.slots .read fd).toList ++ (proactor.slots .write fd).toList
  let emptied :=
    { proactor with slots := fun side other => if other = fd then none else proactor.slots side other }
  let left := if ops = [] then emptied else (emptied.delHandler fd).2
  left.push (ops.map fun op => .dispatching op result cancelled)

/-- `endOperation`. -/
def endOperation (proactor : EpollOperations) (op : IoOperation) (result : ℤ)
    (cancelled : Bool) (verdict : Option Errno) : EpollOperations :=
  if op.fd < 0 ∨ proactor.size ≤ op.fd.toNat then proactor
  else
    ((proactor.setSlot op none).rewatch verdict op.fd).2.push [.dispatching op result cancelled]

/-- `onReadable` and `onWriteable` of a descriptor that is not the wakeup; the result is that
of `executeOp`. A slot that is empty is dereferenced, and the program has no next state. -/
def onReady (proactor : EpollOperations) (side : Side) (fd : ℤ) (result : ℤ)
    (verdict : Option Errno) : Option EpollOperations :=
  (proactor.slots side fd).map fun op => proactor.endOperation op result false verdict

/-- `onReadable`. -/
def onReadable (proactor : EpollOperations) (wakeup fd : ℤ) (result : ℤ)
    (verdict : Option Errno) : Option EpollOperations :=
  if fd = wakeup then some (proactor.push [.reading]) else proactor.onReady .read fd result verdict

/-- `onWriteable`. -/
def onWriteable (proactor : EpollOperations) (fd : ℤ) (result : ℤ) (verdict : Option Errno) :
    Option EpollOperations :=
  proactor.onReady .write fd result verdict

/-- `onClose`. -/
def onClose (proactor : EpollOperations) (fd : ℤ) : EpollOperations := proactor.release fd 0 false

/-- `onError`. -/
def onError (proactor : EpollOperations) (fd : ℤ) : EpollOperations :=
  proactor.release fd (-econnreset) false

/-- An iteration of `cancelAllOperations`. -/
def cancelNext (proactor : EpollOperations) (next : ℕ) : EpollOperations :=
  proactor.release next (-ecanceled) true

/-! ## The loop -/

/-- A request is served; `own` tells that it is a call in a handler. -/
def serve (proactor : EpollOperations) (own : Bool) (connected : Bool) (verdict : Option Errno) :
    OperationRequest → EpollOperations
  | .submit op => (proactor.submitOperation op connected verdict).2
  | .cancel op => (proactor.cancelOperation op verdict).2
  | .stop => { proactor.push [.cancelling 0 own] with stopped := true }

/-- The next event is dispatched. -/
def dispatchEvent (proactor : EpollOperations) (wakeup : ℤ) (event : EpollEvent) (result : ℤ)
    (verdict : Option Errno) : Option EpollOperations :=
  match proactor.registry.dispatchEvent event with
  | none => some proactor
  | some ((), .onReadable) => proactor.onReadable wakeup event.fd result verdict
  | some ((), .onWriteable) => proactor.onWriteable event.fd result verdict
  | some ((), .onClose) => some (proactor.onClose event.fd)
  | some ((), .onError) => some (proactor.onError event.fd)

/-- The call on top of the stack goes on. -/
def proceed (proactor : EpollOperations) : Option EpollOperations :=
  match proactor.stack with
  | [] => none
  | .dispatching op result cancelled :: rest =>
      some { proactor with
        stack := .handling op :: rest
        history := .called op result cancelled :: proactor.history }
  | .handling op :: rest => some { proactor.setState op .idle with stack := rest }
  | .cancelling next stops :: rest =>
      some (if next < proactor.size then
        { proactor with stack := .cancelling (next + 1) stops :: rest }.cancelNext next
      else { proactor with stack := rest, running := proactor.running && !stops })
  | .reading :: rest => some { proactor with stack := rest }

/-- One step. -/
def act (wakeup : ℤ) (proactor : EpollOperations) : EpollStep → Option EpollOperations
  | .wait batch stop =>
      if proactor.phase = .checking ∧ proactor.running = true ∧
          proactor.registry.interest.Fetches batch then
        some { proactor with
          pending := batch
          phase := .dispatching
          running := !stop }
      else none
  | .dispatch result verdict =>
      match proactor.stack, proactor.pending with
      | [], event :: rest =>
          { proactor with pending := rest }.dispatchEvent wakeup event result verdict
      | _, _ => none
  | .perform request connected verdict =>
      match proactor.stack with
      | .reading :: _ => some (proactor.serve false connected verdict request)
      | .handling _ :: _ => some (proactor.serve true connected verdict request)
      | _ => none
  | .proceed => proactor.proceed
  | .sweep =>
      if proactor.phase = .dispatching ∧ proactor.stack = [] ∧ proactor.pending = [] then
        some { proactor with registry := proactor.registry.sweep, phase := .checking }
      else none
  | .leave =>
      if proactor.phase = .checking ∧ proactor.running = false then
        some { proactor with phase := .returned }
      else none

end EpollOperations

end Join
