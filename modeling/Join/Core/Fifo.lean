import Join.Core.RingProducer

/-!
# Bounded queues

What a queue of a given capacity is for: a list that is filled at its end and emptied
from its front. A single push fails exactly when the list is full, a batch push stores
the longest prefix that fits, the pops fail exactly when the list is empty. Calls of
no elements are refused.
-/

set_option autoImplicit false

namespace Join

/-- A call on a queue. -/
inductive QueueCall (α : Type) where
  | push (call : PushCall α)
  | pop (call : PopCall)

namespace Fifo

variable {α : Type}

/-- The reply to a push on a list of at most `capacity` elements. -/
def push (capacity : ℕ) (queue : List α) : PushCall α → QueueReply α
  | .tryPush element =>
      if queue.length < capacity then .ok [element] else .error .temporaryError
  | .tryPushBatch elements =>
      if elements.isEmpty then .error .invalidParam
      else if queue.length < capacity then .ok (elements.take (capacity - queue.length))
      else .error .temporaryError

/-- The reply to a pop. -/
def pop (queue : List α) : PopCall → QueueReply α
  | .tryPop => if queue.isEmpty then .error .temporaryError else .ok (queue.take 1)
  | .tryPopBatch size =>
      if size = 0 then .error .invalidParam
      else if queue.isEmpty then .error .temporaryError
      else .ok (queue.take size)

/-- The reply to a call. -/
def reply (capacity : ℕ) (queue : List α) : QueueCall α → QueueReply α
  | .push call => push capacity queue call
  | .pop call => pop queue call

/-- The list after a call. -/
def next (capacity : ℕ) (queue : List α) : QueueCall α → List α
  | .push call => queue ++ QueueReply.elements (some (push capacity queue call))
  | .pop call => queue.drop (QueueReply.elements (some (pop queue call))).length

/-- The replies to calls one after the other. -/
def replies (capacity : ℕ) : List α → List (QueueCall α) → List (QueueReply α)
  | _, [] => []
  | queue, call :: calls =>
      reply capacity queue call :: replies capacity (next capacity queue call) calls

/-- The list after calls one after the other. -/
def after (capacity : ℕ) : List α → List (QueueCall α) → List α
  | queue, [] => queue
  | queue, call :: calls => after capacity (next capacity queue call) calls

/-- The number of elements that a call stores. -/
def stores (capacity : ℕ) (queue : List α) : QueueCall α → ℕ
  | .push call => (QueueReply.elements (some (push capacity queue call))).length
  | .pop _ => 0

/-- The number of elements that calls one after the other store. -/
def stored (capacity : ℕ) : List α → List (QueueCall α) → ℕ
  | _, [] => 0
  | queue, call :: calls =>
      stores capacity queue call + stored capacity (next capacity queue call) calls

/-! ## Queues that may store less -/

/-- What a bounded queue may reply when a batch call is free to move fewer elements than it
could, but not none of them. -/
def Legal (capacity : ℕ) (queue : List α) : QueueCall α → QueueReply α → Prop
  | .push (.tryPush element), reply => reply = push capacity queue (.tryPush element)
  | .push (.tryPushBatch elements), .ok stored =>
      stored ≠ [] ∧ stored <+: elements ∧ queue.length + stored.length ≤ capacity
  | .push (.tryPushBatch elements), .error error =>
      push capacity queue (.tryPushBatch elements) = .error error
  | .pop .tryPop, reply => reply = pop queue .tryPop
  | .pop (.tryPopBatch size), .ok popped =>
      popped ≠ [] ∧ popped <+: queue ∧ popped.length ≤ size
  | .pop (.tryPopBatch size), .error error => pop queue (.tryPopBatch size) = .error error

/-- The list after a call with a given reply. -/
def effect (queue : List α) : QueueCall α → QueueReply α → List α
  | .push _, reply => queue ++ QueueReply.elements (some reply)
  | .pop _, reply => queue.drop (QueueReply.elements (some reply)).length

/-- A history of calls on a bounded queue that starts empty, with what it leaves. -/
inductive History (capacity : ℕ) : List (QueueCall α × QueueReply α) → List α → Prop where
  | nil : History capacity [] []
  | snoc {history : List (QueueCall α × QueueReply α)} {queue : List α} {call : QueueCall α}
      {reply : QueueReply α} (before : History capacity history queue)
      (legal : Legal capacity queue call reply) :
      History capacity (history ++ [(call, reply)]) (effect queue call reply)

end Fifo

end Join
