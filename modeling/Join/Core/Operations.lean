import Mathlib.Data.Int.Notation
import Mathlib.Data.Nat.Notation
import Mathlib.Data.List.Basic
import Mathlib.Tactic.Common

/-!
# The operations of a proactor

An `IoOperation` is a block that its owner submits to a proactor, and that is handed back by
one call of its handler. What the owner sees of an operation is what `submit` returns and the
calls of `onComplete` and `onCancel`; an operation without a handler is one whose handler does
nothing.
-/

set_option autoImplicit false

namespace Join

/-- `IoOperation::Opcode`. -/
inductive Opcode where
  | accept
  | connect
  | read
  | write
  | readFixed
  | writeFixed
  | recvMsg
  | sendMsg
  | recv
  | send
  deriving DecidableEq, Repr

/-- `isWriteOp`. -/
def Opcode.isWriteOp : Opcode → Bool
  | .connect | .write | .writeFixed | .sendMsg | .send => true
  | _ => false

/-- `IoOperation`, as its owner fills it; `name` is where it lies in memory. -/
structure IoOperation where
  name : ℕ
  code : Opcode
  fd : ℤ
  deriving DecidableEq, Repr

/-- `IoOperation::State`. -/
inductive OperationState where
  | idle
  | submitted
  | cancelling
  deriving DecidableEq, Repr

/-- What a proactor is asked for by a command, or by a call on its own thread. -/
inductive OperationRequest where
  | submit (op : IoOperation)
  | cancel (op : IoOperation)
  | stop
  deriving DecidableEq

/-- The results that the backends make up themselves. -/
def ecanceled : ℤ := 125
def econnreset : ℤ := 104

/-! ## What the owners see -/

/-- An operation was put in place by `submit`, which has returned success or not, or its
handler was called. -/
inductive OperationNote where
  | submitted (op : IoOperation) (accepted : Bool)
  | called (op : IoOperation) (result : ℤ) (cancelled : Bool)
  deriving DecidableEq

/-- What happened to the operations, the last thing first. -/
abbrev OperationHistory : Type := List OperationNote

namespace OperationHistory

/-- The operation was put in place and its handler has not been called since: what `submit`
returned. -/
def unanswered : OperationHistory → IoOperation → Option Bool
  | [], _ => none
  | .submitted other accepted :: earlier, op =>
      if other = op then some accepted else unanswered earlier op
  | .called other _ _ :: earlier, op => if other = op then none else unanswered earlier op

/-- Every call answers a submit that was not answered before, and no operation is put in place
again before that. -/
def Once : OperationHistory → Prop
  | [] => True
  | .submitted op _ :: earlier => unanswered earlier op = none ∧ Once earlier
  | .called op _ _ :: earlier => (unanswered earlier op).isSome ∧ Once earlier

/-- Every operation whose submit was accepted has got its call. -/
def Settled (history : OperationHistory) : Prop :=
  ∀ op, unanswered history op ≠ some true

variable {history : OperationHistory} {op other : IoOperation}

@[simp]
theorem unanswered_submitted (accepted : Bool) :
    unanswered (.submitted op accepted :: history) op = some accepted :=
  if_pos rfl

@[simp]
theorem unanswered_called (result : ℤ) (cancelled : Bool) :
    unanswered (.called op result cancelled :: history) op = none :=
  if_pos rfl

theorem unanswered_submitted_of_ne (differ : other ≠ op) (accepted : Bool) :
    unanswered (.submitted other accepted :: history) op = unanswered history op :=
  if_neg differ

theorem unanswered_called_of_ne (differ : other ≠ op) (result : ℤ) (cancelled : Bool) :
    unanswered (.called other result cancelled :: history) op = unanswered history op :=
  if_neg differ

end OperationHistory

end Join
