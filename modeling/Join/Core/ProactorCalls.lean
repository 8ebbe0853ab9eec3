import Join.Library.Doorbell

/-!
# Calls on a proactor

The two backends of `join::BasicProactor` take the same commands, and a thread that calls
`stop` goes through the same places: it reads the running flag, contends for `_stopping`
if it is to wait, writes a Stop command and waits. What a thread waits for, and what it
does then, differs.
-/

set_option autoImplicit false

namespace Join

/-- `BasicProactor::CommandType`; only the io_uring backend flushes. -/
inductive ProactorCommandType where
  | submit
  | cancel
  | stop
  | flush
  deriving DecidableEq

/-- `BasicProactor::Command` without its operation; `done` is the caller whose `done` and
`errc` the command points to. -/
structure ProactorCommand (T : Type) where
  type : ProactorCommandType
  done : Option T

/-- Where a thread that is not the proactor thread stands. -/
inductive ProactorCaller where
  | idle
  /-- In `writeCommand` of `submit`, `cancel` or `flush`. -/
  | requesting (sync : Bool)
  /-- On the `done` flag of a request. -/
  | waiting
  /-- In `stop`, before it reads the running flag. -/
  | stopping (sync : Bool)
  /-- Before the exchange of `_stopping`. -/
  | contending
  /-- `_stopping` was set: another thread is stopping the proactor. -/
  | following
  /-- In `writeCommand` of a Stop. -/
  | writing (sync : Bool)
  /-- On what the Stop is waited for by. -/
  | awaiting
  /-- Before `_stopping` is cleared. -/
  | releasing
  /-- Before the call of `Reactor::stop`. -/
  | delegating (sync : Bool)
  /-- In `Reactor::stop`. -/
  | inside
  deriving DecidableEq

/-- The thread is not in `stop`. -/
def ProactorCaller.Free : ProactorCaller → Prop
  | .idle | .requesting _ | .waiting => True
  | _ => False

/-- The thread is in `stop`, has found the flag set, and has still to stop the proactor. -/
def ProactorCaller.Committed : ProactorCaller → Prop
  | .contending | .following | .writing _ | .awaiting | .releasing | .delegating _ => True
  | _ => False

variable {T : Type}

/-- The thread is before its access to the running flag, or not in `stop`. -/
def ProactorCaller.Unheeded : ProactorCaller → Prop
  | .idle | .requesting _ | .waiting | .stopping _ => True
  | _ => False

/-- A Stop command is under way in the queue, or in the hands of the proactor thread. -/
def StopQueued (commands : Library.Doorbell T (ProactorCommand T))
    (inHand : Option (ProactorCommand T)) : Prop :=
  commands.Underway (fun command => command.type = .stop) ∨
    ∃ command ∈ inHand, command.type = .stop

end Join
