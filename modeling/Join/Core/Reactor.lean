import Mathlib.Data.Finset.Basic
import Mathlib.Logic.Function.Basic

/-!
# The handlers of a reactor

`join::Reactor` keeps a handler for each descriptor that it has put into its epoll
interest set. A handler that is removed stays in `_handlers`, with its descriptor in
`_deleted`, until the events that were fetched with it are dispatched; a descriptor that is
registered again leaves `_deleted`.

Epoll is an interest set keyed by descriptor. Where the kernel may refuse a change, its
answer is an argument. Each registration carries a stamp, the number of registrations
before it, and so does every event that epoll reports for it: the code has no such stamp,
it tells for which registration an event was reported.
-/

set_option autoImplicit false

namespace Join

/-! ## Epoll -/

def epollIn : UInt32 := 0x001
def epollOut : UInt32 := 0x004
def epollErr : UInt32 := 0x008
def epollHup : UInt32 := 0x010
def epollRdHup : UInt32 := 0x2000

/-- The error numbers that the reactor tells apart. -/
inductive Errno where
  | eexist
  | ebadf
  | enoent
  | other (code : ℕ)
  deriving DecidableEq, Repr

/-- What epoll knows of a descriptor in its interest set. -/
structure Interest where
  events : UInt32
  stamp : ℕ
  deriving DecidableEq, Repr

/-- An interest set. -/
abbrev InterestSet : Type := ℤ → Option Interest

/-- `EPOLL_CTL_ADD`: refused if the descriptor is in the set, or as the kernel likes. -/
def epollAdd (interest : InterestSet) (verdict : Option Errno) (fd : ℤ) (entry : Interest) :
    Except Errno InterestSet :=
  match interest fd, verdict with
  | some _, _ => .error .eexist
  | none, some errno => .error errno
  | none, none => .ok (Function.update interest fd (some entry))

/-- `EPOLL_CTL_MOD`: refused if the descriptor is not in the set, or as the kernel likes. -/
def epollMod (interest : InterestSet) (verdict : Option Errno) (fd : ℤ) (entry : Interest) :
    Except Errno InterestSet :=
  match interest fd, verdict with
  | none, _ => .error .enoent
  | some _, some errno => .error errno
  | some _, none => .ok (Function.update interest fd (some entry))

/-- `EPOLL_CTL_DEL`: refused if the descriptor is not in the set, for one reason or
another. -/
def epollDel (interest : InterestSet) (verdict : Option Errno) (fd : ℤ) :
    Except Errno InterestSet :=
  match interest fd with
  | some _ => .ok (Function.update interest fd none)
  | none => .error (verdict.getD .enoent)

/-- `epoll_event`: what epoll reports, with the stamp of the registration it is reported for. -/
structure EpollEvent where
  fd : ℤ
  events : UInt32
  stamp : ℕ
  deriving DecidableEq, Repr

/-- Epoll can report the event. -/
def InterestSet.Reports (interest : InterestSet) (event : EpollEvent) : Prop :=
  (interest event.fd).map Interest.stamp = some event.stamp

instance (interest : InterestSet) (event : EpollEvent) : Decidable (interest.Reports event) :=
  inferInstanceAs (Decidable (_ = _))

/-! ## Handlers -/

/-- What `lastError` is set to. -/
inductive ReactorError where
  | invalidParam
  | system (errno : Errno)
  deriving DecidableEq, Repr

/-- The methods of `EventHandler`. -/
inductive Callback where
  | onReadable
  | onWriteable
  | onClose
  | onError
  deriving DecidableEq, Repr

/-- The interest set, `_handlers` and `_deleted`. -/
structure Registry (H : Type) where
  interest : InterestSet
  handlers : ℤ → Option H
  deleted : Finset ℤ

namespace Registry

variable {H : Type}

/-- A reactor that has just been constructed watches its wakeup descriptor only. -/
def initial (H : Type) (wakeup : ℤ) : Registry H where
  interest := Function.update (fun _ => none) wakeup (some ⟨epollIn, 0⟩)
  handlers := fun _ => none
  deleted := ∅

/-- `registerHandler`, after epoll has accepted the descriptor. -/
def accept (registry : Registry H) (fd : ℤ) (handler : H) (interest : InterestSet) :
    Registry H where
  interest := interest
  handlers := Function.update registry.handlers fd (some handler)
  deleted := registry.deleted.erase fd

/-- `Reactor::registerHandler`; the stamp is for the event that epoll will report. -/
def registerHandler (registry : Registry H) (verdict : Option Errno) (stamp : ℕ) (fd : ℤ)
    (handler : Option H) (events : UInt32) : Except ReactorError (Registry H) :=
  match handler with
  | none => .error .invalidParam
  | some handler =>
      if fd < 0 then .error (.system .ebadf)
      else if events = 0 then .error .invalidParam
      else
        match epollAdd registry.interest verdict fd ⟨events, stamp⟩ with
        | .ok interest => .ok (registry.accept fd handler interest)
        | .error .eexist =>
            match epollMod registry.interest verdict fd ⟨events, stamp⟩ with
            | .ok interest => .ok (registry.accept fd handler interest)
            | .error errno => .error (.system errno)
        | .error errno => .error (.system errno)

/-- `Reactor::unregisterHandler`: the error, if any, and what it leaves. -/
def unregisterHandler (registry : Registry H) (verdict : Option Errno) (fd : ℤ) :
    Option ReactorError × Registry H :=
  if fd < 0 then (some (.system .ebadf), registry)
  else
    match epollDel registry.interest verdict fd with
    | .ok interest =>
        (none, { registry with interest := interest, deleted := insert fd registry.deleted })
    | .error errno =>
        (some (.system errno),
          if errno = .ebadf ∨ errno = .enoent then
            { registry with deleted := insert fd registry.deleted }
          else registry)

/-- `Reactor::isActive`. -/
def isActive (registry : Registry H) (fd : ℤ) : Bool := decide (fd ∉ registry.deleted)

/-- The method that `dispatchEvent` calls for an event mask. -/
def callbackOf (events : UInt32) : Option Callback :=
  if events &&& epollErr ≠ 0 then some .onError
  else if events &&& (epollRdHup ||| epollHup) ≠ 0 then some .onClose
  else if events &&& epollIn ≠ 0 then some .onReadable
  else if events &&& epollOut ≠ 0 then some .onWriteable
  else none

/-- `Reactor::dispatchEvent`: whom it calls, and how. -/
def dispatchEvent (registry : Registry H) (event : EpollEvent) : Option (H × Callback) :=
  match registry.handlers event.fd with
  | none => none
  | some handler =>
      if registry.isActive event.fd then (callbackOf event.events).map (Prod.mk handler)
      else none

/-- The end of an iteration of `eventLoop`. -/
def sweep (registry : Registry H) : Registry H where
  interest := registry.interest
  handlers := fun fd => if fd ∈ registry.deleted then none else registry.handlers fd
  deleted := ∅

end Registry

/-! ## What happened -/

/-- What the loop of a reactor does that can be seen: it waits for events, processes an
`addHandler` that succeeds or a `delHandler`, and calls a handler for an event with a
stamp. -/
inductive Happening (H : Type) where
  | waited
  | registered (fd : ℤ) (handler : H)
  | deleted (fd : ℤ)
  | called (fd : ℤ) (handler : H) (callback : Callback) (stamp : ℕ)
  deriving DecidableEq

/-- What happened, the last thing first. -/
abbrev History (H : Type) : Type := List (Happening H)

namespace History

variable {H : Type}

/-- The number of registrations. -/
def registrations : History H → ℕ
  | [] => 0
  | .registered _ _ :: earlier => registrations earlier + 1
  | _ :: earlier => registrations earlier

/-- The handler and the stamp of the latest registration of the descriptor, if no
`delHandler` of it came later. -/
def latest : History H → ℤ → Option (H × ℕ)
  | [], _ => none
  | .registered fd handler :: earlier, asked =>
      if fd = asked then some (handler, registrations earlier) else latest earlier asked
  | .deleted fd :: earlier, asked => if fd = asked then none else latest earlier asked
  | .waited :: earlier, asked => latest earlier asked
  | .called _ _ _ _ :: earlier, asked => latest earlier asked

/-- The descriptor has been registered since the loop waited for events. -/
def Renewed : History H → ℤ → Prop
  | [], _ => False
  | .waited :: _, _ => False
  | .registered fd _ :: earlier, asked => fd = asked ∨ Renewed earlier asked
  | .deleted _ :: earlier, asked => Renewed earlier asked
  | .called _ _ _ _ :: earlier, asked => Renewed earlier asked

/-- Every call was made on the handler of the latest registration of the descriptor, not
after a `delHandler` of it, and for an event of that very registration. -/
def Right : History H → Prop
  | [] => True
  | .called fd handler _ stamp :: earlier =>
      latest earlier fd = some (handler, stamp) ∧ Right earlier
  | .waited :: earlier => Right earlier
  | .registered _ _ :: earlier => Right earlier
  | .deleted _ :: earlier => Right earlier

instance decidableRenewed : (history : History H) → (fd : ℤ) → Decidable (history.Renewed fd)
  | [], _ => inferInstanceAs (Decidable False)
  | .waited :: _, _ => inferInstanceAs (Decidable False)
  | .registered _ _ :: earlier, fd =>
      @instDecidableOr _ _ _ (decidableRenewed earlier fd)
  | .deleted _ :: earlier, fd => decidableRenewed earlier fd
  | .called _ _ _ _ :: earlier, fd => decidableRenewed earlier fd

end History

/-! ## The dispatcher -/

/-- The handlers, the events that are fetched and not dispatched yet, and what happened. -/
structure Dispatcher (H : Type) where
  registry : Registry H
  pending : List EpollEvent
  history : History H

namespace Dispatcher

variable {H : Type}

/-- Nothing has happened. -/
def initial (H : Type) (wakeup : ℤ) : Dispatcher H := ⟨.initial H wakeup, [], []⟩

/-- `registerHandler` in the loop: the error, if any, and what it leaves. -/
def register (dispatcher : Dispatcher H) (verdict : Option Errno) (fd : ℤ)
    (handler : Option H) (events : UInt32) : Option ReactorError × Dispatcher H :=
  match dispatcher.registry.registerHandler verdict (History.registrations dispatcher.history)
    fd handler events with
  | .ok registry =>
      (none, { dispatcher with
        registry := registry
        history := (handler.map (.registered fd)).toList ++ dispatcher.history })
  | .error error => (some error, dispatcher)

/-- `unregisterHandler` in the loop: the error, if any, and what it leaves. -/
def unregister (dispatcher : Dispatcher H) (verdict : Option Errno) (fd : ℤ) :
    Option ReactorError × Dispatcher H :=
  let left := dispatcher.registry.unregisterHandler verdict fd
  (left.1, { dispatcher with
    registry := left.2
    history := .deleted fd :: dispatcher.history })

/-- The loop has waited and got some events. -/
def wait (dispatcher : Dispatcher H) (batch : List EpollEvent) : Dispatcher H :=
  { dispatcher with pending := batch, history := .waited :: dispatcher.history }

/-- The next event is dispatched. -/
def dispatch (dispatcher : Dispatcher H) (event : EpollEvent) (rest : List EpollEvent) :
    Dispatcher H :=
  { dispatcher with
    pending := rest
    history :=
      match dispatcher.registry.dispatchEvent event with
      | some (handler, callback) =>
          .called event.fd handler callback event.stamp :: dispatcher.history
      | none => dispatcher.history }

/-- The end of an iteration. -/
def sweep (dispatcher : Dispatcher H) : Dispatcher H :=
  { dispatcher with registry := dispatcher.registry.sweep }

end Dispatcher

end Join
