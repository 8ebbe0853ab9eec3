import Join.Core.Reactor
import Join.Library.Doorbell

/-!
# The threads of a reactor

One thread executes `Reactor::run`, any number of others call `addHandler`, `delHandler`
and `stop`. Those write commands into a queue and ring an eventfd, which is in the interest
set of the loop; a synchronous caller then spins on a flag that the loop sets. Inside a
callback the reactor thread calls the same methods on its handlers directly.

An action is one atomic step: a step on the queue, an access to `_notified`, `_running`
or `_threadId`, a system call, or a piece of code that touches the handlers only, which no
other thread sees. The wakeup descriptor is private, so no caller names it.
-/

set_option autoImplicit false

namespace Join

open Library

/-- `Reactor::CommandType`. -/
inductive CommandType where
  | add
  | del
  | stop
  deriving DecidableEq

/-- `Reactor::Command`; `done` is the caller whose `done` and `errc` the command points to. -/
structure Command (T H : Type) where
  type : CommandType
  fd : ℤ
  events : UInt32
  handler : Option H
  done : Option T

/-- A call of a public method. -/
inductive Request (H : Type) where
  | addHandler (fd : ℤ) (handler : Option H) (wantRead wantWrite sync : Bool)
  | delHandler (fd : ℤ) (sync : Bool)
  | stop (sync : Bool)

/-- Where a thread that is not the reactor thread stands. -/
inductive Caller (H : Type) where
  | idle
  /-- In `writeCommand`. -/
  | sending (request : Request H)
  /-- On its `done` flag. -/
  | waiting
  /-- On the thread id. -/
  | stopping

/-- Where the reactor thread stands. -/
inductive Loop (T H : Type) where
  | outside
  | entered
  | checking
  | blocked
  | commanding
  | processing (command : Command T H)
  | dispatching
  | calling (fd : ℤ) (handler : H) (callback : Callback)
  | leaving
  | returned

variable {T H : Type}

/-- The caller waits on its `done` flag. -/
def Caller.isWaiting : Caller H → Bool
  | .waiting => true
  | _ => false

/-- `run` has returned. -/
def Loop.isReturned : Loop T H → Bool
  | .returned => true
  | _ => false

/-- The loop tests the running flag next. -/
def Loop.isChecking : Loop T H → Bool
  | .checking => true
  | _ => false

@[simp] theorem Caller.isWaiting_iff {caller : Caller H} :
    caller.isWaiting = true ↔ caller = .waiting := by
  cases caller <;> simp [isWaiting]

@[simp] theorem Loop.isReturned_iff {loop : Loop T H} :
    loop.isReturned = true ↔ loop = .returned := by
  cases loop <;> simp [isReturned]

namespace Request

/-- The event mask that `addHandler` computes. -/
def eventsOf (wantRead wantWrite : Bool) : UInt32 :=
  (if wantRead then epollIn ||| epollRdHup else 0) ||| (if wantWrite then epollOut else 0)

/-- The descriptor that the caller names. -/
def fd : Request H → Option ℤ
  | .addHandler fd _ _ _ _ => some fd
  | .delHandler fd _ => some fd
  | .stop _ => none

/-- The command that the call writes. -/
def command (who : T) : Request H → Command T H
  | .addHandler fd handler wantRead wantWrite sync =>
      ⟨.add, fd, eventsOf wantRead wantWrite, handler, if sync then some who else none⟩
  | .delHandler fd sync => ⟨.del, fd, 0, none, if sync then some who else none⟩
  | .stop _ => ⟨.stop, -1, 0, none, none⟩

/-- Where the caller goes after `writeCommand`. -/
def next (written : Bool) : Request H → Caller H
  | .addHandler _ _ _ _ sync => if written && sync then .waiting else .idle
  | .delHandler _ sync => if written && sync then .waiting else .idle
  | .stop sync => if sync then .stopping else .idle

end Request

/-- The handlers, the commands, the flags, and where everybody stands. `early` tells of a
synchronous caller that its command was in the queue before `run` returned. -/
structure ReactorSystem (T H : Type) where
  dispatcher : Dispatcher H
  commands : Doorbell T (Command T H)
  threadId : Bool
  running : Bool
  loop : Loop T H
  caller : T → Caller H
  done : T → Bool
  errc : T → Option ReactorError
  early : T → Bool
  processed : List (Command T H)

/-- A thread starts a call, makes the next step of `writeCommand`, returns from it, or finds
what it waits for; the reactor thread makes a step of `run`. Where the kernel may refuse a
change of the interest set, its answer is in the action. -/
inductive ReactorAction (T H : Type) where
  | call (who : T) (request : Request H)
  | advance (who : T)
  | proceed (who : T)
  | finish (who : T)
  | run
  | start
  | check
  | interrupted
  | wait (woken : Bool) (batch : List EpollEvent)
  | readCommands
  | processCommand (verdict : Option Errno)
  | dispatchEvent
  | reenter (request : Request H) (verdict : Option Errno)
  | callbackReturns
  | sweep
  | leave

/-- The queue of commands; an eventfd counts to `2 ^ 64 - 2`. -/
def commandConfig : DoorbellConfig := ⟨1024, 2 ^ 64 - 2, false⟩

namespace ReactorSystem

/-- A reactor that has just been constructed, and nobody in a call. -/
def initial (T H : Type) (wakeup : ℤ) : ReactorSystem T H where
  dispatcher := .initial H wakeup
  commands := .initial T (Command T H)
  threadId := false
  running := false
  loop := .outside
  caller := fun _ => .idle
  done := fun _ => false
  errc := fun _ => none
  early := fun _ => false
  processed := []

/-- What `registerHandler` and `unregisterHandler` do for a command. -/
def serve (dispatcher : Dispatcher H) (verdict : Option Errno) (command : Command T H) :
    Option ReactorError × Dispatcher H :=
  match command.type with
  | .add => dispatcher.register verdict command.fd command.handler command.events
  | .del => dispatcher.unregister verdict command.fd
  | .stop => (none, dispatcher)

variable [DecidableEq T]

/-- The `done` flags after a command. -/
def complete (done : T → Bool) (command : Command T H) : T → Bool :=
  match command.done with
  | some who => Function.update done who true
  | none => done

/-- The error codes after a command that failed with an error, or did not. -/
def report (errc : T → Option ReactorError) (command : Command T H)
    (error : Option ReactorError) : T → Option ReactorError :=
  match command.done, error with
  | some who, some error => Function.update errc who (some error)
  | _, _ => errc

/-- `Reactor::processCommand`. -/
def processCommand (system : ReactorSystem T H) (verdict : Option Errno)
    (command : Command T H) : ReactorSystem T H :=
  let served := serve system.dispatcher verdict command
  { system with
    dispatcher := served.2
    running := if command.type = .stop then false else system.running
    done := complete system.done command
    errc := report system.errc command served.1
    loop := .commanding
    processed := system.processed ++ [command] }

/-- A method that the reactor thread calls inside a callback. -/
def reenter (system : ReactorSystem T H) (verdict : Option Errno) :
    Request H → ReactorSystem T H
  | .addHandler fd handler wantRead wantWrite _ =>
      { system with
        dispatcher := (system.dispatcher.register verdict fd handler
          (Request.eventsOf wantRead wantWrite)).2 }
  | .delHandler fd _ =>
      { system with dispatcher := (system.dispatcher.unregister verdict fd).2 }
  | .stop _ => { system with running := false }

/-- The next step of the thread puts a synchronous command into the queue while `run` has
not returned. -/
def pushes (system : ReactorSystem T H) (who : T) : Bool :=
  match system.commands.sending who, system.loop with
  | .claimed _, .returned => false
  | .claimed command, _ => command.done.isSome
  | _, _ => false

/-- One action. -/
def act (wakeup : ℤ) (system : ReactorSystem T H) :
    ReactorAction T H → Option (ReactorSystem T H)
  | .call who request =>
      match system.caller who with
      | .idle =>
          if request.fd = some wakeup then none
          else
            (system.commands.act commandConfig (.enter who (request.command who))).map
              fun commands =>
                { system with
                  commands := commands
                  caller := Function.update system.caller who (.sending request)
                  done := Function.update system.done who false
                  errc := Function.update system.errc who none
                  early := Function.update system.early who false }
      | _ => none
  | .advance who =>
      (system.commands.act commandConfig (.advance who)).map fun commands =>
        { system with
          commands := commands
          early := Function.update system.early who (system.early who || system.pushes who) }
  | .proceed who =>
      match system.caller who, system.commands.sending who with
      | .sending request, .outside =>
          some { system with caller := Function.update system.caller who (request.next true) }
      | .sending request, .failed =>
          some { system with caller := Function.update system.caller who (request.next false) }
      | _, _ => none
  | .finish who =>
      match system.caller who with
      | .waiting =>
          if system.done who then
            some { system with caller := Function.update system.caller who .idle }
          else none
      | .stopping =>
          if system.threadId then none
          else some { system with caller := Function.update system.caller who .idle }
      | _ => none
  | .run =>
      match system.loop with
      | .outside => some { system with threadId := true, loop := .entered }
      | _ => none
  | .start =>
      match system.loop with
      | .entered => some { system with running := true, loop := .checking }
      | _ => none
  | .check =>
      match system.loop with
      | .checking =>
          some { system with loop := if system.running then .blocked else .leaving }
      | _ => none
  | .interrupted =>
      match system.loop with
      | .blocked => some { system with loop := .checking }
      | _ => none
  | .wait woken batch =>
      match system.loop with
      | .blocked =>
          if ∀ event ∈ batch, event.fd ≠ wakeup ∧
              system.dispatcher.registry.interest.Reports event then
            if woken then
              (system.commands.act commandConfig .wake).map fun commands =>
                { system with
                  dispatcher := system.dispatcher.wait batch
                  commands := commands
                  loop := .commanding }
            else
              some { system with
                dispatcher := system.dispatcher.wait batch
                loop := .dispatching }
          else none
      | _ => none
  | .readCommands =>
      match system.loop with
      | .commanding =>
          (system.commands.act commandConfig .receive).map fun commands =>
            { system with
              commands := commands
              loop :=
                match system.commands.upcoming with
                | some command => .processing command
                | none => if commands.receiving = .away then .dispatching else .commanding }
      | _ => none
  | .processCommand verdict =>
      match system.loop with
      | .processing command => some (system.processCommand verdict command)
      | _ => none
  | .dispatchEvent =>
      match system.loop, system.dispatcher.pending with
      | .dispatching, event :: rest =>
          some { system with
            dispatcher := system.dispatcher.dispatch event rest
            loop :=
              match system.dispatcher.registry.dispatchEvent event with
              | some (handler, callback) => .calling event.fd handler callback
              | none => .dispatching }
      | _, _ => none
  | .reenter request verdict =>
      match system.loop with
      | .calling _ _ _ =>
          if request.fd = some wakeup then none else some (system.reenter verdict request)
      | _ => none
  | .callbackReturns =>
      match system.loop with
      | .calling _ _ _ => some { system with loop := .dispatching }
      | _ => none
  | .sweep =>
      match system.loop, system.dispatcher.pending with
      | .dispatching, [] =>
          some { system with dispatcher := system.dispatcher.sweep, loop := .checking }
      | _, _ => none
  | .leave =>
      match system.loop with
      | .leaving => some { system with threadId := false, loop := .returned }
      | _ => none

/-- The actions of a thread that writes a command, alone; it rings if nobody has. -/
def write (who : T) (request : Request H) (rings : Bool) : List (ReactorAction T H) :=
  ([.call who request, .advance who, .advance who, .advance who] : List (ReactorAction T H)) ++
    (if rings then [.advance who] else []) ++ [ReactorAction.proceed who]

/-! ## The actions one by one -/

/-- What each action needs and what it leaves. -/
inductive Step (wakeup : ℤ) (system : ReactorSystem T H) :
    ReactorAction T H → ReactorSystem T H → Prop where
  | call {who : T} {request : Request H} {commands : Doorbell T (Command T H)}
      (idle : system.caller who = .idle) (own : request.fd ≠ some wakeup)
      (enters : system.commands.act commandConfig (.enter who (request.command who)) =
        some commands) :
      Step wakeup system (.call who request)
        { system with
          commands := commands
          caller := Function.update system.caller who (.sending request)
          done := Function.update system.done who false
          errc := Function.update system.errc who none
          early := Function.update system.early who false }
  | advance {who : T} {commands : Doorbell T (Command T H)}
      (advances : system.commands.act commandConfig (.advance who) = some commands) :
      Step wakeup system (.advance who)
        { system with
          commands := commands
          early := Function.update system.early who (system.early who || system.pushes who) }
  | proceed {who : T} {request : Request H} (written : Bool)
      (sending : system.caller who = .sending request)
      (sent : system.commands.sending who = if written then .outside else .failed) :
      Step wakeup system (.proceed who)
        { system with caller := Function.update system.caller who (request.next written) }
  | done {who : T} (waiting : system.caller who = .waiting) (done : system.done who = true) :
      Step wakeup system (.finish who)
        { system with caller := Function.update system.caller who .idle }
  | stopped {who : T} (stopping : system.caller who = .stopping)
      (gone : system.threadId = false) :
      Step wakeup system (.finish who)
        { system with caller := Function.update system.caller who .idle }
  | run (outside : system.loop = .outside) :
      Step wakeup system .run { system with threadId := true, loop := .entered }
  | start (entered : system.loop = .entered) :
      Step wakeup system .start { system with running := true, loop := .checking }
  | goOn (checking : system.loop = .checking) (running : system.running = true) :
      Step wakeup system .check { system with loop := .blocked }
  | exit (checking : system.loop = .checking) (stopped : system.running = false) :
      Step wakeup system .check { system with loop := .leaving }
  | interrupted (blocked : system.loop = .blocked) :
      Step wakeup system .interrupted { system with loop := .checking }
  | woken {batch : List EpollEvent} {commands : Doorbell T (Command T H)}
      (blocked : system.loop = .blocked)
      (reported : ∀ event ∈ batch, event.fd ≠ wakeup ∧
        system.dispatcher.registry.interest.Reports event)
      (wakes : system.commands.act commandConfig .wake = some commands) :
      Step wakeup system (.wait true batch)
        { system with
          dispatcher := system.dispatcher.wait batch
          commands := commands
          loop := .commanding }
  | fetched {batch : List EpollEvent} (blocked : system.loop = .blocked)
      (reported : ∀ event ∈ batch, event.fd ≠ wakeup ∧
        system.dispatcher.registry.interest.Reports event) :
      Step wakeup system (.wait false batch)
        { system with dispatcher := system.dispatcher.wait batch, loop := .dispatching }
  | take {command : Command T H} {commands : Doorbell T (Command T H)}
      (commanding : system.loop = .commanding) (next : system.commands.upcoming = some command)
      (receives : system.commands.act commandConfig .receive = some commands) :
      Step wakeup system .readCommands
        { system with commands := commands, loop := .processing command }
  | read {commands : Doorbell T (Command T H)} (commanding : system.loop = .commanding)
      (next : system.commands.upcoming = none)
      (receives : system.commands.act commandConfig .receive = some commands) :
      Step wakeup system .readCommands
        { system with
          commands := commands
          loop := if commands.receiving = .away then .dispatching else .commanding }
  | process {command : Command T H} (verdict : Option Errno)
      (processing : system.loop = .processing command) :
      Step wakeup system (.processCommand verdict) (system.processCommand verdict command)
  | dispatch {event : EpollEvent} {rest : List EpollEvent} {handler : H} {callback : Callback}
      (dispatching : system.loop = .dispatching)
      (pending : system.dispatcher.pending = event :: rest)
      (calls : system.dispatcher.registry.dispatchEvent event = some (handler, callback)) :
      Step wakeup system .dispatchEvent
        { system with
          dispatcher := system.dispatcher.dispatch event rest
          loop := .calling event.fd handler callback }
  | skip {event : EpollEvent} {rest : List EpollEvent}
      (dispatching : system.loop = .dispatching)
      (pending : system.dispatcher.pending = event :: rest)
      (calls : system.dispatcher.registry.dispatchEvent event = none) :
      Step wakeup system .dispatchEvent
        { system with dispatcher := system.dispatcher.dispatch event rest }
  | reenter {fd : ℤ} {handler : H} {callback : Callback} {request : Request H}
      (verdict : Option Errno) (calling : system.loop = .calling fd handler callback)
      (own : request.fd ≠ some wakeup) :
      Step wakeup system (.reenter request verdict) (system.reenter verdict request)
  | callbackReturns {fd : ℤ} {handler : H} {callback : Callback}
      (calling : system.loop = .calling fd handler callback) :
      Step wakeup system .callbackReturns { system with loop := .dispatching }
  | sweep (dispatching : system.loop = .dispatching) (pending : system.dispatcher.pending = []) :
      Step wakeup system .sweep
        { system with dispatcher := system.dispatcher.sweep, loop := .checking }
  | leave (leaving : system.loop = .leaving) :
      Step wakeup system .leave { system with threadId := false, loop := .returned }

variable {wakeup : ℤ} {system after : ReactorSystem T H} {action : ReactorAction T H}

/-- An action is one of these. -/
theorem step_of_act (happens : system.act wakeup action = some after) :
    Step wakeup system action after := by
  cases action with
  | call who request =>
      simp only [act] at happens
      split at happens
      · rename_i idle
        split_ifs at happens with own
        obtain ⟨commands, enters, rfl⟩ := Option.map_eq_some_iff.mp happens
        exact .call idle own enters
      · cases happens
  | advance who =>
      obtain ⟨commands, advances, rfl⟩ := Option.map_eq_some_iff.mp happens
      exact .advance advances
  | proceed who =>
      simp only [act] at happens
      split at happens
      · rename_i request sending sent
        cases happens
        exact .proceed true sending sent
      · rename_i request sending sent
        cases happens
        exact .proceed false sending sent
      · cases happens
  | finish who =>
      simp only [act] at happens
      split at happens
      · rename_i waiting
        split_ifs at happens with done
        cases happens
        exact .done waiting done
      · rename_i stopping
        split_ifs at happens with there
        cases happens
        exact .stopped stopping ((Bool.not_eq_true _).mp there)
      · cases happens
  | run =>
      simp only [act] at happens
      split at happens
      · rename_i outside
        cases happens
        exact .run outside
      · cases happens
  | start =>
      simp only [act] at happens
      split at happens
      · rename_i entered
        cases happens
        exact .start entered
      · cases happens
  | check =>
      simp only [act] at happens
      split at happens
      · rename_i checking
        cases happens
        split_ifs with running
        · exact .goOn checking running
        · exact .exit checking ((Bool.not_eq_true _).mp running)
      · cases happens
  | interrupted =>
      simp only [act] at happens
      split at happens
      · rename_i blocked
        cases happens
        exact .interrupted blocked
      · cases happens
  | wait woken batch =>
      simp only [act] at happens
      split at happens
      · rename_i blocked
        split_ifs at happens with reported rung
        · obtain ⟨commands, wakes, rfl⟩ := Option.map_eq_some_iff.mp happens
          subst rung
          exact .woken blocked reported wakes
        · cases happens
          obtain rfl := (Bool.not_eq_true _).mp rung
          exact .fetched blocked reported
      · cases happens
  | readCommands =>
      simp only [act] at happens
      split at happens
      · rename_i commanding
        obtain ⟨commands, receives, rfl⟩ := Option.map_eq_some_iff.mp happens
        cases next : system.commands.upcoming with
        | some command => exact .take commanding next receives
        | none => exact .read commanding next receives
      · cases happens
  | processCommand verdict =>
      simp only [act] at happens
      split at happens
      · rename_i command processing
        cases happens
        exact .process verdict processing
      · cases happens
  | dispatchEvent =>
      simp only [act] at happens
      split at happens
      · rename_i event rest dispatching pending
        cases happens
        cases calls : system.dispatcher.registry.dispatchEvent event with
        | some call => exact .dispatch dispatching pending calls
        | none =>
            simp only
            rw [← dispatching]
            exact .skip dispatching pending calls
      · cases happens
  | reenter request verdict =>
      simp only [act] at happens
      split at happens
      · rename_i fd handler callback calling
        split_ifs at happens with own
        cases happens
        exact .reenter verdict calling own
      · cases happens
  | callbackReturns =>
      simp only [act] at happens
      split at happens
      · rename_i fd handler callback calling
        cases happens
        exact .callbackReturns calling
      · cases happens
  | sweep =>
      simp only [act] at happens
      split at happens
      · rename_i dispatching pending
        cases happens
        exact .sweep dispatching pending
      · cases happens
  | leave =>
      simp only [act] at happens
      split at happens
      · rename_i leaving
        cases happens
        exact .leave leaving
      · cases happens

end ReactorSystem

end Join
