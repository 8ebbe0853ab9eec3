import Join.Core.ProactorCalls
import Join.Core.ReactorStop

/-!
# The threads of the epoll proactor

The epoll backend of `join::BasicProactor` is a handler of a reactor of its own, and runs
in the loop of that. Other threads write commands into a queue of the proactor and ring an
eventfd that the reactor watches; `onReadable` of that eventfd reads the commands. What a
Submit, a Cancel or a completed operation does to the reactor is a sequence of calls inside
a callback, and is left open here.

`stop` first has its Stop command processed, and then stops the reactor.
-/

set_option autoImplicit false

namespace Join

open Library

variable {T : Type}

/-- The reactor, the queue of the proactor, `_stopping`, and where everybody stands.
`inHand` is the command that is being processed; `heeded` tells that a call of `stop` has
read the running flag after `run` had set it. -/
structure EpollProactor (T : Type) where
  reactor : ReactorSystem T Unit
  commands : Doorbell T (ProactorCommand T)
  stopping : Bool
  caller : T → ProactorCaller
  done : T → Bool
  inHand : Option (ProactorCommand T)
  processed : List (ProactorCommand T)
  heeded : Bool

/-- A thread starts a call or goes on with it; the reactor thread, or a thread that is in the
reactor, makes a step there; or the proactor thread makes a step of `onReadable`. -/
inductive EpollAction (T : Type) where
  | request (who : T) (type : ProactorCommandType) (sync : Bool)
  | stop (who : T) (sync : Bool)
  | look (who : T)
  | contend (who : T)
  | follow (who : T)
  | advance (who : T)
  | proceed (who : T)
  | finish (who : T)
  | release (who : T)
  | delegate (who : T)
  | comeBack (who : T)
  | reactor (action : ReactorAction T Unit)
  | readCommands
  | processCommand

namespace EpollProactor

variable [DecidableEq T]

/-- The thread that constructs the proactor has the reactor watch the eventfd. -/
def construction (maker : T) (wakeup : ℤ) : List (ReactorAction T Unit) :=
  ReactorSystem.write maker (.addHandler wakeup (some ()) true false false) true

/-- A proactor that has just been constructed; `own` is the eventfd of the reactor, `wakeup`
that of the proactor. -/
def initial (maker : T) (own wakeup : ℤ) : EpollProactor T where
  reactor := (follow (ReactorSystem.act own) (.initial T Unit own)
    (construction maker wakeup)).getD (.initial T Unit own)
  commands := .initial T (ProactorCommand T)
  stopping := false
  caller := fun _ => .idle
  done := fun _ => false
  inHand := none
  processed := []
  heeded := false

/-- The thread goes to another place. -/
def moveTo (proactor : EpollProactor T) (who : T) (next : ProactorCaller) : EpollProactor T :=
  { proactor with caller := Function.update proactor.caller who next }

/-- The thread begins to write a command; a flag that it points to is clear. -/
def enter (proactor : EpollProactor T) (who : T) (command : ProactorCommand T)
    (next : ProactorCaller) : Option (EpollProactor T) :=
  (proactor.commands.act commandConfig (.enter who command)).map fun commands =>
    { proactor.moveTo who next with
      commands := commands
      done := Function.update proactor.done who false }

/-- The running flag has been set. -/
def begun (proactor : EpollProactor T) : Bool :=
  match proactor.reactor.loop with
  | .outside | .entered => false
  | _ => true

/-- The loop after a dispatch is in `onReadable` of the eventfd. -/
def serves (wakeup : ℤ) (loop : Loop T Unit) : Bool :=
  match loop with
  | .calling fd () .onReadable => fd = wakeup
  | _ => false

/-- A step inside the reactor. Nobody but the proactor calls its methods; a callback ends
when the commands are read; and a callback on the eventfd begins to read them, because
epoll reports an eventfd that is not zero and no other thread reads it. -/
def inReactor (own wakeup : ℤ) (proactor : EpollProactor T)
    (action : ReactorAction T Unit) : Option (EpollProactor T) :=
  match action with
  | .call _ _ => none
  | .callbackReturns =>
      if proactor.commands.receiving = .away ∧ proactor.inHand.isNone then
        (proactor.reactor.act own action).map fun reactor => { proactor with reactor := reactor }
      else none
  | .reenter (.stop _) _ =>
      (proactor.reactor.act own action).map fun reactor =>
        { proactor with reactor := reactor, heeded := true }
  | .dispatchEvent =>
      (proactor.reactor.act own action).bind fun reactor =>
        if serves wakeup reactor.loop then
          (proactor.commands.act commandConfig .wake).map fun commands =>
            { proactor with reactor := reactor, commands := commands }
        else some { proactor with reactor := reactor }
  | _ => (proactor.reactor.act own action).map fun reactor => { proactor with reactor := reactor }

/-- The `done` flags after a command. -/
def complete (done : T → Bool) (command : ProactorCommand T) : T → Bool :=
  match command.done with
  | some who => Function.update done who true
  | none => done

/-- One action. -/
def act (own wakeup : ℤ) (proactor : EpollProactor T) :
    EpollAction T → Option (EpollProactor T)
  | .request who type sync =>
      if proactor.caller who = .idle ∧ (type = .submit ∨ type = .cancel) then
        proactor.enter who ⟨type, if sync then some who else none⟩ (.requesting sync)
      else none
  | .stop who sync =>
      if proactor.caller who = .idle then some (proactor.moveTo who (.stopping sync)) else none
  | .look who =>
      match proactor.caller who with
      | .stopping sync =>
          if proactor.reactor.running then
            if sync then
              some { proactor.moveTo who .contending with heeded := true }
            else
              (proactor.enter who ⟨.stop, none⟩ (.writing false)).map fun after =>
                { after with heeded := true }
          else
            some { proactor.moveTo who .idle with heeded := proactor.heeded || proactor.begun }
      | _ => none
  | .contend who =>
      if proactor.caller who = .contending then
        if proactor.stopping then some (proactor.moveTo who .following)
        else
          (proactor.enter who ⟨.stop, some who⟩ (.writing true)).map fun after =>
            { after with stopping := true }
      else none
  | .follow who =>
      if proactor.caller who = .following ∧ proactor.reactor.running = false then
        some (proactor.moveTo who .idle)
      else none
  | .advance who =>
      (proactor.commands.act commandConfig (.advance who)).map fun commands =>
        { proactor with commands := commands }
  | .proceed who =>
      match proactor.caller who, proactor.commands.sending who with
      | .requesting sync, .outside =>
          some (proactor.moveTo who (if sync then .waiting else .idle))
      | .requesting _, .failed => some (proactor.moveTo who .idle)
      | .writing sync, .outside =>
          some (proactor.moveTo who (if sync then .awaiting else .delegating false))
      | .writing sync, .failed =>
          some (proactor.moveTo who (if sync then .awaiting else .delegating false))
      | _, _ => none
  | .finish who =>
      match proactor.caller who with
      | .waiting => if proactor.done who then some (proactor.moveTo who .idle) else none
      | .awaiting => if proactor.done who then some (proactor.moveTo who .releasing) else none
      | _ => none
  | .release who =>
      if proactor.caller who = .releasing then
        some { proactor.moveTo who (.delegating true) with stopping := false }
      else none
  | .delegate who =>
      match proactor.caller who with
      | .delegating sync =>
          (proactor.reactor.act own (.call who (.stop sync))).map fun reactor =>
            { proactor.moveTo who .inside with reactor := reactor }
      | _ => none
  | .comeBack who =>
      match proactor.caller who, proactor.reactor.caller who with
      | .inside, .idle => some (proactor.moveTo who .idle)
      | _, _ => none
  | .reactor action => proactor.inReactor own wakeup action
  | .readCommands =>
      if serves wakeup proactor.reactor.loop ∧ proactor.inHand.isNone then
        (proactor.commands.act commandConfig .receive).map fun commands =>
          { proactor with commands := commands, inHand := proactor.commands.upcoming }
      else none
  | .processCommand =>
      proactor.inHand.map fun command =>
        { proactor with
          inHand := none
          done := complete proactor.done command
          processed := proactor.processed ++ [command] }

variable {own wakeup : ℤ} {maker : T} {proactor after : EpollProactor T} {action : EpollAction T}

/-! ## The reactor inside -/

/-- The reactor of a new proactor is a reactor on which one call was made. -/
theorem construction_trace (maker : T) (own wakeup : ℤ) (other : wakeup ≠ own) :
    Trace (ReactorSystem.act own) (.initial T Unit own) (construction maker wakeup)
      (initial maker own wakeup).reactor := by
  have followed : (follow (ReactorSystem.act own) (.initial T Unit own)
      (construction maker wakeup)).isSome := by
    simp [construction, ReactorSystem.write, follow, ReactorSystem.act, ReactorSystem.initial,
      Request.fd, Doorbell.act, Doorbell.initial, Sending.inside, Doorbell.advance,
      Doorbell.claim, Doorbell.write, Doorbell.exchange, Doorbell.ring, Doorbell.moveTo,
      commandConfig, other]
  obtain ⟨reactor, reached⟩ := Option.isSome_iff_exists.mp followed
  simp only [initial, reached, Option.getD_some]
  exact Trace.of_follow reached

/-! ## The actions one by one -/

/-- What each action needs and what it leaves. -/
inductive Step (own wakeup : ℤ) (proactor : EpollProactor T) : EpollProactor T → Prop where
  | request {who : T} {type : ProactorCommandType} {sync : Bool}
      {commands : Doorbell T (ProactorCommand T)} (idle : proactor.caller who = .idle)
      (asks : type = .submit ∨ type = .cancel)
      (enters : proactor.commands.act commandConfig
        (.enter who ⟨type, if sync then some who else none⟩) = some commands) :
      Step own wakeup proactor
        { proactor.moveTo who (.requesting sync) with
          commands := commands
          done := Function.update proactor.done who false }
  | stop {who : T} (sync : Bool) (idle : proactor.caller who = .idle) :
      Step own wakeup proactor (proactor.moveTo who (.stopping sync))
  | heed {who : T} (stopping : proactor.caller who = .stopping true)
      (running : proactor.reactor.running = true) :
      Step own wakeup proactor { proactor.moveTo who .contending with heeded := true }
  | heedAsync {who : T} {commands : Doorbell T (ProactorCommand T)}
      (stopping : proactor.caller who = .stopping false)
      (running : proactor.reactor.running = true)
      (enters : proactor.commands.act commandConfig (.enter who ⟨.stop, none⟩) =
        some commands) :
      Step own wakeup proactor
        { proactor.moveTo who (.writing false) with
          commands := commands
          done := Function.update proactor.done who false
          heeded := true }
  | ignore {who : T} {sync : Bool} (stopping : proactor.caller who = .stopping sync)
      (still : proactor.reactor.running = false) :
      Step own wakeup proactor
        { proactor.moveTo who .idle with heeded := proactor.heeded || proactor.begun }
  | lose {who : T} (contending : proactor.caller who = .contending)
      (taken : proactor.stopping = true) :
      Step own wakeup proactor (proactor.moveTo who .following)
  | win {who : T} {commands : Doorbell T (ProactorCommand T)}
      (contending : proactor.caller who = .contending) (free : proactor.stopping = false)
      (enters : proactor.commands.act commandConfig (.enter who ⟨.stop, some who⟩) =
        some commands) :
      Step own wakeup proactor
        { proactor.moveTo who (.writing true) with
          commands := commands
          done := Function.update proactor.done who false
          stopping := true }
  | follow {who : T} (following : proactor.caller who = .following)
      (still : proactor.reactor.running = false) :
      Step own wakeup proactor (proactor.moveTo who .idle)
  | advance {who : T} {commands : Doorbell T (ProactorCommand T)}
      (advances : proactor.commands.act commandConfig (.advance who) = some commands) :
      Step own wakeup proactor { proactor with commands := commands }
  | requested {who : T} {sync : Bool} (requesting : proactor.caller who = .requesting sync)
      (waits : Bool) :
      Step own wakeup proactor (proactor.moveTo who (if waits then .waiting else .idle))
  | written {who : T} {sync : Bool} (writing : proactor.caller who = .writing sync) :
      Step own wakeup proactor
        (proactor.moveTo who (if sync then .awaiting else .delegating false))
  | done {who : T} (waiting : proactor.caller who = .waiting) (done : proactor.done who = true) :
      Step own wakeup proactor (proactor.moveTo who .idle)
  | awaited {who : T} (awaiting : proactor.caller who = .awaiting)
      (done : proactor.done who = true) :
      Step own wakeup proactor (proactor.moveTo who .releasing)
  | release {who : T} (releasing : proactor.caller who = .releasing) :
      Step own wakeup proactor
        { proactor.moveTo who (.delegating true) with stopping := false }
  | delegate {who : T} {sync : Bool} {reactor : ReactorSystem T Unit}
      (delegating : proactor.caller who = .delegating sync)
      (calls : proactor.reactor.act own (.call who (.stop sync)) = some reactor) :
      Step own wakeup proactor { proactor.moveTo who .inside with reactor := reactor }
  | comeBack {who : T} (inside : proactor.caller who = .inside)
      (idle : proactor.reactor.caller who = .idle) :
      Step own wakeup proactor (proactor.moveTo who .idle)
  | inner {move : ReactorAction T Unit} {reactor : ReactorSystem T Unit}
      (noCall : ∀ who request, move ≠ .call who request)
      (continues : ReactorSystem.Continues move)
      (ends : move = .callbackReturns →
        proactor.commands.receiving = .away ∧ proactor.inHand = none)
      (moves : proactor.reactor.act own move = some reactor)
      (quiet : move = .dispatchEvent → serves wakeup reactor.loop = false) :
      Step own wakeup proactor { proactor with reactor := reactor }
  | stopInside {sync : Bool} {verdict : Option Errno} {reactor : ReactorSystem T Unit}
      (moves : proactor.reactor.act own (.reenter (.stop sync) verdict) = some reactor) :
      Step own wakeup proactor { proactor with reactor := reactor, heeded := true }
  | serve {reactor : ReactorSystem T Unit} {commands : Doorbell T (ProactorCommand T)}
      (moves : proactor.reactor.act own .dispatchEvent = some reactor)
      (serves : serves wakeup reactor.loop = true)
      (wakes : proactor.commands.act commandConfig .wake = some commands) :
      Step own wakeup proactor { proactor with reactor := reactor, commands := commands }
  | read {commands : Doorbell T (ProactorCommand T)}
      (serving : serves wakeup proactor.reactor.loop = true) (free : proactor.inHand = none)
      (receives : proactor.commands.act commandConfig .receive = some commands) :
      Step own wakeup proactor
        { proactor with commands := commands, inHand := proactor.commands.upcoming }
  | process {command : ProactorCommand T} (inHand : proactor.inHand = some command) :
      Step own wakeup proactor
        { proactor with
          inHand := none
          done := complete proactor.done command
          processed := proactor.processed ++ [command] }

theorem enter_eq_some {who : T} {command : ProactorCommand T} {next : ProactorCaller}
    (enters : proactor.enter who command next = some after) :
    ∃ commands, proactor.commands.act commandConfig (.enter who command) = some commands ∧
      after = { proactor.moveTo who next with
        commands := commands
        done := Function.update proactor.done who false } := by
  obtain ⟨commands, entered, rfl⟩ := Option.map_eq_some_iff.mp enters
  exact ⟨commands, entered, rfl⟩

/-- A step inside the reactor is one of these. -/
theorem step_of_inReactor {move : ReactorAction T Unit}
    (happens : proactor.inReactor own wakeup move = some after) :
    Step own wakeup proactor after := by
  have inner {reactor : ReactorSystem T Unit} (noCall : ∀ who request, move ≠ .call who request)
      (continues : ReactorSystem.Continues move) (ends : move ≠ .callbackReturns)
      (quiet : move ≠ .dispatchEvent) (moves : proactor.reactor.act own move = some reactor) :
      Step own wakeup proactor { proactor with reactor := reactor } :=
    .inner noCall continues (fun same => absurd same ends) moves fun same => absurd same quiet
  cases move with
  | call who request => cases happens
  | callbackReturns =>
      simp only [inReactor] at happens
      split_ifs at happens with past
      obtain ⟨reactor, moves, rfl⟩ := Option.map_eq_some_iff.mp happens
      refine @Step.inner _ _ _ _ _ .callbackReturns _ ?_ trivial ?_ moves nofun
      · exact fun _ _ => nofun
      · exact fun _ => ⟨past.1, Option.isNone_iff_eq_none.mp past.2⟩
  | dispatchEvent =>
      obtain ⟨reactor, moves, rest⟩ := Option.bind_eq_some_iff.mp happens
      split_ifs at rest with serves
      · obtain ⟨commands, wakes, rfl⟩ := Option.map_eq_some_iff.mp rest
        exact .serve moves serves wakes
      · cases rest
        refine @Step.inner _ _ _ _ _ .dispatchEvent _ ?_ trivial nofun moves ?_
        · exact fun _ _ => nofun
        · exact fun _ => (Bool.not_eq_true _).mp serves
  | reenter request verdict =>
      cases request with
      | stop sync =>
          obtain ⟨reactor, moves, rfl⟩ := Option.map_eq_some_iff.mp happens
          exact .stopInside moves
      | addHandler _ _ _ _ _ =>
          obtain ⟨reactor, moves, rfl⟩ := Option.map_eq_some_iff.mp happens
          exact inner (fun _ _ => nofun) trivial nofun nofun moves
      | delHandler _ _ =>
          obtain ⟨reactor, moves, rfl⟩ := Option.map_eq_some_iff.mp happens
          exact inner (fun _ _ => nofun) trivial nofun nofun moves
  | _ =>
      obtain ⟨reactor, moves, rfl⟩ := Option.map_eq_some_iff.mp happens
      exact inner (fun _ _ => nofun) trivial nofun nofun moves

/-- An action is one of these. -/
theorem step_of_act (happens : proactor.act own wakeup action = some after) :
    Step own wakeup proactor after := by
  cases action with
  | request who type sync =>
      unfold act at happens
      dsimp only at happens
      rw [Option.ite_none_right_eq_some] at happens
      obtain ⟨⟨idle, asks⟩, happens⟩ := happens
      obtain ⟨commands, enters, rfl⟩ := enter_eq_some happens
      exact .request idle asks enters
  | stop who sync =>
      simp only [act] at happens
      split_ifs at happens with idle
      cases happens
      exact .stop sync idle
  | look who =>
      simp only [act] at happens
      split at happens
      · rename_i sync stopping
        split_ifs at happens with running waits
        · cases happens
          exact .heed (waits ▸ stopping) running
        · obtain ⟨entered, begins, rfl⟩ := Option.map_eq_some_iff.mp happens
          obtain ⟨commands, enters, rfl⟩ := enter_eq_some begins
          exact .heedAsync ((Bool.not_eq_true _).mp waits ▸ stopping) running enters
        · cases happens
          exact .ignore stopping ((Bool.not_eq_true _).mp running)
      · cases happens
  | contend who =>
      simp only [act] at happens
      split_ifs at happens with contending taken
      · cases happens
        exact .lose contending taken
      · obtain ⟨entered, begins, rfl⟩ := Option.map_eq_some_iff.mp happens
        obtain ⟨commands, enters, rfl⟩ := enter_eq_some begins
        exact .win contending ((Bool.not_eq_true _).mp taken) enters
  | follow who =>
      simp only [act] at happens
      split_ifs at happens with past
      cases happens
      exact .follow past.1 past.2
  | advance who =>
      obtain ⟨commands, advances, rfl⟩ := Option.map_eq_some_iff.mp happens
      exact .advance advances
  | proceed who =>
      simp only [act] at happens
      split at happens
      · rename_i sync requesting sent
        cases happens
        exact .requested requesting sync
      · rename_i sync requesting sent
        cases happens
        exact .requested requesting false
      · rename_i sync writing sent
        cases happens
        exact .written writing
      · rename_i sync writing sent
        cases happens
        exact .written writing
      · cases happens
  | finish who =>
      simp only [act] at happens
      split at happens
      · rename_i waiting
        split_ifs at happens with done
        cases happens
        exact .done waiting done
      · rename_i awaiting
        split_ifs at happens with done
        cases happens
        exact .awaited awaiting done
      · cases happens
  | release who =>
      simp only [act] at happens
      split_ifs at happens with releasing
      cases happens
      exact .release releasing
  | delegate who =>
      simp only [act] at happens
      split at happens
      · rename_i sync delegating
        obtain ⟨reactor, calls, rfl⟩ := Option.map_eq_some_iff.mp happens
        exact .delegate delegating calls
      · cases happens
  | comeBack who =>
      simp only [act] at happens
      split at happens
      · rename_i inside idle
        cases happens
        exact .comeBack inside idle
      · cases happens
  | reactor move => exact step_of_inReactor happens
  | readCommands =>
      simp only [act] at happens
      split_ifs at happens with ready
      obtain ⟨commands, receives, rfl⟩ := Option.map_eq_some_iff.mp happens
      exact .read ready.1 (Option.isNone_iff_eq_none.mp ready.2) receives
  | processCommand =>
      obtain ⟨command, inHand, rfl⟩ := Option.map_eq_some_iff.mp happens
      exact .process inHand

end EpollProactor

end Join
