import Join.Core.ProactorCalls

/-!
# The threads of the io_uring proactor

The io_uring backend of `join::BasicProactor` has a loop of its own. With the default policy
that loop waits for completions, among them the one of a read of the eventfd that other
threads ring; with a policy that spins it looks at its queue in every iteration. `stop` from
a callback clears the running flag and runs a loop inside the callback until no operation
is pending.

What the operations do is left open here: a callback calls `stop` at any time, and a loop
ends at any time after the running flag was cleared.
-/

set_option autoImplicit false

namespace Join

open Library

variable {T : Type}

/-- Where the proactor thread stands. -/
inductive UringLoop (T : Type) where
  | outside
  | entered
  /-- In `eventLoop`, but not in `readCommands`. -/
  | looping
  | reading
  | processing (command : ProactorCommand T)
  | left
  | returned

/-- `run` has set the running flag. -/
def UringLoop.begun : UringLoop T → Bool
  | .outside | .entered => false
  | _ => true

/-- The command that the proactor thread has taken and not processed yet. -/
def UringLoop.inHand : UringLoop T → Option (ProactorCommand T)
  | .processing command => some command
  | _ => none

/-- The queue, the flags, and where everybody stands. `armed` tells that the read of the
eventfd is submitted, `nested` counts the loops that run inside callbacks, and `heeded` tells
that a call of `stop` has read the running flag after `run` had set it. -/
structure UringProactor (T : Type) where
  commands : Doorbell T (ProactorCommand T)
  threadId : Bool
  running : Bool
  stopping : Bool
  loop : UringLoop T
  nested : ℕ
  armed : Bool
  caller : T → ProactorCaller
  done : T → Bool
  heeded : Bool

/-- A thread starts a call or goes on with it, or the proactor thread makes a step of
`run`. -/
inductive UringAction (T : Type) where
  | request (who : T) (type : ProactorCommandType) (sync : Bool)
  | stop (who : T) (sync : Bool)
  | look (who : T)
  | contend (who : T)
  | follow (who : T)
  | advance (who : T)
  | proceed (who : T)
  | finish (who : T)
  | release (who : T)
  | run
  | start
  | callReadCommands
  | readCommands
  | processCommand
  | stopInside
  | leaveInside
  | leave
  | exit

/-- The queue of commands; a policy that spins has no eventfd. -/
def uringConfig (spin : Bool) : DoorbellConfig := ⟨1024, 2 ^ 64 - 2, spin⟩

namespace UringProactor

/-- A proactor that has just been constructed, and nobody in a call. -/
def initial (T : Type) : UringProactor T where
  commands := .initial T (ProactorCommand T)
  threadId := false
  running := false
  stopping := false
  loop := .outside
  nested := 0
  armed := false
  caller := fun _ => .idle
  done := fun _ => false
  heeded := false

variable [DecidableEq T]

/-- The thread goes to another place. -/
def moveTo (proactor : UringProactor T) (who : T) (next : ProactorCaller) : UringProactor T :=
  { proactor with caller := Function.update proactor.caller who next }

/-- The thread begins to write a command; a flag that it points to is clear. -/
def enter (spin : Bool) (proactor : UringProactor T) (who : T) (command : ProactorCommand T)
    (next : ProactorCaller) : Option (UringProactor T) :=
  (proactor.commands.act (uringConfig spin) (.enter who command)).map fun commands =>
    { proactor.moveTo who next with
      commands := commands
      done := Function.update proactor.done who false }

/-- The `done` flags after a command. -/
def complete (done : T → Bool) (command : ProactorCommand T) : T → Bool :=
  match command.done with
  | some who => Function.update done who true
  | none => done

/-- One action. -/
def act (spin : Bool) (proactor : UringProactor T) :
    UringAction T → Option (UringProactor T)
  | .request who type sync =>
      if proactor.caller who = .idle ∧ type ≠ .stop then
        proactor.enter spin who ⟨type, if sync then some who else none⟩ (.requesting sync)
      else none
  | .stop who sync =>
      if proactor.caller who = .idle then some (proactor.moveTo who (.stopping sync)) else none
  | .look who =>
      match proactor.caller who with
      | .stopping sync =>
          if proactor.running then
            if sync then
              some { proactor.moveTo who .contending with heeded := true }
            else
              (proactor.enter spin who ⟨.stop, none⟩ (.writing false)).map fun after =>
                { after with heeded := true }
          else
            some { proactor.moveTo who .idle with
              heeded := proactor.heeded || proactor.loop.begun }
      | _ => none
  | .contend who =>
      if proactor.caller who = .contending then
        if proactor.stopping then some (proactor.moveTo who .following)
        else
          (proactor.enter spin who ⟨.stop, none⟩ (.writing true)).map fun after =>
            { after with stopping := true }
      else none
  | .follow who =>
      if proactor.caller who = .following ∧ proactor.threadId = false then
        some (proactor.moveTo who .idle)
      else none
  | .advance who =>
      (proactor.commands.act (uringConfig spin) (.advance who)).map fun commands =>
        { proactor with commands := commands }
  | .proceed who =>
      match proactor.caller who, proactor.commands.sending who with
      | .requesting sync, .outside =>
          some (proactor.moveTo who (if sync then .waiting else .idle))
      | .requesting _, .failed => some (proactor.moveTo who .idle)
      | .writing sync, .outside =>
          some (proactor.moveTo who (if sync then .awaiting else .idle))
      | .writing sync, .failed =>
          some (proactor.moveTo who (if sync then .awaiting else .idle))
      | _, _ => none
  | .finish who =>
      match proactor.caller who with
      | .waiting => if proactor.done who then some (proactor.moveTo who .idle) else none
      | .awaiting =>
          if proactor.threadId then none else some (proactor.moveTo who .releasing)
      | _ => none
  | .release who =>
      if proactor.caller who = .releasing then
        some { proactor.moveTo who .idle with stopping := false }
      else none
  | .run =>
      match proactor.loop with
      | .outside => some { proactor with threadId := true, loop := .entered }
      | _ => none
  | .start =>
      match proactor.loop with
      | .entered => some { proactor with running := true, loop := .looping, armed := !spin }
      | _ => none
  | .callReadCommands =>
      match proactor.loop with
      | .looping =>
          if spin then
            if proactor.running then
              (proactor.commands.act (uringConfig spin) .poll).map fun commands =>
                { proactor with commands := commands, loop := .reading }
            else none
          else
            if proactor.armed then
              (proactor.commands.act (uringConfig spin) .wake).map fun commands =>
                { proactor with commands := commands, loop := .reading, armed := false }
            else none
      | _ => none
  | .readCommands =>
      match proactor.loop with
      | .reading =>
          (proactor.commands.act (uringConfig spin) .receive).map fun commands =>
            match proactor.commands.upcoming with
            | some command =>
                { proactor with commands := commands, loop := .processing command }
            | none =>
                if commands.receiving = .away then
                  { proactor with
                    commands := commands
                    loop := .looping
                    armed := !spin && proactor.running }
                else { proactor with commands := commands }
      | _ => none
  | .processCommand =>
      match proactor.loop with
      | .processing command =>
          some { proactor with
            running := if command.type = .stop then false else proactor.running
            done := complete proactor.done command
            loop := .reading }
      | _ => none
  | .stopInside =>
      match proactor.loop with
      | .looping =>
          some { proactor with running := false, nested := proactor.nested + 1, heeded := true }
      | _ => none
  | .leaveInside =>
      match proactor.loop, proactor.nested with
      | .looping, nested + 1 =>
          if proactor.running then none else some { proactor with nested := nested }
      | _, _ => none
  | .leave =>
      match proactor.loop, proactor.nested with
      | .looping, 0 => if proactor.running then none else some { proactor with loop := .left }
      | _, _ => none
  | .exit =>
      match proactor.loop with
      | .left => some { proactor with threadId := false, loop := .returned }
      | _ => none

variable {spin : Bool} {proactor after : UringProactor T} {action : UringAction T}

/-! ## The actions one by one -/

/-- What each action needs and what it leaves. -/
inductive Step (spin : Bool) (proactor : UringProactor T) : UringProactor T → Prop where
  | request {who : T} {type : ProactorCommandType} {sync : Bool}
      {commands : Doorbell T (ProactorCommand T)} (idle : proactor.caller who = .idle)
      (asks : type ≠ .stop)
      (enters : proactor.commands.act (uringConfig spin)
        (.enter who ⟨type, if sync then some who else none⟩) = some commands) :
      Step spin proactor
        { proactor.moveTo who (.requesting sync) with
          commands := commands
          done := Function.update proactor.done who false }
  | stop {who : T} (sync : Bool) (idle : proactor.caller who = .idle) :
      Step spin proactor (proactor.moveTo who (.stopping sync))
  | heed {who : T} (stopping : proactor.caller who = .stopping true)
      (running : proactor.running = true) :
      Step spin proactor { proactor.moveTo who .contending with heeded := true }
  | heedAsync {who : T} {commands : Doorbell T (ProactorCommand T)}
      (stopping : proactor.caller who = .stopping false) (running : proactor.running = true)
      (enters : proactor.commands.act (uringConfig spin) (.enter who ⟨.stop, none⟩) =
        some commands) :
      Step spin proactor
        { proactor.moveTo who (.writing false) with
          commands := commands
          done := Function.update proactor.done who false
          heeded := true }
  | ignore {who : T} {sync : Bool} (stopping : proactor.caller who = .stopping sync)
      (still : proactor.running = false) :
      Step spin proactor
        { proactor.moveTo who .idle with heeded := proactor.heeded || proactor.loop.begun }
  | lose {who : T} (contending : proactor.caller who = .contending)
      (taken : proactor.stopping = true) :
      Step spin proactor (proactor.moveTo who .following)
  | win {who : T} {commands : Doorbell T (ProactorCommand T)}
      (contending : proactor.caller who = .contending) (free : proactor.stopping = false)
      (enters : proactor.commands.act (uringConfig spin) (.enter who ⟨.stop, none⟩) =
        some commands) :
      Step spin proactor
        { proactor.moveTo who (.writing true) with
          commands := commands
          done := Function.update proactor.done who false
          stopping := true }
  | follow {who : T} (following : proactor.caller who = .following)
      (gone : proactor.threadId = false) :
      Step spin proactor (proactor.moveTo who .idle)
  | advance {who : T} {commands : Doorbell T (ProactorCommand T)}
      (advances : proactor.commands.act (uringConfig spin) (.advance who) = some commands) :
      Step spin proactor { proactor with commands := commands }
  | requested {who : T} {sync : Bool} (requesting : proactor.caller who = .requesting sync)
      (waits : Bool) :
      Step spin proactor (proactor.moveTo who (if waits then .waiting else .idle))
  | written {who : T} {sync : Bool} (writing : proactor.caller who = .writing sync) :
      Step spin proactor (proactor.moveTo who (if sync then .awaiting else .idle))
  | done {who : T} (waiting : proactor.caller who = .waiting) (done : proactor.done who = true) :
      Step spin proactor (proactor.moveTo who .idle)
  | awaited {who : T} (awaiting : proactor.caller who = .awaiting)
      (gone : proactor.threadId = false) :
      Step spin proactor (proactor.moveTo who .releasing)
  | release {who : T} (releasing : proactor.caller who = .releasing) :
      Step spin proactor { proactor.moveTo who .idle with stopping := false }
  | run (outside : proactor.loop = .outside) :
      Step spin proactor { proactor with threadId := true, loop := .entered }
  | start (entered : proactor.loop = .entered) :
      Step spin proactor { proactor with running := true, loop := .looping, armed := !spin }
  | call {move : DoorbellAction T (ProactorCommand T)}
      {commands : Doorbell T (ProactorCommand T)} (armed : Bool)
      (looping : proactor.loop = .looping) (calls : move = .wake ∨ move = .poll)
      (moves : proactor.commands.act (uringConfig spin) move = some commands) :
      Step spin proactor
        { proactor with commands := commands, loop := .reading, armed := armed }
  | take {command : ProactorCommand T} {commands : Doorbell T (ProactorCommand T)}
      (reading : proactor.loop = .reading)
      (next : proactor.commands.upcoming = some command)
      (receives : proactor.commands.act (uringConfig spin) .receive = some commands) :
      Step spin proactor { proactor with commands := commands, loop := .processing command }
  | read {commands : Doorbell T (ProactorCommand T)} (armed past : Bool)
      (reading : proactor.loop = .reading) (next : proactor.commands.upcoming = none)
      (receives : proactor.commands.act (uringConfig spin) .receive = some commands) :
      Step spin proactor
        { proactor with
          commands := commands
          loop := if past then .looping else .reading
          armed := armed }
  | process {command : ProactorCommand T} (processing : proactor.loop = .processing command) :
      Step spin proactor
        { proactor with
          running := if command.type = .stop then false else proactor.running
          done := complete proactor.done command
          loop := .reading }
  | stopInside (looping : proactor.loop = .looping) :
      Step spin proactor
        { proactor with running := false, nested := proactor.nested + 1, heeded := true }
  | leaveInside {nested : ℕ} (looping : proactor.loop = .looping)
      (inside : proactor.nested = nested + 1) (stopped : proactor.running = false) :
      Step spin proactor { proactor with nested := nested }
  | leave (looping : proactor.loop = .looping) (stopped : proactor.running = false) :
      Step spin proactor { proactor with loop := .left }
  | exit (left : proactor.loop = .left) :
      Step spin proactor { proactor with threadId := false, loop := .returned }

theorem enter_eq_some {who : T} {command : ProactorCommand T} {next : ProactorCaller}
    (enters : proactor.enter spin who command next = some after) :
    ∃ commands, proactor.commands.act (uringConfig spin) (.enter who command) = some commands ∧
      after = { proactor.moveTo who next with
        commands := commands
        done := Function.update proactor.done who false } := by
  obtain ⟨commands, entered, rfl⟩ := Option.map_eq_some_iff.mp enters
  exact ⟨commands, entered, rfl⟩

/-- An action is one of these. -/
theorem step_of_act (happens : proactor.act spin action = some after) :
    Step spin proactor after := by
  cases action with
  | request who type sync =>
      unfold act at happens
      dsimp only at happens
      rw [Option.ite_none_right_eq_some] at happens
      obtain ⟨⟨idle, asks⟩, happens⟩ := happens
      obtain ⟨commands, enters, rfl⟩ := enter_eq_some happens
      exact .request idle asks enters
  | stop who sync =>
      simp only [act] at happens
      split_ifs at happens with idle
      cases happens
      exact .stop sync idle
  | look who =>
      simp only [act] at happens
      split at happens
      · rename_i sync stopping
        split_ifs at happens with running waits
        · cases happens
          exact .heed (waits ▸ stopping) running
        · obtain ⟨entered, begins, rfl⟩ := Option.map_eq_some_iff.mp happens
          obtain ⟨commands, enters, rfl⟩ := enter_eq_some begins
          exact .heedAsync ((Bool.not_eq_true _).mp waits ▸ stopping) running enters
        · cases happens
          exact .ignore stopping ((Bool.not_eq_true _).mp running)
      · cases happens
  | contend who =>
      simp only [act] at happens
      split_ifs at happens with contending taken
      · cases happens
        exact .lose contending taken
      · obtain ⟨entered, begins, rfl⟩ := Option.map_eq_some_iff.mp happens
        obtain ⟨commands, enters, rfl⟩ := enter_eq_some begins
        exact .win contending ((Bool.not_eq_true _).mp taken) enters
  | follow who =>
      simp only [act] at happens
      split_ifs at happens with past
      cases happens
      exact .follow past.1 past.2
  | advance who =>
      obtain ⟨commands, advances, rfl⟩ := Option.map_eq_some_iff.mp happens
      exact .advance advances
  | proceed who =>
      simp only [act] at happens
      split at happens
      · rename_i sync requesting sent
        cases happens
        exact .requested requesting sync
      · rename_i sync requesting sent
        cases happens
        exact .requested requesting false
      · rename_i sync writing sent
        cases happens
        exact .written writing
      · rename_i sync writing sent
        cases happens
        exact .written writing
      · cases happens
  | finish who =>
      simp only [act] at happens
      split at happens
      · rename_i waiting
        split_ifs at happens with done
        cases happens
        exact .done waiting done
      · rename_i awaiting
        split_ifs at happens with there
        cases happens
        exact .awaited awaiting ((Bool.not_eq_true _).mp there)
      · cases happens
  | release who =>
      simp only [act] at happens
      split_ifs at happens with releasing
      cases happens
      exact .release releasing
  | run =>
      simp only [act] at happens
      split at happens
      · rename_i outside
        cases happens
        exact .run outside
      · cases happens
  | start =>
      simp only [act] at happens
      split at happens
      · rename_i entered
        cases happens
        exact .start entered
      · cases happens
  | callReadCommands =>
      simp only [act] at happens
      split at happens
      · rename_i looping
        split_ifs at happens with spins running armed
        · obtain ⟨commands, moves, rfl⟩ := Option.map_eq_some_iff.mp happens
          exact .call proactor.armed looping (.inr rfl) moves
        · obtain ⟨commands, moves, rfl⟩ := Option.map_eq_some_iff.mp happens
          exact .call false looping (.inl rfl) moves
      · cases happens
  | readCommands =>
      simp only [act] at happens
      split at happens
      · rename_i reading
        obtain ⟨commands, receives, rfl⟩ := Option.map_eq_some_iff.mp happens
        split
        · rename_i command next
          exact .take reading next receives
        · rename_i next
          split_ifs with away
          · exact .read _ true reading next receives
          · have read := Step.read proactor.armed false reading next receives
            rw [if_neg Bool.false_ne_true, ← reading] at read
            exact read
      · cases happens
  | processCommand =>
      simp only [act] at happens
      split at happens
      · rename_i command processing
        cases happens
        exact .process processing
      · cases happens
  | stopInside =>
      simp only [act] at happens
      split at happens
      · rename_i looping
        cases happens
        exact .stopInside looping
      · cases happens
  | leaveInside =>
      simp only [act] at happens
      split at happens
      · rename_i nested looping inside
        split_ifs at happens with running
        cases happens
        exact .leaveInside looping inside ((Bool.not_eq_true _).mp running)
      · cases happens
  | leave =>
      simp only [act] at happens
      split at happens
      · rename_i looping inside
        split_ifs at happens with running
        cases happens
        exact .leave looping ((Bool.not_eq_true _).mp running)
      · cases happens
  | exit =>
      simp only [act] at happens
      split at happens
      · rename_i left
        cases happens
        exact .exit left
      · cases happens

end UringProactor

end Join
