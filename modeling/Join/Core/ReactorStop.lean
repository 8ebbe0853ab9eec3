import Join.Core.ReactorCommands

/-!
# Who waits for a reactor that has stopped

A synchronous caller spins on a flag that only the reactor thread sets, when it processes the
command. A command that is written in the queue is processed by the next drain, and there is
no next drain once the loop has found `_running` false: a command that is written then, or
gets there before `run` returns, leaves its caller on the flag for ever.
-/

set_option autoImplicit false

namespace Join

open Library

variable {T H : Type}

/-- The reactor thread has left its loop. -/
def Loop.Left : Loop T H → Prop
  | .leaving | .returned => True
  | _ => False

/-- `run` has set the running flag. -/
def Loop.Begun : Loop T H → Prop
  | .outside | .entered => False
  | _ => True

namespace ReactorSystem

/-- `run` has returned, and a caller whose command was in the queue before that still waits
on its flag. -/
structure Stranded (system : ReactorSystem T H) (who : T) : Prop where
  returned : system.loop = .returned
  early : system.early who = true
  waiting : system.caller who = .waiting
  undone : system.done who = false

/-- The reactor thread leaves its loop only when no synchronous command is written in the
queue, and none is written between that and the end of `run`. -/
def Drained (system : ReactorSystem T H) : ReactorAction T H → Prop
  | .check => system.running = false →
      ∀ slot ∈ system.commands.slots, slot.published = true → slot.message.done = none
  | .advance who => system.loop = .leaving → system.pushes who = false
  | _ => True

/-- A caller whose flag is still to be set has its command in the queue, written, or in the
hands of the reactor thread. -/
def Queued (system : ReactorSystem T H) (who : T) : Prop :=
  (∃ slot ∈ system.commands.slots, slot.published = true ∧ slot.message.done = some who) ∨
    ∃ command, system.loop = .processing command ∧ command.done = some who

/-- The flags that commands point to are those of their senders, and every caller whose
command is in the queue in time is queued until its flag is set. -/
structure Served (system : ReactorSystem T H) : Prop where
  sound : system.commands.Sound
  entering : ∀ who command, system.commands.sending who = .entering command →
    command.done = none ∨ command.done = some who
  claimed : ∀ who command, system.commands.sending who = .claimed command →
    command.done = none ∨ command.done = some who
  queued : ∀ who, system.early who = true → system.done who = false → system.Queued who

theorem initial_served (wakeup : ℤ) : (initial T H wakeup).Served where
  sound := Doorbell.initial_sound
  entering := fun _ _ => nofun
  claimed := fun _ _ => nofun
  queued := fun _ early => nomatch early

theorem command_done (request : Request H) (who : T) :
    (request.command who).done = none ∨ (request.command who).done = some who := by
  cases request with
  | addHandler fd handler wantRead wantWrite sync => cases sync <;> simp [Request.command]
  | delHandler fd sync => cases sync <;> simp [Request.command]
  | stop sync => exact .inl rfl

variable [DecidableEq T] {wakeup : ℤ} {system after : ReactorSystem T H}
variable {action : ReactorAction T H}

theorem not_pushes_of_entering {who : T} {command : Command T H}
    (entering : system.commands.sending who = .entering command) :
    system.pushes who = false := by
  rw [pushes, entering]

/-- The reactor thread moves on and touches neither the queue nor a flag. -/
theorem Served.move (served : system.Served) (commands : after.commands = system.commands)
    (done : after.done = system.done) (early : after.early = system.early)
    (loop : ∀ command, system.loop ≠ .processing command) : after.Served where
  sound := commands ▸ served.sound
  entering := commands ▸ served.entering
  claimed := commands ▸ served.claimed
  queued := by
    intro who early' undone
    rw [early] at early'
    rw [done] at undone
    rcases served.queued who early' undone with written | ⟨command, inHand, _⟩
    · left
      rw [commands]
      exact written
    · exact absurd inHand (loop command)

/-- A place that is written stays in the queue while others send. -/
theorem advance_slots {config : DoorbellConfig} {door next : Doorbell T (Command T H)} {who : T}
    (advances : door.advance config who = some next) {slot : Slot T (Command T H)}
    (member : slot ∈ door.slots) (published : slot.published = true) : slot ∈ next.slots := by
  rcases Doorbell.advance_cases advances with ⟨_, _, rfl⟩ | ⟨_, _, rfl⟩ | ⟨_, rfl⟩ |
    ⟨_, _, rfl⟩ | ⟨_, _, rfl⟩
  · exact List.mem_append_left _ member
  · refine List.mem_map.mpr ⟨slot, member, ?_⟩
    unfold Slot.publish
    split_ifs
    · cases slot
      cases published
      rfl
    · rfl
  · exact member
  · exact member
  · exact member

/-- A sender makes its next step. -/
theorem Served.advance (served : system.Served) {who : T} {commands : Doorbell T (Command T H)}
    (advances : system.commands.act commandConfig (.advance who) = some commands) :
    { system with
      commands := commands
      early := Function.update system.early who
        (system.early who || system.pushes who) }.Served := by
  have others : ∀ other, other ≠ who → commands.sending other = system.commands.sending other := by
    intro other differs
    rcases Doorbell.advance_cases advances with ⟨_, _, rfl⟩ | ⟨_, _, rfl⟩ | ⟨_, rfl⟩ |
      ⟨_, _, rfl⟩ | ⟨_, _, rfl⟩ <;> exact Doorbell.moveTo_sending_of_ne _ _ differs
  refine ⟨served.sound.act advances, ?_, ?_, ?_⟩
  · intro other command entering
    by_cases same : other = who
    · subst same
      rcases Doorbell.advance_cases advances with ⟨_, _, rfl⟩ | ⟨_, _, rfl⟩ | ⟨_, rfl⟩ |
        ⟨_, _, rfl⟩ | ⟨_, _, rfl⟩
      · simp [Doorbell.claim] at entering
      · simp [Doorbell.write, commandConfig] at entering
      · rw [Doorbell.exchange, Doorbell.moveTo_sending_self] at entering
        split_ifs at entering
      · simp [Doorbell.ring] at entering
      · simp [Doorbell.giveUp] at entering
    · exact served.entering other command (others other same ▸ entering)
  · intro other command claimed
    by_cases same : other = who
    · subst same
      rcases Doorbell.advance_cases advances with ⟨message, entering, rfl⟩ | ⟨_, _, rfl⟩ |
        ⟨_, rfl⟩ | ⟨_, _, rfl⟩ | ⟨_, _, rfl⟩
      · rw [Doorbell.claim, Doorbell.moveTo_sending_self] at claimed
        cases claimed
        exact served.entering other _ entering
      · simp [Doorbell.write, commandConfig] at claimed
      · rw [Doorbell.exchange, Doorbell.moveTo_sending_self] at claimed
        split_ifs at claimed
      · simp [Doorbell.ring] at claimed
      · simp [Doorbell.giveUp] at claimed
    · exact served.claimed other command (others other same ▸ claimed)
  · intro other early undone
    have old : system.early other = true → Queued { system with commands := commands } other := by
      intro early
      rcases served.queued other early undone with ⟨slot, member, published, done⟩ | inHand
      · exact .inl ⟨slot, advance_slots advances member published, published, done⟩
      · exact .inr inHand
    by_cases same : other = who
    · subst same
      simp only [Function.update_self, Bool.or_eq_true] at early
      rcases early with early | pushes
      · exact old early
      · -- the place of the sender is being written
        left
        rcases Doorbell.advance_cases advances with ⟨message, entering, rfl⟩ |
          ⟨command, claimed, rfl⟩ | ⟨published, rfl⟩ | ⟨ringing, _, rfl⟩ | ⟨ringing, _, rfl⟩
        · rw [not_pushes_of_entering entering] at pushes
          cases pushes
        · have synchronous : command.done = some other := by
            refine (served.claimed other command claimed).resolve_left fun none' => ?_
            unfold ReactorSystem.pushes at pushes
            rw [claimed] at pushes
            split at pushes
            · cases pushes
            · rename_i _ _ same _
              cases same
              rw [none'] at pushes
              cases pushes
            · cases pushes
          refine ⟨⟨other, command, true⟩, List.mem_map.mpr ⟨⟨other, command, false⟩, ?_, if_pos rfl⟩,
            rfl, synchronous⟩
          exact served.sound.claimed other command claimed
        · simp [ReactorSystem.pushes, published] at pushes
        · simp [ReactorSystem.pushes, ringing] at pushes
        · simp [ReactorSystem.pushes, ringing] at pushes
    · simp only [Function.update_of_ne same] at early
      exact old early

/-- The reactor thread takes a command into its hands. -/
theorem Served.take (served : system.Served) {command : Command T H}
    {commands : Doorbell T (Command T H)} (commanding : system.loop = .commanding)
    (next : system.commands.upcoming = some command)
    (receives : system.commands.act commandConfig .receive = some commands) :
    { system with commands := commands, loop := .processing command }.Served := by
  have sound := served.sound.act receives
  rcases Doorbell.receive_upcoming receives with ⟨slot, same, _, slots, _, sending⟩ | ⟨none', _⟩
  · rw [next] at same
    cases same
    refine ⟨sound, ?_, ?_, fun who early undone => ?_⟩
    · intro who command entering
      exact served.entering who command (sending ▸ entering)
    · intro who command claimed
      exact served.claimed who command (sending ▸ claimed)
    · rcases served.queued who early undone with ⟨other, member, written, done⟩ | ⟨_, inHand, _⟩
      · rw [slots] at member
        rcases List.mem_cons.mp member with rfl | inside
        · exact .inr ⟨_, rfl, done⟩
        · exact .inl ⟨other, inside, written, done⟩
      · rw [commanding] at inHand
        cases inHand
  · rw [next] at none'
    cases none'

/-- The reactor thread reads the eventfd, clears the flag, or finds no command. -/
theorem Served.read (served : system.Served) {commands : Doorbell T (Command T H)}
    {loop : Loop T H} (commanding : system.loop = .commanding)
    (next : system.commands.upcoming = none)
    (receives : system.commands.act commandConfig .receive = some commands) :
    { system with commands := commands, loop := loop }.Served := by
  have sound := served.sound.act receives
  have keeps : commands.slots = system.commands.slots ∧
      commands.sending = system.commands.sending := by
    rcases Doorbell.receive_upcoming receives with ⟨slot, same, _⟩ | ⟨_, slots, _, sending⟩
    · rw [next] at same
      cases same
    · exact ⟨slots, sending⟩
  obtain ⟨slots, sending⟩ := keeps
  refine ⟨sound, ?_, ?_, fun who early undone => ?_⟩
  · intro who command entering
    exact served.entering who command (sending ▸ entering)
  · intro who command claimed
    exact served.claimed who command (sending ▸ claimed)
  · rcases served.queued who early undone with ⟨slot, member, written⟩ | ⟨_, inHand, _⟩
    · exact .inl ⟨slot, slots ▸ member, written⟩
    · rw [commanding] at inHand
      cases inHand

/-- The reactor thread processes the command in its hands. -/
theorem Served.process (served : system.Served) {command : Command T H}
    (verdict : Option Errno) (processing : system.loop = .processing command) :
    (system.processCommand verdict command).Served := by
  refine ⟨served.sound, served.entering, served.claimed, fun who early undone => ?_⟩
  change complete system.done command who = false at undone
  have other : command.done ≠ some who ∧ system.done who = false := by
    unfold complete at undone
    cases pointer : command.done with
    | none =>
        rw [pointer] at undone
        exact ⟨nofun, undone⟩
    | some caller =>
        rw [pointer] at undone
        by_cases same : who = caller
        · subst same
          simp at undone
        · simp only [Function.update_of_ne same] at undone
          exact ⟨fun equal => same (Option.some.inj equal).symm, undone⟩
  rcases served.queued who early other.2 with written | ⟨inHand, same, done⟩
  · exact .inl written
  · rw [processing] at same
    cases same
    exact absurd done other.1

/-- A call begins. -/
theorem Served.call (served : system.Served) {who : T} {request : Request H}
    {commands : Doorbell T (Command T H)} {caller : T → Caller H} {errc : T → Option ReactorError}
    (enters : system.commands.act commandConfig (.enter who (request.command who)) =
      some commands) :
    { system with
      commands := commands
      caller := caller
      done := Function.update system.done who false
      errc := errc
      early := Function.update system.early who false }.Served := by
  have sound := served.sound.act enters
  rw [Doorbell.act] at enters
  split_ifs at enters
  cases enters
  refine ⟨sound, ?_, ?_, ?_⟩
  · intro other command entering
    by_cases same : other = who
    · subst same
      simp only [Doorbell.moveTo_sending_self] at entering
      cases entering
      exact command_done request other
    · simp only [Doorbell.moveTo_sending_of_ne _ _ same] at entering
      exact served.entering other command entering
  · intro other command claimed
    by_cases same : other = who
    · subst same
      simp at claimed
    · simp only [Doorbell.moveTo_sending_of_ne _ _ same] at claimed
      exact served.claimed other command claimed
  · intro other early undone
    by_cases same : other = who
    · subst same
      simp at early
    · simp only [Function.update_of_ne same] at early undone
      exact served.queued other early undone

/-- Every action keeps the callers served. -/
theorem Served.step (served : system.Served) (step : Step wakeup system action after) :
    after.Served := by
  cases step with
  | call idle own enters => exact served.call enters
  | advance advances => exact served.advance advances
  | proceed _ _ _ => exact ⟨served.sound, served.entering, served.claimed, served.queued⟩
  | done _ _ => exact ⟨served.sound, served.entering, served.claimed, served.queued⟩
  | stopped _ _ => exact ⟨served.sound, served.entering, served.claimed, served.queued⟩
  | run outside => exact served.move rfl rfl rfl (by simp [outside])
  | start entered => exact served.move rfl rfl rfl (by simp [entered])
  | goOn checking _ => exact served.move rfl rfl rfl (by simp [checking])
  | exit checking _ => exact served.move rfl rfl rfl (by simp [checking])
  | interrupted blocked => exact served.move rfl rfl rfl (by simp [blocked])
  | woken blocked _ wakes =>
      rw [Doorbell.act] at wakes
      split_ifs at wakes
      cases wakes
      refine ⟨served.sound.keep _ _ _, served.entering, served.claimed, fun who early undone => ?_⟩
      rcases served.queued who early undone with written | ⟨_, inHand, _⟩
      · exact .inl written
      · rw [blocked] at inHand
        cases inHand
  | fetched blocked _ => exact served.move rfl rfl rfl (by simp [blocked])
  | take commanding next receives => exact served.take commanding next receives
  | read commanding next receives => exact served.read commanding next receives
  | process verdict processing => exact served.process verdict processing
  | dispatch dispatching _ _ =>
      exact served.move rfl rfl rfl (by simp [dispatching])
  | skip dispatching _ _ =>
      exact served.move rfl rfl rfl (by simp [dispatching])
  | @reenter _ _ _ request _ calling _ =>
      have off : ∀ command, system.loop ≠ .processing command := by
        rw [calling]
        exact fun _ absurd => (by cases absurd)
      cases request <;> exact served.move rfl rfl rfl off
  | callbackReturns calling =>
      exact served.move rfl rfl rfl (by simp [calling])
  | sweep dispatching _ =>
      exact served.move rfl rfl rfl (by simp [dispatching])
  | leave leaving => exact served.move rfl rfl rfl (by simp [leaving])

/-- Nobody is stranded, as long as the loop has not been left. -/
structure Settled (system : ReactorSystem T H) : Prop extends system.Served where
  settled : system.loop.Left → ∀ who, system.early who = true → system.done who = true

theorem Settled.step (settled : system.Settled) (drained : system.Drained action)
    (step : Step wakeup system action after) : after.Settled := by
  refine ⟨settled.toServed.step step, ?_⟩
  have stays := settled.settled
  cases step with
  | @call who request commands idle own enters =>
      intro left other early
      by_cases same : other = who
      · subst same
        simp at early
      · simp only [Function.update_of_ne same] at early ⊢
        exact stays left other early
  | @advance who commands advances =>
      intro left other early
      by_cases same : other = who
      · subst same
        simp only [Function.update_self, Bool.or_eq_true] at early
        rcases early with early | pushes
        · exact stays left other early
        · cases loop : system.loop with
          | leaving =>
              rw [drained loop] at pushes
              cases pushes
          | returned =>
              unfold ReactorSystem.pushes at pushes
              rw [loop] at pushes
              cases sending : system.commands.sending other <;> rw [sending] at pushes <;>
                cases pushes
          | _ =>
              simp only [loop] at left
              exact left.elim
      · simp only [Function.update_of_ne same] at early
        exact stays left other early
  | proceed _ _ _ => exact stays
  | done _ _ => exact stays
  | stopped _ _ => exact stays
  | run _ => exact fun left => left.elim
  | start _ => exact fun left => left.elim
  | goOn _ _ => exact fun left => left.elim
  | exit checking stopped =>
      intro _ who early
      by_contra undone
      rcases settled.queued who early ((Bool.not_eq_true _).mp undone) with
        ⟨slot, member, written, done⟩ | ⟨command, inHand, _⟩
      · rw [drained stopped slot member written] at done
        cases done
      · rw [checking] at inHand
        cases inHand
  | interrupted _ => exact fun left => left.elim
  | woken _ _ _ => exact fun left => left.elim
  | fetched _ _ => exact fun left => left.elim
  | take _ _ _ => exact fun left => left.elim
  | read _ _ _ =>
      dsimp only
      split_ifs <;> exact fun left => left.elim
  | process _ _ => exact fun left => left.elim
  | dispatch _ _ _ => exact fun left => left.elim
  | skip dispatching _ _ =>
      dsimp only
      rw [dispatching]
      exact fun left => left.elim
  | @reenter _ _ _ request _ calling _ =>
      have off : ¬system.loop.Left := by
        rw [calling]
        exact id
      cases request <;> exact fun left => absurd left off
  | callbackReturns _ => exact fun left => left.elim
  | sweep _ _ => exact fun left => left.elim
  | leave leaving =>
      refine fun _ => stays ?_
      rw [leaving]
      trivial

/-- If the loop is only left when no synchronous command is written in the queue, and none
is written between that and the end of `run`, then no caller is stranded. -/
theorem not_stranded {actions : List (ReactorAction T H)}
    (trace : Trace (act wakeup) (initial T H wakeup) actions system)
    (drained : Along (act wakeup) Drained (initial T H wakeup) actions) (who : T) :
    ¬system.Stranded who := by
  have settled : system.Settled := by
    refine trace.invariant_along Settled ?_ ⟨initial_served wakeup, fun left => left.elim⟩ drained
    exact fun _ _ _ settled drained happens => settled.step drained (step_of_act happens)
  rintro ⟨returned, early, _, undone⟩
  rw [settled.settled (by rw [returned]; trivial) who early] at undone
  cases undone

/-- The test that `Drained` is, for runs that are computed. -/
def drains (system : ReactorSystem T H) : ReactorAction T H → Bool
  | .check => system.running ||
      system.commands.slots.all fun slot => !slot.published || slot.message.done.isNone
  | .advance who =>
      match system.loop with
      | .leaving => !system.pushes who
      | _ => true
  | _ => true

omit [DecidableEq T] in
theorem drained_of_drains (system : ReactorSystem T H) (action : ReactorAction T H)
    (drains : system.drains action = true) : system.Drained action := by
  cases action with
  | check =>
      intro stopped slot member written
      simp only [ReactorSystem.drains, stopped, Bool.false_or, List.all_eq_true] at drains
      simpa [written] using drains slot member
  | advance who =>
      intro leaving
      simpa [ReactorSystem.drains, leaving] using drains
  | _ => trivial

/-- The loop starts, wakes, reads the eventfd, clears the flag and takes the first command. -/
def takesFirst : List (ReactorAction Bool ℕ) :=
  [.run, .start, .check, .wait true [], .readCommands, .readCommands, .readCommands,
    .processCommand none]

/-- A thread registers a handler and waits, another stops the reactor. -/
def registersInTime : List (ReactorAction Bool ℕ) :=
  write true (.addHandler 5 (some 1) true false true) true ++ write false (.stop true) false ++
    takesFirst ++ ([.readCommands, .processCommand none, .readCommands, .sweep, .check, .leave] :
      List (ReactorAction Bool ℕ))

theorem not_stranded_in_time : ∃ system : ReactorSystem Bool ℕ,
    Trace (act 3) (initial Bool ℕ 3) registersInTime system ∧ system.loop = .returned ∧
      system.early true = true ∧ ¬system.Stranded true := by
  have followed : (follow (act 3) (initial Bool ℕ 3) registersInTime).any (fun system =>
      system.loop.isReturned && system.early true) = true := by
    decide +kernel
  obtain ⟨system, trace, test⟩ := Trace.exists_of_follow followed
  rw [Bool.and_eq_true, Loop.isReturned_iff] at test
  obtain ⟨returned, early⟩ := test
  have checked : checks (act 3) drains (initial Bool ℕ 3) registersInTime = true := by
    decide +kernel
  exact ⟨system, trace, returned, early,
    not_stranded trace (along_of_checks drained_of_drains checked) true⟩

/-- A thread stops the reactor, and another registers a handler when the queue has just been
emptied for the last time: it waits for ever. -/
theorem waiter_stranded : ¬∀ (actions : List (ReactorAction Bool ℕ))
    (system : ReactorSystem Bool ℕ), Trace (act 3) (initial Bool ℕ 3) actions system →
      ∀ who, ¬system.Stranded who := by
  have followed : (follow (act 3) (initial Bool ℕ 3)
      (write false (.stop true) true ++ takesFirst ++ [ReactorAction.readCommands] ++
        write true (.addHandler 5 (some 1) true false true) true ++
        ([.sweep, .check, .leave] : List (ReactorAction Bool ℕ)))).any (fun system =>
      system.loop.isReturned && ((system.caller true).isWaiting &&
        (system.early true && !system.done true))) = true := by
    decide +kernel
  obtain ⟨system, trace, test⟩ := Trace.exists_of_follow followed
  simp only [Bool.and_eq_true, Bool.not_eq_true', Loop.isReturned_iff, Caller.isWaiting_iff] at test
  obtain ⟨returned, waiting, early, undone⟩ := test
  intro never
  exact never _ system trace true ⟨returned, early, waiting, undone⟩

/-! ## A stop is not lost -/

/-- A Stop command is written, in the queue, or in the hands of the reactor thread. -/
def StopUnderway (system : ReactorSystem T H) : Prop :=
  system.commands.Underway (fun command => command.type = .stop) ∨
    ∃ command, system.loop = .processing command ∧ command.type = .stop

/-- Nobody has asked the reactor to stop. -/
structure Unstopped (system : ReactorSystem T H) : Prop where
  carries : system.commands.Carries fun command => command.type ≠ .stop
  inHand : ∀ command, system.loop = .processing command → command.type ≠ .stop
  running : system.loop.Begun → system.running = true

/-- What has begun goes on or ends, and does not begin again. -/
theorem Step.begun (step : Step wakeup system action after) (begun : system.loop.Begun) :
    after.loop.Begun ∧ (system.running = false → after.running = false) := by
  cases step with
  | run outside => exact absurd begun (by rw [outside]; exact id)
  | start entered => exact absurd begun (by rw [entered]; exact id)
  | read _ _ _ =>
      refine ⟨?_, id⟩
      dsimp only
      split_ifs <;> trivial
  | @process command verdict processing =>
      refine ⟨trivial, fun stopped => ?_⟩
      change (if command.type = .stop then false else system.running) = false
      split_ifs
      · rfl
      · exact stopped
  | call _ _ _ => exact ⟨begun, id⟩
  | advance _ => exact ⟨begun, id⟩
  | proceed _ _ _ => exact ⟨begun, id⟩
  | done _ _ => exact ⟨begun, id⟩
  | stopped _ _ => exact ⟨begun, id⟩
  | skip _ _ _ => exact ⟨begun, id⟩
  | @reenter _ _ _ request _ _ _ =>
      cases request with
      | stop sync => exact ⟨begun, fun _ => rfl⟩
      | addHandler _ _ _ _ _ => exact ⟨begun, id⟩
      | delHandler _ _ => exact ⟨begun, id⟩
  | _ => exact ⟨trivial, id⟩

/-- A command that is processed stays in hand until it is done. -/
theorem Step.processing (step : Step wakeup system action after) {command : Command T H}
    (processing : system.loop = .processing command) :
    after.loop = .processing command ∨
      after.running = if command.type = .stop then false else system.running := by
  cases step with
  | process _ at' =>
      rw [processing] at at'
      cases at'
      exact .inr rfl
  | call _ _ _ => exact .inl processing
  | advance _ => exact .inl processing
  | proceed _ _ _ => exact .inl processing
  | done _ _ => exact .inl processing
  | stopped _ _ => exact .inl processing
  | skip _ _ _ => exact .inl processing
  | @reenter _ _ _ request _ _ _ => cases request <;> exact .inl processing
  | run at' => exact absurd (processing.symm.trans at') nofun
  | start at' => exact absurd (processing.symm.trans at') nofun
  | goOn at' _ => exact absurd (processing.symm.trans at') nofun
  | exit at' _ => exact absurd (processing.symm.trans at') nofun
  | interrupted at' => exact absurd (processing.symm.trans at') nofun
  | woken at' _ _ => exact absurd (processing.symm.trans at') nofun
  | fetched at' _ => exact absurd (processing.symm.trans at') nofun
  | take at' _ _ => exact absurd (processing.symm.trans at') nofun
  | read at' _ _ => exact absurd (processing.symm.trans at') nofun
  | dispatch at' _ _ => exact absurd (processing.symm.trans at') nofun
  | callbackReturns at' => exact absurd (processing.symm.trans at') nofun
  | sweep at' _ => exact absurd (processing.symm.trans at') nofun
  | leave at' => exact absurd (processing.symm.trans at') nofun

/-- A Stop command stays under way until it stops the loop. -/
theorem Step.underway (step : Step wakeup system action after)
    (underway : system.StopUnderway) : after.running = false ∨ after.StopUnderway := by
  rcases underway with queued | ⟨stop, inHand, isStop⟩
  · have sends {move : DoorbellAction T (Command T H)}
        (moves : system.commands.act commandConfig move = some after.commands)
        (differs : move ≠ .receive) :
        after.running = false ∨ after.StopUnderway := by
      rcases queued.act moves with still | ⟨same, _⟩
      · exact .inr (.inl still)
      · exact absurd same differs
    cases step with
    | call _ _ enters => exact sends enters nofun
    | advance advances => exact sends advances nofun
    | woken _ _ wakes => exact sends wakes nofun
    | take _ next receives =>
        right
        rcases queued.act receives with still | ⟨_, command, same, isStop⟩
        · exact .inl still
        · rw [next] at same
          cases same
          exact .inr ⟨_, rfl, isStop⟩
    | read _ next receives =>
        right
        rcases queued.act receives with still | ⟨_, command, same, _⟩
        · exact .inl still
        · rw [next] at same
          cases same
    | @reenter _ _ _ request _ _ _ => cases request <;> exact .inr (.inl queued)
    | _ => exact .inr (.inl queued)
  · rcases step.processing inHand with same | done
    · exact .inr (.inr ⟨stop, same, isStop⟩)
    · rw [done]
      exact .inl (if_pos isStop)

/-- An action that is not a call of `stop`. -/
def Continues : ReactorAction T H → Prop
  | .call _ (.stop _) => False
  | .reenter (.stop _) _ => False
  | _ => True

theorem Unstopped.step (unstopped : system.Unstopped) (continues : Continues action)
    (step : Step wakeup system action after) : after.Unstopped := by
  obtain ⟨carries, inHand, running⟩ := unstopped
  cases step with
  | @call who request commands idle own enters =>
      refine ⟨carries.act enters fun _ command same => ?_, inHand, running⟩
      cases same
      cases request with
      | stop sync => exact continues.elim
      | addHandler _ _ _ _ _ => exact nofun
      | delHandler _ _ => exact nofun
  | advance advances => exact ⟨carries.act advances fun _ _ => nofun, inHand, running⟩
  | proceed _ _ _ => exact ⟨carries, inHand, running⟩
  | done _ _ => exact ⟨carries, inHand, running⟩
  | stopped _ _ => exact ⟨carries, inHand, running⟩
  | run _ => exact ⟨carries, fun _ => nofun, fun begun => begun.elim⟩
  | start _ => exact ⟨carries, fun _ => nofun, fun _ => rfl⟩
  | goOn _ on => exact ⟨carries, fun _ => nofun, fun _ => on⟩
  | exit checking _ => exact ⟨carries, fun _ => nofun, fun _ => running (by rw [checking]; trivial)⟩
  | interrupted blocked =>
      exact ⟨carries, fun _ => nofun, fun _ => running (by rw [blocked]; trivial)⟩
  | woken blocked _ wakes =>
      exact ⟨carries.act wakes fun _ _ => nofun, fun _ => nofun,
        fun _ => running (by rw [blocked]; trivial)⟩
  | fetched blocked _ => exact ⟨carries, fun _ => nofun, fun _ => running (by rw [blocked]; trivial)⟩
  | take commanding next receives =>
      refine ⟨carries.act receives fun _ _ => nofun, fun command same => ?_,
        fun _ => running (by rw [commanding]; trivial)⟩
      cases same
      obtain ⟨_, rest, popped⟩ := Doorbell.upcoming_eq_some next
      exact carries.tryPop popped
  | read commanding next receives =>
      refine ⟨carries.act receives fun _ _ => nofun, fun command same => ?_,
        fun _ => running (by rw [commanding]; trivial)⟩
      dsimp only at same
      split_ifs at same
  | @process command verdict processing =>
      refine ⟨carries, fun _ => nofun, fun _ => ?_⟩
      change (if command.type = .stop then false else system.running) = true
      rw [if_neg (inHand command processing)]
      exact running (by rw [processing]; trivial)
  | dispatch dispatching _ _ =>
      exact ⟨carries, fun _ => nofun, fun _ => running (by rw [dispatching]; trivial)⟩
  | skip _ _ _ => exact ⟨carries, inHand, running⟩
  | @reenter _ _ _ request _ _ _ =>
      cases request with
      | stop sync => exact continues.elim
      | addHandler _ _ _ _ _ => exact ⟨carries, inHand, running⟩
      | delHandler _ _ => exact ⟨carries, inHand, running⟩
  | callbackReturns calling =>
      exact ⟨carries, fun _ => nofun, fun _ => running (by rw [calling]; trivial)⟩
  | sweep dispatching _ =>
      exact ⟨carries, fun _ => nofun, fun _ => running (by rw [dispatching]; trivial)⟩
  | leave leaving => exact ⟨carries, fun _ => nofun, fun _ => running (by rw [leaving]; trivial)⟩

omit [DecidableEq T] in
theorem initial_unstopped : (initial T H wakeup).Unstopped where
  carries := Doorbell.initial_carries
  inHand := fun _ => nofun
  running := fun begun => begun.elim

/-- Who is in `writeCommand` is in a call. -/
def Attended (system : ReactorSystem T H) : Prop :=
  ∀ who, (system.commands.sending who).inside = true →
    ∃ request, system.caller who = .sending request

theorem Attended.step (attended : system.Attended) (step : Step wakeup system action after) :
    after.Attended := by
  have moves {who : T} {next : Caller H} (outside : (system.commands.sending who).inside = false)
      (other : T) (inside : (system.commands.sending other).inside = true) :
      ∃ request, Function.update system.caller who next other = .sending request := by
    have differs : other ≠ who := by
      rintro rfl
      rw [outside] at inside
      cases inside
    rw [Function.update_of_ne differs]
    exact attended other inside
  cases step with
  | @call who request commands idle own enters =>
      rw [Doorbell.act] at enters
      split_ifs at enters
      cases enters
      intro other inside
      by_cases same : other = who
      · subst same
        exact ⟨request, Function.update_self ..⟩
      · simp only [Doorbell.moveTo_sending_of_ne _ _ same] at inside
        simp only [Function.update_of_ne same]
        exact attended other inside
  | @advance who commands advances =>
      intro other inside
      by_cases same : other = who
      · subst same
        refine attended other ?_
        rcases Doorbell.advance_cases advances with ⟨_, now, _⟩ | ⟨_, now, _⟩ | ⟨now, _⟩ |
          ⟨now, _⟩ | ⟨now, _⟩ <;> rw [now] <;> rfl
      · refine attended other ?_
        rcases Doorbell.advance_cases advances with ⟨_, _, rfl⟩ | ⟨_, _, rfl⟩ | ⟨_, rfl⟩ |
          ⟨_, _, rfl⟩ | ⟨_, _, rfl⟩ <;>
          exact (congrArg _ (Doorbell.moveTo_sending_of_ne _ _ same)).symm.trans inside
  | @proceed who request written sending sent =>
      refine moves ?_
      rw [sent]
      cases written <;> rfl
  | @done who waiting done =>
      refine moves ?_
      by_contra inside
      obtain ⟨request, sending⟩ := attended who (Bool.of_not_eq_false inside)
      rw [waiting] at sending
      cases sending
  | @stopped who stopping gone =>
      refine moves ?_
      by_contra inside
      obtain ⟨request, sending⟩ := attended who (Bool.of_not_eq_false inside)
      rw [stopping] at sending
      cases sending
  | woken _ _ wakes =>
      rw [Doorbell.act] at wakes
      split_ifs at wakes
      cases wakes
      exact attended
  | take _ _ receives =>
      rcases Doorbell.receive_upcoming receives with ⟨_, _, _, _, _, sending⟩ | ⟨_, _, _, sending⟩ <;>
        exact fun who inside => attended who (sending ▸ inside)
  | read _ _ receives =>
      rcases Doorbell.receive_upcoming receives with ⟨_, _, _, _, _, sending⟩ | ⟨_, _, _, sending⟩ <;>
        exact fun who inside => attended who (sending ▸ inside)
  | @reenter _ _ _ request _ _ _ => cases request <;> exact attended
  | _ => exact attended

omit [DecidableEq T] in
theorem initial_attended : (initial T H wakeup).Attended := fun _ => nofun

/-- A thread is in `writeCommand` only after it has called. -/
theorem Step.sending (step : Step wakeup system action after)
    (noCall : ∀ who request, action ≠ .call who request) {who : T} {request : Request H}
    (sending : after.caller who = .sending request) : system.caller who = .sending request := by
  have moves {other : T} {next : Caller H} (still : ∀ request, next ≠ .sending request)
      (sending : Function.update system.caller other next who = .sending request) :
      system.caller who = .sending request := by
    by_cases same : who = other
    · rw [same, Function.update_self] at sending
      exact absurd sending (still request)
    · rw [Function.update_of_ne same] at sending
      exact sending
  cases step with
  | call _ _ _ => exact absurd rfl (noCall _ _)
  | @proceed other asked written _ _ =>
      refine moves (fun request => ?_) sending
      cases asked <;> simp only [Request.next] <;> split_ifs <;> exact nofun
  | done _ _ =>
      refine moves ?_ sending
      exact fun _ => nofun
  | stopped _ _ =>
      refine moves ?_ sending
      exact fun _ => nofun
  | @reenter _ _ _ request _ _ _ => cases request <;> exact sending
  | _ => exact sending

/-- The flag is set while the loop has begun. -/
theorem Step.running (step : Step wakeup system action after)
    (begun : system.running = true → system.loop.Begun) (running : after.running = true) :
    after.loop.Begun := by
  cases step with
  | run outside =>
      have before := begun running
      rw [outside] at before
      exact before.elim
  | read _ _ _ =>
      dsimp only
      split_ifs <;> trivial
  | call _ _ _ => exact begun running
  | advance _ => exact begun running
  | proceed _ _ _ => exact begun running
  | done _ _ => exact begun running
  | stopped _ _ => exact begun running
  | skip _ _ _ => exact begun running
  | @reenter _ _ _ request _ calling _ =>
      have begun : system.loop.Begun := by
        rw [calling]
        trivial
      cases request <;> exact begun
  | _ => trivial

end ReactorSystem

end Join
