import Join.Core.EpollProactor

/-!
# The commands of the epoll proactor

The queue of the epoll proactor is a queue with a doorbell, as that of a reactor is. Its
receiver is the reactor thread inside `onReadable` of the eventfd, so it is away whenever
that thread sleeps in `epoll_wait`.
-/

set_option autoImplicit false

namespace Join

open Library

variable {T H : Type} [DecidableEq T]

/-- Inside a callback the reactor thread stays there until the callback returns. -/
theorem ReactorSystem.Step.calling {own : ℤ} {system after : ReactorSystem T H}
    {action : ReactorAction T H} {fd : ℤ} {handler : H} {callback : Callback}
    (step : ReactorSystem.Step own system action after)
    (calling : system.loop = .calling fd handler callback) :
    after.loop = system.loop ∨ action = .callbackReturns := by
  cases step with
  | callbackReturns _ => exact .inr rfl
  | call _ _ _ => exact .inl rfl
  | advance _ => exact .inl rfl
  | proceed _ _ _ => exact .inl rfl
  | done _ _ => exact .inl rfl
  | stopped _ _ => exact .inl rfl
  | skip _ _ _ => exact .inl rfl
  | @reenter _ _ _ request _ _ _ => cases request <;> exact .inl rfl
  | run at' => exact absurd (calling.symm.trans at') nofun
  | start at' => exact absurd (calling.symm.trans at') nofun
  | goOn at' _ => exact absurd (calling.symm.trans at') nofun
  | exit at' _ => exact absurd (calling.symm.trans at') nofun
  | interrupted at' => exact absurd (calling.symm.trans at') nofun
  | woken at' _ _ => exact absurd (calling.symm.trans at') nofun
  | fetched at' _ => exact absurd (calling.symm.trans at') nofun
  | take at' _ _ => exact absurd (calling.symm.trans at') nofun
  | read at' _ _ => exact absurd (calling.symm.trans at') nofun
  | process _ at' => exact absurd (calling.symm.trans at') nofun
  | dispatch at' _ _ => exact absurd (calling.symm.trans at') nofun
  | sweep at' _ => exact absurd (calling.symm.trans at') nofun
  | leave at' => exact absurd (calling.symm.trans at') nofun

namespace EpollProactor

variable {own wakeup : ℤ} {maker : T} {proactor after : EpollProactor T}

omit [DecidableEq T] in
theorem calling_of_serves {loop : Loop T Unit} (serving : serves wakeup loop = true) :
    loop = .calling wakeup () .onReadable := by
  unfold serves at serving
  split at serving
  · rw [of_decide_eq_true serving]
  · cases serving

/-- Every step is an action on the queue, or does not touch it. -/
theorem Step.commands (step : Step own wakeup proactor after) :
    after.commands = proactor.commands ∨
      ∃ move, proactor.commands.act commandConfig move = some after.commands := by
  cases step with
  | request _ _ enters => exact .inr ⟨_, enters⟩
  | heedAsync _ _ enters => exact .inr ⟨_, enters⟩
  | win _ _ enters => exact .inr ⟨_, enters⟩
  | advance advances => exact .inr ⟨_, advances⟩
  | serve _ _ wakes => exact .inr ⟨_, wakes⟩
  | read _ _ receives => exact .inr ⟨_, receives⟩
  | _ => exact .inl rfl

/-- The queue of an epoll proactor is a queue with a doorbell. -/
theorem commands_good {actions : List (EpollAction T)}
    (trace : Trace (act own wakeup) (initial maker own wakeup) actions proactor) :
    ∃ right, proactor.commands.Good right := by
  obtain ⟨moves, trace⟩ := trace.project EpollProactor.commands
    fun _ _ _ happens => (step_of_act happens).commands
  exact Doorbell.Good.of_trace rfl (by decide) trace

/-- The receiver of the queue is the reactor thread in `onReadable` of the eventfd, and what
was taken was processed or is in hand. -/
structure Orderly (wakeup : ℤ) (proactor : EpollProactor T) : Prop where
  away : serves wakeup proactor.reactor.loop = false →
    proactor.commands.receiving = .away ∧ proactor.inHand = none
  taken : proactor.commands.taken = proactor.processed ++ proactor.inHand.toList

omit [DecidableEq T] in
/-- A thread sends, and the reactor thread stays where it is. -/
theorem Orderly.send (orderly : proactor.Orderly wakeup)
    (loop : after.reactor.loop = proactor.reactor.loop)
    (receiving : after.commands.receiving = proactor.commands.receiving)
    (taken : after.commands.taken = proactor.commands.taken)
    (inHand : after.inHand = proactor.inHand)
    (processed : after.processed = proactor.processed) : after.Orderly wakeup := by
  refine ⟨fun off => ?_, ?_⟩
  · rw [receiving, inHand]
    exact orderly.away (loop ▸ off)
  · rw [taken, inHand, processed]
    exact orderly.taken

/-- Who starts to send leaves the receiver alone. -/
theorem enter_keeps {Message : Type} {door next : Doorbell T Message} {who : T}
    {message : Message} (enters : door.act commandConfig (.enter who message) = some next) :
    next.receiving = door.receiving ∧ next.taken = door.taken := by
  rw [Doorbell.act] at enters
  split_ifs at enters
  cases enters
  exact ⟨rfl, rfl⟩

/-- Every step keeps the reactor thread orderly. -/
theorem Orderly.step (orderly : proactor.Orderly wakeup)
    (step : Step own wakeup proactor after) : after.Orderly wakeup := by
  cases step with
  | request _ _ enters =>
      obtain ⟨receiving, taken⟩ := enter_keeps enters
      exact orderly.send rfl receiving taken rfl rfl
  | heedAsync _ _ enters =>
      obtain ⟨receiving, taken⟩ := enter_keeps enters
      exact orderly.send rfl receiving taken rfl rfl
  | win _ _ enters =>
      obtain ⟨receiving, taken⟩ := enter_keeps enters
      exact orderly.send rfl receiving taken rfl rfl
  | advance advances =>
      obtain ⟨receiving, taken⟩ := Doorbell.advance_keeps advances
      exact orderly.send rfl receiving taken rfl rfl
  | @delegate who sync reactor delegating calls =>
      cases ReactorSystem.step_of_act calls with
      | call _ _ _ => exact orderly.send rfl rfl rfl rfl rfl
  | @stopInside sync verdict reactor moves =>
      cases ReactorSystem.step_of_act moves with
      | reenter _ _ _ => exact orderly.send rfl rfl rfl rfl rfl
  | @inner move reactor noCall continues ends moves quiet =>
      refine ⟨fun off => ?_, orderly.taken⟩
      by_cases serving : serves wakeup proactor.reactor.loop = true
      · rcases (ReactorSystem.step_of_act moves).calling (calling_of_serves serving) with
          same | past
        · dsimp only at off
          rw [same, serving] at off
          cases off
        · exact ends past
      · exact orderly.away ((Bool.not_eq_true _).mp serving)
  | serve _ serving wakes =>
      refine ⟨fun off => ?_, ?_⟩
      · rw [serving] at off
        cases off
      · rw [Doorbell.act] at wakes
        split_ifs at wakes
        cases wakes
        exact orderly.taken
  | read serving free receives =>
      refine ⟨fun off => ?_, ?_⟩
      · rw [serving] at off
        cases off
      · have before := orderly.taken
        rw [free] at before
        rcases Doorbell.receive_upcoming receives with
          ⟨slot, next, _, _, taken, _⟩ | ⟨next, _, taken, _⟩
        · dsimp only
          rw [taken, before, next]
          simp only [Option.toList_none, Option.toList_some, List.append_nil]
        · dsimp only
          rw [taken, before, next]
  | process inHand =>
      refine ⟨fun off => ⟨(orderly.away off).1, rfl⟩, ?_⟩
      have before := orderly.taken
      rw [inHand] at before
      change proactor.commands.taken = (proactor.processed ++ [_]) ++ []
      rw [before, List.append_nil]
      rfl
  | _ => exact orderly.send rfl rfl rfl rfl rfl

theorem orderly_of_trace {actions : List (EpollAction T)}
    (trace : Trace (act own wakeup) (initial maker own wakeup) actions proactor) :
    proactor.Orderly wakeup :=
  trace.invariant (Orderly wakeup)
    (fun _ _ _ orderly happens => orderly.step (step_of_act happens)) ⟨fun _ => ⟨rfl, rfl⟩, rfl⟩

/-- While the reactor thread sleeps by a quiet eventfd of the proactor and nobody is in
`writeCommand`, no command is in the queue. -/
theorem commands_empty {actions : List (EpollAction T)}
    (trace : Trace (act own wakeup) (initial maker own wakeup) actions proactor)
    (blocked : proactor.reactor.loop = .blocked) (quiet : proactor.commands.bell = 0)
    (nobody : ∀ who, (proactor.commands.sending who).inside = false) :
    proactor.commands.slots = [] := by
  obtain ⟨right, good⟩ := commands_good trace
  refine good.empty ((orderly_of_trace trace).away ?_).1 quiet nobody
  rw [blocked]
  rfl

/-- The commands that were processed are the first that were pushed, each once and in the
order of the queue. -/
theorem processed_prefix {actions : List (EpollAction T)}
    (trace : Trace (act own wakeup) (initial maker own wakeup) actions proactor) :
    proactor.processed <+: proactor.commands.claims := by
  obtain ⟨right, good⟩ := commands_good trace
  rw [good.account, (orderly_of_trace trace).taken, List.append_assoc]
  exact List.prefix_append _ _

end EpollProactor

/-! ## Both queues -/

/-- A loop sleeps by an eventfd that is zero, nobody is in `writeCommand`, and the queue holds
a command. -/
structure LeftBehind {Message : Type} (blocked : Prop) (commands : Doorbell T Message) :
    Prop where
  blocked : blocked
  quiet : commands.bell = 0
  nobody : ∀ who, (commands.sending who).inside = false
  queued : commands.slots ≠ []

/-- No command of a reactor or an epoll proactor is left behind without a wakeup, and the
commands are processed in the order of the queue. -/
theorem no_command_left_behind (T H : Type) [DecidableEq T] :
    (∀ (wakeup : ℤ) (actions : List (ReactorAction T H)) (system : ReactorSystem T H),
      Trace (ReactorSystem.act wakeup) (.initial T H wakeup) actions system →
        ¬LeftBehind (system.loop = .blocked) system.commands ∧
          system.processed <+: system.commands.claims) ∧
    ∀ (maker : T) (own wakeup : ℤ) (actions : List (EpollAction T))
      (proactor : EpollProactor T),
      Trace (EpollProactor.act own wakeup) (.initial maker own wakeup) actions proactor →
        ¬LeftBehind (proactor.reactor.loop = .blocked) proactor.commands ∧
          proactor.processed <+: proactor.commands.claims := by
  refine ⟨fun wakeup actions system trace => ⟨?_, ReactorSystem.processed_prefix trace⟩,
    fun maker own wakeup actions proactor trace => ⟨?_, EpollProactor.processed_prefix trace⟩⟩
  · intro left
    exact left.queued (ReactorSystem.commands_empty trace left.blocked left.quiet left.nobody)
  · intro left
    exact left.queued (EpollProactor.commands_empty trace left.blocked left.quiet left.nobody)

/-- A thread adds a handler to a running reactor. -/
def addsHandler : List (ReactorAction Bool ℕ) :=
  [.run, .start, .check] ++
    ReactorSystem.write true (.addHandler 5 (some 1) true false true) true ++
    [.wait true [], .readCommands, .readCommands, .readCommands, .processCommand none]

/-- A thread submits an operation to a running proactor. -/
def submitsOperation : List (EpollAction Bool) :=
  [.reactor .run, .reactor .start, .reactor .check, .reactor (.wait true []),
    .reactor .readCommands, .reactor .readCommands, .reactor .readCommands,
    .reactor (.processCommand none), .reactor .readCommands, .reactor .sweep,
    .reactor .check, .request true .submit true, .advance true, .advance true, .advance true,
    .advance true, .reactor (.wait false [⟨4, epollIn, 0⟩]), .reactor .dispatchEvent,
    .readCommands, .readCommands, .readCommands, .processCommand]

theorem no_command_left_behind_submit :
    (∃ system : ReactorSystem Bool ℕ,
      Trace (ReactorSystem.act 3) (.initial Bool ℕ 3) addsHandler system ∧
        system.processed.map (·.type) = [.add] ∧ system.processed <+: system.commands.claims) ∧
    ∃ proactor : EpollProactor Bool,
      Trace (EpollProactor.act 3 4) (.initial true 3 4) submitsOperation proactor ∧
        proactor.processed.map (·.type) = [.submit] ∧
        proactor.processed <+: proactor.commands.claims := by
  have added : (follow (ReactorSystem.act 3) (.initial Bool ℕ 3) addsHandler).any
      (fun system => decide (system.processed.map (·.type) = [.add])) = true := by
    decide +kernel
  have submitted : (follow (EpollProactor.act 3 4) (.initial true 3 4) submitsOperation).any
      (fun proactor => decide (proactor.processed.map (·.type) = [.submit])) = true := by
    decide +kernel
  obtain ⟨system, trace, processed⟩ := Trace.exists_of_follow added
  obtain ⟨proactor, trace', processed'⟩ := Trace.exists_of_follow submitted
  exact ⟨⟨system, trace, of_decide_eq_true processed,
      ((no_command_left_behind Bool ℕ).1 3 addsHandler system trace).2⟩,
    ⟨proactor, trace', of_decide_eq_true processed',
      ((no_command_left_behind Bool ℕ).2 true 3 4 submitsOperation proactor trace').2⟩⟩

end Join
