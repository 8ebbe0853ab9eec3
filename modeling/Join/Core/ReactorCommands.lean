import Join.Core.ReactorSystem

/-!
# The commands of a reactor

Every action of the threads of a reactor is an action on its queue of commands, or does not
touch it. So what holds of every queue with a doorbell holds here: when the reactor thread
sleeps in `epoll_wait`, its eventfd is zero and nobody is in `writeCommand`, then the queue
is empty. What the reactor thread has processed is what it has taken from the queue, but
for the command it has in hand.
-/

set_option autoImplicit false

namespace Join

open Library

variable {T H : Type}

/-- The command that the reactor thread has taken and not processed yet. -/
def Loop.inHand : Loop T H → List (Command T H)
  | .processing command => [command]
  | _ => []

/-- The reactor thread is in `readCommands`. -/
def Loop.Reading : Loop T H → Prop
  | .commanding | .processing _ => True
  | _ => False

theorem Loop.inHand_of_not_reading {loop : Loop T H} (outside : ¬loop.Reading) :
    loop.inHand = [] := by
  cases loop with
  | processing command => exact absurd trivial outside
  | _ => rfl

namespace ReactorSystem

variable [DecidableEq T] {wakeup : ℤ} {system after : ReactorSystem T H}
variable {action : ReactorAction T H}

/-- Every action is an action on the queue, or does not touch it. -/
theorem Step.commands (step : Step wakeup system action after) :
    after.commands = system.commands ∨
      ∃ move, system.commands.act commandConfig move = some after.commands := by
  cases step with
  | call _ _ enters => exact .inr ⟨_, enters⟩
  | advance advances => exact .inr ⟨_, advances⟩
  | woken _ _ wakes => exact .inr ⟨_, wakes⟩
  | take _ _ receives => exact .inr ⟨_, receives⟩
  | read _ _ receives => exact .inr ⟨_, receives⟩
  | @reenter _ _ _ request verdict calling own =>
      left
      cases request <;> rfl
  | _ => exact .inl rfl

/-- The queue of a reactor is a queue with a doorbell. -/
theorem commands_good {actions : List (ReactorAction T H)}
    (trace : Trace (act wakeup) (initial T H wakeup) actions system) :
    ∃ right, system.commands.Good right := by
  obtain ⟨moves, trace⟩ := trace.project ReactorSystem.commands
    fun _ _ _ happens => (step_of_act happens).commands
  exact Doorbell.Good.of_trace rfl (by decide) trace

/-- The receiver of the queue is the reactor thread in `readCommands`, and what was taken
was processed or is in hand. -/
structure Orderly (system : ReactorSystem T H) : Prop where
  away : ¬system.loop.Reading → system.commands.receiving = .away
  taken : system.commands.taken = system.processed ++ system.loop.inHand

omit [DecidableEq T] in
theorem initial_orderly : (initial T H wakeup).Orderly := ⟨fun _ => rfl, rfl⟩

/-- The reactor thread moves on and takes no command. -/
theorem Orderly.move (orderly : system.Orderly)
    (taken : after.commands.taken = system.commands.taken)
    (processed : after.processed = system.processed)
    (inHand : after.loop.inHand = system.loop.inHand)
    (away : ¬after.loop.Reading → after.commands.receiving = .away) : after.Orderly := by
  refine ⟨away, ?_⟩
  rw [taken, processed, inHand]
  exact orderly.taken

/-- The reactor thread moves on outside `readCommands`. -/
theorem Orderly.outside (orderly : system.Orderly) (commands : after.commands = system.commands)
    (processed : after.processed = system.processed) (before : ¬system.loop.Reading)
    (inHand : after.loop.inHand = []) : after.Orderly := by
  refine orderly.move (congrArg _ commands) processed ?_ fun _ => ?_
  · rw [inHand, Loop.inHand_of_not_reading before]
  · rw [commands]
    exact orderly.away before

/-- Every action keeps the reactor thread orderly. -/
theorem Orderly.step (orderly : system.Orderly) (step : Step wakeup system action after) :
    after.Orderly := by
  cases step with
  | call _ _ enters =>
      rw [Doorbell.act] at enters
      split_ifs at enters
      cases enters
      exact orderly.move rfl rfl rfl orderly.away
  | advance advances =>
      obtain ⟨receiving, taken⟩ := Doorbell.advance_keeps advances
      refine orderly.move taken rfl rfl fun off => ?_
      exact receiving.trans (orderly.away off)
  | proceed _ _ _ => exact orderly.move rfl rfl rfl orderly.away
  | done _ _ => exact orderly.move rfl rfl rfl orderly.away
  | stopped _ _ => exact orderly.move rfl rfl rfl orderly.away
  | run outside =>
      exact orderly.outside rfl rfl (by rw [outside]; exact id) rfl
  | start entered =>
      exact orderly.outside rfl rfl (by rw [entered]; exact id) rfl
  | goOn checking running =>
      exact orderly.outside rfl rfl (by rw [checking]; exact id) rfl
  | exit checking stopped =>
      exact orderly.outside rfl rfl (by rw [checking]; exact id) rfl
  | interrupted blocked =>
      exact orderly.outside rfl rfl (by rw [blocked]; exact id) rfl
  | woken blocked _ wakes =>
      rw [Doorbell.act] at wakes
      split_ifs at wakes
      cases wakes
      refine orderly.move rfl rfl ?_ fun off => absurd trivial off
      rw [blocked]
      rfl
  | fetched blocked _ =>
      exact orderly.outside rfl rfl (by rw [blocked]; exact id) rfl
  | take commanding next receives =>
      refine ⟨fun off => absurd trivial off, ?_⟩
      have before : system.commands.taken = system.processed := by
        rw [orderly.taken, commanding]
        exact List.append_nil _
      rcases Doorbell.receive_upcoming receives with ⟨slot, same, _, _, taken, _⟩ | ⟨none', _⟩
      · rw [next] at same
        cases same
        exact taken.trans (congrArg (· ++ [_]) before)
      · rw [next] at none'
        cases none'
  | @read commands commanding next receives =>
      have taken : commands.taken = system.commands.taken := by
        rcases Doorbell.receive_upcoming receives with ⟨slot, same, _⟩ | ⟨_, _, taken, _⟩
        · rw [next] at same
          cases same
        · exact taken
      refine orderly.move taken rfl ?_ fun off => ?_
      · rw [commanding]
        dsimp only
        split_ifs <;> rfl
      · dsimp only at off ⊢
        split_ifs at off with away
        · exact away
        · exact absurd trivial off
  | process verdict processing =>
      refine ⟨fun off => absurd trivial off, ?_⟩
      have before := orderly.taken
      rw [processing] at before
      change system.commands.taken = (system.processed ++ [_]) ++ []
      rw [before, List.append_nil]
      rfl
  | dispatch dispatching _ _ =>
      exact orderly.outside rfl rfl (by rw [dispatching]; exact id) rfl
  | skip dispatching _ _ => exact orderly.move rfl rfl rfl orderly.away
  | @reenter _ _ _ request verdict calling own =>
      cases request <;> exact orderly.move rfl rfl rfl orderly.away
  | callbackReturns calling =>
      exact orderly.outside rfl rfl (by rw [calling]; exact id) rfl
  | sweep dispatching _ =>
      exact orderly.outside rfl rfl (by rw [dispatching]; exact id) rfl
  | leave leaving =>
      exact orderly.outside rfl rfl (by rw [leaving]; exact id) rfl

theorem orderly_of_trace {actions : List (ReactorAction T H)}
    (trace : Trace (act wakeup) (initial T H wakeup) actions system) : system.Orderly :=
  trace.invariant Orderly (fun _ _ _ orderly happens => orderly.step (step_of_act happens))
    initial_orderly

/-- While the reactor thread sleeps by a quiet eventfd and nobody is in `writeCommand`, no
command is in the queue. -/
theorem commands_empty {actions : List (ReactorAction T H)}
    (trace : Trace (act wakeup) (initial T H wakeup) actions system)
    (blocked : system.loop = .blocked) (quiet : system.commands.bell = 0)
    (nobody : ∀ who, (system.commands.sending who).inside = false) :
    system.commands.slots = [] := by
  obtain ⟨right, good⟩ := commands_good trace
  refine good.empty ((orderly_of_trace trace).away ?_) quiet nobody
  rw [blocked]
  exact id

/-- The commands that were processed are the first that were pushed, each once and in the
order of the queue. -/
theorem processed_prefix {actions : List (ReactorAction T H)}
    (trace : Trace (act wakeup) (initial T H wakeup) actions system) :
    system.processed <+: system.commands.claims := by
  obtain ⟨right, good⟩ := commands_good trace
  rw [good.account, (orderly_of_trace trace).taken, List.append_assoc]
  exact List.prefix_append _ _

end ReactorSystem

end Join
