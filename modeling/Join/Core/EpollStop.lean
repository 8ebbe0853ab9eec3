import Join.Core.EpollCommands

/-!
# A stop of the epoll proactor

A call of `stop` that has found the running flag set ends in a Stop command for the reactor,
and the reactor executes `run` once. So the loop stops for good as soon as one call of `stop`
has read the running flag after `run` had set it. A call that has read it before that
returns and leaves nothing behind.
-/

set_option autoImplicit false

namespace Join

open Library

variable {T : Type} [DecidableEq T]

namespace EpollProactor

variable {own wakeup : ℤ} {maker : T} {proactor after : EpollProactor T}

omit [DecidableEq T] in
theorem begun_iff : proactor.begun = true ↔ proactor.reactor.loop.Begun := by
  cases place : proactor.reactor.loop <;> simp [begun, Loop.Begun, place]

/-- Everybody who calls the reactor is in `stop`; before a call is heeded the reactor goes
on, and then it stops, is asked to, or will be. -/
structure Heeds (proactor : EpollProactor T) : Prop where
  attended : proactor.reactor.Attended
  inside : ∀ who request, proactor.reactor.caller who = .sending request →
    proactor.caller who = .inside
  begun : proactor.reactor.running = true → proactor.reactor.loop.Begun
  unheeded : proactor.heeded = false →
    proactor.reactor.Unstopped ∧ ∀ who, (proactor.caller who).Unheeded
  heeded : proactor.heeded = true → proactor.reactor.loop.Begun ∧
    (proactor.reactor.running = false ∨ proactor.reactor.StopUnderway ∨
      ∃ who, (proactor.caller who).Committed)

omit [DecidableEq T] in
/-- Who is committed has been heeded. -/
theorem Heeds.of_committed (heeds : proactor.Heeds) {who : T}
    (committed : (proactor.caller who).Committed) : proactor.heeded = true := by
  by_contra unheeded
  have free := (heeds.unheeded ((Bool.not_eq_true _).mp unheeded)).2 who
  cases at' : proactor.caller who <;> rw [at'] at committed free <;> first
    | exact committed.elim
    | exact free.elim

/-- A thread goes to another place, and the reactor stays as it is. -/
theorem Heeds.moveTo (heeds : proactor.Heeds) {who : T} {next : ProactorCaller}
    (reactor : after.reactor = proactor.reactor)
    (caller : after.caller = Function.update proactor.caller who next)
    (heeded : after.heeded = proactor.heeded)
    (outside : proactor.caller who ≠ .inside ∨
      ∀ request, proactor.reactor.caller who ≠ .sending request)
    (unheeded : proactor.heeded = false → next.Unheeded)
    (commits : (proactor.caller who).Committed →
      proactor.reactor.running = false ∨ next.Committed) : after.Heeds := by
  refine ⟨reactor ▸ heeds.attended, ?_, reactor ▸ heeds.begun, ?_, ?_⟩
  · intro other request sending
    rw [reactor] at sending
    have inside := heeds.inside other request sending
    have differs : other ≠ who := by
      rintro rfl
      rcases outside with elsewhere | silent
      · exact elsewhere inside
      · exact silent request sending
    rw [caller, Function.update_of_ne differs]
    exact inside
  · intro off
    rw [heeded] at off
    obtain ⟨unstopped, free⟩ := heeds.unheeded off
    refine ⟨reactor ▸ unstopped, fun other => ?_⟩
    rw [caller]
    by_cases same : other = who
    · rw [same, Function.update_self]
      exact unheeded off
    · rw [Function.update_of_ne same]
      exact free other
  · intro on
    rw [heeded] at on
    rw [reactor]
    obtain ⟨begun, stopped | underway | ⟨other, committed⟩⟩ := heeds.heeded on
    · exact ⟨begun, .inl stopped⟩
    · exact ⟨begun, .inr (.inl underway)⟩
    · by_cases same : other = who
      · subst same
        rcases commits committed with stopped | still
        · exact ⟨begun, .inl stopped⟩
        · refine ⟨begun, .inr (.inr ⟨other, ?_⟩)⟩
          rw [caller, Function.update_self]
          exact still
      · refine ⟨begun, .inr (.inr ⟨other, ?_⟩)⟩
        rw [caller, Function.update_of_ne same]
        exact committed

/-- A thread reads the running flag and finds it set. -/
theorem Heeds.heed (heeds : proactor.Heeds) {who : T} {sync : Bool} {next : ProactorCaller}
    (stopping : proactor.caller who = .stopping sync)
    (running : proactor.reactor.running = true)
    (reactor : after.reactor = proactor.reactor)
    (caller : after.caller = Function.update proactor.caller who next)
    (heeded : after.heeded = true) (commits : next.Committed) : after.Heeds := by
  refine ⟨reactor ▸ heeds.attended, ?_, reactor ▸ heeds.begun, ?_, ?_⟩
  · intro other request sending
    rw [reactor] at sending
    have inside := heeds.inside other request sending
    have differs : other ≠ who := by
      rintro rfl
      rw [stopping] at inside
      cases inside
    rw [caller, Function.update_of_ne differs]
    exact inside
  · intro off
    rw [heeded] at off
    cases off
  · intro _
    rw [reactor]
    refine ⟨heeds.begun running, .inr (.inr ⟨who, ?_⟩)⟩
    rw [caller, Function.update_self]
    exact commits

/-- Everybody stays where they are, and the reactor is not touched. -/
theorem Heeds.same (heeds : proactor.Heeds) (reactor : after.reactor = proactor.reactor)
    (caller : after.caller = proactor.caller) (heeded : after.heeded = proactor.heeded) :
    after.Heeds := by
  refine ⟨reactor ▸ heeds.attended, ?_, reactor ▸ heeds.begun, ?_, ?_⟩
  · rw [reactor, caller]
    exact heeds.inside
  · rw [reactor, caller, heeded]
    exact heeds.unheeded
  · rw [reactor, caller, heeded]
    exact heeds.heeded

/-- The reactor makes a step that is no call of its methods. -/
theorem Heeds.inner (heeds : proactor.Heeds) {move : ReactorAction T Unit}
    (noCall : ∀ who request, move ≠ .call who request)
    (continues : ReactorSystem.Continues move)
    (step : ReactorSystem.Step own proactor.reactor move after.reactor)
    (caller : after.caller = proactor.caller) (heeded : after.heeded = proactor.heeded) :
    after.Heeds := by
  refine ⟨heeds.attended.step step, ?_, step.running heeds.begun, ?_, ?_⟩
  · intro who request sending
    rw [caller]
    exact heeds.inside who request (step.sending noCall sending)
  · intro off
    rw [heeded] at off
    obtain ⟨unstopped, free⟩ := heeds.unheeded off
    refine ⟨unstopped.step continues step, ?_⟩
    rw [caller]
    exact free
  · intro on
    rw [heeded] at on
    rw [caller]
    obtain ⟨begun, wanted⟩ := heeds.heeded on
    obtain ⟨begun', stays⟩ := step.begun begun
    refine ⟨begun', ?_⟩
    rcases wanted with stopped | underway | committed
    · exact .inl (stays stopped)
    · rcases step.underway underway with stopped | still
      · exact .inl stopped
      · exact .inr (.inl still)
    · exact .inr (.inr committed)

/-- Every step keeps a stop that was heeded. -/
theorem Heeds.step (heeds : proactor.Heeds) (step : Step own wakeup proactor after) :
    after.Heeds := by
  have outside {who : T} {place : ProactorCaller} (at' : proactor.caller who = place)
      (off : place ≠ .inside) : proactor.caller who ≠ .inside ∨
        ∀ request, proactor.reactor.caller who ≠ .sending request := .inl (at' ▸ off)
  have idles {who : T} {place : ProactorCaller} (at' : proactor.caller who = place)
      {next : ProactorCaller} (off : ¬place.Committed) : (proactor.caller who).Committed →
        proactor.reactor.running = false ∨ next.Committed := by
    intro committed
    rw [at'] at committed
    exact absurd committed off
  have committed {who : T} {place next : ProactorCaller} (at' : proactor.caller who = place)
      (commits : place.Committed) : proactor.heeded = false → next.Unheeded := by
    intro off
    rw [heeds.of_committed (at' ▸ commits)] at off
    cases off
  cases step with
  | request idle _ _ =>
      exact heeds.moveTo rfl rfl rfl (outside idle nofun) (fun _ => trivial) (idles idle id)
  | stop sync idle =>
      exact heeds.moveTo rfl rfl rfl (outside idle nofun) (fun _ => trivial) (idles idle id)
  | heed stopping running => exact heeds.heed stopping running rfl rfl rfl trivial
  | heedAsync stopping running _ => exact heeds.heed stopping running rfl rfl rfl trivial
  | @ignore who sync stopping still =>
      have moved : (proactor.moveTo who .idle).Heeds :=
        heeds.moveTo rfl rfl rfl (outside stopping nofun) (fun _ => trivial) (idles stopping id)
      refine ⟨moved.attended, moved.inside, moved.begun, ?_, ?_⟩
      · intro off
        exact moved.unheeded (Bool.or_eq_false_iff.mp off).1
      · intro on
        rcases Bool.or_eq_true_iff.mp on with heeded | begun
        · exact moved.heeded heeded
        · exact ⟨begun_iff.mp begun, .inl still⟩
  | lose contending _ =>
      exact heeds.moveTo rfl rfl rfl (outside contending nofun) (committed contending trivial)
        fun _ => .inr trivial
  | win contending _ _ =>
      exact heeds.moveTo rfl rfl rfl (outside contending nofun) (committed contending trivial)
        fun _ => .inr trivial
  | follow following still =>
      exact heeds.moveTo rfl rfl rfl (outside following nofun) (fun _ => trivial)
        fun _ => .inl still
  | advance _ => exact heeds.same rfl rfl rfl
  | requested requesting waits =>
      refine heeds.moveTo rfl rfl rfl (outside requesting nofun) (fun _ => ?_)
        (idles requesting id)
      split_ifs <;> trivial
  | @written who sync writing =>
      refine heeds.moveTo rfl rfl rfl (outside writing nofun) (committed writing trivial)
        fun _ => .inr ?_
      split_ifs <;> trivial
  | done waiting _ =>
      exact heeds.moveTo rfl rfl rfl (outside waiting nofun) (fun _ => trivial)
        (idles waiting id)
  | awaited awaiting _ =>
      exact heeds.moveTo rfl rfl rfl (outside awaiting nofun) (committed awaiting trivial)
        fun _ => .inr trivial
  | release releasing =>
      exact heeds.moveTo rfl rfl rfl (outside releasing nofun) (committed releasing trivial)
        fun _ => .inr trivial
  | @delegate who sync reactor delegating calls =>
      have heeded := @Heeds.of_committed _ _ heeds who (by rw [delegating]; trivial)
      have step := ReactorSystem.step_of_act calls
      obtain ⟨begun, _⟩ := step.begun (heeds.heeded heeded).1
      refine ⟨heeds.attended.step step, ?_, fun _ => begun, ?_, ?_⟩
      · intro other request sending
        change Function.update proactor.caller who .inside other = .inside
        by_cases same : other = who
        · rw [same, Function.update_self]
        · rw [Function.update_of_ne same]
          refine heeds.inside other request ?_
          cases step with
          | call _ _ _ =>
              dsimp only at sending
              rw [Function.update_of_ne same] at sending
              exact sending
      · intro off
        rw [show proactor.heeded = false from off] at heeded
        cases heeded
      · intro _
        refine ⟨begun, .inr (.inl (.inl ?_))⟩
        cases step with
        | call _ _ enters => exact Doorbell.underway_of_enter enters rfl
  | @comeBack who inside idle =>
      refine heeds.moveTo rfl rfl rfl (.inr fun request => ?_) (fun _ => trivial) (idles inside id)
      rw [idle]
      exact nofun
  | inner noCall continues _ moves _ =>
      exact heeds.inner noCall continues (ReactorSystem.step_of_act moves) rfl rfl
  | @stopInside sync verdict reactor moves =>
      cases ReactorSystem.step_of_act moves with
      | reenter _ calling _ =>
          have begun : proactor.reactor.loop.Begun := by
            rw [calling]
            trivial
          exact ⟨heeds.attended, heeds.inside, fun _ => begun, nofun,
            fun _ => ⟨begun, .inl rfl⟩⟩
  | serve moves _ _ =>
      refine @Heeds.inner _ _ _ _ _ heeds .dispatchEvent ?_ trivial (ReactorSystem.step_of_act moves) rfl rfl
      exact fun _ _ => nofun
  | read _ _ _ => exact heeds.same rfl rfl rfl
  | process _ => exact heeds.same rfl rfl rfl

theorem initial_caller (maker who : T) (own wakeup : ℤ) :
    (initial maker own wakeup).reactor.caller who = .idle := by
  by_cases same : wakeup = own
  · simp [initial, construction, ReactorSystem.write, follow, ReactorSystem.act,
      ReactorSystem.initial, Request.fd, same]
  · by_cases other : who = maker <;>
      simp [initial, construction, ReactorSystem.write, follow, ReactorSystem.act,
        ReactorSystem.initial, Request.fd, Request.next, Doorbell.act, Doorbell.initial,
        Sending.inside, Doorbell.advance, Doorbell.claim, Doorbell.write, Doorbell.exchange,
        Doorbell.ring, Doorbell.moveTo, commandConfig, same, other]

theorem construction_continues (maker : T) (wakeup : ℤ) :
    ∀ action ∈ construction maker wakeup, ReactorSystem.Continues action := by
  simp [construction, ReactorSystem.write, ReactorSystem.Continues]

/-- A new proactor is as a heeded stop needs it. -/
theorem initial_heeds (maker : T) {own wakeup : ℤ} (other : wakeup ≠ own) :
    (initial maker own wakeup).Heeds := by
  have trace := construction_trace maker own wakeup other
  have along : Along (ReactorSystem.act own) (fun _ => ReactorSystem.Continues)
      (.initial T Unit own) (construction maker wakeup) :=
    along_of_forall fun action member _ => construction_continues maker wakeup action member
  have attended := trace.invariant ReactorSystem.Attended
    (fun _ _ _ attended happens => attended.step (ReactorSystem.step_of_act happens))
    ReactorSystem.initial_attended
  have unstopped := trace.invariant_along ReactorSystem.Unstopped
    (fun _ _ _ unstopped continues happens =>
      unstopped.step continues (ReactorSystem.step_of_act happens))
    ReactorSystem.initial_unstopped along
  have begun := trace.invariant (fun system => system.running = true → system.loop.Begun)
    (fun _ _ _ begun happens => (ReactorSystem.step_of_act happens).running begun) nofun
  refine ⟨attended, fun who request sending => ?_, begun, fun _ => ⟨unstopped, fun _ => trivial⟩,
    nofun⟩
  rw [initial_caller] at sending
  cases sending

theorem heeds_of_trace {actions : List (EpollAction T)} (other : wakeup ≠ own)
    (trace : Trace (act own wakeup) (initial maker own wakeup) actions proactor) :
    proactor.Heeds :=
  trace.invariant Heeds (fun _ _ _ heeds happens => heeds.step (step_of_act happens))
    (initial_heeds maker other)

/-! ## When nobody stops it any more -/

/-- Every call of `stop` has returned, and no Stop command is left. -/
structure Settled (proactor : EpollProactor T) : Prop where
  free : ∀ who, (proactor.caller who).Free
  queue : ¬StopQueued proactor.commands proactor.inHand
  reactor : ¬proactor.reactor.StopUnderway

/-- The loop is not running, and will not run. -/
def Stopped (own wakeup : ℤ) (proactor : EpollProactor T) : Prop :=
  ∀ actions later, Trace (act own wakeup) proactor actions later → later.reactor.running = false

/-- A loop that has been stopped does not run again. -/
theorem Step.stays (step : Step own wakeup proactor after)
    (begun : proactor.reactor.loop.Begun) (stopped : proactor.reactor.running = false) :
    after.reactor.loop.Begun ∧ after.reactor.running = false := by
  have inner {move : ReactorAction T Unit} {reactor : ReactorSystem T Unit}
      (moves : proactor.reactor.act own move = some reactor) :
      reactor.loop.Begun ∧ reactor.running = false := by
    obtain ⟨begun', stays⟩ := (ReactorSystem.step_of_act moves).begun begun
    exact ⟨begun', stays stopped⟩
  cases step with
  | delegate _ calls => exact inner calls
  | inner _ _ _ moves _ => exact inner moves
  | stopInside moves => exact inner moves
  | serve moves _ _ => exact inner moves
  | _ => exact ⟨begun, stopped⟩

theorem stopped_of_begun (begun : proactor.reactor.loop.Begun)
    (stopped : proactor.reactor.running = false) : proactor.Stopped own wakeup := by
  intro actions later trace
  exact (trace.invariant (fun state => state.reactor.loop.Begun ∧ state.reactor.running = false)
    (fun _ _ _ holds happens => (step_of_act happens).stays holds.1 holds.2)
    ⟨begun, stopped⟩).2

/-- A loop that nobody has asked to stop runs, or will. -/
theorem not_stopped_of_unstopped (unstopped : proactor.reactor.Unstopped) :
    ¬proactor.Stopped own wakeup := by
  intro stopped
  have runs (started : proactor.reactor.loop = .entered) : False := by
    have happens : proactor.act own wakeup (.reactor .start) = some
        { proactor with
          reactor := { proactor.reactor with running := true, loop := .checking } } := by
      simp [act, inReactor, ReactorSystem.act, started]
    cases stopped _ _ (.single happens)
  by_cases begun : proactor.reactor.loop.Begun
  · have now := stopped _ _ .nil
    rw [unstopped.running begun] at now
    cases now
  · cases place : proactor.reactor.loop with
    | entered => exact runs place
    | outside =>
        have first : proactor.act own wakeup (.reactor .run) = some
            { proactor with
              reactor := { proactor.reactor with threadId := true, loop := .entered } } := by
          simp [act, inReactor, ReactorSystem.act, place]
        have second : act own wakeup { proactor with
              reactor := { proactor.reactor with threadId := true, loop := .entered } }
            (.reactor .start) = some
            { proactor with
              reactor := { proactor.reactor with
                threadId := true, running := true, loop := .checking } } := rfl
        cases stopped _ _ ((Trace.single first).snoc second)
    | _ =>
        rw [place] at begun
        exact begun trivial

/-- Once nobody stops it any more, the loop is stopped for good exactly if a call of `stop`
was heeded. -/
theorem stopped_iff {actions : List (EpollAction T)} (other : wakeup ≠ own)
    (trace : Trace (act own wakeup) (initial maker own wakeup) actions proactor)
    (settled : proactor.Settled) :
    proactor.Stopped own wakeup ↔ proactor.heeded = true := by
  have heeds := heeds_of_trace other trace
  refine ⟨fun stopped => ?_, fun heeded => ?_⟩
  · by_contra off
    exact not_stopped_of_unstopped (heeds.unheeded ((Bool.not_eq_true _).mp off)).1 stopped
  · obtain ⟨begun, stopped | underway | ⟨who, committed⟩⟩ := heeds.heeded heeded
    · exact stopped_of_begun begun stopped
    · exact absurd underway settled.reactor
    · have free := settled.free who
      cases place : proactor.caller who <;> rw [place] at committed free <;> first
        | exact committed.elim
        | exact free.elim

end EpollProactor

end Join
