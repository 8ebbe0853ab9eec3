import Join.Core.UringProactor

/-!
# A stop of the io_uring proactor

A call of `stop` that has found the running flag set writes a Stop command or waits until the
proactor thread is gone, and the command clears the flag. So, as with the epoll backend, the
loop stops for good as soon as one call of `stop` has read the running flag after `run` had
set it, and not before.
-/

set_option autoImplicit false

namespace Join

open Library

variable {T : Type} [DecidableEq T]

namespace UringProactor

variable {spin : Bool} {proactor after : UringProactor T}

/-- The thread has found the flag set, and no Stop command tells of it yet. -/
def Committed (place : ProactorCaller) : Prop := place = .contending ∨ place = .following

/-- Before a call of `stop` is heeded the loop goes on, and then it stops, is asked to, or
will be. The flag is set only while the proactor thread is there. -/
structure Heeds (proactor : UringProactor T) : Prop where
  present : proactor.running = true ∨ proactor.loop = .entered → proactor.threadId = true
  begun : proactor.running = true → proactor.loop.begun = true
  left : proactor.loop = .left → proactor.running = false
  unheeded : proactor.heeded = false →
    ¬StopQueued proactor.commands proactor.loop.inHand ∧
      (proactor.loop.begun = true → proactor.running = true) ∧
      ∀ who, (proactor.caller who).Unheeded
  heeded : proactor.heeded = true → proactor.loop.begun = true ∧
    (proactor.running = false ∨ StopQueued proactor.commands proactor.loop.inHand ∨
      ∃ who, Committed (proactor.caller who))

omit [DecidableEq T] in
/-- Who does not go on as if the call were not made has been heeded. -/
theorem Heeds.of_caller (heeds : proactor.Heeds) {who : T}
    (inside : ¬(proactor.caller who).Unheeded) : proactor.heeded = true := by
  by_contra off
  exact inside ((heeds.unheeded ((Bool.not_eq_true _).mp off)).2.2 who)

/-- A queue in which a Stop command is not under way does not get one from another action. -/
theorem not_queued {door next : Doorbell T (ProactorCommand T)}
    {move : DoorbellAction T (ProactorCommand T)}
    {inHand : Option (ProactorCommand T)} (off : ¬StopQueued door inHand)
    (moves : door.act (uringConfig spin) move = some next)
    (enters : ∀ who command, move = .enter who command → command.type ≠ .stop) :
    ¬StopQueued next inHand := by
  have carries : door.Carries fun command => command.type ≠ .stop :=
    ⟨fun who command entering stop => off (.inl (.inl ⟨who, command, entering, stop⟩)),
      fun slot member stop => off (.inl (.inr ⟨slot, member, stop⟩))⟩
  rintro (queued | inHand)
  · exact (carries.act moves enters).not_underway queued
  · exact off (.inr inHand)

/-- A Stop command stays queued while nothing is received. -/
theorem queued {door next : Doorbell T (ProactorCommand T)}
    {move : DoorbellAction T (ProactorCommand T)}
    {inHand : Option (ProactorCommand T)} (on : StopQueued door inHand)
    (moves : door.act (uringConfig spin) move = some next) (sends : move ≠ .receive) :
    StopQueued next inHand := by
  rcases on with queued | inHand
  · rcases queued.act moves with still | ⟨same, _⟩
    · exact .inl still
    · exact absurd same sends
  · exact .inr inHand

/-- A thread goes to another place, and may touch the queue. -/
theorem Heeds.moveTo (heeds : proactor.Heeds) {who : T} {next : ProactorCaller}
    (threadId : after.threadId = proactor.threadId) (running : after.running = proactor.running)
    (loop : after.loop = proactor.loop)
    (caller : after.caller = Function.update proactor.caller who next)
    (heeded : after.heeded = proactor.heeded)
    (commands : after.commands = proactor.commands ∨ ∃ command,
      proactor.commands.act (uringConfig spin) (.enter who command) = some after.commands ∧
        (proactor.heeded = false → command.type ≠ .stop))
    (unheeded : proactor.heeded = false → next.Unheeded)
    (commits : Committed (proactor.caller who) → proactor.running = false ∨ Committed next ∨
      StopQueued after.commands after.loop.inHand) : after.Heeds := by
  refine ⟨?_, ?_, ?_, ?_, ?_⟩
  · rw [threadId, running, loop]
    exact heeds.present
  · rw [running, loop]
    exact heeds.begun
  · rw [running, loop]
    exact heeds.left
  · intro off
    rw [heeded] at off
    obtain ⟨noStop, goesOn, free⟩ := heeds.unheeded off
    refine ⟨?_, ?_, fun other => ?_⟩
    · rw [loop]
      rcases commands with same | ⟨command, enters, asks⟩
      · rw [same]
        exact noStop
      · refine not_queued noStop enters fun _ _ same => ?_
        cases same
        exact asks off
    · rw [running, loop]
      exact goesOn
    · rw [caller]
      by_cases same : other = who
      · rw [same, Function.update_self]
        exact unheeded off
      · rw [Function.update_of_ne same]
        exact free other
  · intro on
    rw [heeded] at on
    obtain ⟨begun, stopped | stop | ⟨other, committed⟩⟩ := heeds.heeded on
    · rw [running, loop]
      exact ⟨begun, .inl stopped⟩
    · rw [loop]
      refine ⟨begun, .inr (.inl ?_)⟩
      rcases commands with same | ⟨command, enters, _⟩
      · rw [same]
        exact stop
      · exact queued stop enters nofun
    · by_cases same : other = who
      · subst same
        rcases commits committed with stopped | still | stop
        · rw [running, loop]
          exact ⟨begun, .inl stopped⟩
        · refine ⟨loop ▸ begun, .inr (.inr ⟨other, ?_⟩)⟩
          rw [caller, Function.update_self]
          exact still
        · exact ⟨loop ▸ begun, .inr (.inl stop)⟩
      · refine ⟨loop ▸ begun, .inr (.inr ⟨other, ?_⟩)⟩
        rw [caller, Function.update_of_ne same]
        exact committed

omit [DecidableEq T] in
/-- The proactor thread moves on, and the callers stay where they are. -/
theorem Heeds.loop (heeds : proactor.Heeds) (caller : after.caller = proactor.caller)
    (heeded : after.heeded = proactor.heeded) (begun : proactor.loop.begun = true)
    (begun' : after.loop.begun = true) (running : after.running = proactor.running)
    (threadId : after.threadId = proactor.threadId)
    (left : after.loop = .left → proactor.running = false)
    (entered : after.loop ≠ .entered)
    (stop : StopQueued after.commands after.loop.inHand ↔
      StopQueued proactor.commands proactor.loop.inHand) : after.Heeds := by
  refine ⟨?_, fun _ => begun', ?_, ?_, ?_⟩
  · rintro (on | now)
    · rw [running] at on
      rw [threadId]
      exact heeds.present (.inl on)
    · exact absurd now entered
  · rw [running]
    exact left
  · intro off
    rw [heeded] at off
    obtain ⟨noStop, goesOn, free⟩ := heeds.unheeded off
    rw [running, caller]
    exact ⟨fun queued => noStop (stop.mp queued), fun _ => goesOn begun, free⟩
  · intro on
    rw [heeded] at on
    rw [running, caller]
    obtain ⟨_, wanted⟩ := heeds.heeded on
    refine ⟨begun', ?_⟩
    rcases wanted with stopped | queued | committed
    · exact .inl stopped
    · exact .inr (.inl (stop.mpr queued))
    · exact .inr (.inr committed)

omit [DecidableEq T] in
theorem begun_of_looping (looping : proactor.loop = .looping) : proactor.loop.begun = true := by
  rw [looping]
  rfl

/-- An action on the queue that brings no Stop command and takes none. -/
theorem queued_iff {door next : Doorbell T (ProactorCommand T)}
    {move : DoorbellAction T (ProactorCommand T)} {inHand : Option (ProactorCommand T)}
    (moves : door.act (uringConfig spin) move = some next)
    (enters : ∀ who command, move = .enter who command → command.type ≠ .stop)
    (sends : move ≠ .receive) : StopQueued next inHand ↔ StopQueued door inHand := by
  refine ⟨fun on => ?_, fun on => queued on moves sends⟩
  by_contra off
  exact not_queued off moves enters on

/-- A command passes from the queue into the hands of the proactor thread. -/
theorem queued_iff_take {door next : Doorbell T (ProactorCommand T)}
    (moves : door.act (uringConfig spin) .receive = some next) :
    StopQueued next door.upcoming ↔ StopQueued door none := by
  rcases Doorbell.receive_upcoming moves with ⟨slot, coming, _, slots, _, sending⟩ |
    ⟨coming, slots, _, sending⟩
  · rw [coming, StopQueued, StopQueued, Doorbell.Underway, Doorbell.Underway, slots, sending]
    constructor
    · rintro ((entering | ⟨other, member, stop⟩) | ⟨command, member, stop⟩)
      · exact .inl (.inl entering)
      · exact .inl (.inr ⟨other, List.mem_cons_of_mem _ member, stop⟩)
      · cases member
        exact .inl (.inr ⟨slot, List.mem_cons_self .., stop⟩)
    · rintro ((entering | ⟨other, member, stop⟩) | ⟨command, member, _⟩)
      · exact .inl (.inl entering)
      · rcases List.mem_cons.mp member with rfl | inside
        · exact .inr ⟨_, rfl, stop⟩
        · exact .inl (.inr ⟨other, inside, stop⟩)
      · cases member
  · rw [coming, StopQueued, StopQueued, Doorbell.Underway, Doorbell.Underway, slots, sending]

/-- Every step keeps a stop that was heeded. -/
theorem Heeds.step (heeds : proactor.Heeds) (step : Step spin proactor after) :
    after.Heeds := by
  have idles {who : T} {place : ProactorCaller} (at' : proactor.caller who = place)
      {next : ProactorCaller} {stop : Prop} (off : ¬Committed place) :
      Committed (proactor.caller who) → proactor.running = false ∨ Committed next ∨ stop := by
    intro committed
    rw [at'] at committed
    exact absurd committed off
  have heeded {who : T} {place next : ProactorCaller} (at' : proactor.caller who = place)
      (inside : ¬place.Unheeded) : proactor.heeded = false → next.Unheeded := by
    intro off
    rw [@Heeds.of_caller _ _ heeds who (at' ▸ inside)] at off
    cases off
  cases step with
  | @request who type sync commands idle asks enters =>
      exact heeds.moveTo rfl rfl rfl rfl rfl (.inr ⟨_, enters, fun _ => asks⟩) (fun _ => trivial)
        (idles idle (by simp [Committed]))
  | stop sync idle =>
      exact @Heeds.moveTo _ _ spin _ _ heeds _ _ rfl rfl rfl rfl rfl (.inl rfl) (fun _ => trivial)
        (idles idle (by simp [Committed]))
  | @heed who stopping running =>
      refine ⟨heeds.present, heeds.begun, heeds.left, nofun, fun _ => ⟨heeds.begun running, ?_⟩⟩
      exact .inr (.inr ⟨who, .inl (Function.update_self ..)⟩)
  | heedAsync stopping running enters =>
      refine ⟨heeds.present, heeds.begun, heeds.left, nofun, fun _ => ⟨heeds.begun running, ?_⟩⟩
      exact .inr (.inl (.inl (Doorbell.underway_of_enter enters rfl)))
  | @ignore who sync stopping still =>
      have moved : (proactor.moveTo who .idle).Heeds :=
        @Heeds.moveTo _ _ spin _ _ heeds _ _ rfl rfl rfl rfl rfl (.inl rfl) (fun _ => trivial)
          (idles stopping (by simp [Committed]))
      refine ⟨moved.present, moved.begun, moved.left, ?_, ?_⟩
      · intro off
        exact moved.unheeded (Bool.or_eq_false_iff.mp off).1
      · intro on
        rcases Bool.or_eq_true_iff.mp on with heeded | begun
        · exact moved.heeded heeded
        · exact ⟨begun, .inl still⟩
  | lose contending _ =>
      exact @Heeds.moveTo _ _ spin _ _ heeds _ _ rfl rfl rfl rfl rfl (.inl rfl) (heeded contending id)
        fun _ => .inr (.inl (.inr rfl))
  | win contending _ enters =>
      refine heeds.moveTo rfl rfl rfl rfl rfl (.inr ⟨_, enters, fun off => ?_⟩)
        (heeded contending id) fun _ => .inr (.inr (.inl (Doorbell.underway_of_enter enters rfl)))
      exact (@heeded _ _ .contending contending id off).elim
  | @follow who following gone =>
      refine @Heeds.moveTo _ _ spin _ _ heeds _ _ rfl rfl rfl rfl rfl (.inl rfl) (fun _ => trivial)
        fun _ => .inl ?_
      by_contra running
      rw [heeds.present (.inl (Bool.of_not_eq_false running))] at gone
      cases gone
  | @advance who commands advances =>
      have same {inHand : Option (ProactorCommand T)} :
          StopQueued commands inHand ↔ StopQueued proactor.commands inHand :=
        queued_iff advances (fun _ _ => nofun) nofun
      refine ⟨heeds.present, heeds.begun, heeds.left, fun off => ?_, fun on => ?_⟩
      · rw [same]
        exact heeds.unheeded off
      · rw [same]
        exact heeds.heeded on
  | requested requesting waits =>
      refine @Heeds.moveTo _ _ spin _ _ heeds _ _ rfl rfl rfl rfl rfl (.inl rfl) (fun _ => ?_)
        (idles requesting (by simp [Committed]))
      split_ifs <;> trivial
  | written writing =>
      refine @Heeds.moveTo _ _ spin _ _ heeds _ _ rfl rfl rfl rfl rfl (.inl rfl) (heeded writing id)
        (idles writing (by simp [Committed]))
  | done waiting _ =>
      exact @Heeds.moveTo _ _ spin _ _ heeds _ _ rfl rfl rfl rfl rfl (.inl rfl) (fun _ => trivial)
        (idles waiting (by simp [Committed]))
  | awaited awaiting _ =>
      exact @Heeds.moveTo _ _ spin _ _ heeds _ _ rfl rfl rfl rfl rfl (.inl rfl) (heeded awaiting id)
        (idles awaiting (by simp [Committed]))
  | @release who releasing =>
      exact @Heeds.moveTo _ _ spin _ _ heeds _ _ rfl rfl rfl rfl rfl (.inl rfl) (fun _ => trivial)
        (idles releasing (by simp [Committed]))
  | run outside =>
      have still : proactor.running = false := by
        by_contra running
        have begun := heeds.begun (Bool.of_not_eq_false running)
        rw [outside] at begun
        cases begun
      refine ⟨fun _ => rfl, fun running => ?_, nofun, fun off => ?_, fun on => ?_⟩
      · rw [show proactor.running = true from running] at still
        cases still
      · obtain ⟨noStop, _, free⟩ := heeds.unheeded off
        rw [outside] at noStop
        exact ⟨noStop, nofun, free⟩
      · have begun := (heeds.heeded on).1
        rw [outside] at begun
        cases begun
  | start entered =>
      refine ⟨fun _ => heeds.present (.inr entered), fun _ => rfl, nofun, fun off => ?_,
        fun on => ?_⟩
      · obtain ⟨noStop, _, free⟩ := heeds.unheeded off
        rw [entered] at noStop
        exact ⟨noStop, fun _ => rfl, free⟩
      · have begun := (heeds.heeded on).1
        rw [entered] at begun
        cases begun
  | call armed looping calls moves =>
      refine heeds.loop rfl rfl (begun_of_looping looping) rfl rfl rfl nofun nofun ?_
      rw [looping]
      refine queued_iff moves ?_ ?_
      · intro who command same
        rcases calls with rfl | rfl <;> cases same
      · rcases calls with rfl | rfl <;> exact nofun
  | @take command commands reading next receives =>
      refine heeds.loop rfl rfl (by rw [reading]; rfl) rfl rfl rfl nofun nofun ?_
      rw [reading]
      have passes := queued_iff_take receives
      rw [next] at passes
      exact passes
  | @read commands armed past reading next receives =>
      have passes := queued_iff_take receives
      rw [next] at passes
      refine heeds.loop rfl rfl (by rw [reading]; rfl) ?_ rfl rfl ?_ ?_ ?_
      · cases past <;> rfl
      · cases past <;> exact nofun
      · cases past <;> exact nofun
      · rw [reading]
        cases past <;> exact passes
  | @process command processing =>
      by_cases isStop : command.type = .stop
      · refine ⟨?_, fun _ => rfl, nofun, fun off => ?_, fun _ => ⟨rfl, .inl (if_pos isStop)⟩⟩
        · rintro (on | now)
          · simp only [if_pos isStop, Bool.false_eq_true] at on
          · cases now
        · refine absurd (.inr ⟨command, ?_, isStop⟩) (heeds.unheeded off).1
          rw [processing]
          rfl
      · refine heeds.loop rfl rfl (by rw [processing]; rfl) rfl (if_neg isStop) rfl nofun nofun ?_
        rw [processing]
        refine or_congr_right ⟨?_, ?_⟩
        · rintro ⟨other, member, _⟩
          cases member
        · rintro ⟨other, member, stop⟩
          cases member
          exact absurd stop isStop
  | stopInside looping =>
      refine ⟨?_, nofun, fun _ => rfl, nofun, fun _ => ⟨begun_of_looping looping, .inl rfl⟩⟩
      rintro (on | now)
      · cases on
      · rw [show proactor.loop = .entered from now] at looping
        cases looping
  | leaveInside looping _ _ =>
      exact ⟨heeds.present, heeds.begun, heeds.left, heeds.unheeded, heeds.heeded⟩
  | leave looping stopped =>
      refine heeds.loop rfl rfl (begun_of_looping looping) rfl rfl rfl (fun _ => stopped) nofun ?_
      rw [looping]
      rfl
  | exit left =>
      have stopped := heeds.left left
      have begun : proactor.loop.begun = true := by
        rw [left]
        rfl
      refine ⟨?_, fun _ => rfl, nofun, fun off => ?_, fun on => ⟨rfl, .inl stopped⟩⟩
      · rintro (on | now)
        · rw [show proactor.running = true from on] at stopped
          cases stopped
        · cases now
      · rw [(heeds.unheeded off).2.1 begun] at stopped
        cases stopped

omit [DecidableEq T] in
theorem initial_heeds : (initial T).Heeds where
  present := by
    rintro (on | now)
    · cases on
    · cases now
  begun := nofun
  left := nofun
  unheeded := by
    intro _
    refine ⟨?_, nofun, fun _ => trivial⟩
    rintro (queued | ⟨command, member, _⟩)
    · exact Doorbell.Carries.not_underway Doorbell.initial_carries queued
    · cases member
  heeded := nofun

theorem heeds_of_trace {actions : List (UringAction T)}
    (trace : Trace (act spin) (initial T) actions proactor) : proactor.Heeds :=
  trace.invariant Heeds (fun _ _ _ heeds happens => heeds.step (step_of_act happens)) initial_heeds

/-! ## When nobody stops it any more -/

/-- Every call of `stop` has returned, and no Stop command is left. -/
structure Settled (proactor : UringProactor T) : Prop where
  free : ∀ who, (proactor.caller who).Free
  queue : ¬StopQueued proactor.commands proactor.loop.inHand

/-- The loop is not running, and will not run. -/
def Stopped (spin : Bool) (proactor : UringProactor T) : Prop :=
  ∀ actions later, Trace (act spin) proactor actions later → later.running = false

/-- A loop that has been stopped does not run again. -/
theorem Step.stays (step : Step spin proactor after) (begun : proactor.loop.begun = true)
    (stopped : proactor.running = false) :
    after.loop.begun = true ∧ after.running = false := by
  cases step with
  | run outside =>
      rw [outside] at begun
      cases begun
  | start entered =>
      rw [entered] at begun
      cases begun
  | read armed past _ _ _ =>
      refine ⟨?_, stopped⟩
      cases past <;> rfl
  | process processing =>
      refine ⟨rfl, ?_⟩
      dsimp only
      split_ifs
      · rfl
      · exact stopped
  | call _ _ _ _ => exact ⟨rfl, stopped⟩
  | take _ _ _ => exact ⟨rfl, stopped⟩
  | stopInside _ => exact ⟨begun, rfl⟩
  | leave _ _ => exact ⟨rfl, stopped⟩
  | exit _ => exact ⟨rfl, stopped⟩
  | _ => exact ⟨begun, stopped⟩

theorem stopped_of_begun (begun : proactor.loop.begun = true)
    (stopped : proactor.running = false) : proactor.Stopped spin := by
  intro actions later trace
  exact (trace.invariant (fun state => state.loop.begun = true ∧ state.running = false)
    (fun _ _ _ holds happens => (step_of_act happens).stays holds.1 holds.2)
    ⟨begun, stopped⟩).2

/-- A loop that runs once it has begun runs, or will. -/
theorem not_stopped_of_unheeded (goesOn : proactor.loop.begun = true → proactor.running = true) :
    ¬proactor.Stopped spin := by
  intro stopped
  by_cases begun : proactor.loop.begun = true
  · have now := stopped _ _ .nil
    rw [goesOn begun] at now
    cases now
  · cases place : proactor.loop with
    | entered =>
        have happens : proactor.act spin .start = some
            { proactor with running := true, loop := .looping, armed := !spin } := by
          simp only [act, place]
        cases stopped _ _ (.single happens)
    | outside =>
        have first : proactor.act spin .run = some
            { proactor with threadId := true, loop := .entered } := by
          simp only [act, place]
        have second : act spin { proactor with threadId := true, loop := .entered } .start = some
            { proactor with
              threadId := true, running := true, loop := .looping, armed := !spin } := rfl
        cases stopped _ _ ((Trace.single first).snoc second)
    | _ =>
        rw [place] at begun
        exact begun rfl

/-- Once nobody stops it any more, the loop is stopped for good exactly if a call of `stop`
was heeded. -/
theorem stopped_iff {actions : List (UringAction T)}
    (trace : Trace (act spin) (initial T) actions proactor) (settled : proactor.Settled) :
    proactor.Stopped spin ↔ proactor.heeded = true := by
  have heeds := heeds_of_trace trace
  refine ⟨fun stopped => ?_, fun heeded => ?_⟩
  · by_contra off
    exact not_stopped_of_unheeded (heeds.unheeded ((Bool.not_eq_true _).mp off)).2.1 stopped
  · obtain ⟨begun, stopped | queued | ⟨who, committed⟩⟩ := heeds.heeded heeded
    · exact stopped_of_begun begun stopped
    · exact absurd queued settled.queue
    · have free := settled.free who
      rcases committed with place | place <;> rw [place] at free <;> exact free.elim

end UringProactor

end Join
