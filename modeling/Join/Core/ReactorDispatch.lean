import Join.Core.ReactorSystem

/-!
# Whom a reactor calls

The descriptors in the interest set are those that have a handler and are not in
`_deleted`, and the handler is that of the latest registration. An event that is fetched
carries the stamp of its registration as long as the descriptor is not registered again;
once it is, the event that is still to be dispatched goes to the new handler, because
`registerHandler` takes the descriptor out of `_deleted`.

So every call is made on the handler of the latest registration, and it is made for an
event of that very registration exactly when the descriptor has not been registered since
the loop waited.
-/

set_option autoImplicit false

namespace Join

open Library

variable {H : Type}

namespace History

/-- Every call was made on the handler of the latest registration of the descriptor, and
not after a `delHandler` of it. -/
def Addressed : History H → Prop
  | [] => True
  | .called fd handler _ _ :: earlier =>
      (∃ stamp, latest earlier fd = some (handler, stamp)) ∧ Addressed earlier
  | .waited :: earlier => Addressed earlier
  | .registered _ _ :: earlier => Addressed earlier
  | .deleted _ :: earlier => Addressed earlier

theorem Right.addressed {history : History H} (right : history.Right) : history.Addressed := by
  induction history with
  | nil => trivial
  | cons happening earlier inductionHypothesis =>
      cases happening with
      | called fd handler callback stamp =>
          exact ⟨⟨stamp, right.1⟩, inductionHypothesis right.2⟩
      | _ => exact inductionHypothesis right

end History

/-! ## What the kernel and the code leave -/

namespace Registry

variable {registry after : Registry H}

/-- A registration that succeeds. -/
theorem registerHandler_ok {verdict : Option Errno} {stamp : ℕ} {fd : ℤ} {handler : Option H}
    {events : UInt32}
    (accepted : registry.registerHandler verdict stamp fd handler events = .ok after) :
    0 ≤ fd ∧ ∃ known, handler = some known ∧ after = registry.accept fd known
      (Function.update registry.interest fd (some ⟨events, stamp⟩)) := by
  unfold registerHandler at accepted
  split at accepted
  · cases accepted
  · rename_i known
    split_ifs at accepted with negative empty
    refine ⟨not_lt.mp negative, known, rfl, ?_⟩
    unfold epollAdd epollMod at accepted
    cases interest : registry.interest fd with
    | none =>
        rw [interest] at accepted
        cases verdict with
        | none =>
            cases accepted
            rfl
        | some errno => cases errno <;> cases accepted
    | some entry =>
        rw [interest] at accepted
        cases verdict with
        | none =>
            cases accepted
            rfl
        | some errno => cases accepted

/-- What `unregisterHandler` leaves: the descriptor is not in the interest set, and in
`_deleted` if it was. -/
theorem unregisterHandler_eq (registry : Registry H) (verdict : Option Errno) {fd : ℤ}
    (valid : fd < 0 → registry.interest fd = none) :
    ∃ deleted, (registry.unregisterHandler verdict fd).2 =
        ⟨Function.update registry.interest fd none, registry.handlers, deleted⟩ ∧
      (deleted = insert fd registry.deleted ∨
        deleted = registry.deleted ∧ registry.interest fd = none) := by
  have same : registry.interest fd = none →
      Function.update registry.interest fd none = registry.interest := by
    intro out
    rw [← out, Function.update_eq_self]
  unfold unregisterHandler
  split_ifs with negative
  · refine ⟨registry.deleted, ?_, .inr ⟨rfl, valid negative⟩⟩
    rw [same (valid negative)]
  · unfold epollDel
    cases interest : registry.interest fd with
    | none =>
        rw [same interest]
        dsimp only
        split_ifs
        · exact ⟨insert fd registry.deleted, rfl, .inl rfl⟩
        · exact ⟨registry.deleted, rfl, .inr ⟨rfl, rfl⟩⟩
    | some entry => exact ⟨insert fd registry.deleted, rfl, .inl rfl⟩

/-- A call is made if the descriptor has a handler that is not deleted, and the event one
of the flags. -/
theorem dispatchEvent_eq_some {event : EpollEvent} {handler : H} {callback : Callback} :
    registry.dispatchEvent event = some (handler, callback) ↔
      registry.handlers event.fd = some handler ∧ registry.isActive event.fd = true ∧
        callbackOf event.events = some callback := by
  unfold dispatchEvent
  cases registry.handlers event.fd with
  | none => simp
  | some known =>
      dsimp only
      split_ifs with active
      · simp [active, and_comm]
      · simp [active]

theorem dispatchEvent_isSome {event : EpollEvent} :
    (registry.dispatchEvent event).isSome ↔ (registry.handlers event.fd).isSome ∧
      registry.isActive event.fd = true ∧ (callbackOf event.events).isSome := by
  unfold dispatchEvent
  cases registry.handlers event.fd with
  | none => simp
  | some known =>
      dsimp only
      split_ifs with active
      · simp [active]
      · simp [active]

end Registry

namespace Dispatcher

variable {wakeup : ℤ} {dispatcher : Dispatcher H}

/-- A registration has succeeded. -/
def registered (dispatcher : Dispatcher H) (fd : ℤ) (handler : H) (events : UInt32) :
    Dispatcher H where
  registry := dispatcher.registry.accept fd handler
    (Function.update dispatcher.registry.interest fd
      (some ⟨events, History.registrations dispatcher.history⟩))
  pending := dispatcher.pending
  history := .registered fd handler :: dispatcher.history

/-- `registerHandler` fails and leaves everything, or registers the handler. -/
theorem register_cases (dispatcher : Dispatcher H) (verdict : Option Errno) (fd : ℤ)
    (handler : Option H) (events : UInt32) :
    (dispatcher.register verdict fd handler events).2 = dispatcher ∨
      0 ≤ fd ∧ ∃ known,
        (dispatcher.register verdict fd handler events).2 = dispatcher.registered fd known events := by
  unfold register
  split
  · rename_i registry accepted
    obtain ⟨valid, known, rfl, rfl⟩ := Registry.registerHandler_ok accepted
    exact .inr ⟨valid, known, rfl⟩
  · exact .inl rfl

/-! ## The invariant -/

/-- The handlers are those of the latest registrations, the interest set is that of the
handlers, and an event that is still to be dispatched has the stamp of its descriptor
unless this was registered since the loop waited. -/
structure Good (wakeup : ℤ) (dispatcher : Dispatcher H) : Prop where
  watched : ∀ fd ≠ wakeup, ∀ entry, dispatcher.registry.interest fd = some entry →
    0 ≤ fd ∧ fd ∉ dispatcher.registry.deleted ∧
      ∃ handler, dispatcher.registry.handlers fd = some handler ∧
        dispatcher.history.latest fd = some (handler, entry.stamp)
  unwatched : ∀ fd ≠ wakeup, dispatcher.registry.interest fd = none →
    dispatcher.registry.handlers fd = none ∨ fd ∈ dispatcher.registry.deleted
  own : dispatcher.registry.handlers wakeup = none
  older : ∀ fd ≠ wakeup, ∀ entry, dispatcher.registry.interest fd = some entry →
    entry.stamp < History.registrations dispatcher.history
  reported : ∀ event ∈ dispatcher.pending, event.fd ≠ wakeup ∧
    event.stamp < History.registrations dispatcher.history ∧
    ∀ entry, dispatcher.registry.interest event.fd = some entry →
      (entry.stamp = event.stamp ↔ ¬dispatcher.history.Renewed event.fd)

theorem initial_good : (initial H wakeup).Good wakeup where
  watched := by
    intro fd other entry interest
    change Function.update (fun _ => none) wakeup _ fd = some entry at interest
    rw [Function.update_of_ne other] at interest
    cases interest
  unwatched := fun _ _ _ => .inl rfl
  own := rfl
  older := by
    intro fd other entry interest
    change Function.update (fun _ => none) wakeup _ fd = some entry at interest
    rw [Function.update_of_ne other] at interest
    cases interest
  reported := fun _ member => absurd member List.not_mem_nil

/-- A handler is registered. -/
theorem Good.registered (good : dispatcher.Good wakeup) {fd : ℤ} (other : fd ≠ wakeup)
    (valid : 0 ≤ fd) (handler : H) (events : UInt32) :
    (dispatcher.registered fd handler events).Good wakeup where
  watched := by
    intro asked stranger entry interest
    simp only [Dispatcher.registered, Registry.accept] at interest ⊢
    by_cases same : asked = fd
    · subst same
      rw [Function.update_self] at interest
      cases interest
      refine ⟨valid, Finset.notMem_erase asked _, handler, Function.update_self .., ?_⟩
      exact if_pos rfl
    · rw [Function.update_of_ne same] at interest
      obtain ⟨positive, active, known, handles, latest⟩ := good.watched asked stranger entry interest
      refine ⟨positive, fun member => active (Finset.mem_of_mem_erase member), known, ?_, ?_⟩
      · rw [Function.update_of_ne same]
        exact handles
      · rw [History.latest, if_neg (Ne.symm same)]
        exact latest
  unwatched := by
    intro asked stranger interest
    simp only [Dispatcher.registered, Registry.accept] at interest ⊢
    by_cases same : asked = fd
    · subst same
      rw [Function.update_self] at interest
      cases interest
    · rw [Function.update_of_ne same] at interest ⊢
      exact (good.unwatched asked stranger interest).imp id
        fun member => Finset.mem_erase_of_ne_of_mem same member
  own := by
    simp only [Dispatcher.registered, Registry.accept]
    rw [Function.update_of_ne (Ne.symm other)]
    exact good.own
  older := by
    intro asked stranger entry interest
    simp only [Dispatcher.registered, Registry.accept, History.registrations] at interest ⊢
    by_cases same : asked = fd
    · subst same
      rw [Function.update_self] at interest
      cases interest
      exact Nat.lt_succ_self _
    · rw [Function.update_of_ne same] at interest
      exact Nat.lt_succ_of_lt (good.older asked stranger entry interest)
  reported := by
    intro event member
    obtain ⟨stranger, before, stamped⟩ := good.reported event member
    refine ⟨stranger, Nat.lt_succ_of_lt before, fun entry interest => ?_⟩
    simp only [Dispatcher.registered, Registry.accept, History.Renewed] at interest ⊢
    by_cases same : event.fd = fd
    · rw [same, Function.update_self] at interest
      cases interest
      exact iff_of_false (Nat.ne_of_gt before) fun still => still (.inl same.symm)
    · rw [Function.update_of_ne same] at interest
      rw [or_iff_right (Ne.symm same)]
      exact stamped entry interest

/-- A call of `registerHandler`. -/
theorem Good.register (good : dispatcher.Good wakeup) (verdict : Option Errno) {fd : ℤ}
    (other : fd ≠ wakeup) (handler : Option H) (events : UInt32) :
    (dispatcher.register verdict fd handler events).2.Good wakeup := by
  rcases dispatcher.register_cases verdict fd handler events with same | ⟨valid, known, same⟩
  · rw [same]
    exact good
  · rw [same]
    exact good.registered other valid known events

/-- A call of `unregisterHandler`. -/
theorem Good.unregister (good : dispatcher.Good wakeup) (verdict : Option Errno) {fd : ℤ}
    (other : fd ≠ wakeup) : (dispatcher.unregister verdict fd).2.Good wakeup := by
  have valid : fd < 0 → dispatcher.registry.interest fd = none := by
    intro negative
    cases interest : dispatcher.registry.interest fd with
    | none => rfl
    | some entry => exact absurd (good.watched fd other entry interest).1 (not_le.mpr negative)
  obtain ⟨deleted, left, more⟩ := dispatcher.registry.unregisterHandler_eq verdict valid
  have keeps : ∀ asked, asked ≠ fd → (asked ∈ deleted ↔ asked ∈ dispatcher.registry.deleted) := by
    intro asked differs
    rcases more with rfl | ⟨rfl, _⟩
    · rw [Finset.mem_insert, or_iff_right differs]
    · rfl
  have interested : ∀ asked entry,
      Function.update dispatcher.registry.interest fd none asked = some entry →
        asked ≠ fd ∧ dispatcher.registry.interest asked = some entry := by
    intro asked entry interest
    by_cases same : asked = fd
    · rw [same, Function.update_self] at interest
      cases interest
    · rw [Function.update_of_ne same] at interest
      exact ⟨same, interest⟩
  simp only [Dispatcher.unregister, left]
  exact
    { watched := by
        intro asked stranger entry interest
        obtain ⟨differs, interest⟩ := interested asked entry interest
        obtain ⟨positive, active, known, handles, latest⟩ :=
          good.watched asked stranger entry interest
        refine ⟨positive, fun member => active ((keeps asked differs).mp member), known, handles, ?_⟩
        rw [History.latest, if_neg (Ne.symm differs)]
        exact latest
      unwatched := by
        intro asked stranger interest
        by_cases same : asked = fd
        · subst same
          rcases more with rfl | ⟨rfl, out⟩
          · exact .inr (Finset.mem_insert_self ..)
          · exact good.unwatched asked stranger out
        · change Function.update dispatcher.registry.interest fd none asked = none at interest
          rw [Function.update_of_ne same] at interest
          exact (good.unwatched asked stranger interest).imp id (keeps asked same).mpr
      own := good.own
      older := by
        intro asked stranger entry interest
        exact good.older asked stranger entry (interested asked entry interest).2
      reported := by
        intro event member
        obtain ⟨stranger, before, stamped⟩ := good.reported event member
        exact ⟨stranger, before, fun entry interest =>
          stamped entry (interested event.fd entry interest).2⟩ }

/-- The loop has waited. -/
theorem Good.wait (good : dispatcher.Good wakeup) {batch : List EpollEvent}
    (reported : ∀ event ∈ batch, event.fd ≠ wakeup ∧
      dispatcher.registry.interest.Reports event) : (dispatcher.wait batch).Good wakeup where
  watched := good.watched
  unwatched := good.unwatched
  own := good.own
  older := good.older
  reported := by
    intro event member
    obtain ⟨stranger, reports⟩ := reported event member
    obtain ⟨entry, interest, stamp⟩ := Option.map_eq_some_iff.mp reports
    refine ⟨stranger, stamp ▸ good.older event.fd stranger entry interest, fun other found => ?_⟩
    have same : other = entry := Option.some.inj (found.symm.trans interest)
    rw [same]
    exact iff_of_true stamp id

/-- An event is dispatched. -/
theorem Good.dispatch (good : dispatcher.Good wakeup) {event : EpollEvent}
    {rest : List EpollEvent} (pending : dispatcher.pending = event :: rest) :
    (dispatcher.dispatch event rest).Good wakeup := by
  have reported := fun other member =>
    good.reported other (pending ▸ List.mem_cons_of_mem event member)
  unfold Dispatcher.dispatch
  split
  · exact ⟨good.watched, good.unwatched, good.own, good.older, reported⟩
  · exact ⟨good.watched, good.unwatched, good.own, good.older, reported⟩

/-- The iteration ends. -/
theorem Good.sweep (good : dispatcher.Good wakeup) : dispatcher.sweep.Good wakeup where
  watched := by
    intro fd other entry interest
    obtain ⟨positive, active, known, handles, latest⟩ := good.watched fd other entry interest
    exact ⟨positive, Finset.notMem_empty fd, known, (if_neg active).trans handles, latest⟩
  unwatched := by
    intro fd other interest
    left
    simp only [Dispatcher.sweep, Registry.sweep]
    split_ifs with gone
    · rfl
    · exact (good.unwatched fd other interest).resolve_right gone
  own := by
    simp only [Dispatcher.sweep, Registry.sweep]
    split_ifs
    · rfl
    · exact good.own
  older := good.older
  reported := good.reported

/-! ## What the invariant says -/

/-- A call goes to the handler of the latest registration, and its event is of that
registration unless there was one since the loop waited. -/
theorem Good.called (good : dispatcher.Good wakeup) {event : EpollEvent}
    {rest : List EpollEvent} (pending : dispatcher.pending = event :: rest) {handler : H}
    {callback : Callback}
    (calls : dispatcher.registry.dispatchEvent event = some (handler, callback)) :
    ∃ stamp, dispatcher.history.latest event.fd = some (handler, stamp) ∧
      (stamp = event.stamp ↔ ¬dispatcher.history.Renewed event.fd) := by
  obtain ⟨handles, active, _⟩ := Registry.dispatchEvent_eq_some.mp calls
  obtain ⟨other, _, stamped⟩ := good.reported event (pending ▸ List.mem_cons_self ..)
  cases interest : dispatcher.registry.interest event.fd with
  | none =>
      rcases good.unwatched event.fd other interest with missing | gone
      · rw [missing] at handles
        cases handles
      · exact absurd gone (of_decide_eq_true active)
  | some entry =>
      obtain ⟨_, _, known, handles', latest⟩ := good.watched event.fd other entry interest
      rw [handles] at handles'
      cases handles'
      exact ⟨entry.stamp, latest, stamped entry interest⟩

/-- With nothing deleted, the descriptors that have a handler are those in the interest
set. -/
theorem Good.keys (good : dispatcher.Good wakeup) (none' : dispatcher.registry.deleted = ∅)
    (fd : ℤ) : (dispatcher.registry.handlers fd).isSome ↔
      fd ≠ wakeup ∧ (dispatcher.registry.interest fd).isSome := by
  constructor
  · intro handles
    have other : fd ≠ wakeup := by
      rintro rfl
      rw [good.own] at handles
      cases handles
    refine ⟨other, ?_⟩
    cases interest : dispatcher.registry.interest fd with
    | some entry => rfl
    | none =>
        rcases good.unwatched fd other interest with missing | gone
        · rw [missing] at handles
          cases handles
        · rw [none'] at gone
          exact absurd gone (Finset.notMem_empty fd)
  · rintro ⟨other, interest⟩
    obtain ⟨entry, interest⟩ := Option.isSome_iff_exists.mp interest
    obtain ⟨_, _, known, handles, _⟩ := good.watched fd other entry interest
    rw [handles]
    rfl

/-- A dispatch stays right if it makes no call for a descriptor that was registered since
the loop waited, and only then. -/
theorem Good.right_dispatch (good : dispatcher.Good wakeup) {event : EpollEvent}
    {rest : List EpollEvent} (pending : dispatcher.pending = event :: rest) :
    (dispatcher.dispatch event rest).history.Right ↔
      dispatcher.history.Right ∧
        ((dispatcher.registry.dispatchEvent event).isSome →
          ¬dispatcher.history.Renewed event.fd) := by
  cases calls : dispatcher.registry.dispatchEvent event with
  | none => simp [Dispatcher.dispatch, calls]
  | some call =>
      obtain ⟨handler, callback⟩ := call
      obtain ⟨stamp, latest, stamped⟩ := good.called pending calls
      simp only [Dispatcher.dispatch, calls, History.Right, latest, Option.isSome_some,
        true_implies, Option.some.injEq, Prod.mk.injEq, true_and]
      rw [stamped, and_comm]

/-- A dispatch calls the handler of the latest registration, if it calls one. -/
theorem Good.addressed_dispatch (good : dispatcher.Good wakeup) {event : EpollEvent}
    {rest : List EpollEvent} (pending : dispatcher.pending = event :: rest)
    (addressed : dispatcher.history.Addressed) :
    (dispatcher.dispatch event rest).history.Addressed := by
  unfold Dispatcher.dispatch
  split
  · rename_i handler callback calls
    obtain ⟨stamp, latest, _⟩ := good.called pending calls
    exact ⟨⟨stamp, latest⟩, addressed⟩
  · exact addressed

/-- Registrations and removals make no call. -/
theorem right_register (dispatcher : Dispatcher H) (verdict : Option Errno) (fd : ℤ)
    (handler : Option H) (events : UInt32) :
    (dispatcher.register verdict fd handler events).2.history.Right ↔
      dispatcher.history.Right := by
  rcases dispatcher.register_cases verdict fd handler events with same | ⟨_, known, same⟩ <;>
    rw [same] <;> rfl

end Dispatcher

/-! ## The loop -/

/-- No handler is waiting to be erased. -/
def Loop.Swept {T : Type} : Loop T H → Prop
  | .outside | .entered | .checking | .blocked | .leaving | .returned => True
  | _ => False

namespace ReactorSystem

variable {T : Type} [DecidableEq T] {wakeup : ℤ} {system after : ReactorSystem T H}
variable {action : ReactorAction T H}

/-- When the next event is dispatched, its descriptor has not been registered since the loop
waited, or no method of a handler is called for it: it has no handler, is deleted, or the
event has no flag that the reactor knows. -/
def Undisturbed (system : ReactorSystem T H) : ReactorAction T H → Prop
  | .dispatchEvent => ∀ event ∈ system.dispatcher.pending.head?,
      (system.dispatcher.registry.handlers event.fd).isSome →
        system.dispatcher.registry.isActive event.fd →
          (Registry.callbackOf event.events).isSome →
            ¬system.dispatcher.history.Renewed event.fd
  | _ => True

/-- The calls that were made are right; and where an iteration ends, the descriptors with a
handler are those in the interest set other than the wakeup. -/
def DispatchesRight (wakeup : ℤ) (system : ReactorSystem T H) : Prop :=
  system.dispatcher.history.Right ∧
    (system.loop = .checking → ∀ fd, (system.dispatcher.registry.handlers fd).isSome ↔
      fd ≠ wakeup ∧ (system.dispatcher.registry.interest fd).isSome)

/-- A command does not name the wakeup descriptor. -/
def Command.Spares {T : Type} (wakeup : ℤ) (command : Command T H) : Prop :=
  command.type ≠ .stop → command.fd ≠ wakeup

omit [DecidableEq T] in
theorem Request.spares {request : Request H} (own : request.fd ≠ some wakeup) (who : T) :
    Command.Spares wakeup (request.command who) := by
  intro _
  cases request with
  | addHandler fd handler wantRead wantWrite sync => exact fun same => own (congrArg some same)
  | delHandler fd sync => exact fun same => own (congrArg some same)
  | stop sync => contradiction

/-- The invariant of the handlers, with what the loop adds to it: nothing is waiting to be
erased when the loop waits, and no command names the wakeup descriptor. -/
structure Handles (wakeup : ℤ) (system : ReactorSystem T H) : Prop where
  good : system.dispatcher.Good wakeup
  swept : system.loop.Swept → system.dispatcher.registry.deleted = ∅
  carries : system.commands.Carries (Command.Spares wakeup)
  inHand : ∀ command, system.loop = .processing command → Command.Spares wakeup command

omit [DecidableEq T] in
theorem initial_handles : (initial T H wakeup).Handles wakeup where
  good := Dispatcher.initial_good
  swept := fun _ => rfl
  carries := Doorbell.initial_carries
  inHand := fun _ => nofun

omit [DecidableEq T] in
theorem serve_good {dispatcher : Dispatcher H} (good : dispatcher.Good wakeup)
    (verdict : Option Errno) {command : Command T H} (spares : Command.Spares wakeup command) :
    (serve dispatcher verdict command).2.Good wakeup := by
  unfold serve
  cases type : command.type with
  | add =>
      have other := spares (by rw [type]; exact nofun)
      exact good.register verdict other command.handler command.events
  | del =>
      have other := spares (by rw [type]; exact nofun)
      exact good.unregister verdict other
  | stop => exact good

/-- Every action keeps the invariant. -/
theorem Handles.step (handles : system.Handles wakeup)
    (step : Step wakeup system action after) : after.Handles wakeup := by
  obtain ⟨good, swept, carries, inHand⟩ := handles
  cases step with
  | call idle own enters =>
      refine ⟨good, swept, carries.act enters fun who command same => ?_, inHand⟩
      cases same
      exact Request.spares own _
  | advance advances => exact ⟨good, swept, carries.act advances fun _ _ => nofun, inHand⟩
  | proceed written sending sent => exact ⟨good, swept, carries, inHand⟩
  | done waiting done => exact ⟨good, swept, carries, inHand⟩
  | stopped stopping gone => exact ⟨good, swept, carries, inHand⟩
  | run outside => exact ⟨good, fun _ => swept (by rw [outside]; trivial), carries, fun _ => nofun⟩
  | start entered =>
      exact ⟨good, fun _ => swept (by rw [entered]; trivial), carries, fun _ => nofun⟩
  | goOn checking running =>
      exact ⟨good, fun _ => swept (by rw [checking]; trivial), carries, fun _ => nofun⟩
  | exit checking stopped =>
      exact ⟨good, fun _ => swept (by rw [checking]; trivial), carries, fun _ => nofun⟩
  | interrupted blocked =>
      exact ⟨good, fun _ => swept (by rw [blocked]; trivial), carries, fun _ => nofun⟩
  | woken blocked reported wakes =>
      exact ⟨good.wait reported, nofun, carries.act wakes fun _ _ => nofun, fun _ => nofun⟩
  | fetched blocked reported => exact ⟨good.wait reported, nofun, carries, fun _ => nofun⟩
  | take commanding next receives =>
      refine ⟨good, nofun, carries.act receives fun _ _ => nofun, fun command same => ?_⟩
      cases same
      obtain ⟨_, rest, popped⟩ := Doorbell.upcoming_eq_some next
      exact carries.tryPop popped
  | read commanding next receives =>
      refine ⟨good, fun swept' => ?_, carries.act receives fun _ _ => nofun, fun _ same => ?_⟩
      · dsimp only at swept'
        split_ifs at swept' <;> exact swept'.elim
      · dsimp only at same
        split_ifs at same
  | process verdict processing =>
      exact ⟨serve_good good verdict (inHand _ processing), nofun, carries, fun _ => nofun⟩
  | dispatch dispatching pending calls =>
      exact ⟨good.dispatch pending, nofun, carries, fun _ => nofun⟩
  | skip dispatching pending calls =>
      refine ⟨good.dispatch pending, fun swept' => ?_, carries, inHand⟩
      rw [dispatching] at swept'
      exact swept'.elim
  | @reenter _ _ _ request verdict calling own =>
      have off : ¬system.loop.Swept := by
        rw [calling]
        exact id
      cases request with
      | addHandler fd handler wantRead wantWrite sync =>
          have other : fd ≠ wakeup := fun same => own (congrArg some same)
          exact ⟨good.register verdict other handler _, fun swept' => absurd swept' off, carries,
            inHand⟩
      | delHandler fd sync =>
          have other : fd ≠ wakeup := fun same => own (congrArg some same)
          exact ⟨good.unregister verdict other, fun swept' => absurd swept' off, carries, inHand⟩
      | stop sync => exact ⟨good, fun swept' => absurd swept' off, carries, inHand⟩
  | callbackReturns calling => exact ⟨good, nofun, carries, fun _ => nofun⟩
  | sweep dispatching pending => exact ⟨good.sweep, fun _ => rfl, carries, fun _ => nofun⟩
  | leave leaving =>
      exact ⟨good, fun _ => swept (by rw [leaving]; trivial), carries, fun _ => nofun⟩

omit [DecidableEq T] in
/-- A command makes no call. -/
theorem right_serve (dispatcher : Dispatcher H) (verdict : Option Errno)
    (command : Command T H) : (serve dispatcher verdict command).2.history.Right ↔
      dispatcher.history.Right := by
  unfold serve
  cases command.type with
  | add => exact dispatcher.right_register verdict command.fd command.handler command.events
  | del => rfl
  | stop => rfl

/-- The calls stay right if the action is undisturbed, and only then. -/
theorem Handles.right_step (handles : system.Handles wakeup)
    (step : Step wakeup system action after) :
    after.dispatcher.history.Right ↔
      system.dispatcher.history.Right ∧ system.Undisturbed action := by
  have event {event : EpollEvent} {rest : List EpollEvent}
      (pending : system.dispatcher.pending = event :: rest) :
      (system.dispatcher.dispatch event rest).history.Right ↔
        system.dispatcher.history.Right ∧ system.Undisturbed .dispatchEvent := by
    rw [handles.good.right_dispatch pending, Registry.dispatchEvent_isSome, Undisturbed, pending]
    simp only [List.head?_cons, Option.mem_def, Option.some.injEq, forall_eq', and_imp]
  cases step with
  | dispatch dispatching pending calls => exact event pending
  | skip dispatching pending calls => exact event pending
  | process verdict processing =>
      refine Iff.trans ?_ (and_iff_left trivial).symm
      exact right_serve system.dispatcher verdict _
  | @reenter _ _ _ request verdict calling own =>
      refine Iff.trans ?_ (and_iff_left trivial).symm
      cases request with
      | addHandler fd handler wantRead wantWrite sync =>
          exact system.dispatcher.right_register verdict fd handler _
      | delHandler fd sync => rfl
      | stop sync => rfl
  | _ => exact (and_iff_left trivial).symm

theorem handles_of_trace {actions : List (ReactorAction T H)}
    (trace : Trace (act wakeup) (initial T H wakeup) actions system) : system.Handles wakeup :=
  trace.invariant (Handles wakeup) (fun _ _ _ handles happens => handles.step (step_of_act happens))
    initial_handles

/-- In every run, every call is made on the handler of the latest registration of its
descriptor, and not after a `delHandler` of it. -/
theorem addressed_of_trace {actions : List (ReactorAction T H)}
    (trace : Trace (act wakeup) (initial T H wakeup) actions system) :
    system.dispatcher.history.Addressed := by
  have both : system.Handles wakeup ∧ system.dispatcher.history.Addressed := by
    refine trace.invariant
      (fun system => system.Handles wakeup ∧ system.dispatcher.history.Addressed) ?_
      ⟨initial_handles, trivial⟩
    rintro state action after ⟨handles, addressed⟩ happens
    have step := step_of_act happens
    refine ⟨handles.step step, ?_⟩
    cases step with
    | dispatch dispatching pending calls => exact handles.good.addressed_dispatch pending addressed
    | skip dispatching pending calls => exact handles.good.addressed_dispatch pending addressed
    | @process command verdict processing =>
        change (serve state.dispatcher verdict command).2.history.Addressed
        unfold serve
        cases command.type with
        | add =>
            rcases state.dispatcher.register_cases verdict command.fd command.handler
              command.events with same | ⟨_, known, same⟩ <;> simp only [same] <;> exact addressed
        | del => exact addressed
        | stop => exact addressed
    | @reenter _ _ _ request verdict calling own =>
        cases request with
        | addHandler fd handler wantRead wantWrite sync =>
            change (state.dispatcher.register verdict fd handler _).2.history.Addressed
            rcases state.dispatcher.register_cases verdict fd handler
              (Request.eventsOf wantRead wantWrite) with same | ⟨_, known, same⟩ <;>
              simp only [same] <;> exact addressed
        | delHandler fd sync => exact addressed
        | stop sync => exact addressed
    | _ => exact addressed
  exact both.2

/-- In every run of a reactor the calls are right, and the handlers those of the interest
set, if and only if no event is dispatched to a handler that was registered after the loop
waited for the event. -/
theorem dispatches_right_iff {actions : List (ReactorAction T H)}
    (trace : Trace (act wakeup) (initial T H wakeup) actions system) :
    system.DispatchesRight wakeup ↔
      Along (act wakeup) Undisturbed (initial T H wakeup) actions := by
  have handles := handles_of_trace trace
  have keys : system.loop = .checking → ∀ fd,
      (system.dispatcher.registry.handlers fd).isSome ↔
        fd ≠ wakeup ∧ (system.dispatcher.registry.interest fd).isSome := by
    intro checking fd
    refine handles.good.keys (handles.swept ?_) fd
    rw [checking]
    trivial
  refine (and_iff_left keys).trans ?_
  refine trace.along_iff (Handles wakeup) (fun system => system.dispatcher.history.Right) ?_
    initial_handles trivial
  intro state action after handles happens
  have step := step_of_act happens
  exact ⟨handles.step step, handles.right_step step⟩

/-- A thread registers a descriptor; the loop processes the command, and gets an event for
it. -/
def firstEvent : List (ReactorAction Unit ℕ) :=
  write () (.addHandler 5 (some 1) true false false) true ++
    ([.run, .start, .check, .wait true [], .readCommands, .readCommands, .readCommands,
      .processCommand none, .readCommands, .sweep, .check] : List (ReactorAction Unit ℕ))

theorem dispatches_right_first : ∃ system : ReactorSystem Unit ℕ,
    Trace (act 3) (initial Unit ℕ 3) (firstEvent ++ [.wait false [⟨5, epollIn, 0⟩], .dispatchEvent])
      system ∧
    system.dispatcher.history =
      [.called 5 1 .onReadable 0, .waited, .registered 5 1, .waited] ∧
    Along (act 3) Undisturbed (initial Unit ℕ 3)
      (firstEvent ++ [.wait false [⟨5, epollIn, 0⟩], .dispatchEvent]) := by
  have followed : (follow (act 3) (initial Unit ℕ 3)
      (firstEvent ++ [.wait false [⟨5, epollIn, 0⟩], .dispatchEvent])).any (fun system =>
        decide (system.dispatcher.history =
          [.called 5 1 .onReadable 0, .waited, .registered 5 1, .waited]) &&
        !system.loop.isChecking) = true := by
    decide +kernel
  obtain ⟨system, trace, test⟩ := Trace.exists_of_follow followed
  rw [Bool.and_eq_true, decide_eq_true_eq, Bool.not_eq_true'] at test
  refine ⟨system, trace, test.1, (dispatches_right_iff trace).mp ⟨?_, fun checking => ?_⟩⟩
  · rw [test.1]
    exact ⟨rfl, trivial⟩
  · rw [checking] at test
    cases test.2

/-- A descriptor is removed and registered again, with another handler, while an event for it
is fetched: the new handler is called for the event of the old registration. -/
theorem stale_event_dispatched : ¬∀ (actions : List (ReactorAction Unit ℕ))
    (system : ReactorSystem Unit ℕ), Trace (act 3) (initial Unit ℕ 3) actions system →
      system.DispatchesRight 3 := by
  have followed : (follow (act 3) (initial Unit ℕ 3)
      (firstEvent ++ write () (.delHandler 5 false) true ++
        write () (.addHandler 5 (some 2) true false false) false ++
        ([.wait true [⟨5, epollIn, 0⟩], .readCommands, .readCommands, .readCommands,
          .processCommand none, .readCommands, .processCommand none, .readCommands,
          .dispatchEvent] : List (ReactorAction Unit ℕ)))).any (fun system =>
        decide (system.dispatcher.history = [.called 5 2 .onReadable 0, .registered 5 2,
          .deleted 5, .waited, .registered 5 1, .waited])) = true := by
    decide +kernel
  obtain ⟨system, trace, test⟩ := Trace.exists_of_follow followed
  intro always
  have right := (always _ system trace).1
  rw [of_decide_eq_true test] at right
  exact absurd right.1 (by decide)

end ReactorSystem

end Join
