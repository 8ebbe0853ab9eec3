import Join.Core.EpollSeats

/-!
# The slots and the events of the epoll proactor

Epoll watches a descriptor only for the slots that are full, but it is asked before the
events of a batch are dispatched, and a slot that is full then can be empty when its event
comes. If the other slot of the descriptor keeps the handler registered, or a new operation
registers it again, `executeOp` is called without an operation. The events find their
operations as long as no operation is cancelled, and no other one submitted, behind the back
of such an event.
-/

set_option autoImplicit false

namespace Join

open Library

/-! ## Events -/

/-- The events that `callbackOf` reads for a slot. -/
def Side.flag : Side → UInt32
  | .read => epollIn
  | .write => epollOut

/-- Whether the events of a slot are asked for. -/
def Side.asked : Side → Bool → Bool → Bool
  | .read, wantRead, _ => wantRead
  | .write, _, wantWrite => wantWrite

/-- A slot is served only for an event that was asked for. -/
theorem asked_of_callback {events : UInt32} {wantRead wantWrite : Bool} {side : Side}
    (callback : Registry.callbackOf events = some side.callback)
    (within : events &&& (Request.eventsOf wantRead wantWrite ||| epollErr ||| epollHup) =
      events) : side.asked wantRead wantWrite = true := by
  have reported : events &&& side.flag ≠ 0 := by
    unfold Registry.callbackOf at callback
    split_ifs at callback with error close readable writable
    · cases side <;> cases callback
    · cases side <;> cases callback
    · cases side with
      | read => exact readable
      | write => cases callback
    · cases side with
      | read => cases callback
      | write => exact writable
  by_contra unasked
  have outside : (Request.eventsOf wantRead wantWrite ||| epollErr ||| epollHup) &&&
      side.flag = 0 := by
    cases side <;> cases wantRead <;> cases wantWrite <;>
      first | rfl | exact absurd rfl unasked
  rw [← within, UInt32.and_assoc, outside, UInt32.and_zero] at reported
  exact reported rfl

namespace EpollOperations

variable {proactor after : EpollOperations} {wakeup : ℤ} {action : EpollStep}

/-- An event that is still to be dispatched would be served from the slot. -/
def Awaits (proactor : EpollOperations) (side : Side) (fd : ℤ) : Prop :=
  ∃ event ∈ proactor.pending, event.fd = fd ∧
    Registry.callbackOf event.events = some side.callback

/-- No operation names the wakeup descriptor; no operation is cancelled for which an event is
still to be dispatched while the other slot of the descriptor is full, and none is submitted
while such an event is to be dispatched for the other slot, which is empty; and epoll does not
refuse to watch a descriptor for the slot that stays full. -/
def Undisturbed (wakeup : ℤ) (proactor : EpollOperations) : EpollStep → Prop
  | .perform (.submit op) _ _ => op.fd ≠ wakeup ∧
      (proactor.slots op.side.other op.fd = none → ¬proactor.Awaits op.side.other op.fd)
  | .perform (.cancel op) _ verdict => proactor.slots op.side.other op.fd ≠ none →
      ¬proactor.Awaits op.side op.fd ∧ verdict = none
  | .dispatch _ verdict => ∀ event ∈ proactor.pending.head?,
      proactor.slots .read event.fd ≠ none → proactor.slots .write event.fd ≠ none → verdict = none
  | _ => True

instance (proactor : EpollOperations) (side : Side) (fd : ℤ) :
    Decidable (proactor.Awaits side fd) :=
  inferInstanceAs (Decidable (∃ event ∈ proactor.pending, _))

instance (wakeup : ℤ) (proactor : EpollOperations) :
    (action : EpollStep) → Decidable (proactor.Undisturbed wakeup action)
  | .perform (.submit _) _ _ => inferInstanceAs (Decidable (_ ∧ _))
  | .perform (.cancel _) _ _ => inferInstanceAs (Decidable (_ → _))
  | .dispatch _ _ => inferInstanceAs (Decidable (∀ event ∈ proactor.pending.head?, _))
  | .perform .stop _ _ | .wait _ _ | .proceed | .sweep | .leave => inferInstanceAs (Decidable True)

/-- The event that is next finds an operation in the slot that serves it. -/
def SlotsMatch (wakeup : ℤ) (proactor : EpollOperations) : Prop :=
  ∀ event rest side, proactor.stack = [] → proactor.pending = event :: rest →
    event.fd ≠ wakeup → proactor.registry.dispatchEvent event = some ((), side.callback) →
    ∃ op, proactor.slots side event.fd = some op ∧ proactor.state op = .submitted

/-- Epoll watches the descriptors for the slots that are full, and the events that are still to
be dispatched find full slots. -/
structure Watched (wakeup : ℤ) (proactor : EpollOperations) : Prop where
  unnamed : ∀ side, proactor.slots side wakeup = none
  masked : ∀ fd ≠ wakeup, ∀ entry, proactor.registry.interest fd = some entry →
    ∃ wantRead wantWrite, entry.events = Request.eventsOf wantRead wantWrite ∧
      ∀ side : Side, side.asked wantRead wantWrite = true → proactor.slots side fd ≠ none
  distinct : (proactor.pending.map EpollEvent.fd).Nodup
  matched : ∀ event ∈ proactor.pending, event.fd ≠ wakeup →
    event.fd ∉ proactor.registry.deleted → ∀ side : Side,
      Registry.callbackOf event.events = some side.callback →
        proactor.slots side event.fd ≠ none

theorem Watched.slotsMatch (watched : Watched wakeup proactor) (seated : Seated proactor) :
    proactor.SlotsMatch wakeup := by
  intro event rest side returned pending other dispatched
  obtain ⟨-, active, callback⟩ := Registry.dispatchEvent_eq_some.mp dispatched
  have inside : event ∈ proactor.pending := by
    rw [pending]
    exact List.mem_cons_self ..
  obtain ⟨op, full⟩ := Option.ne_none_iff_exists'.mp
    (watched.matched event inside other (of_decide_eq_true active) side callback)
  exact ⟨op, full, seated.submitted side event.fd op full⟩

theorem initial_watched (wakeup : ℤ) : Watched wakeup (initial wakeup) where
  unnamed := fun _ => rfl
  masked := by
    intro fd other entry watched
    have interest : (initial wakeup).registry.interest =
        Function.update (fun _ => none) wakeup (some ⟨Request.eventsOf true false, 0⟩) := rfl
    rw [interest, Function.update_of_ne other] at watched
    cases watched
  distinct := List.nodup_nil
  matched := fun _ => nofun

/-- The interest set after a change for one descriptor. -/
theorem Watched.change (watched : Watched wakeup proactor) {fd : ℤ}
    (slots : ∀ side other, other ≠ fd → after.slots side other = proactor.slots side other)
    (unnamed : ∀ side, after.slots side wakeup = none)
    (interest : ∀ other, other ≠ fd →
      after.registry.interest other = proactor.registry.interest other)
    (deleted : ∀ other, other ≠ fd → other ∉ after.registry.deleted →
      other ∉ proactor.registry.deleted)
    (pending : ∀ event ∈ after.pending, event ∈ proactor.pending)
    (distinct : (after.pending.map EpollEvent.fd).Nodup)
    (masked : fd ≠ wakeup → ∀ entry, after.registry.interest fd = some entry →
      ∃ wantRead wantWrite, entry.events = Request.eventsOf wantRead wantWrite ∧
        ∀ side : Side, side.asked wantRead wantWrite = true → after.slots side fd ≠ none)
    (matched : fd ≠ wakeup → ∀ event ∈ after.pending, event.fd = fd →
      fd ∉ after.registry.deleted → ∀ side : Side,
        Registry.callbackOf event.events = some side.callback → after.slots side fd ≠ none) :
    Watched wakeup after where
  unnamed := unnamed
  masked := by
    intro other differ entry known
    by_cases same : other = fd
    · subst same
      exact masked differ entry known
    · rw [interest other same] at known
      obtain ⟨wantRead, wantWrite, events, asked⟩ := watched.masked other differ entry known
      refine ⟨wantRead, wantWrite, events, fun side wanted => ?_⟩
      rw [slots side other same]
      exact asked side wanted
  distinct := distinct
  matched := by
    intro event inside differ active side callback
    by_cases same : event.fd = fd
    · rw [same] at differ active ⊢
      exact matched differ event inside same active side callback
    · rw [slots side event.fd same]
      exact watched.matched event (pending event inside) differ (deleted _ same active) side
        callback

theorem watched_interest (proactor : EpollOperations) {fd other : ℤ} (differ : other ≠ fd) :
    (proactor.watched fd).interest other = proactor.registry.interest other :=
  Function.update_of_ne differ ..

theorem mem_deleted_watched {fd other : ℤ} (differ : other ≠ fd)
    (active : other ∉ (proactor.watched fd).deleted) : other ∉ proactor.registry.deleted :=
  fun inside => active (Finset.mem_erase.mpr ⟨differ, inside⟩)

theorem watched_masked (proactor : EpollOperations) {fd : ℤ} {entry : Interest}
    (known : (proactor.watched fd).interest fd = some entry) :
    ∃ wantRead wantWrite, entry.events = Request.eventsOf wantRead wantWrite ∧
      ∀ side : Side, side.asked wantRead wantWrite = true → proactor.slots side fd ≠ none := by
  have self : (proactor.watched fd).interest fd = some _ := Function.update_self ..
  rw [self] at known
  cases known
  refine ⟨_, _, rfl, fun side asked => ?_⟩
  cases side with
  | read => exact Option.isSome_iff_ne_none.mp asked
  | write => exact Option.isSome_iff_ne_none.mp asked

theorem side_eq_or (side op : Side) : side = op ∨ side = op.other := by
  cases side <;> cases op <;> simp [Side.other]

theorem setSlot_other (op : IoOperation) (content : Option IoOperation) (fd : ℤ) :
    (proactor.setSlot op content).slots op.side.other fd = proactor.slots op.side.other fd := by
  have differ : op.side.other ≠ op.side := by cases op.side <;> nofun
  exact if_neg fun same => differ same.1

theorem setSlot_self (op : IoOperation) (content : Option IoOperation) :
    (proactor.setSlot op content).slots op.side op.fd = content :=
  if_pos ⟨rfl, rfl⟩

theorem setSlot_fd {op : IoOperation} {content : Option IoOperation} {side : Side} {fd : ℤ}
    (differ : fd ≠ op.fd) : (proactor.setSlot op content).slots side fd = proactor.slots side fd :=
  if_neg fun same => differ same.2

/-- An operation is put into its slot. -/
theorem Watched.submit (watched : Watched wakeup proactor) (op : IoOperation) (connected : Bool)
    (verdict : Option Errno)
    (undisturbed : proactor.Undisturbed wakeup (.perform (.submit op) connected verdict)) :
    Watched wakeup (proactor.submitOperation op connected verdict).2 := by
  obtain ⟨named, quiet⟩ := undisturbed
  rcases proactor.submitOperation_cases op connected verdict with
    ⟨size, -, refused⟩ | ⟨-, -, -, accepted, registry, registered, seated⟩
  · rw [refused]
    exact ⟨watched.unnamed, watched.masked, watched.distinct, watched.matched⟩
  rw [seated]
  refine @Watched.change _ _ _ watched op.fd (fun side other differ => setSlot_fd differ) ?_ ?_ ?_
    (fun event inside => inside) watched.distinct ?_ ?_
  · intro side
    exact (setSlot_fd named.symm).trans (watched.unnamed side)
  · intro other differ
    rcases registered with rfl | rfl
    · exact watched_interest _ differ
    · rfl
  · intro other differ active
    rcases registered with rfl | rfl
    · exact mem_deleted_watched differ active
    · exact active
  · intro _ entry known
    rcases registered with rfl | rfl
    · exact watched_masked (proactor.setSlot op (some op)) known
    · obtain ⟨wantRead, wantWrite, events, asked⟩ := watched.masked op.fd named entry known
      refine ⟨wantRead, wantWrite, events, fun side wanted => ?_⟩
      rcases side_eq_or side op.side with rfl | rfl
      · exact (setSlot_self op (some op)).trans_ne (Option.some_ne_none op)
      · exact (setSlot_other op (some op) op.fd).trans_ne (asked _ wanted)
  · intro _ event inside same _ side callback
    rcases side_eq_or side op.side with rfl | rfl
    · exact (setSlot_self op (some op)).trans_ne (Option.some_ne_none op)
    · refine (setSlot_other op (some op) op.fd).trans_ne fun empty => ?_
      exact quiet empty ⟨event, inside, same, callback⟩

/-- An operation is taken out of its slot. -/
theorem Watched.rewatch (watched : Watched wakeup proactor) {op : IoOperation}
    {verdict : Option Errno} {registry : Registry Unit}
    (rewatched : (proactor.setSlot op none).Rewatched verdict op.fd registry)
    (quiet : proactor.slots op.side.other op.fd ≠ none →
      ¬proactor.Awaits op.side op.fd ∧ verdict = none)
    (slots : after.slots = (proactor.setSlot op none).slots) (known : after.registry = registry)
    (pending : after.pending = proactor.pending) : Watched wakeup after := by
  have unnamed : ∀ side, after.slots side wakeup = none := by
    intro side
    rw [slots]
    by_cases same : wakeup = op.fd
    · rcases side_eq_or side op.side with rfl | rfl
      · rw [same]
        exact setSlot_self op none
      · exact (setSlot_other op none wakeup).trans (watched.unnamed _)
    · exact (setSlot_fd same).trans (watched.unnamed side)
  have others : ∀ side other, other ≠ op.fd → after.slots side other = proactor.slots side other := by
    intro side other differ
    rw [slots]
    exact setSlot_fd differ
  have distinct : (after.pending.map EpollEvent.fd).Nodup := by
    rw [pending]
    exact watched.distinct
  have there : ∀ event ∈ after.pending, event ∈ proactor.pending := by
    rw [pending]
    exact fun event inside => inside
  -- A slot that stays full is the other one.
  have stays : ∀ side, (proactor.setSlot op none).slots side op.fd ≠ none →
      proactor.slots op.side.other op.fd ≠ none := by
    intro side full
    rcases side_eq_or side op.side with rfl | rfl
    · exact absurd (setSlot_self op none) full
    · exact (setSlot_other op none op.fd).symm.trans_ne full
  cases rewatched with
  | empty empty =>
      refine watched.change others unnamed ?_ ?_ there distinct ?_ ?_
      · intro other differ
        rw [known]
        exact Function.update_of_ne differ ..
      · intro other differ active
        rw [known] at active
        exact fun inside => active (Finset.mem_insert_of_mem inside)
      · intro _ entry entry'
        rw [known] at entry'
        change Function.update _ _ _ op.fd = _ at entry'
        rw [Function.update_self] at entry'
        cases entry'
      · intro _ event inside _ active
        rw [known] at active
        exact absurd (Finset.mem_insert_self ..) active
  | full side full =>
      refine watched.change others unnamed ?_ ?_ there distinct ?_ ?_
      · intro other differ
        rw [known]
        exact watched_interest _ differ
      · intro other differ active
        rw [known] at active
        exact mem_deleted_watched differ active
      · intro _ entry entry'
        rw [known] at entry'
        rw [slots]
        exact watched_masked _ entry'
      · intro _ event inside same _ side' callback
        rw [slots]
        rcases side_eq_or side' op.side with rfl | rfl
        · exact absurd ⟨event, there event inside, same, callback⟩ (quiet (stays side full)).1
        · exact (setSlot_other op none op.fd).trans_ne (stays side full)
  | refused refused side full => exact absurd (quiet (stays side full)).2 refused

/-- Both slots of a descriptor are emptied. -/
theorem Watched.release (watched : Watched wakeup proactor) (seated : Seated proactor) (fd : ℤ)
    (result : ℤ) (cancelled : Bool) : Watched wakeup (proactor.release fd result cancelled) := by
  rw [release_eq proactor seated.valid]
  have others : ∀ side other, other ≠ fd →
      (if other = fd then none else proactor.slots side other) = proactor.slots side other :=
    fun side other differ => if_neg differ
  have unnamed : ∀ side, (if wakeup = fd then none else proactor.slots side wakeup) = none := by
    intro side
    rw [watched.unnamed side, ite_self]
  by_cases none' : proactor.ops fd = []
  · have empty : ∀ side, proactor.slots side fd = none := by
      intro side
      cases full : proactor.slots side fd with
      | none => rfl
      | some op =>
          have inside := mem_ops.mpr ⟨side, full⟩
          rw [none'] at inside
          cases inside
    have same : (fun side other => if other = fd then none else proactor.slots side other) =
        proactor.slots := by
      funext side other
      split_ifs with here
      · rw [here, empty side]
      · rfl
    rw [if_pos none', same]
    exact ⟨watched.unnamed, watched.masked, watched.distinct, watched.matched⟩
  · rw [if_neg none']
    refine watched.change others unnamed ?_ ?_ (fun event inside => inside) watched.distinct ?_ ?_
    · intro other differ
      exact Function.update_of_ne differ ..
    · intro other differ active
      exact fun inside => active (Finset.mem_insert_of_mem inside)
    · intro _ entry known
      change Function.update _ _ _ fd = _ at known
      rw [Function.update_self] at known
      cases known
    · intro _ event inside _ active
      exact absurd (Finset.mem_insert_self ..) active

/-- The first event is taken from the batch. -/
theorem Watched.take (watched : Watched wakeup proactor) {event : EpollEvent}
    {rest : List EpollEvent} (pending : proactor.pending = event :: rest) :
    Watched wakeup { proactor with pending := rest } ∧ ∀ other ∈ rest, other.fd ≠ event.fd := by
  have distinct := watched.distinct
  rw [pending, List.map_cons, List.nodup_cons] at distinct
  refine ⟨⟨watched.unnamed, watched.masked, distinct.2, ?_⟩, ?_⟩
  · intro other inside
    refine watched.matched other ?_
    rw [pending]
    exact List.mem_cons_of_mem _ inside
  · intro other inside same
    exact distinct.1 (same ▸ List.mem_map_of_mem inside)

/-- An event for an operation that is in its slot. -/
theorem Watched.ready (watched : Watched wakeup proactor) (seated : Seated proactor)
    {side : Side} {fd : ℤ} {result : ℤ} {verdict : Option Errno}
    (alone : ∀ event ∈ proactor.pending, event.fd ≠ fd)
    (accepted : proactor.slots .read fd ≠ none → proactor.slots .write fd ≠ none → verdict = none)
    (ready : proactor.onReady side fd result verdict = some after) : Watched wakeup after := by
  obtain ⟨op, full, rfl⟩ := Option.map_eq_some_iff.mp ready
  obtain ⟨rfl, rfl, valid, inside⟩ := seated.own side fd op full
  obtain ⟨registry, rewatched, ended⟩ := proactor.endOperation_cases result false verdict valid inside
  rw [ended]
  refine watched.rewatch rewatched (fun other => ⟨?_, ?_⟩) rfl rfl rfl
  · rintro ⟨event, there, same, -⟩
    exact alone event there same
  · cases side : op.side with
    | read =>
        rw [side] at full other
        exact accepted (full.trans_ne (Option.some_ne_none op)) other
    | write =>
        rw [side] at full other
        exact accepted other (full.trans_ne (Option.some_ne_none op))

theorem Watched.dispatchEvent (watched : Watched wakeup proactor) (seated : Seated proactor)
    {event : EpollEvent} {result : ℤ} {verdict : Option Errno}
    (alone : ∀ other ∈ proactor.pending, other.fd ≠ event.fd)
    (accepted : proactor.slots .read event.fd ≠ none → proactor.slots .write event.fd ≠ none →
      verdict = none)
    (dispatched : proactor.dispatchEvent wakeup event result verdict = some after) :
    Watched wakeup after := by
  unfold EpollOperations.dispatchEvent at dispatched
  split at dispatched
  · cases dispatched
    exact watched
  · unfold onReadable at dispatched
    split_ifs at dispatched
    · cases dispatched
      exact ⟨watched.unnamed, watched.masked, watched.distinct, watched.matched⟩
    · exact watched.ready seated alone accepted dispatched
  · exact watched.ready seated alone accepted dispatched
  · cases dispatched
    exact watched.release seated ..
  · cases dispatched
    exact watched.release seated ..

theorem Watched.proceed (watched : Watched wakeup proactor) (seated : Seated proactor)
    (goes : proactor.proceed = some after) : Watched wakeup after := by
  have same {changed : EpollOperations} (slots : changed.slots = proactor.slots)
      (registry : changed.registry = proactor.registry)
      (pending : changed.pending = proactor.pending) : Watched wakeup changed := by
    refine ⟨?_, ?_, ?_, ?_⟩
    · rw [slots]
      exact watched.unnamed
    · rw [slots, registry]
      exact watched.masked
    · rw [pending]
      exact watched.distinct
    · rw [slots, registry, pending]
      exact watched.matched
  unfold EpollOperations.proceed at goes
  split at goes
  · cases goes
  · cases goes
    exact same rfl rfl rfl
  · cases goes
    exact same rfl rfl rfl
  · rename_i next stops rest stack
    split_ifs at goes
    · cases goes
      have advanced : Seated { proactor with stack := .cancelling (next + 1) stops :: rest } := by
        refine seated.same rfl le_rfl rfl ?_ rfl
        rw [calls, calls, stack]
        rfl
      have resting : Watched wakeup
          { proactor with stack := .cancelling (next + 1) stops :: rest } := same rfl rfl rfl
      exact resting.release advanced ..
    · cases goes
      exact same rfl rfl rfl
  · cases goes
    exact same rfl rfl rfl

/-- Epoll fetches events for slots that are full. -/
theorem Watched.wait (watched : Watched wakeup proactor) {batch : List EpollEvent} {stop : Bool}
    (fetched : proactor.registry.interest.Fetches batch) :
    Watched wakeup { proactor with pending := batch, phase := .dispatching, running := !stop } where
  unnamed := watched.unnamed
  masked := watched.masked
  distinct := fetched.1
  matched := by
    intro event inside other _ side callback
    obtain ⟨entry, known, within⟩ := fetched.2 event inside
    obtain ⟨wantRead, wantWrite, events, full⟩ := watched.masked event.fd other entry known
    rw [events] at within
    exact full side (asked_of_callback callback within)

theorem Watched.step (watched : Watched wakeup proactor) (seated : Seated proactor)
    (undisturbed : proactor.Undisturbed wakeup action)
    (step : proactor.Step wakeup action after) : Watched wakeup after := by
  cases step with
  | wait checking running fetched => exact watched.wait fetched
  | @dispatch event rest result verdict after returned pending dispatched =>
      obtain ⟨taken, alone⟩ := watched.take pending
      refine taken.dispatchEvent (seated.same rfl le_rfl rfl rfl rfl) alone ?_ dispatched
      exact undisturbed event (by rw [pending]; exact rfl)
  | @perform request connected verdict own rest top =>
      cases request with
      | submit op => exact watched.submit op connected verdict undisturbed
      | cancel op =>
          rw [serve]
          rcases proactor.cancelOperation_cases op verdict with
            refused | ⟨-, -, registry, rewatched, cancelled⟩
          · rw [refused]
            exact watched
          · rw [cancelled]
            exact watched.rewatch rewatched undisturbed rfl rfl rfl
      | stop => exact ⟨watched.unnamed, watched.masked, watched.distinct, watched.matched⟩
  | proceed goes => exact watched.proceed seated goes
  | sweep dispatching returned empty =>
      refine ⟨watched.unnamed, watched.masked, watched.distinct, ?_⟩
      intro event inside
      rw [empty] at inside
      cases inside
  | leave checking stopped =>
      exact ⟨watched.unnamed, watched.masked, watched.distinct, watched.matched⟩

/-! ## Runs -/

/-- In a run in which nothing is done behind the back of an event that is still to be
dispatched, every event finds the operation that it is for; and every submit is answered by
one call at most. -/
theorem slots_match {steps : List EpollStep}
    (trace : Trace (act wakeup) (initial wakeup) steps proactor)
    (undisturbed : Along (act wakeup) (Undisturbed wakeup) (initial wakeup) steps) :
    proactor.SlotsMatch wakeup ∧ proactor.history.Once := by
  have seated := seated_of_trace trace
  have both : Seated proactor ∧ Watched wakeup proactor := by
    refine trace.invariant_along (fun state => Seated state ∧ Watched wakeup state) ?_
      ⟨initial_seated wakeup, initial_watched wakeup⟩ undisturbed
    intro state action after holds met happens
    have step := step_of_act happens
    exact ⟨holds.1.step step, holds.2.step holds.1 met step⟩
  exact ⟨both.2.slotsMatch seated, seated.once⟩

/-- The operations of two descriptors, the second of which is read and written. -/
def first : IoOperation := ⟨0, .read, 5⟩
def reader : IoOperation := ⟨1, .recv, 7⟩
def writer : IoOperation := ⟨2, .send, 7⟩

/-- The three operations are submitted, and both descriptors are reported readable. -/
def reported : List EpollStep :=
  [.wait [⟨3, epollIn, 0⟩] false, .dispatch 0 none, .perform (.submit first) true none,
    .perform (.submit reader) true none, .perform (.submit writer) true none, .proceed, .sweep,
    .wait [⟨5, epollIn, 0⟩, ⟨7, epollIn, 0⟩] false]

theorem slots_match_reported : ∃ proactor : EpollOperations,
    proactor.pending = [⟨7, epollIn, 0⟩] ∧ proactor.slots .read 7 = some reader ∧
      proactor.SlotsMatch 3 ∧ proactor.history.Once := by
  have run : ((follow (act 3) (initial 3)
      (reported ++ [.dispatch 1 none, .proceed, .proceed])).any fun proactor =>
      proactor.pending == [⟨7, epollIn, 0⟩] && proactor.slots .read 7 == some reader) = true := by
    decide +kernel
  have checked : checks (act 3) (fun state action => decide (state.Undisturbed 3 action))
      (initial 3) (reported ++ [.dispatch 1 none, .proceed, .proceed]) = true := by
    decide +kernel
  obtain ⟨proactor, trace, tested⟩ := Trace.exists_of_follow run
  obtain ⟨pending, full⟩ := Bool.and_eq_true_iff.mp tested
  exact ⟨proactor, eq_of_beq pending, eq_of_beq full,
    slots_match trace (along_of_checks (fun _ _ met => of_decide_eq_true met) checked)⟩

/-- The handler of the first operation cancels the one that the next event is for. -/
theorem stale_event : ¬∀ (wakeup : ℤ) (steps : List EpollStep) (proactor : EpollOperations),
    Trace (act wakeup) (initial wakeup) steps proactor →
      proactor.SlotsMatch wakeup ∧ proactor.history.Once := by
  intro always
  have run : ((follow (act 3) (initial 3) (reported ++ [.dispatch 1 none, .proceed,
      .perform (.cancel reader) true none, .proceed, .proceed, .proceed])).any fun proactor =>
      proactor.stack == [] && proactor.pending == [⟨7, epollIn, 0⟩] &&
        (proactor.registry.dispatchEvent ⟨7, epollIn, 0⟩ == some ((), .onReadable) &&
          proactor.slots .read 7 == none)) = true := by
    decide +kernel
  obtain ⟨proactor, trace, tested⟩ := Trace.exists_of_follow run
  simp only [Bool.and_eq_true, beq_iff_eq] at tested
  obtain ⟨⟨returned, pending⟩, dispatched, empty⟩ := tested
  obtain ⟨op, full, -⟩ := (always 3 _ proactor trace).1 ⟨7, epollIn, 0⟩ [] .read returned pending
    (by decide) dispatched
  rw [empty] at full
  cases full

end EpollOperations

end Join
