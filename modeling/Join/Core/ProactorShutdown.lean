import Join.Core.EpollSeats
import Join.Core.UringListing

/-!
# What a stop leaves behind

`cancelAllOperations` withdraws the operations that are there when it is called. An operation
that is submitted later, by a command behind the Stop in the queue or by a handler, is
accepted all the same, and nobody withdraws it: the loop of the epoll proactor ends and its
handler is never called, that of the io_uring proactor waits for it.
-/

set_option autoImplicit false

namespace Join

open Library

/-! ## Epoll -/

namespace EpollOperations

variable {proactor after : EpollOperations} {wakeup : ℤ} {action : EpollStep}

/-- `submitOperation` puts the operation into its slot. -/
def Accepts (proactor : EpollOperations) (op : IoOperation) (connected : Bool) : Prop :=
  0 ≤ op.fd ∧ proactor.state op = .idle ∧ (op.code = .connect → connected = true) ∧
    proactor.slot op = none

instance (proactor : EpollOperations) (op : IoOperation) (connected : Bool) :
    Decidable (proactor.Accepts op connected) :=
  inferInstanceAs (Decidable (_ ∧ _))

/-- `cancelAllOperations` is still to come to the descriptor. -/
def Ahead (proactor : EpollOperations) (fd : ℤ) : Prop :=
  ∃ frame ∈ proactor.stack, match frame with
    | .cancelling next _ => (next : ℤ) ≤ fd
    | .dispatching _ _ _ | .handling _ | .reading => False

instance (frame : Frame) (fd : ℤ) : Decidable (match frame with
    | .cancelling next _ => (next : ℤ) ≤ fd
    | .dispatching _ _ _ | .handling _ | .reading => False) :=
  match frame with
  | .cancelling next _ => inferInstanceAs (Decidable ((next : ℤ) ≤ fd))
  | .dispatching _ _ _ | .handling _ | .reading => inferInstanceAs (Decidable False)

instance (proactor : EpollOperations) (fd : ℤ) : Decidable (proactor.Ahead fd) :=
  inferInstanceAs (Decidable (∃ frame ∈ proactor.stack, _))

/-- After the Stop an operation is accepted only for a descriptor that `cancelAllOperations` is
still to come to, and the loop is not left before the Stop. -/
def Closing (proactor : EpollOperations) : EpollStep → Prop
  | .perform (.submit op) connected _ => proactor.stopped = true →
      proactor.Accepts op connected → proactor.Ahead op.fd
  | .leave => proactor.stopped = true
  | _ => True

instance (proactor : EpollOperations) : (action : EpollStep) → Decidable (proactor.Closing action)
  | .perform (.submit _) _ _ => inferInstanceAs (Decidable (_ → _))
  | .leave => inferInstanceAs (Decidable (_ = _))
  | .perform (.cancel _) _ _ | .perform .stop _ _ | .wait _ _ | .dispatch _ _ | .proceed | .sweep =>
      inferInstanceAs (Decidable True)

/-- The commands of a Stop, and those behind it, are all processed. -/
def Drained (proactor : EpollOperations) : Prop :=
  proactor.stopped = true ∧ ∀ frame ∈ proactor.stack, match frame with
    | .cancelling _ _ | .reading => False
    | .dispatching _ _ _ | .handling _ => True

/-- After a Stop every operation that is pending is being cancelled, and when `run` has returned
every operation that was accepted has got its call. -/
def ShutsDown (proactor : EpollOperations) : Prop :=
  (proactor.Drained → ∀ side fd op, proactor.slots side fd = some op →
      proactor.state op = .cancelling) ∧
    (proactor.phase = .returned → proactor.history.Settled)

/-- What a stop has come to. -/
structure Stopping (proactor : EpollOperations) : Prop where
  ahead : proactor.stopped = true → ∀ side fd op, proactor.slots side fd = some op →
    proactor.Ahead fd
  idle : proactor.phase ≠ .dispatching → proactor.stack = [] ∧ proactor.pending = []
  left : proactor.phase = .returned → proactor.stopped = true

theorem initial_stopping (wakeup : ℤ) : (initial wakeup).Stopping where
  ahead := nofun
  idle := fun _ => ⟨rfl, rfl⟩
  left := nofun

/-- An operation in a slot after the end of `cancelAllOperations` would be one too many. -/
theorem Stopping.shutsDown (stopping : proactor.Stopping) (seated : proactor.Seated) :
    proactor.ShutsDown := by
  refine ⟨?_, ?_⟩
  · rintro ⟨stopped, drained⟩ side fd op full
    obtain ⟨frame, inside, reaches⟩ := stopping.ahead stopped side fd op full
    have past := drained frame inside
    cases frame with
    | cancelling next stops => exact past.elim
    | dispatching op result cancelled => exact reaches.elim
    | handling op => exact reaches.elim
    | reading => exact reaches.elim
  · intro returned op open'
    obtain ⟨stack, -⟩ := stopping.idle (by rw [returned]; nofun)
    have asked : (proactor.history.unanswered op).isSome := by
      rw [open']
      rfl
    rcases seated.found op asked with full | ⟨result, cancelled, due⟩
    · obtain ⟨frame, inside, -⟩ := stopping.ahead (stopping.left returned) _ _ op full
      rw [stack] at inside
      cases inside
    · rw [calls, stack] at due
      cases due

theorem Ahead.push {fd : ℤ} (ahead : proactor.Ahead fd) (frames : List Frame)
    (stack : after.stack = frames ++ proactor.stack) : after.Ahead fd := by
  obtain ⟨frame, inside, reaches⟩ := ahead
  refine ⟨frame, ?_, reaches⟩
  rw [stack]
  exact List.mem_append_right _ inside

/-- The call on top of the stack returns or goes on. -/
theorem Ahead.advance {fd : ℤ} (ahead : proactor.Ahead fd) {top : Frame} {rest : List Frame}
    (stack : proactor.stack = top :: rest) (below : ∀ frame ∈ rest, frame ∈ after.stack)
    (further : ∀ next stops, top = .cancelling next stops → (next : ℤ) ≤ fd → after.Ahead fd) :
    after.Ahead fd := by
  obtain ⟨frame, inside, reaches⟩ := ahead
  rw [stack] at inside
  rcases List.mem_cons.mp inside with rfl | inside
  · cases frame with
    | cancelling next stops => exact further next stops rfl reaches
    | dispatching op result cancelled => exact reaches.elim
    | handling op => exact reaches.elim
    | reading => exact reaches.elim
  · exact ⟨frame, below frame inside, reaches⟩

/-- A Connect that fails is refused. -/
theorem submitOperation_unconnected {op : IoOperation} {connected : Bool}
    (verdict : Option Errno) (failed : op.code = .connect ∧ connected = false) :
    (proactor.submitOperation op connected verdict).2 = proactor := by
  unfold submitOperation
  rw [if_pos failed]
  split_ifs
  · rfl
  · rfl
  · rfl

theorem Stopping.serve (stopping : proactor.Stopping) (seated : proactor.Seated)
    {own connected : Bool} {verdict : Option Errno} {request : OperationRequest}
    (busy : proactor.phase = .dispatching)
    (closing : proactor.Closing (.perform request connected verdict)) :
    (proactor.serve own connected verdict request).Stopping := by
  cases request with
  | submit op =>
      rw [EpollOperations.serve]
      by_cases failed : op.code = .connect ∧ connected = false
      · rw [submitOperation_unconnected verdict failed]
        exact stopping
      rcases proactor.submitOperation_cases op connected verdict with
        ⟨size, -, refused⟩ | ⟨valid, idle, empty, accepted, registry, -, seated'⟩
      · rw [refused]
        exact ⟨stopping.ahead, stopping.idle, stopping.left⟩
      · rw [seated']
        refine ⟨?_, fun idle => absurd busy idle, stopping.left⟩
        intro stopped side fd other full
        rcases slots_setSlot_some.mp full with ⟨⟨rfl, rfl⟩, rfl⟩ | ⟨-, before⟩
        · refine closing stopped ⟨valid, idle, fun connect => ?_, empty⟩
          exact Bool.not_eq_false _ ▸ fun unconnected => failed ⟨connect, unconnected⟩
        · exact stopping.ahead stopped side fd other before
  | cancel op =>
      rw [EpollOperations.serve]
      rcases proactor.cancelOperation_cases op verdict with
        refused | ⟨valid, inside, registry, -, cancelled⟩
      · rw [refused]
        exact stopping
      · rw [cancelled]
        refine ⟨?_, fun idle => absurd busy idle, stopping.left⟩
        intro stopped side fd other full
        have before := (@kept_setSlot proactor (proactor.setSlot op none) op rfl rfl rfl
          rfl).slots side fd other full
        exact (stopping.ahead stopped side fd other before).push
          [.dispatching op (-ecanceled) true] rfl
  | stop =>
      refine ⟨?_, fun idle => absurd busy idle, fun _ => rfl⟩
      intro _ side fd op full
      refine ⟨.cancelling 0 own, List.mem_cons_self .., ?_⟩
      exact (seated.own side fd op full).2.2.1

theorem Stopping.proceed (stopping : proactor.Stopping) (seated : proactor.Seated)
    (goes : proactor.proceed = some after) : after.Stopping := by
  have busy : proactor.phase = .dispatching := by
    by_contra idle
    unfold EpollOperations.proceed at goes
    rw [(stopping.idle idle).1] at goes
    cases goes
  unfold EpollOperations.proceed at goes
  split at goes
  · cases goes
  · rename_i op result cancelled rest stack
    cases goes
    refine ⟨?_, fun idle => absurd busy idle, stopping.left⟩
    intro stopped side fd other full
    exact (stopping.ahead stopped side fd other full).advance stack
      (fun frame inside => List.mem_cons_of_mem _ inside) fun _ _ absurd => (by cases absurd)
  · rename_i op rest stack
    cases goes
    refine ⟨?_, fun idle => absurd busy idle, stopping.left⟩
    intro stopped side fd other full
    exact (stopping.ahead stopped side fd other full).advance stack
      (fun frame inside => inside) fun _ _ absurd => (by cases absurd)
  · rename_i next stops rest stack
    split_ifs at goes with more
    · cases goes
      have advanced : Seated { proactor with stack := .cancelling (next + 1) stops :: rest } := by
        refine seated.same rfl le_rfl rfl ?_ rfl
        rw [calls, calls, stack]
        rfl
      have released := @release_eq
        { proactor with stack := .cancelling (next + 1) stops :: rest } next advanced.valid
        (-ecanceled) true
      rw [cancelNext, released]
      refine ⟨?_, fun idle => absurd busy idle, stopping.left⟩
      intro stopped side fd other full
      dsimp only at full
      split_ifs at full with here
      refine (stopping.ahead stopped side fd other full).advance stack
        (fun frame inside => List.mem_append_right _ (List.mem_cons_of_mem _ inside)) ?_
      rintro _ _ ⟨⟩ reaches
      refine ⟨.cancelling (next + 1) stops, List.mem_append_right _ (List.mem_cons_self ..), ?_⟩
      change ((next + 1 : ℕ) : ℤ) ≤ fd
      omega
    · cases goes
      refine ⟨?_, fun idle => absurd busy idle, stopping.left⟩
      intro stopped side fd other full
      refine (stopping.ahead stopped side fd other full).advance stack
        (fun frame inside => inside) ?_
      rintro _ _ ⟨⟩ reaches
      have small := (seated.own side fd other full).2.2.2
      omega
  · rename_i rest stack
    cases goes
    refine ⟨?_, fun idle => absurd busy idle, stopping.left⟩
    intro stopped side fd other full
    exact (stopping.ahead stopped side fd other full).advance stack
      (fun frame inside => inside) fun _ _ absurd => (by cases absurd)

theorem Stopping.step (stopping : proactor.Stopping) (seated : proactor.Seated)
    (closing : proactor.Closing action) (step : proactor.Step wakeup action after) :
    after.Stopping := by
  cases step with
  | wait checking running fetched =>
      exact ⟨stopping.ahead, fun idle => absurd rfl idle, nofun⟩
  | @dispatch event rest result verdict after returned pending dispatched =>
      have busy : proactor.phase = .dispatching := by
        by_contra idle
        rw [(stopping.idle idle).2] at pending
        cases pending
      have taken : Seated { proactor with pending := rest } := seated.same rfl le_rfl rfl rfl rfl
      have kept := taken.kept_dispatchEvent dispatched
      have phase : after.phase = .dispatching := kept.phase.trans busy
      refine ⟨?_, fun idle => absurd phase idle, ?_⟩
      · intro stopped side fd op full
        obtain ⟨frame, inside, -⟩ := stopping.ahead (kept.stopped.symm.trans stopped) side fd op
          (kept.slots side fd op full)
        rw [returned] at inside
        cases inside
      · rw [phase]
        nofun
  | @perform request connected verdict own rest top =>
      refine stopping.serve seated ?_ closing
      by_contra idle
      have none' := (stopping.idle idle).1
      rcases top with ⟨-, stack⟩ | ⟨-, op, stack⟩
      · rw [none'] at stack
        cases stack
      · rw [none'] at stack
        cases stack
  | proceed goes => exact stopping.proceed seated goes
  | sweep dispatching returned empty =>
      exact ⟨stopping.ahead, fun _ => ⟨returned, empty⟩, nofun⟩
  | leave checking stopped =>
      have idle := stopping.idle (by rw [checking]; nofun)
      exact ⟨stopping.ahead, fun _ => idle, fun _ => closing⟩

/-- In a run in which nothing is accepted behind the Stop, it leaves nothing behind. -/
theorem shutsDown_of_trace {steps : List EpollStep}
    (trace : Trace (act wakeup) (initial wakeup) steps proactor)
    (closing : Along (act wakeup) Closing (initial wakeup) steps) : proactor.ShutsDown := by
  have both : proactor.Seated ∧ proactor.Stopping := by
    refine trace.invariant_along (fun state => Seated state ∧ Stopping state) ?_
      ⟨initial_seated wakeup, initial_stopping wakeup⟩ closing
    intro state action after holds met happens
    have step := step_of_act happens
    exact ⟨holds.1.step step, holds.2.step holds.1 met step⟩
  exact both.2.shutsDown both.1

end EpollOperations

/-! ## io_uring -/

/-- The calls that are in `eventLoop`. -/
def UringFrame.inLoop : UringFrame → Bool
  | .looping | .peeking | .seeing => true
  | .reading _ | .handling _ => false

namespace UringOperations

variable {proactor after : UringOperations} {spin : Bool} {entries : ℕ} {action : UringStep}

/-- After the Stop no operation is accepted, and there is room for the cancels of a Stop. -/
def Closing (entries : ℕ) (proactor : UringOperations) : UringStep → Prop
  | .perform (.submit op) _ room => proactor.stopped = true → 0 ≤ op.fd →
      proactor.state op = .idle → (proactor.getSqe entries (room op)).1 = false
  | .perform .stop _ room => ∀ op ∈ proactor.pendingOps, room op = true
  | _ => True

instance (entries : ℕ) (proactor : UringOperations) :
    (action : UringStep) → Decidable (proactor.Closing entries action)
  | .perform (.submit _) _ _ => inferInstanceAs (Decidable (_ → _))
  | .perform .stop _ _ => inferInstanceAs (Decidable (∀ op ∈ proactor.pendingOps, _))
  | .perform (.cancel _) _ _ | .complete _ _ | .flush | .proceed _ =>
      inferInstanceAs (Decidable True)

/-- The commands of a Stop, and those behind it, are all processed. -/
def Drained (proactor : UringOperations) : Prop :=
  proactor.stopped = true ∧ ∀ rearms, .reading rearms ∉ proactor.stack

/-- After a Stop every operation that is pending is being cancelled, and when `run` has returned
every operation that was accepted has got its call. -/
def ShutsDown (proactor : UringOperations) : Prop :=
  (proactor.Drained → ∀ op ∈ proactor.pendingOps, proactor.state op = .cancelling) ∧
    (proactor.stack = [] → proactor.history.Settled)

/-- What a stop has come to. -/
structure Stopping (proactor : UringOperations) : Prop where
  filed : proactor.Filed
  busy : proactor.stopped = false → ∀ op ∈ proactor.handled, proactor.state op ≠ .idle
  single : proactor.stopped = false → proactor.stack.tail.filterMap UringFrame.op = []
  marked : proactor.stopped = true → ∀ op ∈ proactor.pendingOps, proactor.state op = .cancelling
  outer : ∀ frame ∈ proactor.stack.getLast?, UringFrame.inLoop frame = true
  left : proactor.stack = [] → proactor.pendingOps = []

theorem initial_stopping (spin : Bool) : (initial spin).Stopping where
  filed := initial_filed spin
  busy := fun _ _ => nofun
  single := fun _ => rfl
  marked := nofun
  outer := by
    intro frame last
    cases last
    rfl
  left := fun _ => rfl

theorem Stopping.shutsDown (stopping : proactor.Stopping) : proactor.ShutsDown := by
  refine ⟨fun drained => stopping.marked drained.1, ?_⟩
  intro returned op open'
  have asked : (proactor.history.unanswered op).isSome := by
    rw [open']
    rfl
  have inside := (stopping.filed.listed op).mp asked
  rw [stopping.left returned] at inside
  cases inside

theorem outer_cons {frame : UringFrame} {rest : List UringFrame}
    (alone : rest = [] → UringFrame.inLoop frame = true)
    (outer : ∀ last ∈ rest.getLast?, UringFrame.inLoop last = true) :
    ∀ last ∈ (frame :: rest).getLast?, UringFrame.inLoop last = true := by
  intro last inside
  cases rest with
  | nil =>
      cases inside
      exact alone rfl
  | cons second more =>
      rw [List.getLast?_cons_cons] at inside
      exact outer last inside

theorem outer_tail {frame : UringFrame} {rest : List UringFrame}
    (outer : ∀ last ∈ (frame :: rest).getLast?, UringFrame.inLoop last = true) :
    ∀ last ∈ rest.getLast?, UringFrame.inLoop last = true := by
  intro last inside
  cases rest with
  | nil => cases inside
  | cons second more =>
      refine outer last ?_
      rw [List.getLast?_cons_cons]
      exact inside

theorem Stopping.sends (stopping : proactor.Stopping) {data : List UringData}
    (sends : proactor.Sends after data) : after.Stopping := by
  have filed := stopping.filed.sends sends
  rw [sends.same] at filed ⊢
  exact ⟨filed, stopping.busy, stopping.single, stopping.marked, stopping.outer, stopping.left⟩

/-- The operations that are left are marked, if none was submitted. -/
theorem Moves.marked (moves : proactor.Moves after) (filed : proactor.Filed)
    (silent : ∀ op accepted, after.history ≠ .submitted op accepted :: proactor.history)
    (marked : ∀ op ∈ proactor.pendingOps, proactor.state op = .cancelling) :
    ∀ op ∈ after.pendingOps, after.state op = .cancelling := by
  intro op inside
  cases moves with
  | same pendingOps _ state _ _ =>
      rw [pendingOps] at inside
      rw [state]
      exact marked op inside
  | seat _ _ _ _ _ _ _ history => exact absurd history (silent _ _)
  | mark pendingOps _ marks _ _ =>
      rw [pendingOps] at inside
      rcases marks op with kept | ⟨cancelling, -⟩
      · exact kept.trans (marked op inside)
      · exact cancelling
  | call other _ _ _ pendingOps _ state _ _ =>
      obtain ⟨left, places, unlisted, -, permuted⟩ := unlist_cases filed.roster other
      rw [pendingOps, unlisted] at inside
      rw [state]
      exact marked op (List.mem_of_mem_erase (permuted.mem_iff.mp inside))
  | finish other rest before pendingOps _ state _ _ =>
      rw [pendingOps] at inside
      have differ : op ≠ other := by
        rintro rfl
        refine filed.apart op ?_ inside
        rw [before]
        exact List.mem_cons_self ..
      rw [state, Function.update_of_ne differ]
      exact marked op inside

/-- After the Stop a submit is refused. -/
theorem sends_submitOperation {op : IoOperation} {flush room : Bool}
    (refused : 0 ≤ op.fd → proactor.state op = .idle → (proactor.getSqe entries room).1 = false) :
    proactor.Sends (proactor.submitOperation entries op flush room).2 [] := by
  unfold submitOperation
  split_ifs with negative busy
  · exact .refl proactor
  · exact .refl proactor
  · dsimp only
    rw [if_pos (refused (Int.not_lt.mp negative) (not_not.mp busy))]
    exact sends_getSqe entries proactor room

theorem Stopping.submit (stopping : proactor.Stopping) {op : IoOperation} {flush room : Bool}
    (refused : proactor.stopped = true → 0 ≤ op.fd → proactor.state op = .idle →
      (proactor.getSqe entries room).1 = false) (serving : proactor.stack ≠ []) :
    (proactor.submitOperation entries op flush room).2.Stopping := by
  cases stopped : proactor.stopped with
  | true => exact stopping.sends (sends_submitOperation (refused stopped))
  | false =>
      rcases proactor.submitOperation_cases entries op flush room with
        refused | ⟨valid, idle, sent, sends, listed⟩
      · exact stopping.sends refused
      · have busy := stopping.busy stopped
        have moves : proactor.Moves (proactor.submitOperation entries op flush room).2 :=
          moves_serve false flush (fun _ => room) (.submit op)
        have fresh : op ∉ proactor.handled := fun inside => busy op inside idle
        have filed : (proactor.submitOperation entries op flush room).2.Filed := by
          refine stopping.filed.move moves fun other accepted same => ?_
          rw [listed] at same
          cases List.head_eq_of_cons_eq same
          exact fresh
        rw [listed] at filed ⊢
        have same := sends.same
        rw [same] at filed ⊢
        refine ⟨filed, ?_, stopping.single, ?_, stopping.outer, ?_⟩
        · intro _ other inside
          change Function.update proactor.state op .submitted other ≠ .idle
          rw [Function.update_of_ne (ne_of_mem_of_not_mem inside fresh)]
          exact busy other inside
        · intro stopped'
          exact absurd (stopped.symm.trans stopped') nofun
        · exact fun returned => absurd returned serving

theorem Stopping.cancel (stopping : proactor.Stopping) {op : IoOperation} {flush room : Bool} :
    (proactor.cancelOperation entries op flush room).2.Stopping := by
  have moves : proactor.Moves (proactor.cancelOperation entries op flush room).2 :=
    moves_serve false flush (fun _ => room) (.cancel op)
  rcases proactor.cancelOperation_cases entries op flush room with
    ⟨refused, -⟩ | ⟨submitted, sent, sends, cancelled⟩
  · exact stopping.sends refused
  · have same := sends.same
    rw [cancelled, same] at moves ⊢
    have filed := stopping.filed.quiet moves history_ne_cons
    refine ⟨filed, ?_, stopping.single, ?_, stopping.outer, stopping.left⟩
    · intro stopped other inside
      by_cases here : other = op
      · rw [here]
        exact (Function.update_self ..).trans_ne nofun
      · exact (Function.update_of_ne here ..).trans_ne (stopping.busy stopped other inside)
    · exact fun stopped => moves.marked stopping.filed history_ne_cons (stopping.marked stopped)

/-- All operations that are pending are marked by a Stop. -/
theorem Stopping.stop (stopping : proactor.Stopping) {own flush : Bool}
    {room : IoOperation → Bool} (free : ∀ op ∈ proactor.pendingOps, room op = true)
    (serving : proactor.stack ≠ []) :
    (proactor.serve entries own flush room .stop).Stopping := by
  have moves : proactor.Moves (proactor.serve entries own flush room .stop) :=
    moves_serve own flush room .stop
  obtain ⟨sent, data, marked, sends, -, marks, left, all⟩ := cancelEach_cases entries room
    proactor.pendingOps { proactor with running := false, stopped := true }
  have marked' : ∀ op ∈ proactor.pendingOps, marked op = .cancelling := by
    intro op inside
    exact all op inside (stopping.filed.valid op inside)
      (stopping.filed.roster.mem_iff.mp inside) (stopping.filed.live op inside) (free op inside)
  rw [serve, cancelAllOperations, left, sends.same] at moves ⊢
  cases own with
  | true =>
      refine ⟨stopping.filed.quiet moves history_ne_cons, (fun absurd => by cases absurd),
        (fun absurd => by cases absurd), fun _ => marked', ?_, (fun absurd => by cases absurd)⟩
      exact outer_cons (fun returned => absurd returned serving) stopping.outer
  | false =>
      cases flush with
      | true =>
          exact ⟨stopping.filed.quiet moves history_ne_cons, (fun absurd => by cases absurd),
            (fun absurd => by cases absurd), fun _ => marked', stopping.outer,
            fun returned => absurd returned serving⟩
      | false =>
          exact ⟨stopping.filed.quiet moves history_ne_cons, (fun absurd => by cases absurd),
            (fun absurd => by cases absurd), fun _ => marked', stopping.outer,
            fun returned => absurd returned serving⟩

theorem Stopping.serve (stopping : proactor.Stopping) {own flush : Bool}
    {room : IoOperation → Bool} {request : OperationRequest}
    (serving : proactor.stack ≠ []) (closing : proactor.Closing entries
      (.perform request flush room)) :
    (proactor.serve entries own flush room request).Stopping := by
  cases request with
  | submit op => exact stopping.submit closing serving
  | cancel op => exact stopping.cancel
  | stop => exact stopping.stop closing serving

/-- The calls under way change, but for the operations that are called. -/
theorem Stopping.restack (stopping : proactor.Stopping) (stack : List UringFrame)
    (moved : after = { proactor with
      stack := stack
      head := after.head
      dispatched := after.dispatched })
    (handled : stack.filterMap UringFrame.op = proactor.handled)
    (single : stack.tail.filterMap UringFrame.op = [] ∨ proactor.stopped = true)
    (outer : ∀ frame ∈ stack.getLast?, UringFrame.inLoop frame = true)
    (left : stack = [] → proactor.pendingOps = []) : after.Stopping := by
  rw [moved]
  refine ⟨stopping.filed.same rfl rfl rfl handled rfl, ?_, ?_, stopping.marked, outer, left⟩
  · intro stopped
    change ∀ op ∈ stack.filterMap UringFrame.op, _
    rw [handled]
    exact stopping.busy stopped
  · intro stopped
    refine single.resolve_right ?_
    change proactor.stopped = false at stopped
    rw [stopped]
    nofun

/-- A completion is dispatched by a loop that has just looked at it. -/
theorem Stopping.dispatchCqe (stopping : proactor.Stopping) {rest : List UringFrame}
    (stack : proactor.stack = .seeing :: rest) (cqe : Cqe) :
    (proactor.dispatchCqe cqe).Stopping := by
  have filed := stopping.filed.dispatchCqe cqe
  have marked (stopped : proactor.stopped = true) :=
    (proactor.moves_dispatchCqe cqe).marked stopping.filed (proactor.silent_dispatchCqe cqe)
      (stopping.marked stopped)
  have above (frame : UringFrame) :
      ∀ last ∈ (frame :: proactor.stack).getLast?, UringFrame.inLoop last = true := by
    refine outer_cons (fun none' => ?_) stopping.outer
    rw [stack] at none'
    cases none'
  have single (stopped : proactor.stopped = false) :
      proactor.stack.filterMap UringFrame.op = [] := by
    have single := stopping.single stopped
    rw [stack] at single ⊢
    exact single
  rcases proactor.dispatchCqe_cases cqe with same | same | ⟨op, cancelled, _, _, idle, same⟩
  · rw [same]
    exact stopping
  · rw [same] at filed marked ⊢
    exact ⟨filed, stopping.busy, single, marked, above _, nofun⟩
  · rw [same] at filed marked ⊢
    refine ⟨filed, ?_, single, marked, above _, nofun⟩
    intro stopped other inside
    rcases List.mem_cons.mp inside with rfl | inside
    · exact idle
    · exact stopping.busy stopped other inside

/-- Below a frame of a loop. -/
theorem Stopping.below (stopping : proactor.Stopping) {frame : UringFrame}
    {rest : List UringFrame} (stack : proactor.stack = frame :: rest) :
    (∀ last ∈ rest.getLast?, UringFrame.inLoop last = true) ∧
      (rest.filterMap UringFrame.op = [] ∨ proactor.stopped = true) := by
  refine ⟨?_, ?_⟩
  · have outer := stopping.outer
    rw [stack] at outer
    exact outer_tail outer
  · cases stopped : proactor.stopped with
    | true => exact .inr rfl
    | false =>
        have single := stopping.single stopped
        rw [stack] at single
        exact .inl single

theorem filterMap_tail {rest : List UringFrame} (none' : rest.filterMap UringFrame.op = []) :
    rest.tail.filterMap UringFrame.op = [] :=
  List.filterMap_eq_nil_iff.mpr fun frame inside =>
    List.filterMap_eq_nil_iff.mp none' frame (List.mem_of_mem_tail inside)

/-- The last call in the stack is that of the loop of `run`. -/
theorem Stopping.ne_nil (stopping : proactor.Stopping) {frame : UringFrame}
    {rest : List UringFrame} (stack : proactor.stack = frame :: rest)
    (inner : frame.inLoop = false) : rest ≠ [] := by
  rintro rfl
  have outer := stopping.outer
  rw [stack] at outer
  have inside := outer frame rfl
  rw [inner] at inside
  cases inside

theorem Stopping.proceed (stopping : proactor.Stopping) {room : Bool}
    (goes : proactor.proceed spin entries room = some after) : after.Stopping := by
  have handled {frame : UringFrame} {rest : List UringFrame}
      (stack : proactor.stack = frame :: rest) (none' : frame.op = none) :
      rest.filterMap UringFrame.op = proactor.handled := by
    rw [UringOperations.handled, stack, List.filterMap_cons_none none']
  have filed := stopping.filed.proceed goes
  unfold UringOperations.proceed at goes
  split at goes
  · cases goes
  · rename_i rest stack
    obtain ⟨outer, single⟩ := stopping.below stack
    have inner := handled stack rfl
    have peeking := @outer_cons .peeking rest (fun _ => rfl) outer
    cases goes
    split_ifs with running spins empty
    · exact stopping.restack (.reading false :: .peeking :: rest) rfl inner
        single (outer_cons (fun absurd => by cases absurd) peeking) (fun absurd => by cases absurd)
    · exact stopping.restack (.peeking :: rest) rfl inner single peeking
        (fun absurd => by cases absurd)
    · exact stopping.restack rest rfl inner (single.imp_left filterMap_tail)
        outer fun _ => empty
    · have flushed := stopping.sends (sends_flush proactor)
      exact flushed.restack (.peeking :: rest) rfl inner single peeking
        (fun absurd => by cases absurd)
  · rename_i rest stack
    obtain ⟨outer, single⟩ := stopping.below stack
    have inner := handled stack rfl
    cases goes
    split
    · exact stopping.restack (.looping :: rest) rfl inner single
        (outer_cons (fun _ => rfl) outer) (fun absurd => by cases absurd)
    · have looked : Stopping { proactor with
          stack := .seeing :: rest
          dispatched := proactor.dispatched ++ [proactor.head] } :=
        stopping.restack (.seeing :: rest) rfl inner single
          (outer_cons (fun _ => rfl) outer) (fun absurd => by cases absurd)
      exact looked.dispatchCqe rfl _
  · rename_i rest stack
    obtain ⟨outer, single⟩ := stopping.below stack
    have inner := handled stack rfl
    cases goes
    exact stopping.restack (.peeking :: rest) rfl inner single
      (outer_cons (fun _ => rfl) outer) (fun absurd => by cases absurd)
  · rename_i rearms rest stack
    obtain ⟨outer, single⟩ := stopping.below stack
    have inner := handled stack rfl
    have some' := stopping.ne_nil stack rfl
    have read : Stopping { proactor with stack := rest } :=
      stopping.restack rest rfl inner (single.imp_left filterMap_tail)
        outer fun none' => absurd none' some'
    cases goes
    split_ifs
    · obtain ⟨data, sends, -⟩ := sends_rearmWakeup entries
        { proactor with stack := rest } room
      exact read.sends sends
    · exact read
  · rename_i op rest stack
    obtain ⟨outer, single⟩ := stopping.below stack
    have some' := stopping.ne_nil stack rfl
    have own : op ∈ proactor.handled := by
      rw [UringOperations.handled, stack]
      exact List.mem_cons_self ..
    cases goes
    refine ⟨filed, ?_, ?_, ?_, outer, fun none' => absurd none' some'⟩
    · intro stopped other inside
      rcases single with none' | stopped'
      · change other ∈ rest.filterMap UringFrame.op at inside
        rw [none'] at inside
        cases inside
      · exact Bool.noConfusion (stopped'.symm.trans stopped)
    · intro stopped
      rcases single with none' | stopped'
      · exact filterMap_tail none'
      · exact Bool.noConfusion (stopped'.symm.trans stopped)
    · intro stopped other inside
      have differ : other ≠ op := by
        rintro rfl
        exact stopping.filed.apart other own inside
      exact (Function.update_of_ne differ ..).trans (stopping.marked stopped other inside)

theorem Stopping.step (stopping : proactor.Stopping) (closing : proactor.Closing entries action)
    (step : proactor.Step spin entries action after) : after.Stopping := by
  cases step with
  | complete inside =>
      exact ⟨stopping.filed.same rfl rfl rfl rfl rfl, stopping.busy, stopping.single,
        stopping.marked, stopping.outer, stopping.left⟩
  | perform top =>
      refine stopping.serve ?_ closing
      rcases top with ⟨-, rearms, stack⟩ | ⟨-, op, stack⟩
      · rw [stack]
        nofun
      · rw [stack]
        nofun
  | flush => exact stopping.sends (sends_flush proactor)
  | proceed goes => exact stopping.proceed goes

/-- In a run in which nothing is accepted behind the Stop, it leaves nothing behind. -/
theorem shutsDown_of_trace {steps : List UringStep}
    (trace : Trace (act spin entries) (initial spin) steps proactor)
    (closing : Along (act spin entries) (Closing entries) (initial spin) steps) :
    proactor.ShutsDown := by
  have stopping : proactor.Stopping := by
    refine trace.invariant_along Stopping ?_ (initial_stopping spin) closing
    intro state action after stopping met happens
    exact stopping.step met (step_of_act happens)
  exact stopping.shutsDown

end UringOperations

/-! ## Both backends -/

/-- In a run of either backend in which nothing is accepted behind the Stop, every operation
that is pending after it is being cancelled, and every operation that was accepted has got its
call when `run` returns. -/
theorem shutdown_complete (wakeup : ℤ) (spin : Bool) (entries : ℕ) :
    (∀ (steps : List EpollStep) (proactor : EpollOperations),
        Trace (EpollOperations.act wakeup) (.initial wakeup) steps proactor →
        Along (EpollOperations.act wakeup) EpollOperations.Closing (.initial wakeup) steps →
        proactor.ShutsDown) ∧
      ∀ (steps : List UringStep) (proactor : UringOperations),
        Trace (UringOperations.act spin entries) (.initial spin) steps proactor →
        Along (UringOperations.act spin entries) (UringOperations.Closing entries)
          (.initial spin) steps → proactor.ShutsDown :=
  ⟨fun _ _ => EpollOperations.shutsDown_of_trace,
    fun _ _ => UringOperations.shutsDown_of_trace⟩

namespace UringOperations

/-- An operation. -/
def only : IoOperation := ⟨0, .read, 5⟩

/-- A Submit and then a Stop are read in one go. -/
def submitThenStop : List UringStep :=
  [.proceed true, .perform (.submit only) true fun _ => true, .perform .stop true fun _ => true,
    .proceed true]

/-- A Stop and then a Submit are read in one go. -/
def stopThenSubmit : List UringStep :=
  [.proceed true, .perform .stop true fun _ => true,
    .perform (.submit only) true fun _ => true, .proceed true]

end UringOperations

/-- The operation that is submitted before the Stop is being cancelled. -/
theorem shutdown_complete_submitThenStop : ∃ proactor : UringOperations,
    proactor.pendingOps = [UringOperations.only] ∧ proactor.Drained ∧ proactor.ShutsDown := by
  have run : ((follow (UringOperations.act true 8) (.initial true)
      UringOperations.submitThenStop).any fun proactor =>
      proactor.pendingOps == [UringOperations.only] && (proactor.stopped &&
        proactor.stack == [.peeking])) = true := by
    decide +kernel
  have checked : checks (UringOperations.act true 8)
      (fun state action => decide (state.Closing 8 action)) (.initial true)
      UringOperations.submitThenStop = true := by
    decide +kernel
  obtain ⟨proactor, trace, tested⟩ := Trace.exists_of_follow run
  simp only [Bool.and_eq_true, beq_iff_eq] at tested
  obtain ⟨pendingOps, stopped, stack⟩ := tested
  refine ⟨proactor, pendingOps, ⟨stopped, ?_⟩, (shutdown_complete 0 true 8).2 _ proactor trace
    (along_of_checks (fun _ _ met => of_decide_eq_true met) checked)⟩
  rw [stack]
  exact fun _ => nofun

/-- The operation that is submitted behind the Stop is pending, and nobody cancels it. -/
theorem submitted_behind_stop :
    ¬((∀ (wakeup : ℤ) (steps : List EpollStep) (proactor : EpollOperations),
        Trace (EpollOperations.act wakeup) (.initial wakeup) steps proactor →
        proactor.ShutsDown) ∧
      ∀ (spin : Bool) (entries : ℕ) (steps : List UringStep) (proactor : UringOperations),
        Trace (UringOperations.act spin entries) (.initial spin) steps proactor →
        proactor.ShutsDown) := by
  rintro ⟨-, always⟩
  have run : ((follow (UringOperations.act true 8) (.initial true)
      UringOperations.stopThenSubmit).any fun proactor =>
      proactor.pendingOps == [UringOperations.only] && (proactor.stopped &&
        (proactor.stack == [.peeking] && proactor.state UringOperations.only == .submitted))) =
          true := by
    decide +kernel
  obtain ⟨proactor, trace, tested⟩ := Trace.exists_of_follow run
  simp only [Bool.and_eq_true, beq_iff_eq] at tested
  obtain ⟨pendingOps, stopped, stack, state⟩ := tested
  have cancelling := (always true 8 _ proactor trace).1
    ⟨stopped, by rw [stack]; exact fun _ => nofun⟩ UringOperations.only
    (by rw [pendingOps]; exact List.mem_singleton_self _)
  rw [state] at cancelling
  cases cancelling

/-- With epoll nobody calls its handler. -/
theorem forgotten_behind_stop : ∃ (steps : List EpollStep) (proactor : EpollOperations),
    Trace (EpollOperations.act 3) (.initial 3) steps proactor ∧ proactor.phase = .returned ∧
      proactor.history = [.submitted UringOperations.only true] := by
  have run : ((follow (EpollOperations.act 3) (.initial 3)
      (([.wait [⟨3, epollIn, 0⟩] true, .dispatch 0 none, .perform .stop true none] :
        List EpollStep) ++ List.replicate 257 EpollStep.proceed ++
          ([.perform (.submit UringOperations.only) true none, .proceed, .sweep, .leave] :
            List EpollStep))).any fun proactor => proactor.phase == .returned &&
      proactor.history == [.submitted UringOperations.only true]) = true := by
    decide +kernel
  obtain ⟨proactor, trace, tested⟩ := Trace.exists_of_follow run
  simp only [Bool.and_eq_true, beq_iff_eq] at tested
  exact ⟨_, proactor, trace, tested.1, tested.2⟩

end Join
