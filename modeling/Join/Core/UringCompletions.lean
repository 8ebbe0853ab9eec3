import Join.Core.UringListing

/-!
# The completions of the io_uring proactor

Each submission of an operation has one completion, and the operation is listed until that is
dispatched; so its handler is called once, if every completion is dispatched once. The loop
looks at the oldest completion that is not marked as seen, and marks it when `dispatchCqe` has
returned. A handler that stops the proactor while other operations are pending runs a second
loop before that: it finds the same completion again and calls the handler again, and marks
it; the first loop then marks another one, which nobody has looked at. Otherwise the
completions are dispatched one after the other.
-/

set_option autoImplicit false

namespace Join

open Library

namespace UringOperations

variable {proactor after : UringOperations} {spin : Bool} {entries : ℕ} {action : UringStep}

/-! ## The invariant -/

/-- The submissions that are not completed, and the completions that are not dispatched. -/
def tokens (proactor : UringOperations) : List UringData :=
  proactor.outbox ++ (proactor.completions.drop proactor.dispatched.length).map Cqe.data

/-- The calls under way when no loop runs inside a handler but one that returns at once. -/
inductive Flat : List UringFrame → Prop where
  | returned : Flat []
  | looping : Flat [.looping]
  | peeking : Flat [.peeking]
  | seeing : Flat [.seeing]
  | polling (rearms : Bool) : Flat [.reading rearms, .peeking]
  | reading (rearms : Bool) : Flat [.reading rearms, .seeing]
  | handling (op : IoOperation) : Flat [.handling op, .seeing]
  | nested (op : IoOperation) : Flat [.looping, .handling op, .seeing]

/-- Every operation that is listed has a submission or a completion that is to be dispatched, and
the completions are dispatched in order. -/
structure Orderly (proactor : UringOperations) : Prop where
  filed : proactor.Filed
  busy : ∀ op ∈ proactor.handled, proactor.state op ≠ .idle
  once : proactor.history.Once
  balance : ∀ op, proactor.tokens.count (.operation op) = proactor.pendingOps.count op
  order : proactor.dispatched = List.range (proactor.head + proactor.stack.count .seeing)
  bounded : proactor.dispatched.length ≤ proactor.completions.length
  flat : Flat proactor.stack
  empty : ∀ op rest, proactor.stack = .looping :: .handling op :: rest →
    proactor.running = false ∧ proactor.pendingOps = []

/-- The proactor is not stopped by a handler while an operation is pending. -/
def Calm (proactor : UringOperations) : UringStep → Prop
  | .perform .stop _ _ => ∀ op ∈ proactor.stack.head?.bind UringFrame.op, proactor.pendingOps = []
  | _ => True

instance (proactor : UringOperations) : (action : UringStep) → Decidable (proactor.Calm action)
  | .perform .stop _ _ =>
      inferInstanceAs (Decidable (∀ op ∈ proactor.stack.head?.bind UringFrame.op, _))
  | .perform (.submit _) _ _ | .perform (.cancel _) _ _ | .complete _ _ | .flush | .proceed _ =>
      inferInstanceAs (Decidable True)

/-! ## One step -/

theorem initial_orderly (spin : Bool) : (initial spin).Orderly where
  filed := initial_filed spin
  busy := fun _ => nofun
  once := trivial
  balance := by
    intro op
    cases spin with
    | true => rfl
    | false => rfl
  order := rfl
  bounded := Nat.le_refl _
  flat := .looping
  empty := fun _ _ => nofun

/-- A step lists no operation whose handler is running. -/
theorem Moves.fresh (moves : proactor.Moves after)
    (busy : ∀ op ∈ proactor.handled, proactor.state op ≠ .idle) :
    ∀ op accepted, after.history = .submitted op accepted :: proactor.history →
      op ∉ proactor.handled := by
  intro op accepted same
  cases moves with
  | same _ _ _ _ history => exact absurd (history.symm.trans same) (history_ne_cons op accepted)
  | mark _ _ _ _ history => exact absurd (history.symm.trans same) (history_ne_cons op accepted)
  | finish _ _ _ _ _ _ _ history =>
      exact absurd (history.symm.trans same) (history_ne_cons op accepted)
  | call _ _ _ _ _ _ _ _ history => cases List.head_eq_of_cons_eq (history.symm.trans same)
  | seat other valid idle _ _ _ _ history =>
      cases List.head_eq_of_cons_eq (history.symm.trans same)
      exact fun inside => busy op inside idle

/-- Submissions that are not for operations. -/
theorem Orderly.sends (orderly : proactor.Orderly) {data : List UringData}
    (sends : proactor.Sends after data) (silent : ∀ op, .operation op ∉ data) : after.Orderly := by
  have same := sends.same
  have filed := orderly.filed.sends sends
  have balance : ∀ op, after.tokens.count (.operation op) = after.pendingOps.count op := by
    intro op
    have counted := sends.balance.count_eq (.operation op)
    rw [List.count_append, List.count_eq_zero_of_not_mem (silent op), Nat.zero_add] at counted
    have kept : after.tokens.count (.operation op) = proactor.tokens.count (.operation op) := by
      rw [tokens, tokens, List.count_append, List.count_append, counted, same]
    rw [kept, orderly.balance op, same]
  rw [same] at filed balance ⊢
  exact ⟨filed, orderly.busy, orderly.once, balance, orderly.order, orderly.bounded, orderly.flat,
    orderly.empty⟩

/-- Some operations are marked, or the running flag is cleared. -/
theorem Orderly.mark (orderly : proactor.Orderly) {marked : IoOperation → OperationState}
    (marks : Marks proactor.state marked) (running stopped : Bool)
    (clears : running = false ∨ running = proactor.running) :
    ({ proactor with state := marked, running := running, stopped := stopped } :
      UringOperations).Orderly where
  filed := orderly.filed.quiet (.mark rfl rfl marks rfl rfl) history_ne_cons
  busy := by
    intro op inside
    rcases marks op with kept | ⟨cancelling, -⟩
    · exact kept.trans_ne (orderly.busy op inside)
    · exact cancelling.trans_ne nofun
  once := orderly.once
  balance := orderly.balance
  order := orderly.order
  bounded := orderly.bounded
  flat := orderly.flat
  empty := by
    intro op rest top
    obtain ⟨still, none'⟩ := orderly.empty op rest top
    refine ⟨?_, none'⟩
    rcases clears with cleared | kept
    · exact cleared
    · exact kept.trans still

/-- Another call is on top of the stack. -/
theorem Orderly.restack (orderly : proactor.Orderly) {stack : List UringFrame} (flat : Flat stack)
    (handled : stack.filterMap UringFrame.op = proactor.handled)
    (seeing : stack.count .seeing = proactor.stack.count .seeing)
    (empty : ∀ op rest, stack = .looping :: .handling op :: rest →
      proactor.running = false ∧ proactor.pendingOps = []) :
    ({ proactor with stack := stack } : UringOperations).Orderly where
  filed := orderly.filed.same rfl rfl rfl handled rfl
  busy := by
    change ∀ op ∈ stack.filterMap UringFrame.op, _
    rw [handled]
    exact orderly.busy
  once := orderly.once
  balance := orderly.balance
  order := by
    change _ = List.range (_ + stack.count .seeing)
    rw [seeing]
    exact orderly.order
  bounded := orderly.bounded
  flat := flat
  empty := empty

/-- An operation is submitted. -/
theorem Orderly.submit (orderly : proactor.Orderly) (op : IoOperation) (flush room : Bool)
    (serving : ∀ rest, proactor.stack ≠ .looping :: rest) :
    (proactor.submitOperation entries op flush room).2.Orderly := by
  rcases proactor.submitOperation_cases entries op flush room with
    refused | ⟨valid, idle, sent, sends, listed⟩
  · exact orderly.sends refused fun _ => nofun
  have moves : proactor.Moves (proactor.submitOperation entries op flush room).2 :=
    moves_serve false flush (fun _ => room) (.submit op)
  have filed := orderly.filed.move moves (moves.fresh orderly.busy)
  rw [listed] at filed ⊢
  have new : op ∉ proactor.pendingOps := fun inside => orderly.filed.live op inside idle
  have same := sends.same
  refine ⟨filed, ?_, ?_, ?_, ?_, ?_, ?_, ?_⟩
  · rw [same]
    intro other inside
    by_cases here : other = op
    · rw [here]
      exact (Function.update_self ..).trans_ne nofun
    · exact (Function.update_of_ne here ..).trans_ne (orderly.busy other inside)
  · refine ⟨?_, orderly.once⟩
    by_contra open'
    exact new ((orderly.filed.listed op).mp (Option.isSome_iff_ne_none.mpr open'))
  · intro other
    have counted := sends.balance.count_eq (.operation other)
    rw [List.count_append] at counted
    have completions : sent.completions = proactor.completions := by rw [same]
    have dispatched : sent.dispatched = proactor.dispatched := by rw [same]
    change (sent.outbox ++ (sent.completions.drop sent.dispatched.length).map Cqe.data).count
      (.operation other) = (proactor.pendingOps ++ [op]).count other
    rw [List.count_append, counted, List.count_append, ← orderly.balance other, tokens,
      List.count_append, completions, dispatched]
    by_cases here : op = other
    · rw [here, List.count_singleton_self, List.count_singleton_self]
      omega
    · have apart : ([.operation op] : List UringData).count (.operation other) = 0 := by
        refine List.count_eq_zero_of_not_mem fun inside => ?_
        cases List.mem_singleton.mp inside
        exact here rfl
      have apart' : [op].count other = 0 :=
        List.count_eq_zero_of_not_mem fun inside => here (List.mem_singleton.mp inside).symm
      rw [apart, apart']
      omega
  · rw [same]
    exact orderly.order
  · rw [same]
    exact orderly.bounded
  · rw [same]
    exact orderly.flat
  · rw [same]
    exact fun other rest top => absurd top (serving _)

/-- An operation is cancelled. -/
theorem Orderly.cancel (orderly : proactor.Orderly) (op : IoOperation) (flush room : Bool) :
    (proactor.cancelOperation entries op flush room).2.Orderly := by
  rcases proactor.cancelOperation_cases entries op flush room with
    ⟨refused, -⟩ | ⟨submitted, sent, sends, marked⟩
  · exact orderly.sends refused fun _ => nofun
  · have filled : sent.Orderly :=
      orderly.sends sends fun other inside => absurd (List.mem_singleton.mp inside) nofun
    have state : sent.state = proactor.state := by rw [sends.same]
    rw [marked]
    refine filled.mark ?_ sent.running sent.stopped (.inr rfl)
    intro other
    rw [state]
    by_cases here : other = op
    · rw [here]
      exact .inr ⟨Function.update_self .., submitted⟩
    · exact .inl (Function.update_of_ne here ..)

/-- All operations are cancelled, and the running flag is cleared. -/
theorem Orderly.cancelAll (orderly : proactor.Orderly) (entries : ℕ) (room : IoOperation → Bool) :
    ({ proactor with running := false, stopped := true }.cancelAllOperations entries
      room).Orderly := by
  have cleared : ({ proactor with running := false, stopped := true } :
      UringOperations).Orderly :=
    orderly.mark (fun _ => .inl rfl) false true (.inl rfl)
  obtain ⟨sent, data, marked, sends, silent, marks, left, -⟩ := cancelEach_cases entries room
    proactor.pendingOps { proactor with running := false, stopped := true }
  have filled : sent.Orderly := cleared.sends sends silent
  have state : sent.state = proactor.state := by rw [sends.same]
  rw [cancelAllOperations, left]
  rw [← state] at marks
  exact filled.mark marks sent.running sent.stopped (.inr rfl)

/-- A request that is served for a command or in a handler. -/
theorem Orderly.serve (orderly : proactor.Orderly) {own flush : Bool}
    {room : IoOperation → Bool} {request : OperationRequest} {rest : List UringFrame}
    (top : own = false ∧ (∃ rearms, proactor.stack = .reading rearms :: rest) ∨
      own = true ∧ ∃ op, proactor.stack = .handling op :: rest)
    (calm : proactor.Calm (.perform request flush room)) :
    (proactor.serve entries own flush room request).Orderly := by
  have serving : ∀ rest, proactor.stack ≠ .looping :: rest := by
    rcases top with ⟨-, rearms, stack⟩ | ⟨-, op, stack⟩
    · rw [stack]
      exact fun _ absurd => (by cases absurd)
    · rw [stack]
      exact fun _ absurd => (by cases absurd)
  cases request with
  | submit op => exact orderly.submit op flush (room op) serving
  | cancel op => exact orderly.cancel op flush (room op)
  | stop =>
      rw [UringOperations.serve]
      have cancelled := orderly.cancelAll entries room
      rcases top with ⟨rfl, -⟩ | ⟨rfl, op, stack⟩
      · exact cancelled.sends (sends_flushIf _ flush) fun _ absurd => (by cases absurd)
      · have empty : proactor.pendingOps = [] := by
          refine calm op ?_
          rw [stack]
          exact rfl
        have unchanged : { proactor with running := false, stopped := true }.cancelAllOperations
            entries room = { proactor with running := false, stopped := true } := by
          rw [cancelAllOperations]
          change cancelEach entries room _ proactor.pendingOps = _
          rw [empty, cancelEach]
        rw [unchanged] at cancelled ⊢
        have flat := orderly.flat
        rw [stack] at flat
        cases flat with
        | handling op =>
            refine @Orderly.restack _ cancelled (.looping :: proactor.stack) ?_ rfl rfl ?_
            · rw [stack]
              exact .nested op
            · intro other rest' _
              exact ⟨rfl, empty⟩

/-- The kernel completes a submission. -/
theorem Orderly.complete (orderly : proactor.Orderly) {data : UringData} {result : ℤ}
    (inside : data ∈ proactor.inFlight) :
    ({ proactor with
        inFlight := proactor.inFlight.erase data
        completions := proactor.completions ++ [⟨data, result⟩] } :
      UringOperations).Orderly where
  filed := orderly.filed.same rfl rfl rfl rfl rfl
  busy := orderly.busy
  once := orderly.once
  balance := by
    intro op
    have positive : 0 < proactor.inFlight.count data := List.count_pos_iff.mpr inside
    rw [← orderly.balance op]
    change (proactor.prepared ++ proactor.inFlight.erase data ++
      ((proactor.completions ++ [(⟨data, result⟩ : Cqe)]).drop proactor.dispatched.length).map
        Cqe.data).count (.operation op) = (proactor.prepared ++ proactor.inFlight ++
      (proactor.completions.drop proactor.dispatched.length).map Cqe.data).count (.operation op)
    rw [List.drop_append_of_le_length orderly.bounded, List.map_append]
    simp only [List.count_append, List.count_erase, List.map_cons, List.map_nil,
      List.count_cons, List.count_nil]
    by_cases same : data = .operation op
    · subst same
      rw [if_pos (beq_self_eq_true _)]
      omega
    · rw [if_neg (by rwa [beq_iff_eq])]
      omega
  order := orderly.order
  bounded := by
    change _ ≤ (proactor.completions ++ [_]).length
    rw [List.length_append]
    exact Nat.le_trans orderly.bounded (Nat.le_add_right _ _)
  flat := orderly.flat
  empty := orderly.empty

/-- The oldest completion that is not marked as seen is dispatched. -/
theorem Orderly.peek (orderly : proactor.Orderly) {cqe : Cqe}
    (stack : proactor.stack = [.peeking])
    (oldest : proactor.completions[proactor.head]? = some cqe) :
    ({ proactor with
        stack := [.seeing]
        dispatched := proactor.dispatched ++ [proactor.head] }.dispatchCqe cqe).Orderly := by
  obtain ⟨bound, found⟩ := List.getElem?_eq_some_iff.mp oldest
  have none' : proactor.handled = [] := by
    rw [handled, stack]
    rfl
  have order : proactor.dispatched = List.range proactor.head := by
    have order := orderly.order
    rw [stack] at order
    exact order
  have length : proactor.dispatched.length = proactor.head := by rw [order, List.length_range]
  have filed : ({ proactor with
      stack := [.seeing]
      dispatched := proactor.dispatched ++ [proactor.head] } : UringOperations).Filed :=
    orderly.filed.same rfl rfl rfl none'.symm rfl
  have advanced : proactor.dispatched ++ [proactor.head] = List.range (proactor.head + 1) := by
    rw [order, List.range_succ]
  have bounded : (proactor.dispatched ++ [proactor.head]).length ≤ proactor.completions.length := by
    rw [List.length_append, length]
    exact bound
  -- What is still to be dispatched without this completion.
  have balance : ∀ op, (proactor.outbox ++ (proactor.completions.drop
      (proactor.dispatched ++ [proactor.head]).length).map Cqe.data).count (.operation op) +
        [cqe.data].count (.operation op) = proactor.pendingOps.count op := by
    intro op
    rw [← orderly.balance op, tokens, List.length_append, length, List.length_singleton,
      List.drop_eq_getElem_cons bound, found, List.map_cons, List.count_append,
      List.count_append, List.count_cons, List.count_cons, List.count_nil]
    omega
  have filed' := filed.dispatchCqe cqe
  unfold dispatchCqe at filed' ⊢
  split at filed'
  · rename_i cancel
    have silent (op : IoOperation) : [cqe.data].count (.operation op) = 0 := by
      rw [cancel]
      rfl
    refine ⟨filed', fun _ absurd => (by cases absurd), orderly.once, ?_, advanced, bounded, .seeing,
      fun _ _ absurd => (by cases absurd)⟩
    intro op
    have counted := balance op
    rw [silent op] at counted
    exact counted
  · rename_i wakeup
    have silent (op : IoOperation) : [cqe.data].count (.operation op) = 0 := by
      rw [wakeup]
      rfl
    refine ⟨filed', fun _ absurd => (by cases absurd), orderly.once, ?_, advanced, bounded,
      .reading true, fun _ _ absurd => (by cases absurd)⟩
    intro op
    have counted := balance op
    rw [silent op] at counted
    exact counted
  · rename_i op operation
    have own : [cqe.data].count (.operation op) = 1 := by
      rw [operation, List.count_singleton_self]
    have inside : op ∈ proactor.pendingOps := by
      refine List.count_pos_iff.mp ?_
      rw [← balance op, own]
      exact Nat.succ_pos _
    have live := orderly.filed.live op inside
    dsimp only at filed' ⊢
    rw [if_neg live] at filed' ⊢
    obtain ⟨pendingOps, index, unlisted, -, permuted⟩ := @unlist_cases
      { proactor with
        stack := [.seeing]
        dispatched := proactor.dispatched ++ [proactor.head] } orderly.filed.roster op
    unfold endOperation at filed' ⊢
    rw [unlisted] at filed' ⊢
    refine ⟨filed', ?_, ⟨(orderly.filed.listed op).mpr inside, orderly.once⟩, ?_, advanced,
      bounded, .handling op, fun _ _ absurd => (by cases absurd)⟩
    · intro other busy
      cases List.mem_singleton.mp busy
      exact live
    · intro other
      have counted := balance other
      change (proactor.outbox ++ (proactor.completions.drop
        (proactor.dispatched ++ [proactor.head]).length).map Cqe.data).count (.operation other) =
          pendingOps.count other
      rw [permuted.count_eq, List.count_erase]
      change _ = proactor.pendingOps.count other - _
      by_cases same : op = other
      · subst same
        rw [own] at counted
        rw [if_pos (beq_self_eq_true _)]
        omega
      · have apart : [cqe.data].count (.operation other) = 0 := by
          rw [operation]
          refine List.count_eq_zero_of_not_mem fun there => ?_
          cases List.mem_singleton.mp there
          exact same rfl
        rw [if_neg (by rwa [beq_iff_eq])]
        omega

/-- The call on top of the stack goes on. -/
theorem Orderly.proceed (orderly : proactor.Orderly) {room : Bool}
    (goes : proactor.proceed spin entries room = some after) : after.Orderly := by
  have flat := orderly.flat
  have filed := orderly.filed.proceed goes
  unfold UringOperations.proceed at goes
  split at goes
  · cases goes
  · rename_i rest stack
    cases goes
    rw [stack] at flat
    split_ifs with running spins empty
    · cases flat with
      | looping =>
          refine orderly.restack (.polling false) ?_ ?_ fun _ _ absurd => (by cases absurd)
          · rw [handled, stack]
            rfl
          · rw [stack]
            rfl
      | nested op =>
          rw [(orderly.empty op _ stack).1] at running
          cases running
    · cases flat with
      | looping =>
          refine orderly.restack .peeking ?_ ?_ fun _ _ absurd => (by cases absurd)
          · rw [handled, stack]
            rfl
          · rw [stack]
            rfl
      | nested op =>
          rw [(orderly.empty op _ stack).1] at running
          cases running
    · refine orderly.restack ?_ ?_ ?_ ?_
      · cases flat with
        | looping => exact .returned
        | nested op => exact .handling op
      · rw [handled, stack]
        rfl
      · rw [stack]
        rfl
      · intro op more top
        cases flat with
        | looping => cases top
        | nested other => cases top
    · cases flat with
      | looping =>
          have flushed := orderly.sends (sends_flush proactor) fun _ absurd => (by cases absurd)
          refine flushed.restack .peeking ?_ ?_ fun _ _ absurd => (by cases absurd)
          · rw [handled]
            change _ = proactor.stack.filterMap UringFrame.op
            rw [stack]
            rfl
          · change _ = proactor.stack.count .seeing
            rw [stack]
            rfl
      | nested op => exact absurd (orderly.empty op _ stack).2 empty
  · rename_i rest stack
    cases goes
    rw [stack] at flat
    cases flat with
    | peeking =>
        split
        · refine orderly.restack .looping ?_ ?_ fun _ _ absurd => (by cases absurd)
          · rw [handled, stack]
            rfl
          · rw [stack]
            rfl
        · rename_i cqe oldest
          exact orderly.peek stack oldest
  · rename_i rest stack
    cases goes
    rw [stack] at flat
    cases flat with
    | seeing =>
        have order := orderly.order
        rw [stack] at order
        exact ⟨filed, fun _ absurd => (by cases absurd), orderly.once, orderly.balance, order,
          orderly.bounded, .peeking, fun _ _ absurd => (by cases absurd)⟩
  · rename_i rearms rest stack
    have below : Flat rest := by
      rw [stack] at flat
      cases flat with
      | polling rearms => exact .peeking
      | reading rearms => exact .seeing
    have read : ({ proactor with stack := rest } : UringOperations).Orderly := by
      refine orderly.restack below ?_ ?_ ?_
      · rw [handled, stack]
        rfl
      · rw [stack]
        rfl
      · intro op more top
        rw [stack] at flat
        cases flat with
        | polling rearms => cases top
        | reading rearms => cases top
    cases goes
    split_ifs
    · obtain ⟨data, sends, silent⟩ := sends_rearmWakeup entries
        { proactor with stack := rest } room
      exact read.sends sends silent
    · exact read
  · rename_i op rest stack
    cases goes
    have order := orderly.order
    rw [stack] at flat order
    cases flat with
    | handling op =>
        exact ⟨filed, fun _ absurd => (by cases absurd), orderly.once, orderly.balance, order,
          orderly.bounded, .seeing, fun _ _ absurd => (by cases absurd)⟩

theorem Orderly.step (orderly : proactor.Orderly) (calm : proactor.Calm action)
    (step : proactor.Step spin entries action after) : after.Orderly := by
  cases step with
  | complete inside => exact orderly.complete inside
  | perform top => exact orderly.serve top calm
  | flush => exact orderly.sends (sends_flush proactor) fun _ => nofun
  | proceed goes => exact orderly.proceed goes

/-! ## Runs -/

/-- Every handler is called at most once for a submit, the completions are dispatched one after
the other, each once, before they are marked as seen, and the operations that are listed know
their places. -/
def Consumed (proactor : UringOperations) : Prop :=
  proactor.history.Once ∧
    (proactor.dispatched = List.range proactor.dispatched.length ∧
      proactor.head ≤ proactor.dispatched.length ∧
      proactor.dispatched.length ≤ proactor.head + 1) ∧
    proactor.pendingOps.Nodup ∧
    ∀ (i : ℕ) (op : IoOperation), proactor.pendingOps[i]? = some op → proactor.index op = i

theorem Flat.count_le {stack : List UringFrame} (flat : Flat stack) : stack.count .seeing ≤ 1 := by
  cases flat <;> simp

theorem Orderly.consumed (orderly : proactor.Orderly) : proactor.Consumed := by
  have length : proactor.dispatched.length = proactor.head + proactor.stack.count .seeing := by
    rw [orderly.order, List.length_range]
  have one := orderly.flat.count_le
  refine ⟨orderly.once, ⟨?_, ?_, ?_⟩, orderly.filed.roster.distinct, orderly.filed.roster.known⟩
  · rw [length]
    exact orderly.order
  · omega
  · omega

/-- In a run in which no handler stops the proactor while an operation is pending, every
completion is consumed once. -/
theorem completions_consumed {steps : List UringStep}
    (trace : Trace (act spin entries) (initial spin) steps proactor)
    (calm : Along (act spin entries) Calm (initial spin) steps) : proactor.Consumed := by
  have orderly : proactor.Orderly := by
    refine trace.invariant_along Orderly ?_ (initial_orderly spin) calm
    intro state action after orderly met happens
    exact orderly.step met (step_of_act happens)
  exact orderly.consumed

/-- Two operations. -/
def first : IoOperation := ⟨0, .read, 5⟩
def second : IoOperation := ⟨1, .read, 6⟩

/-- Both operations are submitted, and the first is completed and dispatched. -/
def dispatchedFirst : List UringStep :=
  [.proceed true, .perform (.submit first) true fun _ => true,
    .perform (.submit second) true fun _ => true, .proceed true, .complete (.operation first) 1,
    .proceed true]

/-- The handler returns, and the loop looks for another completion. -/
theorem completions_consumed_first : ∃ proactor : UringOperations,
    proactor.dispatched = [0] ∧ proactor.head = 1 ∧ proactor.pendingOps = [second] ∧
      proactor.Consumed := by
  have run : ((follow (act true 8) (initial true)
      (dispatchedFirst ++ [.proceed true, .proceed true, .proceed true])).any fun proactor =>
      proactor.dispatched == [0] && (proactor.head == 1 && proactor.pendingOps == [second])) =
        true := by
    decide +kernel
  have checked : checks (act true 8) (fun state action => decide (state.Calm action))
      (initial true) (dispatchedFirst ++ [.proceed true, .proceed true, .proceed true]) = true := by
    decide +kernel
  obtain ⟨proactor, trace, tested⟩ := Trace.exists_of_follow run
  simp only [Bool.and_eq_true, beq_iff_eq] at tested
  obtain ⟨dispatched, head, pendingOps⟩ := tested
  exact ⟨proactor, dispatched, head, pendingOps,
    completions_consumed trace (along_of_checks (fun _ _ met => of_decide_eq_true met) checked)⟩

/-- The handler of the first operation stops the proactor, and is called again. -/
theorem called_again : ¬∀ (spin : Bool) (entries : ℕ) (steps : List UringStep)
    (proactor : UringOperations),
    Trace (act spin entries) (initial spin) steps proactor → proactor.Consumed := by
  intro always
  have run : ((follow (act true 8) (initial true) (dispatchedFirst ++
      [.perform .stop false fun _ => true, .proceed true, .proceed true])).any fun proactor =>
      proactor.history == [.called first 1 false, .called first 1 false, .submitted second true,
        .submitted first true]) = true := by
    decide +kernel
  obtain ⟨proactor, trace, tested⟩ := Trace.exists_of_follow run
  have once := (always true 8 _ proactor trace).1
  rw [eq_of_beq tested] at once
  have answered := once.1
  rw [OperationHistory.unanswered_called] at answered
  cases answered

end UringOperations

end Join
