import Join.Core.UringOperations
import Join.Library.Roster
import Join.Library.Trace

/-!
# The pending operations of the io_uring proactor

An operation is listed in `_pendingOps` from its submit to the completion that is dispatched for
it, and knows its place there. It stays so as long as no operation is submitted while its own
handler runs.
-/

set_option autoImplicit false

namespace Join

open Library

/-- The operation whose handler is called. -/
def UringFrame.op : UringFrame → Option IoOperation
  | .handling op => some op
  | .looping | .peeking | .seeing | .reading _ => none

namespace UringOperations

variable {proactor after : UringOperations}

/-! ## Submissions -/

/-- The submissions that are not completed. -/
def outbox (proactor : UringOperations) : List UringData := proactor.prepared ++ proactor.inFlight

/-- Submissions were prepared, and some handed to the kernel; nothing else has changed. -/
structure Sends (proactor after : UringOperations) (data : List UringData) : Prop where
  same : after = { proactor with prepared := after.prepared, inFlight := after.inFlight }
  balance : after.outbox.Perm (data ++ proactor.outbox)

theorem Sends.refl (proactor : UringOperations) : proactor.Sends proactor [] := ⟨rfl, .refl _⟩

theorem Sends.trans {between : UringOperations} {data more : List UringData}
    (first : proactor.Sends between data) (second : between.Sends after more) :
    proactor.Sends after (more ++ data) := by
  refine ⟨?_, ?_⟩
  · have same := second.same
    rw [first.same] at same
    exact same
  · refine second.balance.trans ?_
    rw [List.append_assoc]
    exact first.balance.append_left more

theorem sends_flush (proactor : UringOperations) : proactor.Sends proactor.flush [] := by
  refine ⟨rfl, ?_⟩
  change (proactor.inFlight ++ proactor.prepared).Perm (proactor.prepared ++ proactor.inFlight)
  exact List.perm_append_comm

theorem sends_flushIf (proactor : UringOperations) (flush : Bool) :
    proactor.Sends (proactor.flushIf flush) [] := by
  cases flush with
  | true => exact sends_flush proactor
  | false => exact .refl proactor

theorem sends_prepare (proactor : UringOperations) (data : UringData) :
    proactor.Sends (proactor.prepare data) [data] := by
  refine ⟨rfl, ?_⟩
  change ((proactor.prepared ++ [data]) ++ proactor.inFlight).Perm
    (data :: (proactor.prepared ++ proactor.inFlight))
  rw [List.append_assoc]
  exact List.perm_middle

theorem sends_getSqe (entries : ℕ) (proactor : UringOperations) (room : Bool) :
    proactor.Sends (proactor.getSqe entries room).2 [] := by
  unfold getSqe
  split_ifs
  · exact .refl proactor
  · exact sends_flush proactor

/-! ## What the methods change -/

/-- A submit is refused, or lists the operation. -/
theorem submitOperation_cases (entries : ℕ) (proactor : UringOperations) (op : IoOperation)
    (flush room : Bool) :
    proactor.Sends (proactor.submitOperation entries op flush room).2 [] ∨
      0 ≤ op.fd ∧ proactor.state op = .idle ∧ ∃ sent, proactor.Sends sent [.operation op] ∧
        (proactor.submitOperation entries op flush room).2 =
          { sent with
            state := Function.update proactor.state op .submitted
            index := Function.update proactor.index op proactor.pendingOps.length
            pendingOps := proactor.pendingOps ++ [op]
            history := .submitted op true :: proactor.history } := by
  unfold submitOperation
  split_ifs with negative busy
  · exact .inl (.refl proactor)
  · exact .inl (.refl proactor)
  · dsimp only
    have found := sends_getSqe entries proactor room
    split_ifs with full
    · exact .inl found
    · have filled := (found.trans (sends_prepare _ (.operation op))).trans (sends_flushIf _ flush)
      refine .inr ⟨Int.not_lt.mp negative, not_not.mp busy, _, filled, ?_⟩
      have same := found.same
      generalize (proactor.getSqe entries room).2 = ready at same ⊢
      rw [same]
      cases flush <;> rfl

/-- A cancel is refused, or marks the operation. -/
theorem cancelOperation_cases (entries : ℕ) (proactor : UringOperations) (op : IoOperation)
    (flush room : Bool) :
    proactor.Sends (proactor.cancelOperation entries op flush room).2 [] ∧
        (op.fd < 0 ∨ proactor.state op ≠ .submitted ∨
          proactor.pendingOps[proactor.index op]? ≠ some op ∨ room = false) ∨
      proactor.state op = .submitted ∧ ∃ sent, proactor.Sends sent [.cancel] ∧
        (proactor.cancelOperation entries op flush room).2 =
          { sent with state := Function.update proactor.state op .cancelling } := by
  unfold cancelOperation
  split_ifs with negative idle unknown
  · exact .inl ⟨.refl proactor, .inl negative⟩
  · exact .inl ⟨.refl proactor, .inr (.inl idle)⟩
  · exact .inl ⟨.refl proactor, .inr (.inr (.inl unknown))⟩
  · dsimp only
    have found := sends_getSqe entries proactor room
    split_ifs with full
    · refine .inl ⟨found, .inr (.inr (.inr ?_))⟩
      unfold getSqe at full
      split_ifs at full
      exact full
    · have filled := (found.trans (sends_prepare _ .cancel)).trans (sends_flushIf _ flush)
      refine .inr ⟨not_not.mp idle, _, filled, ?_⟩
      have same := found.same
      generalize (proactor.getSqe entries room).2 = ready at same ⊢
      rw [same]
      cases flush <;> rfl

/-- Operations were marked as being cancelled. -/
def Marks (state marked : IoOperation → OperationState) : Prop :=
  ∀ op, marked op = state op ∨ marked op = .cancelling ∧ state op = .submitted

/-- All the operations of a list are cancelled, as far as they can be. -/
theorem cancelEach_cases (entries : ℕ) (room : IoOperation → Bool) (ops : List IoOperation)
    (proactor : UringOperations) : ∃ sent data marked, proactor.Sends sent data ∧
      (∀ op, .operation op ∉ data) ∧ Marks proactor.state marked ∧
      cancelEach entries room proactor ops = { sent with state := marked } ∧
      ∀ op ∈ ops, 0 ≤ op.fd → proactor.pendingOps[proactor.index op]? = some op →
        proactor.state op ≠ .idle → room op = true → marked op = .cancelling := by
  induction ops generalizing proactor with
  | nil => exact ⟨proactor, [], proactor.state, .refl proactor, fun _ => nofun, fun _ => .inl rfl,
      rfl, fun _ => nofun⟩
  | cons first rest inductionHypothesis =>
      rw [cancelEach]
      rcases proactor.cancelOperation_cases entries first false (room first) with
        ⟨refused, reason⟩ | ⟨submitted, sent, sends, cancelled⟩
      · obtain ⟨sent, data, marked, sends, noOperation, marks, left, all⟩ :=
          inductionHypothesis (proactor.cancelOperation entries first false (room first)).2
        have same := refused.same
        generalize (proactor.cancelOperation entries first false (room first)).2 = between at *
        refine ⟨sent, data ++ [], marked, refused.trans sends, ?_, ?_, left, ?_⟩
        · rw [List.append_nil]
          exact noOperation
        · rw [same] at marks
          exact marks
        · rw [same] at marks all
          intro op inside valid listed live free
          rcases List.mem_cons.mp inside with rfl | inside
          · rcases marks op with kept | ⟨cancelling, -⟩
            · rw [kept]
              cases state : proactor.state op with
              | idle => exact absurd state live
              | cancelling => rfl
              | submitted =>
                  rcases reason with negative | idle | unknown | full
                  · exact absurd valid (Int.not_le.mpr negative)
                  · exact absurd state idle
                  · exact absurd listed unknown
                  · rw [full] at free
                    cases free
            · exact cancelling
          · exact all op inside valid listed live free
      · obtain ⟨later, data, marked, sends', noOperation, marks, left, all⟩ :=
          inductionHypothesis (proactor.cancelOperation entries first false (room first)).2
        rw [cancelled] at sends' marks left all ⊢
        have same := sends.same
        have same' := sends'.same
        refine ⟨{ later with state := proactor.state }, data ++ [.cancel], marked, ?_, ?_, ?_,
          left, ?_⟩
        · refine ⟨?_, ?_⟩
          · rw [same', same]
          · refine sends'.balance.trans ?_
            rw [List.append_assoc]
            exact sends.balance.append_left data
        · intro op inside
          rcases List.mem_append.mp inside with inside | inside
          · exact noOperation op inside
          · exact absurd (List.mem_singleton.mp inside) nofun
        · intro op
          rcases marks op with kept | ⟨cancelling, before⟩
          · by_cases here : op = first
            · rw [here] at kept ⊢
              exact .inr ⟨kept.trans (Function.update_self ..), submitted⟩
            · exact .inl (kept.trans (Function.update_of_ne here ..))
          · refine .inr ⟨cancelling, ?_⟩
            by_cases here : op = first
            · rw [here]
              exact submitted
            · exact (Function.update_of_ne here ..).symm.trans before
        · intro op inside valid listed live free
          by_cases here : op = first
          · rcases marks op with kept | ⟨cancelling, -⟩
            · rw [kept, here]
              exact Function.update_self ..
            · exact cancelling
          · refine all op ((List.mem_cons.mp inside).resolve_left here) valid ?_ ?_ free
            · rw [same]
              exact listed
            · exact (Function.update_of_ne here ..).trans_ne live

/-! ## What a step does to the operations -/

/-- The operations whose handlers have not returned. -/
def handled (proactor : UringOperations) : List IoOperation :=
  proactor.stack.filterMap UringFrame.op

/-- Where the operations are listed, and what their owners have seen. -/
structure Filed (proactor : UringOperations) : Prop where
  roster : Roster proactor.pendingOps proactor.index
  valid : ∀ op ∈ proactor.pendingOps, 0 ≤ op.fd
  live : ∀ op ∈ proactor.pendingOps, proactor.state op ≠ .idle
  apart : ∀ op ∈ proactor.handled, op ∉ proactor.pendingOps
  listed : ∀ op, (proactor.history.unanswered op).isSome ↔ op ∈ proactor.pendingOps

theorem unlist_frame (proactor : UringOperations) (op : IoOperation) : ∃ pendingOps index,
    proactor.unlist op = { proactor with pendingOps := pendingOps, index := index } := by
  unfold unlist
  split
  · split_ifs
    · exact ⟨_, _, rfl⟩
    · exact ⟨_, _, rfl⟩
  · exact ⟨_, _, rfl⟩

/-- An operation leaves the list, if it is there. -/
theorem unlist_cases (roster : Roster proactor.pendingOps proactor.index) (op : IoOperation) :
    ∃ pendingOps index,
      proactor.unlist op = { proactor with pendingOps := pendingOps, index := index } ∧
        Roster pendingOps index ∧ pendingOps.Perm (proactor.pendingOps.erase op) := by
  unfold unlist
  cases ends : proactor.pendingOps.getLast? with
  | none =>
      have empty := List.getLast?_eq_none_iff.mp ends
      refine ⟨proactor.pendingOps, proactor.index, rfl, roster, ?_⟩
      rw [empty]
      exact .refl _
  | some last =>
      dsimp only
      split_ifs with found
      · obtain ⟨removed, permuted⟩ := roster.swapRemove (roster.mem_iff.mpr found) ends
        exact ⟨_, _, rfl, removed, permuted⟩
      · refine ⟨proactor.pendingOps, proactor.index, rfl, roster, ?_⟩
        rw [List.erase_of_not_mem fun inside => found (roster.mem_iff.mp inside)]

/-- What a step does to the operations: nothing, it lists one, marks some as being cancelled,
calls a handler, or returns from one. -/
inductive Moves (proactor after : UringOperations) : Prop where
  | same (pendingOps : after.pendingOps = proactor.pendingOps)
      (index : after.index = proactor.index) (state : after.state = proactor.state)
      (handled : after.handled = proactor.handled) (history : after.history = proactor.history)
  | seat (op : IoOperation) (valid : 0 ≤ op.fd) (idle : proactor.state op = .idle)
      (pendingOps : after.pendingOps = proactor.pendingOps ++ [op])
      (index : after.index = Function.update proactor.index op proactor.pendingOps.length)
      (state : after.state = Function.update proactor.state op .submitted)
      (handled : after.handled = proactor.handled)
      (history : after.history = .submitted op true :: proactor.history)
  | mark (pendingOps : after.pendingOps = proactor.pendingOps)
      (index : after.index = proactor.index) (marks : Marks proactor.state after.state)
      (handled : after.handled = proactor.handled) (history : after.history = proactor.history)
  | call (op : IoOperation) (result : ℤ) (cancelled : Bool) (live : proactor.state op ≠ .idle)
      (pendingOps : after.pendingOps = (proactor.unlist op).pendingOps)
      (index : after.index = (proactor.unlist op).index) (state : after.state = proactor.state)
      (handled : after.handled = op :: proactor.handled)
      (history : after.history = .called op result cancelled :: proactor.history)
  | finish (op : IoOperation) (rest : List IoOperation) (before : proactor.handled = op :: rest)
      (pendingOps : after.pendingOps = proactor.pendingOps)
      (index : after.index = proactor.index)
      (state : after.state = Function.update proactor.state op .idle)
      (handled : after.handled = rest) (history : after.history = proactor.history)

/-- What a step does keeps the operations listed, if none is submitted in its own handler. -/
theorem Filed.move (filed : Filed proactor) (moves : proactor.Moves after)
    (fresh : ∀ op accepted, after.history = .submitted op accepted :: proactor.history →
      op ∉ proactor.handled) : Filed after := by
  cases moves with
  | same pendingOps index state handled history =>
      refine ⟨?_, ?_, ?_, ?_, ?_⟩
      · rw [pendingOps, index]
        exact filed.roster
      · rw [pendingOps]
        exact filed.valid
      · rw [pendingOps, state]
        exact filed.live
      · rw [handled, pendingOps]
        exact filed.apart
      · rw [history, pendingOps]
        exact filed.listed
  | seat op valid idle pendingOps index state handled history =>
      have new : op ∉ proactor.pendingOps := fun inside => filed.live op inside idle
      refine ⟨?_, ?_, ?_, ?_, ?_⟩
      · rw [pendingOps, index]
        exact filed.roster.append new
      · rw [pendingOps]
        intro other inside
        rcases List.mem_append.mp inside with inside | inside
        · exact filed.valid other inside
        · rw [List.mem_singleton.mp inside]
          exact valid
      · rw [pendingOps, state]
        intro other inside
        rcases List.mem_append.mp inside with inside | inside
        · rw [Function.update_of_ne (ne_of_mem_of_not_mem inside new)]
          exact filed.live other inside
        · rw [List.mem_singleton.mp inside, Function.update_self]
          nofun
      · rw [handled, pendingOps]
        intro other busy inside
        rcases List.mem_append.mp inside with inside | inside
        · exact filed.apart other busy inside
        · rw [List.mem_singleton.mp inside] at busy
          exact fresh op true history busy
      · rw [history, pendingOps]
        intro other
        rw [List.mem_append, List.mem_singleton, ← filed.listed other]
        by_cases same : op = other
        · rw [same, OperationHistory.unanswered_submitted]
          exact iff_of_true rfl (.inr rfl)
        · rw [OperationHistory.unanswered_submitted_of_ne same]
          exact ⟨.inl, fun either => either.resolve_right (Ne.symm same)⟩
  | mark pendingOps index marks handled history =>
      refine ⟨?_, ?_, ?_, ?_, ?_⟩
      · rw [pendingOps, index]
        exact filed.roster
      · rw [pendingOps]
        exact filed.valid
      · rw [pendingOps]
        intro op inside
        rcases marks op with kept | ⟨cancelling, -⟩
        · rw [kept]
          exact filed.live op inside
        · rw [cancelling]
          nofun
      · rw [handled, pendingOps]
        exact filed.apart
      · rw [history, pendingOps]
        exact filed.listed
  | call op result cancelled live pendingOps index state handled history =>
      obtain ⟨left, places, unlisted, roster, permuted⟩ := unlist_cases filed.roster op
      rw [unlisted] at pendingOps index
      have mem {other : IoOperation} :
          other ∈ after.pendingOps ↔ other ≠ op ∧ other ∈ proactor.pendingOps := by
        rw [pendingOps, permuted.mem_iff, filed.roster.distinct.mem_erase_iff]
      refine ⟨?_, ?_, ?_, ?_, ?_⟩
      · rw [pendingOps, index]
        exact roster
      · intro other inside
        exact filed.valid other (mem.mp inside).2
      · rw [state]
        intro other inside
        exact filed.live other (mem.mp inside).2
      · rw [handled]
        intro other busy inside
        rcases List.mem_cons.mp busy with rfl | busy
        · exact (mem.mp inside).1 rfl
        · exact filed.apart other busy (mem.mp inside).2
      · rw [history]
        intro other
        rw [mem, ← filed.listed other]
        by_cases same : op = other
        · rw [same, OperationHistory.unanswered_called]
          exact iff_of_false nofun fun both => both.1 rfl
        · rw [OperationHistory.unanswered_called_of_ne same]
          exact (and_iff_right (Ne.symm same)).symm
  | finish op rest before pendingOps index state handled history =>
      have out : op ∉ proactor.pendingOps := by
        refine filed.apart op ?_
        rw [before]
        exact List.mem_cons_self ..
      refine ⟨?_, ?_, ?_, ?_, ?_⟩
      · rw [pendingOps, index]
        exact filed.roster
      · rw [pendingOps]
        exact filed.valid
      · rw [pendingOps, state]
        intro other inside
        rw [Function.update_of_ne (ne_of_mem_of_not_mem inside out)]
        exact filed.live other inside
      · rw [handled, pendingOps]
        intro other busy
        refine filed.apart other ?_
        rw [before]
        exact List.mem_cons_of_mem _ busy
      · rw [history, pendingOps]
        exact filed.listed

/-! ## Which step does what -/

variable {spin : Bool} {entries : ℕ} {action : UringStep}

theorem Sends.moves {data : List UringData} (sends : proactor.Sends after data) :
    proactor.Moves after := by
  have same := sends.same
  rw [same]
  exact .same rfl rfl rfl rfl rfl

theorem moves_serve (own flush : Bool) (room : IoOperation → Bool) (request : OperationRequest) :
    proactor.Moves (proactor.serve entries own flush room request) := by
  cases request with
  | submit op =>
      rw [serve]
      rcases proactor.submitOperation_cases entries op flush (room op) with
        refused | ⟨valid, idle, sent, sends, listed⟩
      · exact refused.moves
      · rw [listed]
        have same := sends.same
        rw [same]
        exact .seat op valid idle rfl rfl rfl rfl rfl
  | cancel op =>
      rw [serve]
      rcases proactor.cancelOperation_cases entries op flush (room op) with
        ⟨refused, -⟩ | ⟨submitted, sent, sends, marked⟩
      · exact refused.moves
      · rw [marked]
        have same := sends.same
        rw [same]
        refine .mark rfl rfl ?_ rfl rfl
        intro other
        by_cases here : other = op
        · rw [here]
          exact .inr ⟨Function.update_self .., submitted⟩
        · exact .inl (Function.update_of_ne here ..)
  | stop =>
      obtain ⟨sent, data, marked, sends, -, marks, left, -⟩ := cancelEach_cases entries room
        proactor.pendingOps { proactor with running := false, stopped := true }
      rw [serve, cancelAllOperations, left]
      have same := sends.same
      rw [same]
      cases own with
      | true => exact .mark rfl rfl marks rfl rfl
      | false =>
          cases flush with
          | true => exact .mark rfl rfl marks rfl rfl
          | false => exact .mark rfl rfl marks rfl rfl

theorem sends_rearmWakeup (entries : ℕ) (proactor : UringOperations) (room : Bool) : ∃ data,
    proactor.Sends (proactor.rearmWakeup entries room) data ∧ ∀ op, .operation op ∉ data := by
  unfold rearmWakeup
  have found := sends_getSqe entries proactor room
  dsimp only
  split_ifs
  · refine ⟨_, (found.trans (sends_prepare _ .wakeup)).trans (sends_flush _), fun op inside => ?_⟩
    exact absurd (List.mem_singleton.mp inside) nofun
  · exact ⟨_, found, fun _ => nofun⟩

theorem moves_dispatchCqe (cqe : Cqe) : proactor.Moves (proactor.dispatchCqe cqe) := by
  unfold dispatchCqe
  split
  · exact .same rfl rfl rfl rfl rfl
  · exact .same rfl rfl rfl rfl rfl
  · rename_i op _
    split_ifs with idle
    · exact .same rfl rfl rfl rfl rfl
    · obtain ⟨pendingOps, index, unlisted⟩ := proactor.unlist_frame op
      refine .call op cqe.result (decide (cqe.result < 0) &&
        (decide (cqe.result = -ecanceled) || decide (proactor.state op = .cancelling))) idle rfl
        rfl ?_ ?_ ?_
      · rw [endOperation, unlisted]
      · rw [endOperation, unlisted]
        rfl
      · rw [endOperation, unlisted]

/-- What makes a step. -/
inductive Step (spin : Bool) (entries : ℕ) (proactor : UringOperations) :
    UringStep → UringOperations → Prop where
  | complete {data : UringData} {result : ℤ} (inside : data ∈ proactor.inFlight) :
      Step spin entries proactor (.complete data result)
        { proactor with
          inFlight := proactor.inFlight.erase data
          completions := proactor.completions ++ [⟨data, result⟩] }
  | perform {request : OperationRequest} {flush : Bool} {room : IoOperation → Bool} {own : Bool}
      {rest : List UringFrame}
      (top : own = false ∧ (∃ rearms, proactor.stack = .reading rearms :: rest) ∨
        own = true ∧ ∃ op, proactor.stack = .handling op :: rest) :
      Step spin entries proactor (.perform request flush room)
        (proactor.serve entries own flush room request)
  | flush : Step spin entries proactor .flush proactor.flush
  | proceed {room : Bool} {after : UringOperations}
      (goes : proactor.proceed spin entries room = some after) :
      Step spin entries proactor (.proceed room) after

theorem step_of_act (happens : proactor.act spin entries action = some after) :
    proactor.Step spin entries action after := by
  cases action with
  | complete data result =>
      obtain ⟨inside, same⟩ := Option.ite_none_right_eq_some.mp happens
      cases same
      exact .complete inside
  | perform request flush room =>
      unfold act at happens
      dsimp only at happens
      split at happens
      · rename_i rearms rest top
        cases happens
        exact .perform (.inl ⟨rfl, rearms, top⟩)
      · rename_i op rest top
        cases happens
        exact .perform (.inr ⟨rfl, op, top⟩)
      · cases happens
  | flush =>
      unfold act at happens
      dsimp only at happens
      split at happens
      · cases happens
        exact .flush
      · cases happens
        exact .flush
      · cases happens
        exact .flush
      · cases happens
  | proceed room => exact .proceed happens

/-- A step that lists no operation. -/
theorem Filed.quiet (filed : Filed proactor) (moves : proactor.Moves after)
    (silent : ∀ op accepted, after.history ≠ .submitted op accepted :: proactor.history) :
    Filed after :=
  filed.move moves fun op accepted same => absurd same (silent op accepted)

theorem history_ne_cons (op : IoOperation) (accepted : Bool) :
    proactor.history ≠ .submitted op accepted :: proactor.history :=
  (List.cons_ne_self _ _).symm

/-- Only the calls under way and what is not about the operations has changed. -/
theorem Filed.same (filed : Filed proactor) (pendingOps : after.pendingOps = proactor.pendingOps)
    (index : after.index = proactor.index) (state : after.state = proactor.state)
    (handled : after.handled = proactor.handled) (history : after.history = proactor.history) :
    Filed after := by
  refine filed.quiet (.same pendingOps index state handled history) ?_
  rw [history]
  exact history_ne_cons

theorem Filed.sends (filed : Filed proactor) {data : List UringData}
    (sends : proactor.Sends after data) : Filed after := by
  have same := sends.same
  rw [same]
  exact filed.same rfl rfl rfl rfl rfl

/-- What the dispatch of a completion does. -/
theorem dispatchCqe_cases (proactor : UringOperations) (cqe : Cqe) :
    proactor.dispatchCqe cqe = proactor ∨
      proactor.dispatchCqe cqe = { proactor with stack := .reading true :: proactor.stack } ∨
      ∃ op cancelled pendingOps index, proactor.state op ≠ .idle ∧
        proactor.dispatchCqe cqe = { proactor with
          pendingOps := pendingOps
          index := index
          stack := .handling op :: proactor.stack
          history := .called op cqe.result cancelled :: proactor.history } := by
  unfold dispatchCqe
  split
  · exact .inl rfl
  · exact .inr (.inl rfl)
  · rename_i op _
    split_ifs with idle
    · exact .inl rfl
    · obtain ⟨pendingOps, index, unlisted⟩ := proactor.unlist_frame op
      refine .inr (.inr ⟨op, decide (cqe.result < 0) && (decide (cqe.result = -ecanceled) ||
        decide (proactor.state op = .cancelling)), pendingOps, index, idle, ?_⟩)
      rw [endOperation, unlisted]

/-- No operation is listed when a completion is dispatched. -/
theorem silent_dispatchCqe (proactor : UringOperations) (cqe : Cqe) (op : IoOperation)
    (accepted : Bool) :
    (proactor.dispatchCqe cqe).history ≠ .submitted op accepted :: proactor.history := by
  rcases proactor.dispatchCqe_cases cqe with same | same | ⟨other, _, _, _, -, same⟩
  · rw [same]
    exact history_ne_cons op accepted
  · rw [same]
    exact history_ne_cons op accepted
  · rw [same]
    intro equal
    cases List.head_eq_of_cons_eq equal

theorem Filed.dispatchCqe (filed : Filed proactor) (cqe : Cqe) :
    Filed (proactor.dispatchCqe cqe) :=
  filed.quiet (proactor.moves_dispatchCqe cqe) (proactor.silent_dispatchCqe cqe)

theorem Filed.proceed (filed : Filed proactor) {room : Bool}
    (goes : proactor.proceed spin entries room = some after) : Filed after := by
  unfold UringOperations.proceed at goes
  split at goes
  · cases goes
  · rename_i rest stack
    have handled : proactor.handled = rest.filterMap UringFrame.op := by
      rw [UringOperations.handled, stack]
      rfl
    cases goes
    split_ifs
    · exact filed.same rfl rfl rfl handled.symm rfl
    · exact filed.same rfl rfl rfl handled.symm rfl
    · exact filed.same rfl rfl rfl handled.symm rfl
    · exact filed.same rfl rfl rfl handled.symm rfl
  · rename_i rest stack
    have handled : proactor.handled = rest.filterMap UringFrame.op := by
      rw [UringOperations.handled, stack]
      rfl
    cases goes
    split
    · exact filed.same rfl rfl rfl handled.symm rfl
    · refine Filed.dispatchCqe ?_ _
      exact filed.same rfl rfl rfl handled.symm rfl
  · rename_i rest stack
    have handled : proactor.handled = rest.filterMap UringFrame.op := by
      rw [UringOperations.handled, stack]
      rfl
    cases goes
    exact filed.same rfl rfl rfl handled.symm rfl
  · rename_i rearms rest stack
    have handled : proactor.handled = rest.filterMap UringFrame.op := by
      rw [UringOperations.handled, stack]
      rfl
    have read : Filed { proactor with stack := rest } :=
      filed.same rfl rfl rfl handled.symm rfl
    cases goes
    split_ifs
    · obtain ⟨data, sends, -⟩ := sends_rearmWakeup entries
        { proactor with stack := rest } room
      exact read.sends sends
    · exact read
  · rename_i op rest stack
    have handled : proactor.handled = op :: rest.filterMap UringFrame.op := by
      rw [UringOperations.handled, stack]
      rfl
    cases goes
    exact filed.quiet (.finish op _ handled rfl rfl rfl rfl rfl) history_ne_cons

theorem initial_filed (spin : Bool) : Filed (initial spin) where
  roster := .empty _
  valid := fun _ => nofun
  live := fun _ => nofun
  apart := fun _ => nofun
  listed := fun _ => ⟨nofun, nofun⟩

end UringOperations

end Join
