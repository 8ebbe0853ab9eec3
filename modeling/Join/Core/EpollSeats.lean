import Join.Core.EpollOperations
import Join.Core.ReactorDispatch
import Join.Library.Trace

/-!
# Where the operations of the epoll proactor are

An operation that was submitted is in the slot of its descriptor until it is withdrawn, by a
cancel, a completion, an end of file or an error. It is then on the stack of calls until its
handler has returned, and only then can it be submitted again. So every submit is answered
by one call at most.
-/

set_option autoImplicit false

namespace Join

open Library

/-- The operation of a call. -/
def Frame.op : Frame → Option IoOperation
  | .dispatching op _ _ => some op
  | .handling op => some op
  | .cancelling _ _ => none
  | .reading => none

/-! ## What the methods change -/

namespace Registry

/-- Epoll refuses a registration only as the kernel likes. -/
theorem registerHandler_accepted {H : Type} (registry : Registry H) (stamp : ℕ) {fd : ℤ}
    (handler : H) {events : UInt32} (valid : 0 ≤ fd) (some' : events ≠ 0) :
    ∃ after, registry.registerHandler none stamp fd (some handler) events = .ok after := by
  unfold registerHandler
  dsimp only
  rw [if_neg (not_lt.mpr valid), if_neg some']
  unfold epollAdd epollMod
  cases interest : registry.interest fd with
  | none => exact ⟨_, rfl⟩
  | some entry => exact ⟨_, rfl⟩

end Registry

theorem Request.eventsOf_ne_zero {wantRead wantWrite : Bool} (some' : wantRead || wantWrite) :
    Request.eventsOf wantRead wantWrite ≠ 0 := by
  cases wantRead with
  | true => cases wantWrite <;> decide
  | false =>
      cases wantWrite with
      | true => decide
      | false => cases some'

namespace EpollOperations

variable {proactor after : EpollOperations}

/-- The registry when the handler of a descriptor was registered for its slots. -/
def watched (proactor : EpollOperations) (fd : ℤ) : Registry Unit :=
  proactor.registry.accept fd () (Function.update proactor.registry.interest fd
    (some ⟨Request.eventsOf (proactor.slots .read fd).isSome (proactor.slots .write fd).isSome, 0⟩))

/-- The registry when the handler of a descriptor was removed. -/
def unwatched (proactor : EpollOperations) (fd : ℤ) : Registry Unit :=
  ⟨Function.update proactor.registry.interest fd none, proactor.registry.handlers,
    insert fd proactor.registry.deleted⟩

theorem addHandler_cases (proactor : EpollOperations) (verdict : Option Errno) {fd : ℤ}
    (valid : 0 ≤ fd) {side : Side} (full : proactor.slots side fd ≠ none) :
    proactor.addHandler verdict fd = (true, { proactor with registry := proactor.watched fd }) ∨
      verdict ≠ none ∧ proactor.addHandler verdict fd = (false, proactor) := by
  have asked : (proactor.slots .read fd).isSome || (proactor.slots .write fd).isSome := by
    rw [Bool.or_eq_true, Option.isSome_iff_ne_none, Option.isSome_iff_ne_none]
    cases side with
    | read => exact .inl full
    | write => exact .inr full
  unfold addHandler
  cases registered : proactor.registry.registerHandler verdict 0 fd (some ())
      (Request.eventsOf (proactor.slots .read fd).isSome (proactor.slots .write fd).isSome) with
  | ok registry =>
      obtain ⟨-, known, -, rfl⟩ := Registry.registerHandler_ok registered
      exact .inl rfl
  | error cause =>
      refine .inr ⟨?_, rfl⟩
      rintro rfl
      obtain ⟨registry, accepted⟩ := proactor.registry.registerHandler_accepted 0 () valid
        (Request.eventsOf_ne_zero asked)
      rw [registered] at accepted
      cases accepted

theorem delHandler_eq (proactor : EpollOperations) {fd : ℤ} (valid : 0 ≤ fd) :
    (proactor.delHandler fd).2 = { proactor with registry := proactor.unwatched fd } := by
  unfold delHandler Registry.unregisterHandler epollDel unwatched
  rw [if_neg (not_lt.mpr valid)]
  cases interest : proactor.registry.interest fd with
  | none =>
      have same : Function.update proactor.registry.interest fd none = proactor.registry.interest := by
        rw [← interest, Function.update_eq_self]
      rw [same]
      rfl
  | some entry => rfl

/-- What `rewatch` does to the registry. -/
inductive Rewatched (proactor : EpollOperations) (verdict : Option Errno) (fd : ℤ) :
    Registry Unit → Prop where
  | empty (empty : ∀ side, proactor.slots side fd = none) :
      Rewatched proactor verdict fd (proactor.unwatched fd)
  | full (side : Side) (full : proactor.slots side fd ≠ none) :
      Rewatched proactor verdict fd (proactor.watched fd)
  | refused (refused : verdict ≠ none) (side : Side) (full : proactor.slots side fd ≠ none) :
      Rewatched proactor verdict fd proactor.registry

theorem rewatch_cases (proactor : EpollOperations) (verdict : Option Errno) {fd : ℤ}
    (valid : 0 ≤ fd) : ∃ registry, proactor.Rewatched verdict fd registry ∧
      (proactor.rewatch verdict fd).2 = { proactor with registry := registry } := by
  unfold rewatch
  split_ifs with empty
  · refine ⟨proactor.unwatched fd, .empty ?_, proactor.delHandler_eq valid⟩
    intro side
    cases side with
    | read => exact empty.1
    | write => exact empty.2
  · obtain ⟨side, full⟩ : ∃ side, proactor.slots side fd ≠ none := by
      by_contra all
      push Not at all
      exact empty ⟨all .read, all .write⟩
    rcases proactor.addHandler_cases verdict valid full with added | ⟨refused, added⟩
    · exact ⟨proactor.watched fd, .full side full, by rw [added]⟩
    · exact ⟨proactor.registry, .refused refused side full, by rw [added]⟩

/-- A submit is refused, or puts the operation into its slot. -/
theorem submitOperation_cases (proactor : EpollOperations) (op : IoOperation) (connected : Bool)
    (verdict : Option Errno) :
    (∃ size, proactor.size ≤ size ∧
        (proactor.submitOperation op connected verdict).2 = { proactor with size := size }) ∨
      0 ≤ op.fd ∧ proactor.state op = .idle ∧ proactor.slot op = none ∧
        ∃ accepted registry, (registry = (proactor.setSlot op (some op)).watched op.fd ∨
            registry = proactor.registry) ∧
          (proactor.submitOperation op connected verdict).2 =
            { proactor.setSlot op (some op) with
              size := max proactor.size (op.fd.toNat + 1)
              state := Function.update proactor.state op .submitted
              registry := registry
              history := .submitted op accepted :: proactor.history } := by
  unfold submitOperation
  split_ifs with negative busy unconnected
  · exact .inl ⟨proactor.size, le_rfl, rfl⟩
  · exact .inl ⟨proactor.size, le_rfl, rfl⟩
  · exact .inl ⟨proactor.size, le_rfl, rfl⟩
  · dsimp only
    split_ifs with full
    · exact .inl ⟨_, le_max_left .., rfl⟩
    · refine .inr ⟨not_lt.mp negative, not_not.mp busy, not_not.mp full, ?_⟩
      have seated : ((({ proactor with size := max proactor.size (op.fd.toNat + 1) }).setSlot op
          (some op)).setState op .submitted).slots op.side op.fd ≠ none := by
        simp [setSlot, setState]
      rcases addHandler_cases _ verdict (not_lt.mp negative) seated with added | ⟨-, added⟩
      · rw [added]
        exact ⟨true, _, .inl rfl, rfl⟩
      · rw [added]
        exact ⟨false, _, .inr rfl, rfl⟩

/-- A cancel is refused, or takes the operation out of its slot. -/
theorem cancelOperation_cases (proactor : EpollOperations) (op : IoOperation)
    (verdict : Option Errno) :
    (proactor.cancelOperation op verdict).2 = proactor ∨
      0 ≤ op.fd ∧ proactor.slot op = some op ∧
        ∃ registry, (proactor.setSlot op none).Rewatched verdict op.fd registry ∧
          (proactor.cancelOperation op verdict).2 =
            { proactor.setSlot op none with
              state := Function.update proactor.state op .cancelling
              registry := registry
              stack := .dispatching op (-ecanceled) true :: proactor.stack } := by
  unfold cancelOperation
  split_ifs with negative idle large other
  · exact .inl rfl
  · exact .inl rfl
  · exact .inl rfl
  · exact .inl rfl
  · obtain ⟨registry, rewatched, left⟩ := rewatch_cases
      ((proactor.setState op .cancelling).setSlot op none) verdict (not_lt.mp negative)
    refine .inr ⟨not_lt.mp negative, not_not.mp other, registry, ?_, ?_⟩
    · cases rewatched with
      | empty empty => exact .empty empty
      | full side full => exact .full side full
      | refused refused side full => exact .refused refused side full
    · dsimp only
      rw [left]
      rfl

/-- The end of an operation that is in its slot. -/
theorem endOperation_cases (proactor : EpollOperations) {op : IoOperation} (result : ℤ)
    (cancelled : Bool) (verdict : Option Errno) (valid : 0 ≤ op.fd)
    (inside : op.fd.toNat < proactor.size) :
    ∃ registry, (proactor.setSlot op none).Rewatched verdict op.fd registry ∧
      proactor.endOperation op result cancelled verdict =
        { proactor.setSlot op none with
          registry := registry
          stack := .dispatching op result cancelled :: proactor.stack } := by
  obtain ⟨registry, rewatched, left⟩ := rewatch_cases (proactor.setSlot op none) verdict valid
  refine ⟨registry, rewatched, ?_⟩
  rw [endOperation, if_neg (not_or.mpr ⟨not_lt.mpr valid, not_le.mpr inside⟩), left]
  rfl

/-- The operations in the slots of a descriptor. -/
def ops (proactor : EpollOperations) (fd : ℤ) : List IoOperation :=
  (proactor.slots .read fd).toList ++ (proactor.slots .write fd).toList

theorem mem_ops {fd : ℤ} {op : IoOperation} :
    op ∈ proactor.ops fd ↔ ∃ side, proactor.slots side fd = some op := by
  rw [ops, List.mem_append, Option.mem_toList, Option.mem_toList]
  constructor
  · rintro (read | write)
    · exact ⟨.read, read⟩
    · exact ⟨.write, write⟩
  · rintro ⟨side, seated⟩
    cases side with
    | read => exact .inl seated
    | write => exact .inr seated

/-- Both slots of a descriptor are emptied. -/
theorem release_eq (proactor : EpollOperations) {fd : ℤ}
    (valid : proactor.ops fd ≠ [] → 0 ≤ fd) (result : ℤ) (cancelled : Bool) :
    proactor.release fd result cancelled =
      { proactor with
        slots := fun side other => if other = fd then none else proactor.slots side other
        registry := if proactor.ops fd = [] then proactor.registry else proactor.unwatched fd
        stack := ((proactor.ops fd).map fun op => .dispatching op result cancelled) ++
          proactor.stack } := by
  unfold release
  rw [← ops]
  dsimp only
  split_ifs with none'
  · rfl
  · rw [delHandler_eq _ (valid none')]
    rfl

/-! ## What a step does to the operations -/

/-- The calls that are about an operation. -/
def calls (proactor : EpollOperations) : List Frame :=
  proactor.stack.filter fun frame => frame.op.isSome

/-- The operations that are withdrawn, and whose handlers have not returned. -/
def called (proactor : EpollOperations) : List IoOperation := proactor.calls.filterMap Frame.op

/-- What a step does to the operations: nothing, it puts one into its slot, takes some out of
their slots, calls a handler, or returns from one. -/
inductive Moves (proactor after : EpollOperations) : Prop where
  | same (slots : after.slots = proactor.slots) (size : proactor.size ≤ after.size)
      (state : after.state = proactor.state) (calls : after.calls = proactor.calls)
      (history : after.history = proactor.history)
  | seat (op : IoOperation) (accepted : Bool) (valid : 0 ≤ op.fd)
      (idle : proactor.state op = .idle) (empty : proactor.slot op = none)
      (slots : after.slots = (proactor.setSlot op (some op)).slots)
      (size : after.size = max proactor.size (op.fd.toNat + 1))
      (state : after.state = Function.update proactor.state op .submitted)
      (calls : after.calls = proactor.calls)
      (history : after.history = .submitted op accepted :: proactor.history)
  | withdraw (ops : List IoOperation) (result : ℤ) (cancelled : Bool)
      (seated : ∀ op ∈ ops, proactor.slot op = some op) (distinct : ops.Nodup)
      (slots : ∀ side fd op, after.slots side fd = some op ↔
        proactor.slots side fd = some op ∧ op ∉ ops)
      (size : after.size = proactor.size)
      (state : ∀ op, after.state op = proactor.state op ∨
        op ∈ ops ∧ after.state op = .cancelling)
      (calls : after.calls = (ops.map fun op => .dispatching op result cancelled) ++ proactor.calls)
      (history : after.history = proactor.history)
  | call (op : IoOperation) (result : ℤ) (cancelled : Bool) (rest : List Frame)
      (before : proactor.calls = .dispatching op result cancelled :: rest)
      (slots : after.slots = proactor.slots) (size : after.size = proactor.size)
      (state : after.state = proactor.state) (calls : after.calls = .handling op :: rest)
      (history : after.history = .called op result cancelled :: proactor.history)
  | finish (op : IoOperation) (rest : List Frame)
      (before : proactor.calls = .handling op :: rest)
      (slots : after.slots = proactor.slots) (size : after.size = proactor.size)
      (state : after.state = Function.update proactor.state op .idle)
      (calls : after.calls = rest) (history : after.history = proactor.history)

/-- Where the operations are: in their slots, or on the stack; and what their owners have
seen. -/
structure Seated (proactor : EpollOperations) : Prop where
  own : ∀ side fd op, proactor.slots side fd = some op →
    op.side = side ∧ op.fd = fd ∧ 0 ≤ fd ∧ fd.toNat < proactor.size
  submitted : ∀ side fd op, proactor.slots side fd = some op → proactor.state op = .submitted
  apart : ∀ side fd op, proactor.slots side fd = some op → op ∉ proactor.called
  busy : ∀ op ∈ proactor.called, proactor.state op ≠ .idle
  distinct : proactor.called.Nodup
  asked : ∀ side fd op, proactor.slots side fd = some op →
    (proactor.history.unanswered op).isSome
  due : ∀ op result cancelled, .dispatching op result cancelled ∈ proactor.calls →
    (proactor.history.unanswered op).isSome
  found : ∀ op, (proactor.history.unanswered op).isSome → proactor.slot op = some op ∨
    ∃ result cancelled, .dispatching op result cancelled ∈ proactor.calls
  once : proactor.history.Once

/-! ### One step -/

section

variable {wakeup : ℤ} {action : EpollStep}

theorem Seated.slot (seated : Seated proactor) {side : Side} {fd : ℤ} {op : IoOperation}
    (inside : proactor.slots side fd = some op) : proactor.slot op = some op := by
  obtain ⟨rfl, rfl, -, -⟩ := seated.own side fd op inside
  exact inside

theorem mem_called {op : IoOperation} {result : ℤ} {cancelled : Bool}
    (inside : .dispatching op result cancelled ∈ proactor.calls) : op ∈ proactor.called :=
  List.mem_filterMap.mpr ⟨_, inside, rfl⟩

theorem slots_setSlot_some {op other : IoOperation} {side : Side} {fd : ℤ} :
    (proactor.setSlot op (some op)).slots side fd = some other ↔
      (side = op.side ∧ fd = op.fd) ∧ op = other ∨
        ¬(side = op.side ∧ fd = op.fd) ∧ proactor.slots side fd = some other := by
  unfold setSlot
  dsimp only
  split_ifs with here
  · simp [here]
  · simp [here]

/-- An operation is put into its slot. -/
theorem Seated.seat (seated : Seated proactor) {op : IoOperation} {accepted : Bool}
    (valid : 0 ≤ op.fd) (idle : proactor.state op = .idle) (empty : proactor.slot op = none)
    (slots : after.slots = (proactor.setSlot op (some op)).slots)
    (size : after.size = max proactor.size (op.fd.toNat + 1))
    (state : after.state = Function.update proactor.state op .submitted)
    (calls : after.calls = proactor.calls)
    (history : after.history = .submitted op accepted :: proactor.history) : Seated after := by
  have called : after.called = proactor.called := by rw [EpollOperations.called, calls]; rfl
  have free : op ∉ proactor.called := fun inside => seated.busy op inside idle
  have unanswered : proactor.history.unanswered op = none := by
    by_contra open'
    rcases seated.found op (Option.isSome_iff_ne_none.mpr open') with inside | ⟨_, _, inside⟩
    · rw [empty] at inside
      cases inside
    · exact free (mem_called inside)
  have elsewhere : ∀ side fd other, proactor.slots side fd = some other → other ≠ op := by
    rintro side fd other inside rfl
    rw [seated.slot inside] at empty
    cases empty
  refine ⟨?_, ?_, ?_, ?_, ?_, ?_, ?_, ?_, ?_⟩
  · intro side fd other inside
    rw [slots, slots_setSlot_some] at inside
    rw [size]
    rcases inside with ⟨⟨rfl, rfl⟩, rfl⟩ | ⟨-, inside⟩
    · exact ⟨rfl, rfl, valid, by omega⟩
    · obtain ⟨side, fd, nonneg, small⟩ := seated.own side fd other inside
      exact ⟨side, fd, nonneg, lt_max_of_lt_left small⟩
  · intro side fd other inside
    rw [slots, slots_setSlot_some] at inside
    rw [state]
    rcases inside with ⟨-, rfl⟩ | ⟨-, inside⟩
    · exact Function.update_self ..
    · rw [Function.update_of_ne (elsewhere side fd other inside)]
      exact seated.submitted side fd other inside
  · intro side fd other inside
    rw [slots, slots_setSlot_some] at inside
    rw [called]
    rcases inside with ⟨-, rfl⟩ | ⟨-, inside⟩
    · exact free
    · exact seated.apart side fd other inside
  · intro other inside
    rw [called] at inside
    rw [state, Function.update_of_ne (ne_of_mem_of_not_mem inside free)]
    exact seated.busy other inside
  · rw [called]
    exact seated.distinct
  · intro side fd other inside
    rw [slots, slots_setSlot_some] at inside
    rw [history]
    rcases inside with ⟨-, rfl⟩ | ⟨-, inside⟩
    · rw [OperationHistory.unanswered_submitted]
      rfl
    · rw [OperationHistory.unanswered_submitted_of_ne (elsewhere side fd other inside).symm]
      exact seated.asked side fd other inside
  · intro other result cancelled inside
    rw [calls] at inside
    rw [history, OperationHistory.unanswered_submitted_of_ne
      (ne_of_mem_of_not_mem (mem_called inside) free).symm]
    exact seated.due other result cancelled inside
  · intro other open'
    rw [calls, EpollOperations.slot, slots, slots_setSlot_some]
    by_cases same : op = other
    · exact .inl (.inl ⟨by rw [same]; exact ⟨rfl, rfl⟩, same⟩)
    · rw [history, OperationHistory.unanswered_submitted_of_ne same] at open'
      rcases seated.found other open' with inside | due
      · refine .inl (.inr ⟨?_, inside⟩)
        rintro ⟨side, fd⟩
        rw [EpollOperations.slot, side, fd, ← EpollOperations.slot, empty] at inside
        cases inside
      · exact .inr due
  · rw [history]
    exact ⟨unanswered, seated.once⟩

/-- Operations are taken out of their slots. -/
theorem Seated.withdraw (seated : Seated proactor) {ops : List IoOperation} {result : ℤ}
    {cancelled : Bool} (inside : ∀ op ∈ ops, proactor.slot op = some op) (distinct : ops.Nodup)
    (slots : ∀ side fd op, after.slots side fd = some op ↔
      proactor.slots side fd = some op ∧ op ∉ ops)
    (size : after.size = proactor.size)
    (state : ∀ op, after.state op = proactor.state op ∨ op ∈ ops ∧ after.state op = .cancelling)
    (calls : after.calls = (ops.map fun op => .dispatching op result cancelled) ++ proactor.calls)
    (history : after.history = proactor.history) : Seated after := by
  have called : after.called = ops ++ proactor.called := by
    rw [EpollOperations.called, calls, List.filterMap_append, EpollOperations.called]
    congr 1
    rw [List.filterMap_map]
    exact List.filterMap_some
  have known : ∀ side fd op, after.slots side fd = some op →
      proactor.slots side fd = some op ∧ op ∉ ops := fun side fd op => (slots side fd op).mp
  refine ⟨?_, ?_, ?_, ?_, ?_, ?_, ?_, ?_, ?_⟩
  · intro side fd op full
    rw [size]
    exact seated.own side fd op (known side fd op full).1
  · intro side fd op full
    obtain ⟨before, out⟩ := known side fd op full
    rcases state op with same | ⟨inside, -⟩
    · rw [same]
      exact seated.submitted side fd op before
    · exact absurd inside out
  · intro side fd op full
    obtain ⟨before, out⟩ := known side fd op full
    rw [called, List.mem_append]
    exact not_or.mpr ⟨out, seated.apart side fd op before⟩
  · intro op busy
    rcases state op with same | ⟨-, cancelling⟩
    · rw [same]
      rw [called, List.mem_append] at busy
      rcases busy with taken | busy
      · rw [seated.submitted _ _ op (inside op taken)]
        nofun
      · exact seated.busy op busy
    · rw [cancelling]
      nofun
  · rw [called, List.nodup_append]
    refine ⟨distinct, seated.distinct, ?_⟩
    rintro op taken other busy rfl
    exact seated.apart _ _ op (inside op taken) busy
  · intro side fd op full
    rw [history]
    exact seated.asked side fd op (known side fd op full).1
  · intro op result' cancelled' due
    rw [calls, List.mem_append] at due
    rw [history]
    rcases due with due | due
    · obtain ⟨taken, there, same⟩ := List.mem_map.mp due
      cases same
      exact seated.asked _ _ op (inside op there)
    · exact seated.due op result' cancelled' due
  · intro op open'
    rw [history] at open'
    rcases seated.found op open' with before | ⟨result', cancelled', due⟩
    · by_cases taken : op ∈ ops
      · refine .inr ⟨result, cancelled, ?_⟩
        rw [calls]
        exact List.mem_append_left _ (List.mem_map.mpr ⟨op, taken, rfl⟩)
      · exact .inl ((slots _ _ op).mpr ⟨before, taken⟩)
    · refine .inr ⟨result', cancelled', ?_⟩
      rw [calls]
      exact List.mem_append_right _ due
  · rw [history]
    exact seated.once

/-- A handler is called. -/
theorem Seated.call (seated : Seated proactor) {op : IoOperation} {result : ℤ} {cancelled : Bool}
    {rest : List Frame} (before : proactor.calls = .dispatching op result cancelled :: rest)
    (slots : after.slots = proactor.slots) (size : after.size = proactor.size)
    (state : after.state = proactor.state) (calls : after.calls = .handling op :: rest)
    (history : after.history = .called op result cancelled :: proactor.history) :
    Seated after := by
  have known : proactor.called = op :: rest.filterMap Frame.op := by
    rw [EpollOperations.called, before]
    rfl
  have called : after.called = proactor.called := by
    rw [known, EpollOperations.called, calls]
    rfl
  have first : op ∉ rest.filterMap Frame.op := by
    have distinct := seated.distinct
    rw [known, List.nodup_cons] at distinct
    exact distinct.1
  have busy : op ∈ proactor.called := by
    rw [known]
    exact List.mem_cons_self ..
  have others : ∀ other result cancelled, .dispatching other result cancelled ∈ rest →
      op ≠ other := by
    rintro other result cancelled inside rfl
    exact first (List.mem_filterMap.mpr ⟨_, inside, rfl⟩)
  refine ⟨?_, ?_, ?_, ?_, ?_, ?_, ?_, ?_, ?_⟩
  · rw [slots, size]
    exact seated.own
  · rw [slots, state]
    exact seated.submitted
  · rw [slots, called]
    exact seated.apart
  · rw [called, state]
    exact seated.busy
  · rw [called]
    exact seated.distinct
  · intro side fd other full
    rw [slots] at full
    have differ : op ≠ other := by
      rintro rfl
      exact seated.apart side fd op full busy
    rw [history, OperationHistory.unanswered_called_of_ne differ]
    exact seated.asked side fd other full
  · intro other result' cancelled' due
    rw [calls] at due
    rcases List.mem_cons.mp due with same | due
    · cases same
    · rw [history, OperationHistory.unanswered_called_of_ne (others _ _ _ due)]
      refine seated.due other result' cancelled' ?_
      rw [before]
      exact List.mem_cons_of_mem _ due
  · intro other open'
    by_cases same : op = other
    · rw [history, ← same, OperationHistory.unanswered_called] at open'
      cases open'
    · rw [history, OperationHistory.unanswered_called_of_ne same] at open'
      rcases seated.found other open' with full | ⟨result', cancelled', due⟩
      · exact .inl (by rw [EpollOperations.slot, slots]; exact full)
      · refine .inr ⟨result', cancelled', ?_⟩
        rw [before] at due
        rw [calls]
        rcases List.mem_cons.mp due with equal | due
        · cases equal
          exact absurd rfl same
        · exact List.mem_cons_of_mem _ due
  · rw [history]
    refine ⟨seated.due op result cancelled ?_, seated.once⟩
    rw [before]
    exact List.mem_cons_self ..

/-- A handler returns. -/
theorem Seated.finish (seated : Seated proactor) {op : IoOperation} {rest : List Frame}
    (before : proactor.calls = .handling op :: rest)
    (slots : after.slots = proactor.slots) (size : after.size = proactor.size)
    (state : after.state = Function.update proactor.state op .idle)
    (calls : after.calls = rest) (history : after.history = proactor.history) : Seated after := by
  have known : proactor.called = op :: after.called := by
    rw [EpollOperations.called, before, EpollOperations.called, calls]
    rfl
  have distinct := seated.distinct
  rw [known, List.nodup_cons] at distinct
  refine ⟨?_, ?_, ?_, ?_, ?_, ?_, ?_, ?_, ?_⟩
  · rw [slots, size]
    exact seated.own
  · intro side fd other full
    rw [slots] at full
    have apart := seated.apart side fd other full
    rw [known, List.mem_cons] at apart
    rw [state, Function.update_of_ne (not_or.mp apart).1]
    exact seated.submitted side fd other full
  · intro side fd other full
    rw [slots] at full
    have apart := seated.apart side fd other full
    rw [known, List.mem_cons] at apart
    exact (not_or.mp apart).2
  · intro other busy
    rw [state, Function.update_of_ne (ne_of_mem_of_not_mem busy distinct.1)]
    refine seated.busy other ?_
    rw [known]
    exact List.mem_cons_of_mem _ busy
  · exact distinct.2
  · rw [slots, history]
    exact seated.asked
  · intro other result cancelled due
    rw [calls] at due
    rw [history]
    refine seated.due other result cancelled ?_
    rw [before]
    exact List.mem_cons_of_mem _ due
  · intro other open'
    rw [history] at open'
    rcases seated.found other open' with full | ⟨result, cancelled, due⟩
    · exact .inl (by rw [EpollOperations.slot, slots]; exact full)
    · refine .inr ⟨result, cancelled, ?_⟩
      rw [before] at due
      rw [calls]
      rcases List.mem_cons.mp due with equal | due
      · cases equal
      · exact due
  · rw [history]
    exact seated.once

theorem Seated.same (seated : Seated proactor) (slots : after.slots = proactor.slots)
    (size : proactor.size ≤ after.size) (state : after.state = proactor.state)
    (calls : after.calls = proactor.calls) (history : after.history = proactor.history) :
    Seated after := by
  have called : after.called = proactor.called := by rw [EpollOperations.called, calls]; rfl
  refine ⟨?_, ?_, ?_, ?_, ?_, ?_, ?_, ?_, ?_⟩
  · intro side fd op full
    rw [slots] at full
    obtain ⟨side, fd, nonneg, small⟩ := seated.own side fd op full
    exact ⟨side, fd, nonneg, small.trans_le size⟩
  · rw [slots, state]
    exact seated.submitted
  · rw [slots, called]
    exact seated.apart
  · rw [called, state]
    exact seated.busy
  · rw [called]
    exact seated.distinct
  · rw [slots, history]
    exact seated.asked
  · rw [calls, history]
    exact seated.due
  · intro op open'
    rw [history] at open'
    rw [calls, EpollOperations.slot, slots]
    exact seated.found op open'
  · rw [history]
    exact seated.once

/-- What a step does keeps the operations where they belong. -/
theorem Seated.move (seated : Seated proactor) (moves : proactor.Moves after) : Seated after := by
  cases moves with
  | same slots size state calls history => exact seated.same slots size state calls history
  | seat op accepted valid idle empty slots size state calls history =>
      exact seated.seat valid idle empty slots size state calls history
  | withdraw ops result cancelled inside distinct slots size state calls history =>
      exact seated.withdraw inside distinct slots size state calls history
  | call op result cancelled rest before slots size state calls history =>
      exact seated.call before slots size state calls history
  | finish op rest before slots size state calls history =>
      exact seated.finish before slots size state calls history

/-! ### Which step does what -/

theorem slots_setSlot_none {op other : IoOperation} {side : Side} {fd : ℤ}
    (seated : Seated proactor) (inside : proactor.slot op = some op) :
    (proactor.setSlot op none).slots side fd = some other ↔
      proactor.slots side fd = some other ∧ other ∉ [op] := by
  unfold setSlot
  dsimp only
  rw [List.mem_singleton]
  split_ifs with here
  · constructor
    · nofun
    · rintro ⟨full, differ⟩
      rw [here.1, here.2, ← EpollOperations.slot, inside] at full
      exact absurd (Option.some.inj full).symm differ
  · constructor
    · intro full
      refine ⟨full, ?_⟩
      rintro rfl
      obtain ⟨side, fd, -, -⟩ := seated.own side fd other full
      exact here ⟨side.symm, fd.symm⟩
    · exact And.left

/-- An operation is cancelled or completed. -/
theorem Seated.withdraw_one (seated : Seated proactor) {op : IoOperation} {result : ℤ}
    {cancelled : Bool} (inside : proactor.slot op = some op)
    (slots : after.slots = (proactor.setSlot op none).slots) (size : after.size = proactor.size)
    (state : ∀ other, after.state other = proactor.state other ∨
      other ∈ [op] ∧ after.state other = .cancelling)
    (stack : after.stack = .dispatching op result cancelled :: proactor.stack)
    (history : after.history = proactor.history) : proactor.Moves after := by
  refine .withdraw [op] result cancelled ?_ (List.nodup_singleton op) ?_ size state ?_ history
  · intro other taken
    rw [List.mem_singleton.mp taken]
    exact inside
  · intro side fd other
    rw [slots]
    exact slots_setSlot_none seated inside
  · rw [calls, stack]
    rfl

theorem Seated.nodup_ops (seated : Seated proactor) (fd : ℤ) : (proactor.ops fd).Nodup := by
  unfold ops
  cases read : proactor.slots .read fd with
  | none => cases proactor.slots .write fd <;> simp
  | some op =>
      cases write : proactor.slots .write fd with
      | none => simp
      | some other =>
          simp only [Option.toList_some, List.singleton_append, List.nodup_cons,
            List.mem_singleton, List.not_mem_nil, not_false_iff, List.nodup_nil, and_true]
          rintro rfl
          have left := (seated.own _ _ _ read).1
          rw [(seated.own _ _ _ write).1] at left
          cases left

/-- Both slots of a descriptor are emptied. -/
theorem Seated.release (seated : Seated proactor) {fd : ℤ} {result : ℤ} {cancelled : Bool}
    (slots : after.slots = fun side other =>
      if other = fd then none else proactor.slots side other)
    (size : after.size = proactor.size) (state : after.state = proactor.state)
    (calls : after.calls = ((proactor.ops fd).map fun op => .dispatching op result cancelled) ++
      proactor.calls)
    (history : after.history = proactor.history) : proactor.Moves after := by
  refine .withdraw (proactor.ops fd) result cancelled ?_ (seated.nodup_ops fd) ?_ size ?_ calls
    history
  · intro op taken
    obtain ⟨side, full⟩ := mem_ops.mp taken
    exact seated.slot full
  · intro side other op
    rw [slots]
    dsimp only
    split_ifs with here
    · constructor
      · nofun
      · rintro ⟨full, out⟩
        exact absurd (mem_ops.mpr ⟨side, here ▸ full⟩) out
    · constructor
      · intro full
        refine ⟨full, fun taken => ?_⟩
        obtain ⟨side', full'⟩ := mem_ops.mp taken
        have left := (seated.own _ _ _ full).2.1
        rw [(seated.own _ _ _ full').2.1] at left
        exact here left.symm
      · exact And.left
  · intro op
    rw [state]
    exact .inl rfl

theorem Seated.valid (seated : Seated proactor) {fd : ℤ} (some' : proactor.ops fd ≠ []) :
    0 ≤ fd := by
  obtain ⟨op, taken⟩ := List.exists_mem_of_ne_nil _ some'
  obtain ⟨side, full⟩ := mem_ops.mp taken
  exact (seated.own side fd op full).2.2.1

theorem calls_append_dispatching (ops : List IoOperation) (result : ℤ) (cancelled : Bool)
    (stack : after.stack =
      (ops.map fun op => .dispatching op result cancelled) ++ proactor.stack) :
    after.calls = (ops.map fun op => .dispatching op result cancelled) ++ proactor.calls := by
  rw [calls, stack, List.filter_append, calls]
  congr 1
  rw [List.filter_eq_self]
  intro frame inside
  obtain ⟨op, -, rfl⟩ := List.mem_map.mp inside
  rfl

theorem Seated.moves_release (seated : Seated proactor) (fd : ℤ) (result : ℤ)
    (cancelled : Bool) : proactor.Moves (proactor.release fd result cancelled) := by
  rw [release_eq proactor seated.valid]
  exact seated.release rfl rfl rfl (calls_append_dispatching _ result cancelled rfl) rfl

theorem Seated.moves_ready (seated : Seated proactor) {side : Side} {fd : ℤ} {result : ℤ}
    {verdict : Option Errno} (ready : proactor.onReady side fd result verdict = some after) :
    proactor.Moves after := by
  obtain ⟨op, full, rfl⟩ := Option.map_eq_some_iff.mp ready
  obtain ⟨-, same, valid, inside⟩ := seated.own side fd op full
  rw [← same] at valid inside
  obtain ⟨registry, -, ended⟩ := proactor.endOperation_cases result false verdict valid inside
  rw [ended]
  exact seated.withdraw_one (seated.slot full) rfl rfl (fun other => .inl rfl) rfl rfl

theorem Seated.moves_serve (seated : Seated proactor) (own connected : Bool)
    (verdict : Option Errno) (request : OperationRequest) :
    proactor.Moves (proactor.serve own connected verdict request) := by
  cases request with
  | submit op =>
      rw [serve]
      rcases proactor.submitOperation_cases op connected verdict with
        ⟨size, larger, refused⟩ | ⟨valid, idle, empty, accepted, registry, -, seated'⟩
      · rw [refused]
        exact .same rfl larger rfl rfl rfl
      · rw [seated']
        exact .seat op accepted valid idle empty rfl rfl rfl rfl rfl
  | cancel op =>
      rw [serve]
      rcases proactor.cancelOperation_cases op verdict with
        refused | ⟨valid, inside, registry, -, cancelled⟩
      · rw [refused]
        exact .same rfl le_rfl rfl rfl rfl
      · rw [cancelled]
        refine seated.withdraw_one inside rfl rfl ?_ rfl rfl
        intro other
        by_cases same : other = op
        · exact .inr ⟨List.mem_singleton.mpr same, by rw [same]; exact Function.update_self ..⟩
        · exact .inl (Function.update_of_ne same ..)
  | stop => exact .same rfl le_rfl rfl rfl rfl

theorem Seated.proceed (seated : Seated proactor) (goes : proactor.proceed = some after) :
    Seated after := by
  unfold EpollOperations.proceed at goes
  split at goes
  · cases goes
  · rename_i op result cancelled rest stack
    cases goes
    refine seated.move (.call op result cancelled (rest.filter fun frame => frame.op.isSome) ?_
      rfl rfl rfl rfl rfl)
    rw [calls, stack]
    rfl
  · rename_i op rest stack
    cases goes
    refine seated.move (.finish op (rest.filter fun frame => frame.op.isSome) ?_ rfl rfl rfl rfl
      rfl)
    rw [calls, stack]
    rfl
  · rename_i next stops rest stack
    split_ifs at goes
    · cases goes
      have advanced : Seated { proactor with stack := .cancelling (next + 1) stops :: rest } := by
        refine seated.same rfl le_rfl rfl ?_ rfl
        rw [calls, calls, stack]
        rfl
      exact advanced.move (advanced.moves_release next (-ecanceled) true)
    · cases goes
      refine seated.same rfl le_rfl rfl ?_ rfl
      rw [calls, calls, stack]
      rfl
  · rename_i rest stack
    cases goes
    refine seated.same rfl le_rfl rfl ?_ rfl
    rw [calls, calls, stack]
    rfl

theorem Seated.dispatchEvent (seated : Seated proactor) {event : EpollEvent} {result : ℤ}
    {verdict : Option Errno}
    (dispatched : proactor.dispatchEvent wakeup event result verdict = some after) :
    Seated after := by
  unfold EpollOperations.dispatchEvent at dispatched
  split at dispatched
  · cases dispatched
    exact seated
  · unfold onReadable at dispatched
    split_ifs at dispatched
    · cases dispatched
      exact seated.same rfl le_rfl rfl rfl rfl
    · exact seated.move (seated.moves_ready dispatched)
  · exact seated.move (seated.moves_ready dispatched)
  · cases dispatched
    exact seated.move (seated.moves_release ..)
  · cases dispatched
    exact seated.move (seated.moves_release ..)

/-- What makes a step. -/
inductive Step (wakeup : ℤ) (proactor : EpollOperations) : EpollStep → EpollOperations → Prop where
  | wait {batch : List EpollEvent} {stop : Bool} (checking : proactor.phase = .checking)
      (running : proactor.running = true) (fetched : proactor.registry.interest.Fetches batch) :
      Step wakeup proactor (.wait batch stop)
        { proactor with pending := batch, phase := .dispatching, running := !stop }
  | dispatch {event : EpollEvent} {rest : List EpollEvent} {result : ℤ} {verdict : Option Errno}
      {after : EpollOperations} (returned : proactor.stack = [])
      (pending : proactor.pending = event :: rest)
      (dispatched :
        { proactor with pending := rest }.dispatchEvent wakeup event result verdict = some after) :
      Step wakeup proactor (.dispatch result verdict) after
  | perform {request : OperationRequest} {connected : Bool} {verdict : Option Errno} {own : Bool}
      {rest : List Frame} (top : own = false ∧ proactor.stack = .reading :: rest ∨
        own = true ∧ ∃ op, proactor.stack = .handling op :: rest) :
      Step wakeup proactor (.perform request connected verdict)
        (proactor.serve own connected verdict request)
  | proceed {after : EpollOperations} (goes : proactor.proceed = some after) :
      Step wakeup proactor .proceed after
  | sweep (dispatching : proactor.phase = .dispatching) (returned : proactor.stack = [])
      (empty : proactor.pending = []) :
      Step wakeup proactor .sweep
        { proactor with registry := proactor.registry.sweep, phase := .checking }
  | leave (checking : proactor.phase = .checking) (stopped : proactor.running = false) :
      Step wakeup proactor .leave { proactor with phase := .returned }

theorem step_of_act (happens : proactor.act wakeup action = some after) :
    proactor.Step wakeup action after := by
  cases action with
  | wait batch stop =>
      obtain ⟨⟨checking, running, fetched⟩, same⟩ := Option.ite_none_right_eq_some.mp happens
      cases same
      exact .wait checking running fetched
  | dispatch result verdict =>
      unfold act at happens
      dsimp only at happens
      split at happens
      · rename_i event rest returned pending
        exact .dispatch returned pending happens
      · cases happens
  | perform request connected verdict =>
      unfold act at happens
      dsimp only at happens
      split at happens
      · rename_i rest top
        cases happens
        exact .perform (.inl ⟨rfl, top⟩)
      · rename_i op rest top
        cases happens
        exact .perform (.inr ⟨rfl, op, top⟩)
      · cases happens
  | proceed => exact .proceed happens
  | sweep =>
      obtain ⟨⟨dispatching, returned, empty⟩, same⟩ := Option.ite_none_right_eq_some.mp happens
      cases same
      exact .sweep dispatching returned empty
  | leave =>
      obtain ⟨⟨checking, stopped⟩, same⟩ := Option.ite_none_right_eq_some.mp happens
      cases same
      exact .leave checking stopped

theorem Seated.step (seated : Seated proactor) (step : proactor.Step wakeup action after) :
    Seated after := by
  cases step with
  | wait checking running fetched => exact seated.same rfl le_rfl rfl rfl rfl
  | @dispatch event rest result verdict after returned pending dispatched =>
      have taken : Seated { proactor with pending := rest } := seated.same rfl le_rfl rfl rfl rfl
      exact taken.dispatchEvent dispatched
  | perform top => exact seated.move (seated.moves_serve ..)
  | proceed goes => exact seated.proceed goes
  | sweep dispatching returned empty => exact seated.same rfl le_rfl rfl rfl rfl
  | leave checking stopped => exact seated.same rfl le_rfl rfl rfl rfl

/-! ### What a step leaves alone -/

/-- No slot was filled, the batch is the same, and so is where the loop stands. -/
structure Kept (proactor after : EpollOperations) : Prop where
  pending : after.pending = proactor.pending
  phase : after.phase = proactor.phase
  stopped : after.stopped = proactor.stopped
  slots : ∀ side fd op, after.slots side fd = some op → proactor.slots side fd = some op

theorem Seated.kept_release (seated : Seated proactor) (fd : ℤ) (result : ℤ) (cancelled : Bool) :
    proactor.Kept (proactor.release fd result cancelled) := by
  rw [release_eq proactor seated.valid]
  refine ⟨rfl, rfl, rfl, fun side other op full => ?_⟩
  dsimp only at full
  split_ifs at full
  exact full

theorem kept_setSlot {op : IoOperation} (slots : after.slots = (proactor.setSlot op none).slots)
    (pending : after.pending = proactor.pending) (phase : after.phase = proactor.phase)
    (stopped : after.stopped = proactor.stopped) : proactor.Kept after := by
  refine ⟨pending, phase, stopped, fun side fd other full => ?_⟩
  rw [slots] at full
  unfold setSlot at full
  dsimp only at full
  split_ifs at full
  exact full

theorem Seated.kept_ready (seated : Seated proactor) {side : Side} {fd : ℤ} {result : ℤ}
    {verdict : Option Errno} (ready : proactor.onReady side fd result verdict = some after) :
    proactor.Kept after := by
  obtain ⟨op, full, rfl⟩ := Option.map_eq_some_iff.mp ready
  obtain ⟨-, same, valid, inside⟩ := seated.own side fd op full
  rw [← same] at valid inside
  obtain ⟨registry, -, ended⟩ := proactor.endOperation_cases result false verdict valid inside
  rw [ended]
  exact kept_setSlot rfl rfl rfl rfl

theorem Seated.kept_dispatchEvent (seated : Seated proactor) {event : EpollEvent} {result : ℤ}
    {verdict : Option Errno}
    (dispatched : proactor.dispatchEvent wakeup event result verdict = some after) :
    proactor.Kept after := by
  unfold EpollOperations.dispatchEvent at dispatched
  split at dispatched
  · cases dispatched
    exact ⟨rfl, rfl, rfl, fun _ _ _ full => full⟩
  · unfold onReadable at dispatched
    split_ifs at dispatched
    · cases dispatched
      exact ⟨rfl, rfl, rfl, fun _ _ _ full => full⟩
    · exact seated.kept_ready dispatched
  · exact seated.kept_ready dispatched
  · cases dispatched
    exact seated.kept_release ..
  · cases dispatched
    exact seated.kept_release ..

theorem Seated.kept_proceed (seated : Seated proactor) (goes : proactor.proceed = some after) :
    proactor.Kept after := by
  unfold EpollOperations.proceed at goes
  split at goes
  · cases goes
  · cases goes
    exact ⟨rfl, rfl, rfl, fun _ _ _ full => full⟩
  · cases goes
    exact ⟨rfl, rfl, rfl, fun _ _ _ full => full⟩
  · rename_i next stops rest stack
    split_ifs at goes
    · cases goes
      have advanced : Seated { proactor with stack := .cancelling (next + 1) stops :: rest } := by
        refine seated.same rfl le_rfl rfl ?_ rfl
        rw [calls, calls, stack]
        rfl
      have kept := advanced.kept_release next (-ecanceled) true
      exact ⟨kept.pending, kept.phase, kept.stopped, kept.slots⟩
    · cases goes
      exact ⟨rfl, rfl, rfl, fun _ _ _ full => full⟩
  · cases goes
    exact ⟨rfl, rfl, rfl, fun _ _ _ full => full⟩

theorem pending_serve (own connected : Bool) (verdict : Option Errno)
    (request : OperationRequest) :
    (proactor.serve own connected verdict request).pending = proactor.pending := by
  cases request with
  | submit op =>
      rw [serve]
      rcases proactor.submitOperation_cases op connected verdict with
        ⟨size, -, refused⟩ | ⟨-, -, -, accepted, registry, -, seated⟩
      · rw [refused]
      · rw [seated]
        rfl
  | cancel op =>
      rw [serve]
      rcases proactor.cancelOperation_cases op verdict with
        refused | ⟨-, -, registry, -, cancelled⟩
      · rw [refused]
      · rw [cancelled]
        rfl
  | stop => rfl

/-- A request fills no slot but that of an operation that it submits. -/
theorem slots_serve {own connected : Bool} {verdict : Option Errno} {request : OperationRequest}
    {side : Side} {fd : ℤ} {op : IoOperation}
    (full : (proactor.serve own connected verdict request).slots side fd = some op) :
    proactor.slots side fd = some op ∨ request = .submit op ∧ side = op.side ∧ fd = op.fd := by
  cases request with
  | submit other =>
      rw [serve] at full
      rcases proactor.submitOperation_cases other connected verdict with
        ⟨size, -, refused⟩ | ⟨-, -, -, accepted, registry, -, seated⟩
      · rw [refused] at full
        exact .inl full
      · rw [seated] at full
        rcases slots_setSlot_some.mp full with ⟨⟨rfl, rfl⟩, rfl⟩ | ⟨-, before⟩
        · exact .inr ⟨rfl, rfl, rfl⟩
        · exact .inl before
  | cancel other =>
      rw [serve] at full
      rcases proactor.cancelOperation_cases other verdict with
        refused | ⟨-, -, registry, -, cancelled⟩
      · rw [refused] at full
        exact .inl full
      · rw [cancelled] at full
        exact .inl ((@kept_setSlot _ (proactor.setSlot other none) other rfl rfl rfl
          rfl).slots _ _ _ full)
  | stop => exact .inl full

theorem initial_seated (wakeup : ℤ) : Seated (initial wakeup) where
  own := fun _ _ _ => nofun
  submitted := fun _ _ _ => nofun
  apart := fun _ _ _ => nofun
  busy := fun _ => nofun
  distinct := List.nodup_nil
  asked := fun _ _ _ => nofun
  due := fun _ _ _ => nofun
  found := fun _ => nofun
  once := trivial

theorem seated_of_trace {steps : List EpollStep}
    (trace : Trace (act wakeup) (initial wakeup) steps proactor) : Seated proactor :=
  trace.invariant Seated (fun _ _ _ seated happens => seated.step (step_of_act happens)) (initial_seated wakeup)

end

end EpollOperations

end Join
