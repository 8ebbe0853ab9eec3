import Join.Core.EpollSeats

/-!
# Submits that fail

`submitOperation` of the epoll proactor has five ways to fail: there is no operation, or no
descriptor; the operation is under way; `connect` fails; the slot is taken; epoll refuses the
descriptor. The first three leave everything as it was. When the slot is taken a connection has
already been started for a Connect, and when epoll refuses the descriptor the operation is
already in its slot.
-/

set_option autoImplicit false

namespace Join

open Library

namespace EpollOperations

/-- What a submit has returned, the proactor after it, and whether it has started a connection. -/
structure SubmitOutcome where
  accepted : Bool
  proactor : EpollOperations
  attempted : Bool

/-- `submitOperation`, with the call of `connect`; `connected` tells whether that has not failed,
or is in progress. -/
def submit (proactor : EpollOperations) (op : Option IoOperation) (connected : Bool)
    (verdict : Option Errno) : SubmitOutcome :=
  match op with
  | none => ⟨false, proactor, false⟩
  | some op =>
      if op.fd < 0 then ⟨false, proactor, false⟩
      else if proactor.state op ≠ .idle then ⟨false, proactor, false⟩
      else if op.code = .connect ∧ connected = false then ⟨false, proactor, false⟩
      else
        let grown := { proactor with size := max proactor.size (op.fd.toNat + 1) }
        if grown.slot op ≠ none then ⟨false, grown, op.code == .connect⟩
        else
          let added := ((grown.setSlot op (some op)).setState op .submitted).addHandler verdict op.fd
          ⟨added.1, { added.2 with history := .submitted op added.1 :: added.2.history },
            op.code == .connect⟩

/-- The call leaves no trace: nothing has changed but for empty slots at the end, and no
connection has been started. -/
structure Traceless (proactor : EpollOperations) (outcome : SubmitOutcome) : Prop where
  slots : outcome.proactor.slots = proactor.slots
  state : outcome.proactor.state = proactor.state
  registry : outcome.proactor.registry = proactor.registry
  same : outcome.proactor = { proactor with size := outcome.proactor.size }
  unattempted : outcome.attempted = false

/-- An operation that gets as far as its slot is no Connect when the slot is taken, and is not
refused by epoll when the slot is free. -/
def Untroubled (proactor : EpollOperations) (op : Option IoOperation) (connected : Bool)
    (verdict : Option Errno) : Prop :=
  ∀ submitted ∈ op, 0 ≤ submitted.fd → proactor.state submitted = .idle →
    ¬(submitted.code = .connect ∧ connected = false) →
      (proactor.slot submitted ≠ none → submitted.code ≠ .connect) ∧
        (proactor.slot submitted = none → verdict = none)

variable {proactor : EpollOperations} {op : IoOperation} {connected : Bool}
variable {verdict : Option Errno}

/-- A submit that changes nothing but the length of the vectors. -/
theorem traceless_grown (size : ℕ) : Traceless proactor ⟨false, { proactor with size := size }, false⟩ :=
  ⟨rfl, rfl, rfl, rfl, rfl⟩

theorem addHandler_state (fd : ℤ) : (proactor.addHandler verdict fd).2.state = proactor.state := by
  unfold addHandler
  split <;> rfl

/-- Epoll refuses a descriptor for a reason of its own, whether it knows the descriptor or not. -/
theorem addHandler_refused {fd : ℤ} (refused : verdict ≠ none) :
    (proactor.addHandler verdict fd).1 = false := by
  obtain ⟨errno, rfl⟩ := Option.ne_none_iff_exists'.mp refused
  unfold addHandler
  cases registered : proactor.registry.registerHandler (some errno) 0 fd (some ())
      (Request.eventsOf (proactor.slots .read fd).isSome (proactor.slots .write fd).isSome) with
  | ok registry =>
      unfold Registry.registerHandler epollAdd epollMod at registered
      dsimp only at registered
      split_ifs at registered
      cases known : proactor.registry.interest fd with
      | none =>
          rw [known] at registered
          cases errno <;> cases registered
      | some entry =>
          rw [known] at registered
          cases registered
  | error cause => rfl

/-- A submit is refused at once, finds its slot taken, or takes it, which epoll may refuse. -/
theorem submit_cases (proactor : EpollOperations) (op : IoOperation) (connected : Bool)
    (verdict : Option Errno) :
    (op.fd < 0 ∨ proactor.state op ≠ .idle ∨ op.code = .connect ∧ connected = false) ∧
        proactor.submit (some op) connected verdict = ⟨false, proactor, false⟩ ∨
      0 ≤ op.fd ∧ proactor.state op = .idle ∧ ¬(op.code = .connect ∧ connected = false) ∧
        (proactor.slot op ≠ none ∧
            (∃ size, proactor.submit (some op) connected verdict =
              ⟨false, { proactor with size := size }, op.code == .connect⟩) ∨
          proactor.slot op = none ∧
            (proactor.submit (some op) connected verdict).proactor.state op = .submitted ∧
            ((proactor.submit (some op) connected verdict).accepted = false ↔ verdict ≠ none)) := by
  unfold submit
  dsimp only
  by_cases negative : op.fd < 0
  · rw [if_pos negative]
    exact .inl ⟨.inl negative, rfl⟩
  rw [if_neg negative]
  by_cases busy : proactor.state op ≠ .idle
  · rw [if_pos busy]
    exact .inl ⟨.inr (.inl busy), rfl⟩
  rw [if_neg busy]
  by_cases unconnected : op.code = .connect ∧ connected = false
  · rw [if_pos unconnected]
    exact .inl ⟨.inr (.inr unconnected), rfl⟩
  rw [if_neg unconnected]
  refine .inr ⟨not_lt.mp negative, not_not.mp busy, unconnected, ?_⟩
  by_cases taken : proactor.slot op ≠ none
  · exact .inl ⟨taken, _, if_pos taken⟩
  · have free : ¬(slot { proactor with size := max proactor.size (op.fd.toNat + 1) } op ≠ none) :=
      taken
    rw [if_neg free]
    refine .inr ⟨not_not.mp taken, ?_, ?_⟩
    · dsimp only
      rw [addHandler_state]
      exact Function.update_self ..
    · have seated : ((({ proactor with size := max proactor.size (op.fd.toNat + 1) }).setSlot op
          (some op)).setState op .submitted).slots op.side op.fd ≠ none := by
        simp [setSlot, setState]
      refine ⟨fun failed => ?_, addHandler_refused⟩
      rcases addHandler_cases _ verdict (not_lt.mp negative) seated with added | ⟨refused, _⟩
      · rw [added] at failed
        cases failed
      · exact refused

/-- A submit that fails leaves no trace exactly when it is untroubled. -/
theorem traceless_iff (proactor : EpollOperations) (op : Option IoOperation)
    (connected : Bool) (verdict : Option Errno) :
    ((proactor.submit op connected verdict).accepted = false →
        Traceless proactor (proactor.submit op connected verdict)) ↔
      Untroubled proactor op connected verdict := by
  cases op with
  | none =>
      refine iff_of_true (fun _ => traceless_grown proactor.size) fun submitted none => ?_
      cases none
  | some op =>
      have untroubled : Untroubled proactor (some op) connected verdict ↔ (0 ≤ op.fd →
          proactor.state op = .idle → ¬(op.code = .connect ∧ connected = false) →
            (proactor.slot op ≠ none → op.code ≠ .connect) ∧
              (proactor.slot op = none → verdict = none)) := by
        simp [Untroubled]
      rw [untroubled]
      rcases proactor.submit_cases op connected verdict with ⟨reason, outcome⟩ |
        ⟨valid, idle, going, ⟨taken, size, outcome⟩ | ⟨free, state, refused⟩⟩
      · rw [outcome]
        refine iff_of_true (fun _ => traceless_grown proactor.size) fun valid idle going => ?_
        rcases reason with negative | busy | unconnected
        · exact absurd negative (not_lt.mpr valid)
        · exact absurd idle busy
        · exact absurd unconnected going
      · rw [outcome]
        by_cases connect : op.code = .connect
        · refine iff_of_false (fun traceless => ?_) fun right => ?_
          · have started : (op.code == Opcode.connect) = false := (traceless rfl).unattempted
            rw [connect] at started
            cases started
          · exact (right valid idle going).1 taken connect
        · rw [beq_false_of_ne connect]
          exact iff_of_true (fun _ => traceless_grown size)
            fun _ _ _ => ⟨fun _ => connect, fun free => absurd free taken⟩
      · by_cases accepted : verdict = none
        · refine iff_of_true (fun failed => absurd accepted (refused.mp failed)) fun _ _ _ => ?_
          exact ⟨fun taken => absurd free taken, fun _ => accepted⟩
        · refine iff_of_false (fun traceless => ?_) fun right => ?_
          · rw [(traceless (refused.mpr accepted)).state, idle] at state
            cases state
          · exact accepted ((right valid idle going).2 free)

/-- When a submit succeeds. -/
theorem accepted_iff (proactor : EpollOperations) (op : IoOperation) (connected : Bool)
    (verdict : Option Errno) :
    (proactor.submit (some op) connected verdict).accepted = true ↔
      0 ≤ op.fd ∧ proactor.state op = .idle ∧ ¬(op.code = .connect ∧ connected = false) ∧
        proactor.slot op = none ∧ verdict = none := by
  rcases proactor.submit_cases op connected verdict with ⟨reason, outcome⟩ |
    ⟨valid, idle, going, ⟨taken, size, outcome⟩ | ⟨free, -, refused⟩⟩
  · rw [outcome]
    refine iff_of_false Bool.false_ne_true ?_
    rintro ⟨valid, idle, going, -⟩
    rcases reason with negative | busy | unconnected
    · exact absurd negative (not_lt.mpr valid)
    · exact busy idle
    · exact going unconnected
  · rw [outcome]
    refine iff_of_false Bool.false_ne_true ?_
    rintro ⟨-, -, -, free, -⟩
    exact taken free
  · rw [← Bool.not_eq_false, refused, not_not]
    constructor
    · intro accepted
      exact ⟨valid, idle, going, free, accepted⟩
    · rintro ⟨-, -, -, -, accepted⟩
      exact accepted

/-- After a submit that has left no trace, the operation can be submitted as before. -/
theorem Traceless.again {op : Option IoOperation} {outcome : SubmitOutcome}
    (traceless : Traceless proactor outcome) (connected : Bool) (verdict : Option Errno) :
    (outcome.proactor.submit op connected verdict).accepted =
      (proactor.submit op connected verdict).accepted := by
  cases op with
  | none => rfl
  | some op =>
      have slot : outcome.proactor.slot op = proactor.slot op :=
        congrFun (congrFun traceless.slots op.side) op.fd
      rw [Bool.eq_iff_iff, accepted_iff, accepted_iff, traceless.state, slot]

/-- An operation that is idle is owed no call. -/
theorem Seated.unanswered_of_idle (seated : Seated proactor) (idle : proactor.state op = .idle) :
    proactor.history.unanswered op = none := by
  by_contra owed
  rcases seated.found op (Option.isSome_iff_ne_none.mpr owed) with slot | ⟨result, cancelled, due⟩
  · have state := seated.submitted op.side op.fd op slot
    rw [idle] at state
    cases state
  · exact seated.busy op (mem_called due) idle

/-- A submit that fails leaves no trace exactly when it is untroubled. Then the operation can be
submitted as before, and if it was idle no callback for it is due. -/
theorem failed_submit_traceless_iff (proactor : EpollOperations) (op : Option IoOperation)
    (connected : Bool) (verdict : Option Errno) :
    let outcome := proactor.submit op connected verdict
    ((outcome.accepted = false → Traceless proactor outcome) ↔
        Untroubled proactor op connected verdict) ∧
      (Traceless proactor outcome → ∀ connected' verdict',
        (outcome.proactor.submit op connected' verdict').accepted =
          (proactor.submit op connected' verdict').accepted) ∧
      (Traceless proactor outcome → ∀ wakeup steps,
        Trace (act wakeup) (initial wakeup) steps proactor → ∀ submitted,
          proactor.state submitted = .idle →
            outcome.proactor.history.unanswered submitted = none) := by
  refine ⟨proactor.traceless_iff op connected verdict, Traceless.again, ?_⟩
  intro traceless wakeup steps trace submitted idle
  rw [traceless.same]
  exact (seated_of_trace trace).unanswered_of_idle idle

/-- A receive whose descriptor epoll refuses stays in its slot. -/
theorem failed_submit_traces : ¬∀ (proactor : EpollOperations) (op : Option IoOperation)
    (connected : Bool) (verdict : Option Errno),
    (proactor.submit op connected verdict).accepted = false →
      Traceless proactor (proactor.submit op connected verdict) := by
  intro all
  have state := (all (initial 3) (some ⟨0, .recv, 5⟩) true (some (.other 12)) (by decide)).state
  exact absurd (congrFun state ⟨0, .recv, 5⟩) (by decide)

end EpollOperations

end Join
