import Mathlib.Logic.Relation
import Mathlib.Tactic.Common

/-!
# Calls that run in atomic steps

A call is a sequence of atomic steps on a shared memory, and between two steps it
keeps a local state. A step reads or changes the memory, moves to the next local
state and may return. Some steps depend on a choice of the machine, such as a
compare-exchange that may fail for no reason: the choice is a Boolean argument of
the step.

A call alone on the memory is described by `Completes`. Two rules reason about it: an
assertion on the memory and the local state that every step keeps holds at the
return, and a call whose steps lower a measure does return.
-/

set_option autoImplicit false

namespace Join.Library

variable {Memory Local Item Reply : Type}

/-- What one atomic step of a call leaves. -/
structure Turn (Memory Local Item Reply : Type) where
  memory : Memory
  next : Local
  /-- The items that the step moves from one owner to another. -/
  moved : List Item
  /-- What the call returns, if the step is its last one. -/
  reply : Option Reply

namespace Turn

/-- A step that goes on to the next local state. -/
def goOn (memory : Memory) (next : Local) : Turn Memory Local Item Reply :=
  ⟨memory, next, [], none⟩

/-- A step that goes on and moves some items. -/
def move (memory : Memory) (next : Local) (items : List Item) : Turn Memory Local Item Reply :=
  ⟨memory, next, items, none⟩

/-- A step that returns. -/
def finish (memory : Memory) (next : Local) (reply : Reply) : Turn Memory Local Item Reply :=
  ⟨memory, next, [], some reply⟩

end Turn

/-- A call alone on the memory returns. -/
inductive Completes (step : Bool → Memory → Local → Turn Memory Local Item Reply) :
    Memory → Local → Reply → Memory → Local → Prop where
  | last {memory : Memory} {now : Local} {reply : Reply} (choice : Bool)
      (returns : (step choice memory now).reply = some reply) :
      Completes step memory now reply (step choice memory now).memory (step choice memory now).next
  | more {memory after : Memory} {now final : Local} {reply : Reply} (choice : Bool)
      (goesOn : (step choice memory now).reply = none)
      (rest : Completes step (step choice memory now).memory (step choice memory now).next
        reply after final) :
      Completes step memory now reply after final

variable {step : Bool → Memory → Local → Turn Memory Local Item Reply}

/-- A step meets an assertion: it returns with the postcondition, or it goes on with
the assertion. -/
def Turn.Meets (turn : Turn Memory Local Item Reply) (during : Memory → Local → Prop)
    (post : Reply → Memory → Local → Prop) : Prop :=
  match turn.reply with
  | none => during turn.memory turn.next
  | some reply => post reply turn.memory turn.next

/-- An assertion that every step keeps holds at the return. -/
theorem Completes.post {during : Memory → Local → Prop} {post : Reply → Memory → Local → Prop}
    (keeps : ∀ choice memory now, during memory now →
      (step choice memory now).Meets during post)
    {memory after : Memory} {now final : Local} {reply : Reply}
    (returns : Completes step memory now reply after final) (start : during memory now) :
    post reply after final := by
  induction returns with
  | last choice returned =>
      have kept := keeps choice _ _ start
      rwa [Turn.Meets, returned] at kept
  | more choice goesOn _ ih =>
      have kept := keeps choice _ _ start
      rw [Turn.Meets, goesOn] at kept
      exact ih kept

/-- A call whose steps keep an assertion and lower a measure, at least under one choice
of the machine, returns. -/
theorem Completes.exists_of_measure {during : Memory → Local → Prop} (measure : Local → ℕ)
    (choice : Bool)
    (keeps : ∀ memory now, during memory now → (step choice memory now).Meets
      (fun after next => during after next ∧ measure next < measure now) fun _ _ _ => True)
    {memory : Memory} {now : Local} (start : during memory now) :
    ∃ reply after final, Completes step memory now reply after final := by
  induction bound : measure now using Nat.strongRecOn generalizing memory now with
  | ind bound ih =>
      subst bound
      have kept := keeps memory now start
      unfold Turn.Meets at kept
      cases reply : (step choice memory now).reply with
      | some returned => exact ⟨returned, _, _, .last choice reply⟩
      | none =>
          rw [reply] at kept
          obtain ⟨answer, after, final, rest⟩ := ih _ kept.2 kept.1 rfl
          exact ⟨answer, after, final, .more choice reply rest⟩

theorem Turn.Meets.mono {turn : Turn Memory Local Item Reply} {during during' : Memory → Local → Prop}
    {post post' : Reply → Memory → Local → Prop} (meets : turn.Meets during post)
    (weaken : ∀ memory next, during memory next → during' memory next)
    (relax : ∀ reply memory next, post reply memory next → post' reply memory next) :
    turn.Meets during' post' := by
  unfold Turn.Meets at *
  split at meets
  · exact weaken _ _ meets
  · exact relax _ _ _ meets

/-- A call that keeps an assertion, and whose steps lower a measure unless the machine
chooses otherwise, returns, and whenever it returns it meets the postcondition. -/
theorem Completes.total {during : Memory → Local → Prop} {post : Reply → Memory → Local → Prop}
    (measure : Local → ℕ)
    (keeps : ∀ choice memory now, during memory now → (step choice memory now).Meets
      (fun after next => during after next ∧ (choice = false → measure next < measure now)) post)
    {memory : Memory} {now : Local} (start : during memory now) :
    (∃ reply after final, Completes step memory now reply after final) ∧
    ∀ {reply after final}, Completes step memory now reply after final → post reply after final := by
  constructor
  · refine Completes.exists_of_measure measure false (fun memory now during => ?_) start
    exact (keeps false memory now during).mono (fun _ _ kept => ⟨kept.1, kept.2 rfl⟩)
      fun _ _ _ _ => trivial
  · intro reply after final returns
    refine returns.post (fun choice memory now during => ?_) start
    exact (keeps choice memory now during).mono (fun _ _ kept => kept.1) fun _ _ _ done => done

end Join.Library
