import Mathlib.Tactic.Common

/-!
# Programs with state, failure and fuel

A program runs on a state. It ends with a value or with a failure, and it
leaves a state in both cases: a call that fails halfway has still changed what
it changed. A loop whose number of rounds the state does not bound takes fuel,
and a program whose fuel runs out gives no outcome at all, so that lack of fuel
is never mistaken for a failure.

The weakest precondition `wp program returns fails` holds of a state when the
program, started there, does produce an outcome, and the outcome satisfies
`returns` or `fails`. It is a total reading: a program out of fuel satisfies
no postcondition.

`Moves` says what a program may do to the state, `Ends` from which states its fuel lasts, and
`Within` that a program with more fuel has the outcomes of one with less.

`Simulates` compares two programs that run on two kinds of state: related states
give outcomes of the same kind, and the states and values they leave are related
again.
-/

set_option autoImplicit false

namespace Join.Library

/-- A program on `State`: `none` when its fuel runs out, otherwise its outcome and
the state it leaves. -/
def Program (State Failure α : Type) : Type :=
  State → Option (Except Failure α × State)

namespace Program

variable {State Failure α β : Type}

/-- Run the second program on the outcome of the first, unless the first fails. -/
def andThen (first : Program State Failure α) (next : α → Program State Failure β) :
    Program State Failure β := fun state =>
  match first state with
  | none => none
  | some (.ok value, after) => next value after
  | some (.error failure, after) => some (.error failure, after)

instance : Monad (Program State Failure) where
  pure value := fun state => some (.ok value, state)
  bind := andThen

/-- Fail, leaving the state as it is. -/
def fail (failure : Failure) : Program State Failure α := fun state =>
  some (.error failure, state)

/-- Read a part of the state. -/
def gets (read : State → α) : Program State Failure α := fun state =>
  some (.ok (read state), state)

/-- Change the state. -/
def change (update : State → State) : Program State Failure Unit := fun state =>
  some (.ok (), update state)

/-- A state transformer that also returns a value. -/
def act (transform : State → α × State) : Program State Failure α := fun state =>
  some (.ok (transform state).1, (transform state).2)

/-- The program whose fuel has run out. -/
def exhausted : Program State Failure α := fun _ => none

/-- Run a program and replace the failures it ends with. -/
def mapFailure (program : Program State Failure α) (replace : Failure → Failure) :
    Program State Failure α := fun state =>
  match program state with
  | some (.error failure, after) => some (.error (replace failure), after)
  | outcome => outcome

/-! ## Running the building blocks -/

@[simp] theorem pure_apply (value : α) (state : State) :
    (pure value : Program State Failure α) state = some (.ok value, state) := rfl

@[simp] theorem fail_apply (failure : Failure) (state : State) :
    (fail failure : Program State Failure α) state = some (.error failure, state) := rfl

@[simp] theorem gets_apply (read : State → α) (state : State) :
    (gets read : Program State Failure α) state = some (.ok (read state), state) := rfl

@[simp] theorem change_apply (update : State → State) (state : State) :
    (change update : Program State Failure Unit) state = some (.ok (), update state) := rfl

@[simp] theorem act_apply (transform : State → α × State) (state : State) :
    (act transform : Program State Failure α) state =
      some (.ok (transform state).1, (transform state).2) := rfl

theorem bind_apply (first : Program State Failure α) (next : α → Program State Failure β)
    (state : State) :
    (first >>= next) state =
      match first state with
      | none => none
      | some (.ok value, after) => next value after
      | some (.error failure, after) => some (.error failure, after) := rfl

/-- Sequences may be regrouped. -/
theorem bind_bind {γ : Type} (first : Program State Failure α)
    (second : α → Program State Failure β) (third : β → Program State Failure γ) :
    (first >>= second) >>= third = first >>= fun value => second value >>= third := by
  funext state
  simp only [bind_apply]
  rcases first state with _ | ⟨failure | value, after⟩ <;> rfl

/-! ## Weakest preconditions -/

/-- The program started in the state produces an outcome that satisfies the
postconditions. -/
def wp (program : Program State Failure α) (returns : α → State → Prop)
    (fails : Failure → State → Prop) (state : State) : Prop :=
  match program state with
  | none => False
  | some (.ok value, after) => returns value after
  | some (.error failure, after) => fails failure after

variable {returns : α → State → Prop} {fails : Failure → State → Prop} {state : State}

@[simp] theorem wp_pure (value : α) :
    wp (pure value : Program State Failure α) returns fails state ↔ returns value state := Iff.rfl

@[simp] theorem wp_fail (failure : Failure) :
    wp (fail failure : Program State Failure α) returns fails state ↔ fails failure state := Iff.rfl

@[simp] theorem wp_gets (read : State → α) :
    wp (gets read : Program State Failure α) returns fails state ↔ returns (read state) state :=
  Iff.rfl

@[simp] theorem wp_change (update : State → State) {returns : Unit → State → Prop} :
    wp (change update : Program State Failure Unit) returns fails state ↔
      returns () (update state) := Iff.rfl

@[simp] theorem wp_act (transform : State → α × State) :
    wp (act transform : Program State Failure α) returns fails state ↔
      returns (transform state).1 (transform state).2 := Iff.rfl

/-- A sequence of two programs meets a postcondition when the first meets the
precondition of the second. -/
@[simp] theorem wp_bind (first : Program State Failure α) (next : α → Program State Failure β)
    {returns : β → State → Prop} :
    wp (first >>= next) returns fails state ↔
      wp first (fun value => wp (next value) returns fails) fails state := by
  simp only [wp, bind_apply]
  rcases first state with _ | ⟨outcome | value, after⟩ <;> rfl

theorem wp_mapFailure (program : Program State Failure α) (replace : Failure → Failure) :
    wp (program.mapFailure replace) returns fails state ↔
      wp program returns (fun failure => fails (replace failure)) state := by
  simp only [wp, mapFailure]
  rcases program state with _ | ⟨outcome | value, after⟩ <;> rfl

/-- Weaker postconditions are easier to meet. -/
theorem wp_mono {program : Program State Failure α} {returns' : α → State → Prop}
    {fails' : Failure → State → Prop} (met : wp program returns fails state)
    (returnsImp : ∀ value after, returns value after → returns' value after)
    (failsImp : ∀ failure after, fails failure after → fails' failure after) :
    wp program returns' fails' state := by
  unfold wp at *
  rcases outcome : program state with _ | ⟨failure | value, after⟩ <;> rw [outcome] at met
  · exact met
  · exact failsImp _ _ met
  · exact returnsImp _ _ met

/-- What a program is known to do can be used to read any other precondition of it. -/
theorem wp_of_ok {program : Program State Failure α} {value : α} {after : State}
    (run : program state = some (.ok value, after)) :
    wp program returns fails state ↔ returns value after := by
  simp only [wp, run]

end Program

/-! ## What a program leaves, and whether it ends -/

namespace Program

variable {State Failure α β : Type}

/-- Whatever the outcome, the state that the program leaves is related to the one it
started in. -/
def Moves (related : State → State → Prop) (program : Program State Failure α) : Prop :=
  ∀ ⦃state outcome after⦄, program state = some (outcome, after) → related state after

/-- From these states the program has an outcome. -/
def Ends (fit : State → Prop) (program : Program State Failure α) : Prop :=
  ∀ ⦃state⦄, fit state → ∃ outcome after, program state = some (outcome, after)

/-- The second program has every outcome that the first has. -/
def Within (first second : Program State Failure α) : Prop :=
  ∀ ⦃state result⦄, first state = some result → second state = some result

variable {related : State → State → Prop} {fit : State → Prop}

theorem bind_eq_ok {first : Program State Failure α} {next : α → Program State Failure β}
    {state after : State} {value : β} :
    (first >>= next) state = some (.ok value, after) ↔
      ∃ inner between, first state = some (.ok inner, between) ∧
        next inner between = some (.ok value, after) := by
  rw [bind_apply]
  rcases first state with _ | ⟨failure | inner, between⟩ <;> simp

theorem Moves.bind {first : Program State Failure α} {next : α → Program State Failure β}
    (trans : ∀ {before between after}, related before between → related between after →
      related before after)
    (movesFirst : first.Moves related) (movesNext : ∀ value, (next value).Moves related) :
    (first >>= next).Moves related := by
  intro state outcome after ended
  rw [bind_apply] at ended
  rcases found : first state with _ | ⟨failure | value, between⟩
  · rw [found] at ended
    cases ended
  · rw [found] at ended
    cases ended
    exact movesFirst found
  · rw [found] at ended
    exact trans (movesFirst found) (movesNext value ended)

/-- The second program is to end from what the first leaves. -/
theorem Ends.bind {first : Program State Failure α} {next : α → Program State Failure β}
    (endsFirst : first.Ends fit)
    (endsNext : ∀ state value after, fit state → first state = some (.ok value, after) →
      ∃ outcome final, next value after = some (outcome, final)) :
    (first >>= next).Ends fit := by
  intro state fits
  obtain ⟨failure | value, after, ended⟩ := endsFirst fits
  · exact ⟨.error failure, after, by rw [bind_apply, ended]⟩
  · obtain ⟨outcome, final, later⟩ := endsNext state value after fits ended
    exact ⟨outcome, final, by rw [bind_apply, ended]; exact later⟩

theorem Within.bind {first first' : Program State Failure α}
    {next next' : α → Program State Failure β} (withinFirst : first.Within first')
    (withinNext : ∀ value, (next value).Within (next' value)) :
    (first >>= next).Within (first' >>= next') := by
  intro state result ended
  rw [bind_apply] at ended ⊢
  rcases found : first state with _ | ⟨failure | value, between⟩
  · rw [found] at ended
    cases ended
  · rw [found] at ended
    rw [withinFirst found]
    exact ended
  · rw [found] at ended
    rw [withinFirst found]
    exact withinNext value ended

/-- A program that moves along a relation and ends where its fuel lasts, and one with at
least as much fuel. -/
structure Steady (related : State → State → Prop) (fit : State → Prop)
    (program more : Program State Failure α) : Prop where
  moves : program.Moves related
  ends : program.Ends fit
  within : program.Within more

/-- A relation that programs move along, one after the other, while their fuel lasts. -/
structure Lasting (related : State → State → Prop) (fit : State → Prop) : Prop where
  refl : ∀ state, related state state
  trans : ∀ {before between after}, related before between → related between after →
    related before after
  fits : ∀ {before after}, related before after → fit before → fit after

namespace Steady

theorem act (transform : State → α × State)
    (moved : ∀ state, related state (transform state).2) :
    Steady related fit (Program.act transform : Program State Failure α) (.act transform) where
  moves _ _ _ ended := by
    cases ended
    exact moved _
  ends _ _ := ⟨_, _, rfl⟩
  within _ _ ended := ended

theorem change (update : State → State) (moved : ∀ state, related state (update state)) :
    Steady related fit (Program.change update : Program State Failure Unit) (.change update) :=
  act (fun state => ((), update state)) moved

/-- A program without fuel, where fuel is needed. -/
theorem exhausted (needed : ∀ state, ¬ fit state) (more : Program State Failure α) :
    Steady related fit Program.exhausted more where
  moves _ _ _ ended := by cases ended
  ends state fits := absurd fits (needed state)
  within _ _ ended := by cases ended

variable (lasting : Lasting related fit)
include lasting

theorem pure (value : α) :
    Steady related fit (Pure.pure value : Program State Failure α) (Pure.pure value) :=
  act (fun state => (value, state)) lasting.refl

theorem gets (read : State → α) :
    Steady related fit (Program.gets read : Program State Failure α) (.gets read) :=
  act (fun state => (read state, state)) lasting.refl

theorem fail (failure : Failure) :
    Steady related fit (Program.fail failure : Program State Failure α) (.fail failure) where
  moves _ _ _ ended := by
    cases ended
    exact lasting.refl _
  ends state _ := ⟨_, state, rfl⟩
  within _ _ ended := ended

theorem bind {first first' : Program State Failure α} {next next' : α → Program State Failure β}
    (steadyFirst : Steady related fit first first')
    (steadyNext : ∀ value, Steady related fit (next value) (next' value)) :
    Steady related fit (first >>= next) (first' >>= next') where
  moves := steadyFirst.moves.bind lasting.trans fun value => (steadyNext value).moves
  ends := steadyFirst.ends.bind fun _ value _ fits ended =>
    (steadyNext value).ends (lasting.fits (steadyFirst.moves ended) fits)
  within := steadyFirst.within.bind fun value => (steadyNext value).within

omit lasting in
theorem ite {condition : Prop} [Decidable condition] {yes no yes' no' : Program State Failure α}
    (steadyYes : Steady related fit yes yes') (steadyNo : Steady related fit no no') :
    Steady related fit (if condition then yes else no) (if condition then yes' else no') := by
  split_ifs
  · exact steadyYes
  · exact steadyNo

omit lasting in
theorem mono {related' : State → State → Prop} {fit' : State → Prop}
    {program more : Program State Failure α} (steady : Steady related fit program more)
    (weaker : ∀ {before after}, related before after → related' before after)
    (stronger : ∀ {state}, fit' state → fit state) : Steady related' fit' program more where
  moves _ _ _ ended := weaker (steady.moves ended)
  ends _ fits := steady.ends (stronger fits)
  within := steady.within

end Steady

end Program

/-! ## Two programs on two kinds of state -/

section Simulation

variable {Concrete Abstract Failure α β α' β' : Type}

/-- From states related by `before` the two programs produce values and states
related by `after`, or the same failure and states related by `failed`, or both
run out of fuel. -/
def Simulates (before : Concrete → Abstract → Prop) (after : α → α' → Concrete → Abstract → Prop)
    (failed : Concrete → Abstract → Prop)
    (concrete : Program Concrete Failure α) (abstract : Program Abstract Failure α') : Prop :=
  ∀ ⦃left : Concrete⦄ ⦃right : Abstract⦄, before left right →
    match concrete left, abstract right with
    | none, none => True
    | some (.ok value, left'), some (.ok value', right') => after value value' left' right'
    | some (.error failure, left'), some (.error failure', right') =>
        failure = failure' ∧ failed left' right'
    | _, _ => False

/-- The same value and related states. -/
def Same (related : Concrete → Abstract → Prop) (value value' : α) (left : Concrete)
    (right : Abstract) : Prop :=
  value = value' ∧ related left right

variable {before failed : Concrete → Abstract → Prop} {after : α → α' → Concrete → Abstract → Prop}

namespace Simulates

theorem pure {value : α} {value' : α'}
    (agree : ∀ left right, before left right → after value value' left right) :
    Simulates before after failed (pure value : Program Concrete Failure α) (pure value') :=
  fun _ _ relation => agree _ _ relation

theorem exhausted :
    Simulates before after failed (Program.exhausted : Program Concrete Failure α)
      Program.exhausted :=
  fun _ _ _ => trivial

theorem fail (weaken : ∀ left right, before left right → failed left right)
    (failure : Failure) :
    Simulates before after failed (Program.fail failure : Program Concrete Failure α)
      (Program.fail failure) :=
  fun _ _ relation => ⟨rfl, weaken _ _ relation⟩

theorem bind {first : Program Concrete Failure α} {first' : Program Abstract Failure α'}
    {next : α → Program Concrete Failure β} {next' : α' → Program Abstract Failure β'}
    {final : β → β' → Concrete → Abstract → Prop}
    (simulatesFirst : Simulates before after failed first first')
    (simulatesNext : ∀ value value',
      Simulates (after value value') final failed (next value) (next' value')) :
    Simulates before final failed (first >>= next) (first' >>= next') := by
  intro left right relation
  have step := simulatesFirst relation
  revert step
  simp only [Program.bind_apply]
  rcases first left with _ | ⟨failure | value, left'⟩ <;>
    rcases first' right with _ | ⟨failure' | value', right'⟩ <;>
    intro step
  case some.ok.some.ok => exact simulatesNext value value' step
  all_goals first | exact step | exact step.elim

/-- The rule for a first part that produces the same value on both sides. -/
theorem bindSame {related : Concrete → Abstract → Prop}
    {first : Program Concrete Failure α} {first' : Program Abstract Failure α}
    {next : α → Program Concrete Failure β} {next' : α → Program Abstract Failure β'}
    {final : β → β' → Concrete → Abstract → Prop}
    (simulatesFirst : Simulates before (Same related) failed first first')
    (simulatesNext : ∀ value, Simulates related final failed (next value) (next' value)) :
    Simulates before final failed (first >>= next) (first' >>= next') := by
  refine simulatesFirst.bind fun value value' => ?_
  rintro left right ⟨rfl, relation⟩
  exact simulatesNext value relation

theorem act {transform : Concrete → α × Concrete} {transform' : Abstract → α' × Abstract}
    (agree : ∀ left right, before left right →
      after (transform left).1 (transform' right).1 (transform left).2 (transform' right).2) :
    Simulates before after failed (Program.act transform : Program Concrete Failure α)
      (Program.act transform') :=
  fun _ _ relation => agree _ _ relation

theorem gets {read : Concrete → α} {read' : Abstract → α'}
    (agree : ∀ left right, before left right → after (read left) (read' right) left right) :
    Simulates before after failed (Program.gets read : Program Concrete Failure α)
      (Program.gets read') :=
  fun _ _ relation => agree _ _ relation

theorem ite {condition : Prop} [Decidable condition] {yes no : Program Concrete Failure α}
    {yes' no' : Program Abstract Failure α'}
    (simulatesYes : condition → Simulates before after failed yes yes')
    (simulatesNo : ¬ condition → Simulates before after failed no no') :
    Simulates before after failed (if condition then yes else no)
      (if condition then yes' else no') := by
  split
  case isTrue holds => exact simulatesYes holds
  case isFalse fails => exact simulatesNo fails

/-- Failures that are replaced alike stay the same. -/
theorem mapFailure {concrete : Program Concrete Failure α} {abstract : Program Abstract Failure α'}
    (simulates : Simulates before after failed concrete abstract) (replace : Failure → Failure) :
    Simulates before after failed (concrete.mapFailure replace) (abstract.mapFailure replace) := by
  intro left right relation
  have step := simulates relation
  revert step
  simp only [Program.mapFailure]
  rcases concrete left with _ | ⟨failure | value, left'⟩ <;>
    rcases abstract right with _ | ⟨failure' | value', right'⟩ <;> intro step
  case some.error.some.error => exact ⟨congrArg replace step.1, step.2⟩
  all_goals exact step

theorem weakenBefore {stronger : Concrete → Abstract → Prop}
    {concrete : Program Concrete Failure α} {abstract : Program Abstract Failure α'}
    (simulates : Simulates before after failed concrete abstract)
    (implies : ∀ left right, stronger left right → before left right) :
    Simulates stronger after failed concrete abstract :=
  fun _ _ relation => simulates (implies _ _ relation)

end Simulates

end Simulation

end Join.Library
