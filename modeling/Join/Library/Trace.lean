import Mathlib.Tactic.Common

/-!
# Runs of a system that acts

A system is a partial function: the state after an action, where the action can happen.
A trace is a run with the list of its actions, the last one at the end. What every action
keeps holds along every trace; a property that an action keeps only under a condition
tells, at the end of a trace, whether all actions met the condition. Where every action of
one system is an action of another, or is not seen there, its traces are traces there.
-/

set_option autoImplicit false

namespace Join.Library

variable {State Action State' Action' : Type}

/-- The actions can happen one after the other and lead from one state to the other. -/
inductive Trace (act : State → Action → Option State) (start : State) :
    List Action → State → Prop where
  | nil : Trace act start [] start
  | snoc {actions : List Action} {state after : State} {action : Action}
      (before : Trace act start actions state) (happens : act state action = some after) :
      Trace act start (actions ++ [action]) after

/-- The state after the actions, if they can happen. -/
def follow (act : State → Action → Option State) : State → List Action → Option State
  | state, [] => some state
  | state, action :: rest => (act state action).bind fun after => follow act after rest

/-- The property holds in every state that the actions lead through. -/
def Throughout (act : State → Action → Option State) (sound : State → Prop) (start : State)
    (actions : List Action) : Prop :=
  ∀ earlier later state, actions = earlier ++ later → Trace act start earlier state → sound state

/-- Every action meets the condition in the state where it happens. -/
def Along (act : State → Action → Option State) (meets : State → Action → Prop) (start : State)
    (actions : List Action) : Prop :=
  ∀ earlier action later state, actions = earlier ++ action :: later →
    Trace act start earlier state → meets state action

variable {act : State → Action → Option State} {act' : State' → Action' → Option State'}
variable {start final : State} {actions : List Action}

namespace Trace

theorem single {action : Action} (happens : act start action = some final) :
    Trace act start [action] final :=
  snoc nil happens

theorem append {middle : State} {more : List Action} (first : Trace act start actions middle)
    (second : Trace act middle more final) : Trace act start (actions ++ more) final := by
  induction second with
  | nil =>
      rw [List.append_nil]
      exact first
  | snoc _ happens inductionHypothesis =>
      rw [← List.append_assoc]
      exact snoc inductionHypothesis happens

theorem of_follow (followed : follow act start actions = some final) :
    Trace act start actions final := by
  induction actions generalizing start with
  | nil =>
      cases followed
      exact nil
  | cons action rest inductionHypothesis =>
      obtain ⟨after, happens, followed⟩ := Option.bind_eq_some_iff.mp followed
      exact append (single happens) (inductionHypothesis followed)

/-- A run that is computed, with a test of the state it leads to. -/
theorem exists_of_follow {test : State → Bool}
    (followed : (follow act start actions).any test = true) :
    ∃ state, Trace act start actions state ∧ test state = true := by
  cases reached : follow act start actions with
  | none =>
      rw [reached] at followed
      cases followed
  | some state =>
      rw [reached] at followed
      exact ⟨state, of_follow reached, followed⟩

/-- The actions determine the state. -/
theorem unique {other : State} (left : Trace act start actions final)
    (right : Trace act start actions other) : other = final := by
  induction left generalizing other with
  | nil =>
      generalize same : ([] : List Action) = none at right
      cases right with
      | nil => rfl
      | snoc _ _ => simp at same
  | snoc _ happens inductionHypothesis =>
      rename_i first state after action _
      generalize same : first ++ [action] = whole at right
      cases right with
      | nil => simp at same
      | snoc before happens' =>
          obtain ⟨rfl, rfl⟩ := List.append_inj' same rfl |>.imp id (List.singleton_inj.mp ·)
          rw [inductionHypothesis before, happens] at happens'
          exact (Option.some.inj happens').symm

/-- What every action keeps holds at the end. -/
theorem invariant (holds : State → Prop)
    (keeps : ∀ state action after, holds state → act state action = some after → holds after)
    (initially : holds start) (trace : Trace act start actions final) : holds final := by
  induction trace with
  | nil => exact initially
  | snoc _ happens inductionHypothesis => exact keeps _ _ _ inductionHypothesis happens

/-- Every action of one system is one of another system, or is not seen there. -/
theorem project (view : State → State')
    (steps : ∀ state action after, act state action = some after →
      view after = view state ∨ ∃ action', act' (view state) action' = some (view after))
    (trace : Trace act start actions final) :
    ∃ actions', Trace act' (view start) actions' (view final) := by
  induction trace with
  | nil => exact ⟨[], nil⟩
  | snoc _ happens inductionHypothesis =>
      obtain ⟨actions', trace'⟩ := inductionHypothesis
      rcases steps _ _ _ happens with same | ⟨action', happens'⟩
      · rw [same]
        exact ⟨actions', trace'⟩
      · exact ⟨actions' ++ [action'], snoc trace' happens'⟩

/-- The first action of a run. -/
theorem exists_cons {action : Action} {rest : List Action}
    (trace : Trace act start (action :: rest) final) :
    ∃ after, act start action = some after ∧ Trace act after rest final := by
  generalize whole : action :: rest = actions at trace
  induction trace generalizing rest with
  | nil => cases whole
  | @snoc actions state after last before happens inductionHypothesis =>
      rcases List.cons_eq_append_iff.mp whole with ⟨rfl, same⟩ | ⟨more, rfl, rfl⟩
      · cases same
        cases before.unique nil
        exact ⟨after, happens, nil⟩
      · obtain ⟨first, begins, trace⟩ := inductionHypothesis rfl
        exact ⟨first, begins, snoc trace happens⟩

end Trace

section

variable {meets : State → Action → Prop}

theorem along_nil : Along act meets start [] := by
  intro earlier action later state split
  simp at split

theorem along_of_forall (all : ∀ action ∈ actions, ∀ state, meets state action) :
    Along act meets start actions := by
  intro earlier action later state split _
  refine all action ?_ state
  rw [split]
  exact List.mem_append_right _ (List.mem_cons_self ..)

theorem along_snoc {state : State} {action : Action} (before : Trace act start actions state) :
    Along act meets start (actions ++ [action]) ↔
      Along act meets start actions ∧ meets state action := by
  constructor
  · intro along
    refine ⟨fun earlier other later reached split trace => ?_, along _ _ [] _ rfl before⟩
    exact along earlier other (later ++ [action]) reached (by rw [split]; simp) trace
  · rintro ⟨along, met⟩ earlier other later reached split trace
    rcases List.eq_nil_or_concat later with rfl | ⟨rest, last, rfl⟩
    · obtain ⟨rfl, equal⟩ := List.append_inj' split rfl
      rw [← List.singleton_inj.mp equal, before.unique trace]
      exact met
    · rw [List.concat_eq_append, ← List.cons_append, ← List.append_assoc] at split
      exact along earlier other rest reached (List.append_inj' split rfl).1 trace

/-- A test of every action of a run that is computed. -/
def checks (act : State → Action → Option State) (test : State → Action → Bool) :
    State → List Action → Bool
  | _, [] => true
  | state, action :: rest =>
      test state action && (act state action).all fun after => checks act test after rest

theorem along_of_checks {test : State → Action → Bool}
    (sound : ∀ state action, test state action = true → meets state action)
    (checked : checks act test start actions = true) : Along act meets start actions := by
  induction actions generalizing start with
  | nil => exact along_nil
  | cons action rest inductionHypothesis =>
      rw [checks, Bool.and_eq_true] at checked
      intro earlier other later state split trace
      cases earlier with
      | nil =>
          cases split
          cases trace.unique .nil
          exact sound _ _ checked.1
      | cons first earlier =>
          cases split
          obtain ⟨after, happens, trace⟩ := trace.exists_cons
          rw [happens] at checked
          exact inductionHypothesis checked.2 earlier other later state rfl trace

/-- What every action keeps under a condition holds at the end, if all actions meet the
condition. -/
theorem Trace.invariant_along (holds : State → Prop)
    (keeps : ∀ state action after, holds state → meets state action →
      act state action = some after → holds after)
    (initially : holds start) (trace : Trace act start actions final)
    (along : Along act meets start actions) : holds final := by
  induction trace with
  | nil => exact initially
  | snoc before happens inductionHypothesis =>
      obtain ⟨earlier, met⟩ := (along_snoc before).mp along
      exact keeps _ _ _ (inductionHypothesis earlier) met happens

/-- A property that an action keeps exactly under a condition tells whether all actions met
the condition. -/
theorem Trace.along_iff (holds sound : State → Prop)
    (keeps : ∀ state action after, holds state → act state action = some after →
      holds after ∧ (sound after ↔ sound state ∧ meets state action))
    (initially : holds start) (soundly : sound start) (trace : Trace act start actions final) :
    sound final ↔ Along act meets start actions := by
  have both : holds final ∧ (sound final ↔ Along act meets start actions) := by
    induction trace with
    | nil => exact ⟨initially, iff_of_true soundly along_nil⟩
    | snoc before happens inductionHypothesis =>
        obtain ⟨held, known⟩ := inductionHypothesis
        obtain ⟨holds, step⟩ := keeps _ _ _ held happens
        refine ⟨holds, ?_⟩
        rw [step, known, along_snoc before]
  exact both.2

theorem throughout_snoc {sound : State → Prop} {state after : State} {action : Action}
    (before : Trace act start actions state) (happens : act state action = some after) :
    Throughout act sound start (actions ++ [action]) ↔
      Throughout act sound start actions ∧ sound after := by
  constructor
  · intro throughout
    refine ⟨fun earlier later reached split trace => ?_, ?_⟩
    · exact throughout earlier (later ++ [action]) reached (by rw [split, List.append_assoc]) trace
    · exact throughout _ [] after (List.append_nil _).symm (before.snoc happens)
  · rintro ⟨throughout, sound⟩ earlier later reached split trace
    rcases List.eq_nil_or_concat later with rfl | ⟨rest, last, rfl⟩
    · rw [List.append_nil] at split
      rw [← split] at trace
      rwa [(before.snoc happens).unique trace]
    · rw [List.concat_eq_append, ← List.append_assoc] at split
      exact throughout earlier rest reached (List.append_inj' split rfl).1 trace

/-- A property that an action keeps exactly under a condition holds all along a run exactly
when all actions meet the condition. -/
theorem Trace.throughout_iff (sound : State → Prop)
    (keeps : ∀ state action after, sound state → act state action = some after →
      (sound after ↔ meets state action))
    (soundly : sound start) (trace : Trace act start actions final) :
    Throughout act sound start actions ↔ Along act meets start actions := by
  induction trace with
  | nil =>
      refine iff_of_true ?_ along_nil
      intro earlier later state split trace
      obtain ⟨rfl, -⟩ := List.append_eq_nil_iff.mp split.symm
      rwa [trace.unique .nil] at soundly
  | snoc before happens inductionHypothesis =>
      rename_i earlier state after action
      rw [throughout_snoc before happens, along_snoc before, inductionHypothesis]
      apply and_congr_right
      intro along
      have here : sound state :=
        inductionHypothesis.mpr along earlier [] state (List.append_nil _).symm before
      exact keeps state action after here happens

end

end Join.Library
