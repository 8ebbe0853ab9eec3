import Mathlib.Logic.Function.Basic
import Mathlib.Tactic.Common

/-!
# A copy that is kept by notices

A source holds values under keys and tells of every change by a notice, which says what is under
the key now. The notices are handled in their order, later than they are sent, and make a copy of
the source. The copy may be thrown away at any time; the source is then asked to tell what it has
under every key.

What matters is what the copy comes to when the notices on the way have been handled. It never
has what the source has not, and it lacks only what was thrown away and not told of since.
-/

set_option autoImplicit false

namespace Join.Library

variable {Key Value : Type} [DecidableEq Key]

/-- A notice: a key and what the source has under it. -/
abbrev Notice (Key Value : Type) : Type := Key × Option Value

/-- The copy after some notices have been handled. -/
def replayed (copy : Key → Option Value) (notices : List (Notice Key Value)) :
    Key → Option Value :=
  notices.foldl (fun copy notice => Function.update copy notice.1 notice.2) copy

theorem replayed_append (copy : Key → Option Value) (notices more : List (Notice Key Value)) :
    replayed copy (notices ++ more) = replayed (replayed copy notices) more :=
  List.foldl_append ..

/-- A notice on the way decides what is under its key, in whatever copy it is handled. -/
theorem replayed_eq_or (copy other : Key → Option Value) (notices : List (Notice Key Value))
    (key : Key) :
    replayed copy notices key = replayed other notices key ∨
      replayed copy notices key = copy key ∧ replayed other notices key = other key := by
  induction notices generalizing copy other with
  | nil => exact .inr ⟨rfl, rfl⟩
  | cons notice notices inductionHypothesis =>
      rcases inductionHypothesis (Function.update copy notice.1 notice.2)
        (Function.update other notice.1 notice.2) with same | ⟨left, right⟩
      · exact .inl same
      · by_cases here : key = notice.1
        · left
          rw [here, Function.update_self] at left right
          rw [here]
          exact left.trans right.symm
        · right
          rw [Function.update_of_ne here] at left right
          exact ⟨left, right⟩

/-- With the notices on the way the copy has only what the source has, and it has all of it but
what is missing. -/
structure Tracks (source copy : Key → Option Value) (notices : List (Notice Key Value))
    (missing : Key → Prop) : Prop where
  sound : ∀ key value, replayed copy notices key = some value → source key = some value
  complete : ∀ key, ¬ missing key → replayed copy notices key = source key

namespace Tracks

variable {source copy : Key → Option Value} {notices : List (Notice Key Value)}
variable {missing : Key → Prop}

omit [DecidableEq Key] in
/-- Where the source has nothing, there is nothing to miss. -/
theorem of_sound {replay : Key → Option Value}
    (sound : ∀ key value, replay key = some value → source key = some value) {key : Key}
    (absent : source key = none) : replay key = none := by
  cases held : replay key with
  | none => rfl
  | some value =>
      rw [sound key value held] at absent
      cases absent

/-- An empty copy of any source. -/
theorem start (source : Key → Option Value) :
    Tracks source (fun _ => none) [] fun _ => True := by
  constructor
  · intro key value held
    cases held
  · intro key known
    exact absurd trivial known

/-- The source changes and tells of it. -/
theorem change (tracks : Tracks source copy notices missing) (key : Key) (value : Option Value) :
    Tracks (Function.update source key value) copy (notices ++ [(key, value)]) missing := by
  have step : replayed copy (notices ++ [(key, value)]) =
      Function.update (replayed copy notices) key value := replayed_append ..
  constructor
  · intro other held
    rw [step]
    by_cases same : other = key
    · rw [same, Function.update_self, Function.update_self]
      exact id
    · rw [Function.update_of_ne same, Function.update_of_ne same]
      exact tracks.sound other held
  · intro other known
    rw [step]
    by_cases same : other = key
    · rw [same, Function.update_self, Function.update_self]
    · rw [Function.update_of_ne same, Function.update_of_ne same]
      exact tracks.complete other known

/-- The copy is thrown away. -/
theorem clear (tracks : Tracks source copy notices missing) :
    Tracks source (fun _ => none) notices fun _ => True := by
  constructor
  · intro key value held
    rcases replayed_eq_or (fun _ => none) copy notices key with same | ⟨empty, -⟩
    · exact tracks.sound key value (same.symm.trans held)
    · rw [empty] at held
      cases held
  · intro key known
    exact absurd trivial known

/-- What the source does not have is not missed. -/
theorem of_absent {fewer : Key → Prop} (tracks : Tracks source copy notices missing)
    (absent : ∀ key, missing key → ¬ fewer key → source key = none) :
    Tracks source copy notices fewer := by
  refine ⟨tracks.sound, ?_⟩
  intro key known
  by_cases miss : missing key
  · have none := absent key miss known
    rw [none]
    exact of_sound tracks.sound none
  · exact tracks.complete key miss

/-- The source tells what it has under a key. -/
theorem tell (tracks : Tracks source copy notices missing) {key : Key} {value : Value}
    (held : source key = some value) :
    Tracks source copy (notices ++ [(key, some value)]) fun other =>
      missing other ∧ other ≠ key := by
  have told := tracks.change key (some value)
  rw [← held, Function.update_eq_self, held] at told
  refine ⟨told.sound, ?_⟩
  intro other known
  by_cases same : other = key
  · rw [same, replayed_append, held]
    exact Function.update_self ..
  · exact told.complete other fun miss => known ⟨miss, same⟩

/-- When nothing is missing, what is left of the notices makes the copy the source. -/
theorem replayed_eq (tracks : Tracks source copy notices missing)
    (whole : ∀ key, ¬ missing key) : replayed copy notices = source := by
  funext key
  exact tracks.complete key (whole key)

end Tracks

end Join.Library
