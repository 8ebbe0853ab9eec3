import Join.Library.Trace
import Mathlib.Data.UInt

/-!
# Timers

A `BasicTimer` keeps one callback and a descriptor that counts expirations. `onReadable` reads
the number of expirations, which starts again from zero, and calls the callback that often. A
call of `setOneShot`, `setInterval` or `cancel` replaces the callback and the schedule, and the
expirations that have not been read are gone with the old schedule. It may come from inside the
callback, where the expirations that have been read are still to be answered.

The loop tests the callback once, in front of the first call, and calls whatever the timer holds
then. Its calls are right as long as a callback replaces itself only in the last round.
-/

set_option autoImplicit false

namespace Join

open Library

/-- `itimerspec`, in nanoseconds. -/
structure TimerSpec where
  interval : UInt64
  value : UInt64
deriving DecidableEq

/-- `toTimerSpec`. -/
def toTimerSpec (ns : Int64) (periodic : Bool) : TimerSpec where
  interval := if periodic then ns.toUInt64 else 0
  value := if ns < 1 then 1 else ns.toUInt64

/-- What is asked of a timer, with the new callback, which may be empty. -/
inductive TimerCall (C : Type) where
  | setOneShot (ns : Int64) (absolute : Bool) (callback : Option C)
  | setInterval (ns : Int64) (callback : Option C)
  | cancel

/-- The callback that a call leaves. -/
def TimerCall.callback {C : Type} : TimerCall C → Option C
  | .setOneShot _ _ callback => callback
  | .setInterval _ callback => callback
  | .cancel => none

/-! ## What the user sees -/

/-- A call of the timer, or of a callback, for an expiration of the setting of that number. -/
inductive TimerNote (C : Type) where
  | set (callback : Option C)
  | invoked (callback : Option C) (setting : ℕ)

/-- What happened to a timer, the last thing first. -/
abbrev TimerHistory (C : Type) : Type := List (TimerNote C)

namespace TimerHistory

variable {C : Type}

/-- The callback that was installed last. -/
def installed : TimerHistory C → Option C
  | [] => none
  | .set callback :: _ => callback
  | .invoked _ _ :: earlier => installed earlier

/-- How many settings there have been. -/
def settings : TimerHistory C → ℕ
  | [] => 0
  | .set _ :: earlier => settings earlier + 1
  | .invoked _ _ :: earlier => settings earlier

/-- Every callback that is invoked is the one that was installed last, is not empty, and is
invoked for an expiration of the setting it was installed with. -/
def Right : TimerHistory C → Prop
  | [] => True
  | .set _ :: earlier => Right earlier
  | .invoked callback setting :: earlier =>
      callback = installed earlier ∧ callback ≠ none ∧ setting = settings earlier ∧ Right earlier

/-- The histories that are right can be told. -/
instance decidableRight [DecidableEq C] : (history : TimerHistory C) → Decidable history.Right
  | [] => inferInstanceAs (Decidable True)
  | .set _ :: earlier => decidableRight earlier
  | .invoked callback setting :: earlier =>
      have := decidableRight earlier
      inferInstanceAs (Decidable (callback = installed earlier ∧ callback ≠ none ∧
        setting = settings earlier ∧ Right earlier))

end TimerHistory

/-! ## The timer -/

/-- The loop of `onReadable`: the expirations still to be answered, the setting they belong to,
and whether the callback is running. -/
structure TimerLoop where
  remaining : ℕ
  setting : ℕ
  inside : Bool
deriving DecidableEq

/-- `BasicTimer` with its descriptor and the history. The descriptor is armed when `value` is not
zero, and `ticks` are the expirations that have not been read. -/
structure Timer (C : Type) where
  callback : Option C
  ns : Int64
  oneShot : Bool
  spec : TimerSpec
  ticks : ℕ
  loop : Option TimerLoop
  history : TimerHistory C

/-- A call of the timer, an expiration, a call of `onReadable`, and the steps of its loop. -/
inductive TimerAction (C : Type) where
  | call (call : TimerCall C)
  | expire
  | onReadable
  | invoke
  | returns
  | leave

namespace Timer

variable {C : Type}

/-- A timer that has just been constructed. -/
def initial (C : Type) : Timer C := ⟨none, 0, true, ⟨0, 0⟩, 0, none, []⟩

/-- `timerfd_settime`. -/
def settime (timer : Timer C) (spec : TimerSpec) : Timer C := { timer with spec := spec, ticks := 0 }

/-- `setOneShot`, `setInterval` and `cancel`. -/
def set (timer : Timer C) : TimerCall C → Timer C
  | .setOneShot ns _ callback =>
      settime { timer with callback := callback, oneShot := true, ns := 0 } (toTimerSpec ns false)
  | .setInterval ns callback =>
      settime { timer with callback := callback, oneShot := false, ns := ns } (toTimerSpec ns true)
  | .cancel => settime { timer with callback := none, oneShot := true, ns := 0 } ⟨0, 0⟩

/-- The calls of the timer are made by the thread of the reactor, from inside the callback or
when `onReadable` is not running. -/
def act (timer : Timer C) : TimerAction C → Option (Timer C)
  | .call call =>
      if timer.loop.all TimerLoop.inside then
        some { timer.set call with history := .set call.callback :: timer.history }
      else none
  | .expire =>
      if timer.spec.value = 0 then none
      else if timer.spec.interval = 0 then
        some { timer with ticks := timer.ticks + 1, spec := ⟨0, 0⟩ }
      else some { timer with ticks := timer.ticks + 1 }
  | .onReadable =>
      if timer.loop.isSome then none
      else if timer.ticks = 0 then some timer
      else if timer.callback.isSome then
        some { timer with
          ticks := 0
          loop := some ⟨timer.ticks, timer.history.settings, false⟩ }
      else some { timer with ticks := 0 }
  | .invoke =>
      match timer.loop with
      | some ⟨remaining + 1, setting, false⟩ =>
          some { timer with
            loop := some ⟨remaining, setting, true⟩
            history := .invoked timer.callback setting :: timer.history }
      | _ => none
  | .returns =>
      match timer.loop with
      | some ⟨remaining, setting, true⟩ => some { timer with loop := some ⟨remaining, setting, false⟩ }
      | _ => none
  | .leave =>
      match timer.loop with
      | some ⟨0, _, false⟩ => some { timer with loop := none }
      | _ => none

/-- A callback calls its own timer only in the last round of the loop. -/
def Last (timer : Timer C) : TimerAction C → Prop
  | .call _ => ∀ loop ∈ timer.loop, loop.remaining = 0
  | _ => True

instance (timer : Timer C) : (action : TimerAction C) → Decidable (timer.Last action)
  | .call _ => inferInstanceAs (Decidable (∀ loop ∈ timer.loop, loop.remaining = 0))
  | .expire => inferInstanceAs (Decidable True)
  | .onReadable => inferInstanceAs (Decidable True)
  | .invoke => inferInstanceAs (Decidable True)
  | .returns => inferInstanceAs (Decidable True)
  | .leave => inferInstanceAs (Decidable True)

/-- The timer holds the callback that was installed last, and answers no later setting. -/
structure Kept (timer : Timer C) : Prop where
  callback : timer.callback = timer.history.installed
  setting : ∀ loop ∈ timer.loop, loop.setting ≤ timer.history.settings

/-- The calls have been right, and so are those that the loop is about to make. -/
structure Sound (timer : Timer C) : Prop where
  right : timer.history.Right
  pending : ∀ loop ∈ timer.loop, loop.remaining ≠ 0 →
    loop.setting = timer.history.settings ∧ timer.history.installed ≠ none

variable {timer after final : Timer C} {action : TimerAction C} {actions : List (TimerAction C)}

theorem initial_kept : (initial C).Kept := ⟨rfl, fun _ member => by cases member⟩

theorem initial_sound : (initial C).Sound := ⟨trivial, fun _ member => by cases member⟩

@[simp] theorem set_callback (call : TimerCall C) : (timer.set call).callback = call.callback := by
  cases call <;> rfl

@[simp] theorem set_loop (call : TimerCall C) : (timer.set call).loop = timer.loop := by
  cases call <;> rfl

/-- The timer is asked for something else, which spoils the rest of the loop. -/
theorem call_keeps (kept : timer.Kept) {call : TimerCall C}
    (happens : timer.act (.call call) = some after) :
    after.Kept ∧ (after.Sound ↔ timer.Sound ∧ timer.Last (.call call)) := by
  rw [act] at happens
  split_ifs at happens
  cases happens
  refine ⟨⟨set_callback call, fun loop member => ?_⟩, ?_⟩
  · rw [set_loop] at member
    exact (kept.setting loop member).trans (Nat.le_succ _)
  · constructor
    · rintro ⟨right, pending⟩
      rw [set_loop] at pending
      have last : ∀ loop ∈ timer.loop, loop.remaining = 0 := by
        intro loop member
        by_contra some
        have later := (pending loop member some).1
        have earlier := kept.setting loop member
        change loop.setting = timer.history.settings + 1 at later
        omega
      exact ⟨⟨right, fun loop member some => absurd (last loop member) some⟩, last⟩
    · rintro ⟨sound, last⟩
      refine ⟨sound.right, fun loop member some => ?_⟩
      rw [set_loop] at member
      exact absurd (last loop member) some

/-- An action that neither calls anything nor begins a loop. -/
theorem quiet_keeps (kept : timer.Kept) {spec : TimerSpec} {ticks : ℕ} {loop : Option TimerLoop}
    (same : ∀ next ∈ loop, ∃ old ∈ timer.loop, next.remaining = old.remaining ∧
      next.setting = old.setting)
    (back : ∀ old ∈ timer.loop, old.remaining ≠ 0 → ∃ next ∈ loop,
      next.remaining = old.remaining ∧ next.setting = old.setting) :
    Kept { timer with spec := spec, ticks := ticks, loop := loop } ∧
      (Sound { timer with spec := spec, ticks := ticks, loop := loop } ↔ timer.Sound) := by
  refine ⟨⟨kept.callback, fun next member => ?_⟩, ?_, ?_⟩
  · obtain ⟨old, there, _, setting⟩ := same next member
    rw [setting]
    exact kept.setting old there
  · rintro ⟨right, pending⟩
    refine ⟨right, fun old member some => ?_⟩
    obtain ⟨next, there, remaining, setting⟩ := back old member some
    rw [← setting]
    exact pending next there (by rwa [remaining])
  · rintro ⟨right, pending⟩
    refine ⟨right, fun next member some => ?_⟩
    obtain ⟨old, there, remaining, setting⟩ := same next member
    rw [setting]
    exact pending old there (by rwa [← remaining])

/-- The expirations are read, and the loop begins. -/
theorem read_keeps (kept : timer.Kept) (idle : timer.loop = none) (loaded : timer.callback.isSome) :
    Kept { timer with ticks := 0, loop := some ⟨timer.ticks, timer.history.settings, false⟩ } ∧
      (Sound { timer with
        ticks := 0, loop := some ⟨timer.ticks, timer.history.settings, false⟩ } ↔ timer.Sound) := by
  refine ⟨⟨kept.callback, ?_⟩, ?_, ?_⟩
  · rintro loop ⟨⟩
    exact Nat.le_refl _
  · rintro ⟨right, _⟩
    refine ⟨right, fun loop member => ?_⟩
    rw [idle] at member
    cases member
  · rintro ⟨right, _⟩
    refine ⟨right, ?_⟩
    rintro loop ⟨⟩ _
    refine ⟨rfl, fun none => ?_⟩
    rw [kept.callback, none] at loaded
    cases loaded

/-- The callback is invoked. -/
theorem invoke_keeps (kept : timer.Kept) {remaining setting : ℕ}
    (running : timer.loop = some ⟨remaining + 1, setting, false⟩) :
    Kept { timer with
      loop := some ⟨remaining, setting, true⟩
      history := .invoked timer.callback setting :: timer.history } ∧
      (Sound { timer with
        loop := some ⟨remaining, setting, true⟩
        history := .invoked timer.callback setting :: timer.history } ↔ timer.Sound) := by
  refine ⟨⟨kept.callback, ?_⟩, ?_, ?_⟩
  · rintro loop ⟨⟩
    exact kept.setting ⟨remaining + 1, setting, false⟩ running
  · rintro ⟨⟨_, some, same, right⟩, _⟩
    refine ⟨right, fun loop member _ => ?_⟩
    rw [running] at member
    cases member
    rw [← kept.callback]
    exact ⟨same, some⟩
  · rintro ⟨right, pending⟩
    obtain ⟨same, some⟩ := pending _ running (Nat.succ_ne_zero remaining)
    refine ⟨⟨kept.callback, by rwa [kept.callback], same, right⟩, ?_⟩
    rintro loop ⟨⟩ _
    exact ⟨same, some⟩

theorem act_keeps (kept : timer.Kept) (happens : timer.act action = some after) :
    after.Kept ∧ (after.Sound ↔ timer.Sound ∧ timer.Last action) := by
  have itself : ∀ loop ∈ timer.loop, ∃ old ∈ timer.loop, loop.remaining = old.remaining ∧
      loop.setting = old.setting := fun loop member => ⟨loop, member, rfl, rfl⟩
  have backward : ∀ old ∈ timer.loop, old.remaining ≠ 0 → ∃ next ∈ timer.loop,
      next.remaining = old.remaining ∧ next.setting = old.setting :=
    fun old member _ => ⟨old, member, rfl, rfl⟩
  cases action with
  | call call => exact call_keeps kept happens
  | expire =>
      rw [act] at happens
      simp only [Last, and_true]
      split_ifs at happens
      · cases happens
        exact quiet_keeps kept itself backward
      · cases happens
        exact quiet_keeps kept itself backward
  | onReadable =>
      rw [act] at happens
      simp only [Last, and_true]
      split_ifs at happens with running empty loaded
      · cases happens
        exact quiet_keeps kept itself backward
      · cases happens
        exact read_keeps kept (Option.not_isSome_iff_eq_none.mp running) loaded
      · cases happens
        exact quiet_keeps kept itself backward
  | invoke =>
      simp only [Last, and_true]
      rw [act] at happens
      split at happens
      · cases happens
        exact invoke_keeps kept ‹_›
      · cases happens
  | returns =>
      simp only [Last, and_true]
      rw [act] at happens
      split at happens
      · rename_i remaining setting running
        cases happens
        refine quiet_keeps kept ?_ ?_
        · rintro next ⟨⟩
          exact ⟨_, running, rfl, rfl⟩
        · intro old member _
          rw [running] at member
          cases member
          exact ⟨_, rfl, rfl, rfl⟩
      · cases happens
  | leave =>
      simp only [Last, and_true]
      rw [act] at happens
      split at happens
      · rename_i setting running
        cases happens
        refine quiet_keeps kept ?_ ?_
        · rintro next ⟨⟩
        · intro old member some
          rw [running] at member
          cases member
          exact absurd rfl some
      · cases happens

/-- The calls are right in every run in which a callback changes its own timer only in the last
round of the loop. Where the loop has come to its end, they are right in no other run. -/
theorem old_schedule_never_runs (trace : Trace act (initial C) actions final) :
    (Along act Last (initial C) actions → final.history.Right) ∧
      (final.loop = none → (final.history.Right ↔ Along act Last (initial C) actions)) := by
  have sound : final.Sound ↔ Along act Last (initial C) actions :=
    trace.along_iff Kept Sound (fun _ _ _ kept happens => act_keeps kept happens) initial_kept
      initial_sound
  rw [← sound]
  refine ⟨Sound.right, fun idle => ⟨fun right => ⟨right, fun loop member => ?_⟩, Sound.right⟩⟩
  rw [idle] at member
  cases member

/-- An interval whose callback cancels the timer when two expirations are read at once. -/
def delayed : List (TimerAction Unit) :=
  [.call (.setInterval 10 (some ())), .expire, .expire, .onReadable, .invoke, .call .cancel,
    .returns, .invoke]

/-- An interval whose callback is replaced in the last round. -/
def renewed : List (TimerAction Bool) :=
  [.call (.setInterval 10 (some true)), .expire, .expire, .onReadable, .invoke, .returns, .invoke,
    .call (.setOneShot 5 false (some false)), .returns, .leave, .expire, .onReadable, .invoke]

theorem old_schedule_never_runs_renewed : ∃ final : Timer Bool,
    Trace act (initial Bool) renewed final ∧ final.history.Right := by
  have run : (follow act (initial Bool) renewed).any
      (fun final => decide (final.history.settings = 2)) = true := by decide
  have checked : checks act (fun timer action => decide (timer.Last action)) (initial Bool)
      renewed = true := by decide
  obtain ⟨final, trace, _⟩ := Trace.exists_of_follow run
  refine ⟨final, trace, (old_schedule_never_runs trace).1 ?_⟩
  exact along_of_checks (fun _ _ test => of_decide_eq_true test) checked

/-- The empty callback is invoked for the second expiration. -/
theorem cancelled_timer_invoked : ¬∀ (actions : List (TimerAction Unit)) (final : Timer Unit),
    Trace act (initial Unit) actions final → final.history.Right := by
  intro all
  have run : (follow act (initial Unit) delayed).any
      (fun final => decide (¬final.history.Right)) = true := by decide
  obtain ⟨final, trace, wrong⟩ := Trace.exists_of_follow run
  exact of_decide_eq_true wrong (all delayed final trace)

end Timer

end Join
