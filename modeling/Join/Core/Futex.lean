import Mathlib.Data.List.Nodup
import Mathlib.Logic.Function.Basic
import Join.Library.Trace

/-!
# The futex lock

`join::Futex` and `join::SharedFutex` are one lock; they differ in the flag of the system
calls that tells whether other processes share the word. The word is 0 when the lock is
free, 1 when it is held, and 2 when it is held and threads may sleep.

An action is one atomic access to the word or one system call. `FUTEX_WAIT` compares the
word with 2 and sleeps; a sleeper may wake up by itself. `FUTEX_WAKE` wakes one sleeper, any
of them, if there is one.
-/

set_option autoImplicit false

namespace Join

open Library

/-- Where a thread stands. -/
inductive FutexPlace where
  | outside
  /-- Before the first exchange of `lock`. -/
  | arriving
  /-- Before the exchange of `tryLock`. -/
  | trying
  /-- At the top of the loop, with the value that the last exchange has seen. -/
  | looping (expected : UInt32)
  /-- Before `FUTEX_WAIT`. -/
  | waiting
  | asleep
  /-- Before the exchange that ends the loop. -/
  | retrying
  | holding
  /-- Before `FUTEX_WAKE`. -/
  | waking
  deriving DecidableEq

/-- The thread is awake in the loop of `lock`, or has to wake somebody. -/
def FutexPlace.Busy : FutexPlace → Prop
  | .looping _ | .waiting | .retrying | .waking => True
  | _ => False

/-- Where a thread goes from the exchange of `unlock`, which has returned the word. -/
def FutexPlace.released (word : UInt32) : FutexPlace := if word = 2 then .waking else .outside

/-- The word, the threads that the kernel knows to sleep, and where everybody stands. -/
structure Futex (T : Type) where
  word : UInt32
  sleepers : List T
  place : T → FutexPlace

/-- A thread starts a call, makes its next step in it, or wakes up by itself. -/
inductive FutexAction (T : Type) where
  | lock (who : T)
  | tryLock (who : T)
  | unlock (who : T)
  | advance (who : T)
  | wake (who : T) (sleeper : Option T)
  | spurious (who : T)

namespace Futex

variable {T : Type}

/-- A lock that has just been constructed. -/
def initial (T : Type) : Futex T := ⟨0, [], fun _ => .outside⟩

variable [DecidableEq T]

/-- The thread goes to another place. -/
def moveTo (futex : Futex T) (who : T) (next : FutexPlace) : Futex T :=
  { futex with place := Function.update futex.place who next }

/-- The compare-exchange, strong, and what the thread does after it. -/
def compareExchange (futex : Futex T) (who : T) (expected desired : UInt32)
    (success : FutexPlace) (failure : UInt32 → FutexPlace) : Futex T :=
  if futex.word = expected then moveTo { futex with word := desired } who success
  else futex.moveTo who (failure futex.word)

/-- The next step of a thread in `lock` or `tryLock`. -/
def advance (futex : Futex T) (who : T) : Option (Futex T) :=
  match futex.place who with
  | .arriving => some (futex.compareExchange who 0 1 .holding .looping)
  | .trying => some (futex.compareExchange who 0 1 .holding fun _ => .outside)
  | .looping expected =>
      if expected = 2 then some (futex.moveTo who .waiting)
      else some (futex.compareExchange who expected 2 .waiting fun _ => .retrying)
  | .waiting =>
      if futex.word = 2 then
        some (moveTo { futex with sleepers := futex.sleepers ++ [who] } who .asleep)
      else some (futex.moveTo who .retrying)
  | .retrying => some (futex.compareExchange who 0 2 .holding .looping)
  | _ => none

/-- A sleeper wakes up. -/
def rouse (futex : Futex T) (sleeper : T) : Futex T :=
  moveTo { futex with sleepers := futex.sleepers.erase sleeper } sleeper .retrying

/-- One action. Only the holder calls `unlock`. -/
def act (futex : Futex T) : FutexAction T → Option (Futex T)
  | .lock who => if futex.place who = .outside then some (futex.moveTo who .arriving) else none
  | .tryLock who => if futex.place who = .outside then some (futex.moveTo who .trying) else none
  | .unlock who =>
      if futex.place who = .holding then
        some (moveTo { futex with word := 0 } who (.released futex.word))
      else none
  | .advance who => futex.advance who
  | .wake who sleeper =>
      if futex.place who = .waking then
        match sleeper with
        | some sleeper =>
            if sleeper ∈ futex.sleepers then some ((futex.moveTo who .outside).rouse sleeper)
            else none
        | none => if futex.sleepers = [] then some (futex.moveTo who .outside) else none
      else none
  | .spurious who => if who ∈ futex.sleepers then some (futex.rouse who) else none

variable {futex after : Futex T} {action : FutexAction T} {who : T}

@[simp]
theorem moveTo_place_self (next : FutexPlace) : (futex.moveTo who next).place who = next :=
  Function.update_self ..

@[simp]
theorem moveTo_place_of_ne (next : FutexPlace) {other : T} (differs : other ≠ who) :
    (futex.moveTo who next).place other = futex.place other :=
  Function.update_of_ne differs ..

/-! ## What an action does -/

/-- What each action needs and what it leaves: a thread takes the lock when it is free, marks
it when it is held, goes on and leaves the word alone, falls asleep, is woken, or releases
the lock. Who comes out of the loop marks the lock that it takes. -/
inductive Step (futex : Futex T) : Futex T → Prop where
  | take {who : T} (word : UInt32) (awake : futex.place who ≠ .asleep) (free : futex.word = 0)
      (held : word ≠ 0) (marks : (futex.place who).Busy → word = 2) :
      Step futex (moveTo { futex with word := word } who .holding)
  | mark {who : T} (expected : UInt32) (looping : futex.place who = .looping expected)
      (same : futex.word = expected) :
      Step futex (moveTo { futex with word := 2 } who .waiting)
  | goOn {who : T} (next : FutexPlace) (awake : futex.place who ≠ .asleep)
      (elsewhere : next ≠ .holding ∧ next ≠ .asleep ∧ next ≠ .looping 0)
      (busy : (futex.place who).Busy → next.Busy) :
      Step futex (futex.moveTo who next)
  | sleep {who : T} (waiting : futex.place who = .waiting) (marked : futex.word = 2) :
      Step futex (moveTo { futex with sleepers := futex.sleepers ++ [who] } who .asleep)
  | rouse {who : T} (member : who ∈ futex.sleepers) : Step futex (futex.rouse who)
  | wake {who sleeper : T} (waking : futex.place who = .waking)
      (member : sleeper ∈ futex.sleepers) :
      Step futex ((futex.moveTo who .outside).rouse sleeper)
  | wakeNobody {who : T} (waking : futex.place who = .waking) (nobody : futex.sleepers = []) :
      Step futex (futex.moveTo who .outside)
  | release {who : T} (holding : futex.place who = .holding) :
      Step futex (moveTo { futex with word := 0 } who (.released futex.word))

/-- The next step of a thread is one of these. -/
theorem step_of_advance (happens : futex.advance who = some after) : Step futex after := by
  unfold advance at happens
  cases place : futex.place who with
  | arriving =>
      rw [place] at happens
      cases happens
      unfold compareExchange
      split_ifs with free
      · refine .take 1 ?_ free (by decide) fun busy => ?_
        · rw [place]
          exact nofun
        · rw [place] at busy
          exact busy.elim
      · refine .goOn _ ?_ ⟨nofun, nofun, fun same => free (FutexPlace.looping.inj same)⟩
          fun _ => trivial
        rw [place]
        exact nofun
  | trying =>
      rw [place] at happens
      cases happens
      unfold compareExchange
      split_ifs with free
      · refine .take 1 ?_ free (by decide) fun busy => ?_
        · rw [place]
          exact nofun
        · rw [place] at busy
          exact busy.elim
      · refine .goOn _ ?_ ⟨nofun, nofun, nofun⟩ fun busy => ?_
        · rw [place]
          exact nofun
        · rw [place] at busy
          exact busy.elim
  | looping expected =>
      rw [place] at happens
      dsimp only at happens
      have awake : futex.place who ≠ .asleep := by
        rw [place]
        exact nofun
      split_ifs at happens
      · cases happens
        exact .goOn _ awake ⟨nofun, nofun, nofun⟩ fun _ => trivial
      · cases happens
        unfold compareExchange
        split_ifs with same
        · exact .mark expected place same
        · exact .goOn _ awake ⟨nofun, nofun, nofun⟩ fun _ => trivial
  | waiting =>
      rw [place] at happens
      dsimp only at happens
      split_ifs at happens with marked
      · cases happens
        exact .sleep place marked
      · cases happens
        refine .goOn _ ?_ ⟨nofun, nofun, nofun⟩ fun _ => trivial
        rw [place]
        exact nofun
  | retrying =>
      rw [place] at happens
      have awake : futex.place who ≠ .asleep := by
        rw [place]
        exact nofun
      cases happens
      unfold compareExchange
      split_ifs with free
      · exact .take 2 awake free (by decide) fun _ => rfl
      · exact .goOn _ awake ⟨nofun, nofun, fun same => free (FutexPlace.looping.inj same)⟩
          fun _ => trivial
  | outside | asleep | holding | waking =>
      rw [place] at happens
      cases happens

/-- An action is one of these. -/
theorem step_of_act (happens : futex.act action = some after) : Step futex after := by
  cases action with
  | lock who =>
      simp only [act] at happens
      split_ifs at happens with outside
      cases happens
      refine .goOn _ ?_ ⟨nofun, nofun, nofun⟩ ?_ <;> rw [outside]
      · exact nofun
      · exact False.elim
  | tryLock who =>
      simp only [act] at happens
      split_ifs at happens with outside
      cases happens
      refine .goOn _ ?_ ⟨nofun, nofun, nofun⟩ ?_ <;> rw [outside]
      · exact nofun
      · exact False.elim
  | unlock who =>
      unfold act at happens
      dsimp only at happens
      rw [Option.ite_none_right_eq_some] at happens
      obtain ⟨holding, same⟩ := happens
      cases same
      exact .release holding
  | advance who => exact step_of_advance happens
  | wake who sleeper =>
      unfold act at happens
      dsimp only at happens
      rw [Option.ite_none_right_eq_some] at happens
      obtain ⟨waking, happens⟩ := happens
      cases sleeper with
      | some sleeper =>
          dsimp only at happens
          split_ifs at happens with member
          cases happens
          exact .wake waking member
      | none =>
          dsimp only at happens
          split_ifs at happens with nobody
          cases happens
          exact .wakeNobody waking nobody
  | spurious who =>
      simp only [act] at happens
      split_ifs at happens with member
      cases happens
      exact .rouse member

/-! ## The invariant -/

/-- A thread in the loop has not seen a free lock; the kernel knows who sleeps; the word of a
held lock is not 0, and one thread holds it; and while a thread sleeps, the word is 2, or a
thread is awake that will see to it. -/
structure Sound (futex : Futex T) : Prop where
  informed : ∀ who, futex.place who ≠ .looping 0
  nodup : futex.sleepers.Nodup
  asleep : ∀ who, who ∈ futex.sleepers ↔ futex.place who = .asleep
  held : ∀ who, futex.place who = .holding → futex.word ≠ 0
  alone : ∀ who other, futex.place who = .holding → futex.place other = .holding → who = other
  remembered : futex.sleepers ≠ [] → futex.word = 2 ∨ ∃ who, (futex.place who).Busy

omit [DecidableEq T] in
theorem initial_sound : (initial T).Sound where
  informed := fun _ => nofun
  nodup := List.nodup_nil
  asleep := fun _ => ⟨fun member => absurd member List.not_mem_nil, nofun⟩
  held := fun _ => nofun
  alone := fun _ _ => nofun
  remembered := fun some => absurd rfl some

omit [DecidableEq T] in
theorem released_elsewhere (word : UInt32) : FutexPlace.released word ≠ .holding ∧
    FutexPlace.released word ≠ .asleep ∧ FutexPlace.released word ≠ .looping 0 := by
  unfold FutexPlace.released
  split_ifs <;> exact ⟨nofun, nofun, nofun⟩

/-- A place in a lock after a thread has moved. -/
theorem moveTo_place (next : FutexPlace) (other : T) :
    (futex.moveTo who next).place other = if other = who then next else futex.place other := by
  split_ifs with same
  · rw [same, moveTo_place_self]
  · exact moveTo_place_of_ne next same

/-- A thread that does not hold the lock goes elsewhere, and the word is 0 only if it was. -/
theorem Sound.moveTo (sound : futex.Sound) {word : UInt32} {sleepers : List T}
    {next : FutexPlace} (informed : next ≠ .looping 0) (elsewhere : next ≠ .holding)
    (kept : word = 0 → futex.word = 0) (nodup : sleepers.Nodup)
    (asleep : ∀ other, other ∈ sleepers ↔
      (if other = who then next else futex.place other) = .asleep)
    (remembered : sleepers ≠ [] → word = 2 ∨
      ∃ other, (if other = who then next else futex.place other).Busy) :
    (Futex.moveTo ⟨word, sleepers, futex.place⟩ who next).Sound where
  informed := by
    intro other
    rw [moveTo_place]
    split_ifs
    · exact informed
    · exact sound.informed other
  nodup := nodup
  asleep := by
    intro other
    rw [moveTo_place]
    exact asleep other
  held := by
    intro other
    rw [moveTo_place]
    split_ifs
    · exact fun same => absurd same elsewhere
    · exact fun holding free => sound.held other holding (kept free)
  alone := by
    intro left right
    rw [moveTo_place, moveTo_place]
    split_ifs
    · exact fun same => absurd same elsewhere
    · exact fun same => absurd same elsewhere
    · exact fun _ same => absurd same elsewhere
    · exact sound.alone left right
  remembered := by
    intro some
    simp only [moveTo_place]
    exact remembered some

/-- A thread that stays awake leaves the sleepers as they are. -/
theorem Sound.awake (sound : futex.Sound) {next : FutexPlace}
    (before : futex.place who ≠ .asleep) (after : next ≠ .asleep) (other : T) :
    other ∈ futex.sleepers ↔
      (if other = who then next else futex.place other) = .asleep := by
  split_ifs with same
  · rw [same]
    exact ⟨fun member => absurd ((sound.asleep who).mp member) before, fun now => absurd now after⟩
  · exact sound.asleep other

/-- A sleeper wakes up. -/
theorem Sound.rouse (sound : futex.Sound) (member : who ∈ futex.sleepers) :
    (futex.rouse who).Sound := by
  refine sound.moveTo nofun nofun id (sound.nodup.erase who) (fun other => ?_) fun _ => ?_
  · rw [sound.nodup.mem_erase_iff]
    split_ifs with same
    · simp [same]
    · rw [sound.asleep]
      exact and_iff_right same
  · right
    refine ⟨who, ?_⟩
    rw [if_pos rfl]
    trivial

/-- Every action keeps the lock sound. -/
theorem Sound.step (sound : futex.Sound) (step : Step futex after) : after.Sound := by
  cases step with
  | @take who word awake free held marks =>
      have nobody (other : T) : futex.place other ≠ .holding :=
        fun holding => sound.held other holding free
      refine ⟨fun other => ?_, sound.nodup, fun other => ?_, fun _ _ => held,
        fun left right => ?_, fun some => ?_⟩
      · rw [moveTo_place]
        split_ifs
        · exact nofun
        · exact sound.informed other
      · rw [moveTo_place]
        refine sound.awake awake ?_ other
        exact nofun
      · rw [moveTo_place, moveTo_place]
        split_ifs with first second second
        · exact fun _ _ => first.trans second.symm
        · exact fun _ holding => absurd holding (nobody right)
        · exact fun holding => absurd holding (nobody left)
        · exact fun holding => absurd holding (nobody left)
      · rcases sound.remembered some with marked | ⟨other, busy⟩
        · rw [free] at marked
          cases marked
        · by_cases same : other = who
          · exact .inl (marks (same ▸ busy))
          · refine .inr ⟨other, ?_⟩
            rw [moveTo_place_of_ne _ same]
            exact busy
  | @mark who expected looping same =>
      refine sound.moveTo nofun nofun nofun sound.nodup (sound.awake ?_ nofun) fun _ => .inl rfl
      rw [looping]
      exact nofun
  | @goOn who next awake elsewhere busy =>
      refine sound.moveTo elsewhere.2.2 elsewhere.1 id sound.nodup
        (sound.awake awake elsewhere.2.1) fun some => ?_
      refine (sound.remembered some).imp id ?_
      rintro ⟨other, others⟩
      refine ⟨other, ?_⟩
      split_ifs with same
      · exact busy (same ▸ others)
      · exact others
  | @sleep who waiting marked =>
      have fresh : who ∉ futex.sleepers := by
        intro member
        rw [(sound.asleep who).mp member] at waiting
        cases waiting
      refine sound.moveTo nofun nofun id ?_ (fun other => ?_) fun _ => .inl marked
      · exact List.nodup_append.mpr ⟨sound.nodup, List.nodup_singleton who, by
          rintro other member _ last rfl
          exact fresh (List.mem_singleton.mp last ▸ member)⟩
      · rw [List.mem_append, List.mem_singleton]
        split_ifs with same
        · exact ⟨fun _ => rfl, fun _ => .inr same⟩
        · rw [sound.asleep]
          exact or_iff_left same
  | rouse member => exact sound.rouse member
  | @wake who sleeper waking member =>
      have differs : sleeper ≠ who := by
        rintro rfl
        rw [(sound.asleep sleeper).mp member] at waking
        cases waking
      -- The sleeper is busy before the waker leaves, so one of them always is.
      have first := sound.rouse member
      have swapped : (futex.moveTo who .outside).rouse sleeper =
          (futex.rouse sleeper).moveTo who .outside := by
        simp only [Futex.rouse, Futex.moveTo, Function.update_comm differs]
      rw [swapped]
      refine first.moveTo nofun nofun id first.nodup (first.awake ?_ nofun) fun _ => ?_
      · rw [Futex.rouse, moveTo_place_of_ne _ differs.symm, waking]
        exact nofun
      · refine .inr ⟨sleeper, ?_⟩
        rw [if_neg differs, Futex.rouse, moveTo_place_self]
        trivial
  | @wakeNobody who waking nobody =>
      refine sound.moveTo nofun nofun id sound.nodup (sound.awake ?_ nofun)
        fun some => absurd nobody some
      rw [waking]
      exact nofun
  | @release who holding =>
      have alone (other : T) (differs : other ≠ who) : futex.place other ≠ .holding :=
        fun also => differs (sound.alone other who also holding)
      have awake : futex.place who ≠ .asleep := by
        rw [holding]
        exact nofun
      have elsewhere := released_elsewhere futex.word
      refine ⟨fun other => ?_, sound.nodup, fun other => ?_, fun other => ?_,
        fun left right => ?_, fun some => ?_⟩
      · rw [moveTo_place]
        split_ifs with same
        · exact elsewhere.2.2
        · exact sound.informed other
      · rw [moveTo_place]
        exact sound.awake awake elsewhere.2.1 other
      · rw [moveTo_place]
        split_ifs with same
        · exact fun now => absurd now elsewhere.1
        · exact fun also => absurd also (alone other same)
      · rw [moveTo_place]
        split_ifs with same
        · exact fun now => absurd now elsewhere.1
        · exact fun also => absurd also (alone left same)
      · right
        rcases sound.remembered some with marked | ⟨other, busy⟩
        · refine ⟨who, ?_⟩
          rw [moveTo_place_self, marked]
          trivial
        · refine ⟨other, ?_⟩
          rw [moveTo_place_of_ne]
          · exact busy
          · rintro rfl
            rw [holding] at busy
            exact busy.elim

theorem sound_of_trace {actions : List (FutexAction T)}
    (trace : Trace act (initial T) actions futex) : futex.Sound :=
  trace.invariant Sound (fun _ _ _ sound happens => sound.step (step_of_act happens)) initial_sound

/-- A thread sleeps, the lock is free, and nobody who is awake in the loop of `lock` or has
yet to wake somebody is there to see to it. -/
structure Forgotten (futex : Futex T) (who : T) : Prop where
  asleep : futex.place who = .asleep
  free : futex.word = 0
  nobody : ∀ other, ¬(futex.place other).Busy

/-- At most one thread holds the lock, and no sleeper is forgotten. -/
theorem excludes_and_remembers {actions : List (FutexAction T)}
    (trace : Trace act (initial T) actions futex) :
    (∀ who other, futex.place who = .holding → futex.place other = .holding → who = other) ∧
      ∀ who, ¬futex.Forgotten who := by
  have sound := sound_of_trace trace
  refine ⟨sound.alone, fun who forgotten => ?_⟩
  have some : futex.sleepers ≠ [] :=
    List.ne_nil_of_mem ((sound.asleep who).mpr forgotten.asleep)
  rcases sound.remembered some with marked | ⟨other, busy⟩
  · rw [forgotten.free] at marked
    cases marked
  · exact forgotten.nobody other busy

/-- Two threads lock, one after the other sleeps, and the holder unlocks and wakes it. -/
def handsOver : List (FutexAction Bool) :=
  [.lock true, .advance true, .lock false, .advance false, .advance false, .advance false,
    .unlock true, .wake true (some false), .advance false]

theorem excludes_and_remembers_handsOver : ∃ futex : Futex Bool,
    Trace act (initial Bool) handsOver futex ∧ futex.place false = .holding ∧
      ∀ other, futex.place other = .holding → false = other := by
  have followed : (follow act (initial Bool) handsOver).any
      (fun futex => decide (futex.place false = .holding)) = true := by
    decide +kernel
  obtain ⟨futex, trace, holding⟩ := Trace.exists_of_follow followed
  have holding := of_decide_eq_true holding
  exact ⟨futex, trace, holding, fun other => (excludes_and_remembers trace).1 false other holding⟩

end Futex

end Join
