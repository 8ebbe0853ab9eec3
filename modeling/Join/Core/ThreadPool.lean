import Mathlib.Data.Fintype.Basic
import Mathlib.Data.List.Nodup
import Mathlib.Logic.Function.Basic
import Join.Library.Trace

/-!
# The thread pool

The workers of a `join::ThreadPool` take jobs from a deque under a mutex, and sleep on a
condition while there is none. `push` takes the mutex and signals one sleeper. The
destructor stores the stop flag and broadcasts, without the mutex, and joins the workers.

An action is one step of a worker, of a thread that pushes, or of the destructor: an access
to the flag, to the mutex or to the condition, or a piece of code that touches what the
mutex protects. A signal wakes one sleeper, any of them, if there is one; a sleeper may also
wake up by itself.
-/

set_option autoImplicit false

namespace Join

open Library

/-- Where a worker stands. -/
inductive WorkerPlace (J : Type) where
  | locking
  /-- Before the predicate of the wait, with the mutex. -/
  | testing
  /-- The predicate was false; before the release of the mutex and the sleep. -/
  | deciding
  | asleep
  /-- Woken, without the mutex. -/
  | waking
  /-- After the wait. -/
  | checking
  | taking
  | unlocking (job : J)
  | running (job : J)
  | returning
  | returned

/-- Where a thread that pushes stands. -/
inductive PusherPlace (J : Type) where
  | outside
  | locking (job : J)
  | emplacing (job : J)
  | signalling
  | unlocking

/-- Where the thread that destroys the pool stands. -/
inductive PoolLife where
  | alive
  /-- The flag is stored. -/
  | stopped
  /-- The broadcast is done. -/
  | joining
  | joined
  deriving DecidableEq

/-- The worker has the mutex. -/
def WorkerPlace.Holds {J : Type} : WorkerPlace J → Prop
  | .testing | .deciding | .checking | .taking | .unlocking _ | .returning => True
  | _ => False

/-- The worker will come back to the deque by itself. -/
def WorkerPlace.Awake {J : Type} : WorkerPlace J → Prop
  | .asleep | .returning | .returned => False
  | _ => True

/-- The worker has left `work`. -/
def WorkerPlace.gone {J : Type} : WorkerPlace J → Bool
  | .returned => true
  | _ => false

/-- The thread has the mutex. -/
def PusherPlace.Holds {J : Type} : PusherPlace J → Prop
  | .emplacing _ | .signalling | .unlocking => True
  | _ => False

/-- The members of the pool, who has the mutex, who sleeps on the condition, and where
everybody stands; with all jobs that were pushed, those that were pushed after the flag was
stored, and those that were taken, by whom. -/
structure ThreadPool (n : ℕ) (P J : Type) where
  mutex : Option (Fin n ⊕ P)
  sleepers : List (Fin n)
  stop : Bool
  jobs : List J
  worker : Fin n → WorkerPlace J
  pusher : P → PusherPlace J
  life : PoolLife
  pushed : List J
  late : List J
  taken : List (Fin n × J)

/-- A worker makes its next step or wakes up by itself; a thread starts a push, makes its next
step in it, or signals; the destructor makes a step. -/
inductive ThreadPoolAction (n : ℕ) (P J : Type) where
  | work (who : Fin n)
  | spurious (who : Fin n)
  | push (who : P) (job : J)
  | advance (who : P)
  | signal (who : P) (sleeper : Option (Fin n))
  | store
  | broadcast
  | join

namespace ThreadPool

variable {n : ℕ} {P J : Type}

/-- A pool that has just been constructed; its workers have started. -/
def initial (n : ℕ) (P J : Type) : ThreadPool n P J where
  mutex := none
  sleepers := []
  stop := false
  jobs := []
  worker := fun _ => .locking
  pusher := fun _ => .outside
  life := .alive
  pushed := []
  late := []
  taken := []

/-- The worker goes to another place. -/
def moveTo (pool : ThreadPool n P J) (who : Fin n) (next : WorkerPlace J) : ThreadPool n P J :=
  { pool with worker := Function.update pool.worker who next }

/-- The next step of `WorkerThread::work`. -/
def work (pool : ThreadPool n P J) (who : Fin n) : Option (ThreadPool n P J) :=
  match pool.worker who with
  | .locking | .waking =>
      if pool.mutex.isNone then
        some { pool.moveTo who .testing with mutex := some (.inl who) }
      else none
  | .testing =>
      some (pool.moveTo who (if pool.stop || !pool.jobs.isEmpty then .checking else .deciding))
  | .deciding =>
      some { pool.moveTo who .asleep with mutex := none, sleepers := pool.sleepers ++ [who] }
  | .asleep => none
  | .checking =>
      some (pool.moveTo who (if pool.stop && pool.jobs.isEmpty then .returning else .taking))
  | .taking =>
      match pool.jobs with
      | [] => none
      | job :: rest =>
          some { pool.moveTo who (.unlocking job) with
            jobs := rest
            taken := pool.taken ++ [(who, job)] }
  | .unlocking job => some { pool.moveTo who (.running job) with mutex := none }
  | .running _ => some (pool.moveTo who .locking)
  | .returning => some { pool.moveTo who .returned with mutex := none }
  | .returned => none

/-- A sleeper is woken. -/
def rouse (pool : ThreadPool n P J) (sleeper : Fin n) : ThreadPool n P J :=
  { pool.moveTo sleeper .waking with sleepers := pool.sleepers.erase sleeper }

/-- All sleepers are woken. -/
def broadcast (pool : ThreadPool n P J) : ThreadPool n P J :=
  { pool with
    worker := fun who => if who ∈ pool.sleepers then .waking else pool.worker who
    sleepers := []
    life := .joining }

variable [DecidableEq P]

/-- The thread goes to another place. -/
def pushTo (pool : ThreadPool n P J) (who : P) (next : PusherPlace J) : ThreadPool n P J :=
  { pool with pusher := Function.update pool.pusher who next }

/-- The next step of `push`, but for the signal. -/
def advance (pool : ThreadPool n P J) (who : P) : Option (ThreadPool n P J) :=
  match pool.pusher who with
  | .locking job =>
      if pool.mutex.isNone then
        some { pool.pushTo who (.emplacing job) with mutex := some (.inr who) }
      else none
  | .emplacing job =>
      some { pool.pushTo who .signalling with
        jobs := pool.jobs ++ [job]
        pushed := pool.pushed ++ [job]
        late := if pool.stop then pool.late ++ [job] else pool.late }
  | .unlocking => some { pool.pushTo who .outside with mutex := none }
  | _ => none

/-- One action. -/
def act (pool : ThreadPool n P J) : ThreadPoolAction n P J → Option (ThreadPool n P J)
  | .work who => pool.work who
  | .spurious who => if who ∈ pool.sleepers then some (pool.rouse who) else none
  | .push who job =>
      match pool.pusher who with
      | .outside => some (pool.pushTo who (.locking job))
      | _ => none
  | .advance who => pool.advance who
  | .signal who sleeper =>
      match pool.pusher who, sleeper with
      | .signalling, some sleeper =>
          if sleeper ∈ pool.sleepers then some ((pool.pushTo who .unlocking).rouse sleeper)
          else none
      | .signalling, none =>
          if pool.sleepers = [] then some (pool.pushTo who .unlocking) else none
      | _, _ => none
  | .store =>
      if pool.life = .alive then some { pool with stop := true, life := .stopped } else none
  | .broadcast => if pool.life = .stopped then some pool.broadcast else none
  | .join =>
      if pool.life = .joining ∧ ∀ who, (pool.worker who).gone = true then
        some { pool with life := .joined }
      else none

variable {pool after : ThreadPool n P J} {action : ThreadPoolAction n P J}

/-! ## The actions one by one -/

/-- What each action needs and what it leaves. -/
inductive Step (pool : ThreadPool n P J) : ThreadPoolAction n P J → ThreadPool n P J → Prop where
  | lock {who : Fin n} (from' : pool.worker who = .locking ∨ pool.worker who = .waking)
      (free : pool.mutex = none) :
      Step pool (.work who) { pool.moveTo who .testing with mutex := some (.inl who) }
  | pass {who : Fin n} (testing : pool.worker who = .testing)
      (holds : pool.stop = true ∨ pool.jobs ≠ []) :
      Step pool (.work who) (pool.moveTo who .checking)
  | decide {who : Fin n} (testing : pool.worker who = .testing) (goesOn : pool.stop = false)
      (empty : pool.jobs = []) :
      Step pool (.work who) (pool.moveTo who .deciding)
  | sleep {who : Fin n} (deciding : pool.worker who = .deciding) :
      Step pool (.work who)
        { pool.moveTo who .asleep with mutex := none, sleepers := pool.sleepers ++ [who] }
  | finish {who : Fin n} (checking : pool.worker who = .checking) (stop : pool.stop = true)
      (empty : pool.jobs = []) :
      Step pool (.work who) (pool.moveTo who .returning)
  | goOn {who : Fin n} (checking : pool.worker who = .checking)
      (some : pool.stop = true → pool.jobs ≠ []) :
      Step pool (.work who) (pool.moveTo who .taking)
  | take {who : Fin n} {job : J} {rest : List J} (taking : pool.worker who = .taking)
      (first : pool.jobs = job :: rest) :
      Step pool (.work who)
        { pool.moveTo who (.unlocking job) with
          jobs := rest
          taken := pool.taken ++ [(who, job)] }
  | unlock {who : Fin n} {job : J} (unlocking : pool.worker who = .unlocking job) :
      Step pool (.work who) { pool.moveTo who (.running job) with mutex := none }
  | again {who : Fin n} {job : J} (running : pool.worker who = .running job) :
      Step pool (.work who) (pool.moveTo who .locking)
  | leave {who : Fin n} (returning : pool.worker who = .returning) :
      Step pool (.work who) { pool.moveTo who .returned with mutex := none }
  | spurious {who : Fin n} (member : who ∈ pool.sleepers) :
      Step pool (.spurious who) (pool.rouse who)
  | push {who : P} (job : J) (outside : pool.pusher who = .outside) :
      Step pool (.push who job) (pool.pushTo who (.locking job))
  | pushLock {who : P} {job : J} (locking : pool.pusher who = .locking job)
      (free : pool.mutex = none) :
      Step pool (.advance who)
        { pool.pushTo who (.emplacing job) with mutex := some (.inr who) }
  | emplace {who : P} {job : J} (emplacing : pool.pusher who = .emplacing job) :
      Step pool (.advance who)
        { pool.pushTo who .signalling with
          jobs := pool.jobs ++ [job]
          pushed := pool.pushed ++ [job]
          late := if pool.stop then pool.late ++ [job] else pool.late }
  | signal {who : P} {sleeper : Fin n} (signalling : pool.pusher who = .signalling)
      (member : sleeper ∈ pool.sleepers) :
      Step pool (.signal who (some sleeper)) ((pool.pushTo who .unlocking).rouse sleeper)
  | signalNobody {who : P} (signalling : pool.pusher who = .signalling)
      (nobody : pool.sleepers = []) :
      Step pool (.signal who none) (pool.pushTo who .unlocking)
  | pushUnlock {who : P} (unlocking : pool.pusher who = .unlocking) :
      Step pool (.advance who) { pool.pushTo who .outside with mutex := none }
  | store (alive : pool.life = .alive) :
      Step pool .store { pool with stop := true, life := .stopped }
  | broadcast (stopped : pool.life = .stopped) : Step pool .broadcast pool.broadcast
  | join (joining : pool.life = .joining) (gone : ∀ who, (pool.worker who).gone = true) :
      Step pool .join { pool with life := .joined }

/-- The next step of a worker is one of these. -/
theorem step_of_work {who : Fin n} (happens : pool.work who = some after) :
    Step pool (.work who) after := by
  unfold work at happens
  split at happens
  · rename_i locking
    split_ifs at happens with free
    cases happens
    exact .lock (.inl locking) (Option.isNone_iff_eq_none.mp free)
  · rename_i waking
    split_ifs at happens with free
    cases happens
    exact .lock (.inr waking) (Option.isNone_iff_eq_none.mp free)
  · rename_i testing
    cases happens
    split_ifs with holds
    · refine .pass testing ?_
      simpa using holds
    · simp only [Bool.or_eq_true, Bool.not_eq_true', not_or, Bool.not_eq_true,
        Bool.not_eq_false, List.isEmpty_iff] at holds
      exact .decide testing holds.1 holds.2
  · rename_i deciding
    cases happens
    exact .sleep deciding
  · cases happens
  · rename_i checking
    cases happens
    split_ifs with past
    · rw [Bool.and_eq_true, List.isEmpty_iff] at past
      exact .finish checking past.1 past.2
    · refine .goOn checking fun stop empty => past ?_
      rw [stop, empty]
      rfl
  · rename_i taking
    split at happens
    · cases happens
    · rename_i job rest first
      cases happens
      exact .take taking first
  · rename_i job unlocking
    cases happens
    exact .unlock unlocking
  · rename_i job running
    cases happens
    exact .again running
  · rename_i returning
    cases happens
    exact .leave returning
  · cases happens

/-- An action is one of these. -/
theorem step_of_act (happens : pool.act action = some after) : Step pool action after := by
  cases action with
  | work who => exact step_of_work happens
  | spurious who =>
      simp only [act] at happens
      split_ifs at happens with member
      cases happens
      exact .spurious member
  | push who job =>
      simp only [act] at happens
      split at happens
      · rename_i outside
        cases happens
        exact .push job outside
      · cases happens
  | advance who =>
      simp only [act, advance] at happens
      split at happens
      · rename_i job locking
        split_ifs at happens with free
        cases happens
        exact .pushLock locking (Option.isNone_iff_eq_none.mp free)
      · rename_i job emplacing
        cases happens
        exact .emplace emplacing
      · rename_i unlocking
        cases happens
        exact .pushUnlock unlocking
      · cases happens
  | signal who sleeper =>
      simp only [act] at happens
      split at happens
      · rename_i sleeper signalling
        split_ifs at happens with member
        cases happens
        exact .signal signalling member
      · rename_i signalling
        split_ifs at happens with nobody
        cases happens
        exact .signalNobody signalling nobody
      · cases happens
  | store =>
      simp only [act] at happens
      split_ifs at happens with alive
      cases happens
      exact .store alive
  | broadcast =>
      simp only [act] at happens
      split_ifs at happens with stopped
      cases happens
      exact .broadcast stopped
  | join =>
      simp only [act] at happens
      split_ifs at happens with past
      cases happens
      exact .join past.1 past.2

/-! ## The mutex and the sleepers -/

/-- Who stands where the mutex is held has it, and who stands asleep sleeps. -/
structure Locked (pool : ThreadPool n P J) : Prop where
  worker : ∀ who, (pool.worker who).Holds ↔ pool.mutex = some (.inl who)
  pusher : ∀ who, (pool.pusher who).Holds ↔ pool.mutex = some (.inr who)
  nodup : pool.sleepers.Nodup
  asleep : ∀ who, who ∈ pool.sleepers ↔ pool.worker who = .asleep

omit [DecidableEq P] in
theorem initial_locked : (initial n P J).Locked where
  worker := fun _ => ⟨False.elim, nofun⟩
  pusher := fun _ => ⟨False.elim, nofun⟩
  nodup := List.nodup_nil
  asleep := fun _ => ⟨fun member => absurd member List.not_mem_nil, nofun⟩

omit [DecidableEq P] in
/-- A worker goes on; it takes the mutex, releases it or leaves it. -/
theorem Locked.work (locked : pool.Locked) {who : Fin n} {next : WorkerPlace J}
    (worker : after.worker = Function.update pool.worker who next)
    (pusher : after.pusher = pool.pusher)
    (mine : next.Holds ↔ after.mutex = some (.inl who))
    (others : ∀ other, other ≠ .inl who → (after.mutex = some other ↔ pool.mutex = some other))
    (nodup : after.sleepers.Nodup)
    (asleep : ∀ other, other ∈ after.sleepers ↔
      Function.update pool.worker who next other = .asleep) : after.Locked where
  worker := by
    intro other
    rw [worker]
    by_cases same : other = who
    · rw [same, Function.update_self]
      exact mine
    · rw [Function.update_of_ne same, others _ fun inl => same (Sum.inl.inj inl)]
      exact locked.worker other
  pusher := by
    intro other
    rw [pusher, others (.inr other) nofun]
    exact locked.pusher other
  nodup := nodup
  asleep := by
    intro other
    rw [worker]
    exact asleep other

omit [DecidableEq P] in
/-- A worker that stays awake leaves the sleepers as they are. -/
theorem Locked.awake (locked : pool.Locked) {who : Fin n} {next : WorkerPlace J}
    (before : pool.worker who ≠ .asleep) (after : next ≠ .asleep) (other : Fin n) :
    other ∈ pool.sleepers ↔ Function.update pool.worker who next other = .asleep := by
  by_cases same : other = who
  · rw [same, Function.update_self, locked.asleep]
    exact ⟨fun now => absurd now before, fun now => absurd now after⟩
  · rw [Function.update_of_ne same]
    exact locked.asleep other

omit [DecidableEq P] in
/-- A worker that has the mutex, or that does not, goes on and leaves the mutex. -/
theorem Locked.keep (locked : pool.Locked) {who : Fin n} {next : WorkerPlace J}
    (worker : after.worker = Function.update pool.worker who next)
    (pusher : after.pusher = pool.pusher) (mutex : after.mutex = pool.mutex)
    (sleepers : after.sleepers = pool.sleepers) (holds : next.Holds ↔ (pool.worker who).Holds)
    (before : pool.worker who ≠ .asleep) (awake : next ≠ .asleep) : after.Locked := by
  refine locked.work worker pusher ?_ (fun _ _ => by rw [mutex]) (sleepers ▸ locked.nodup) ?_
  · rw [holds, mutex]
    exact locked.worker who
  · rw [sleepers]
    exact locked.awake before awake

omit [DecidableEq P] in
/-- A worker releases the mutex. -/
theorem Locked.release (locked : pool.Locked) {who : Fin n} {next : WorkerPlace J}
    (worker : after.worker = Function.update pool.worker who next)
    (pusher : after.pusher = pool.pusher) (mutex : after.mutex = none)
    (held : (pool.worker who).Holds) (leaves : ¬next.Holds) (nodup : after.sleepers.Nodup)
    (asleep : ∀ other, other ∈ after.sleepers ↔
      Function.update pool.worker who next other = .asleep) : after.Locked := by
  refine locked.work worker pusher ?_ (fun other differs => ?_) nodup asleep
  · rw [mutex]
    exact ⟨fun holds => absurd holds leaves, nofun⟩
  · rw [mutex, (locked.worker who).mp held]
    exact ⟨nofun, fun same => absurd (Option.some.inj same).symm differs⟩

omit [DecidableEq P] in
/-- A sleeper is woken. -/
theorem Locked.rouse (locked : pool.Locked) {who : Fin n} (member : who ∈ pool.sleepers) :
    (pool.rouse who).Locked := by
  have asleep := (locked.asleep who).mp member
  refine locked.work rfl rfl ?_ (fun _ _ => Iff.rfl) (locked.nodup.erase who) fun other => ?_
  · rw [show (pool.rouse who).mutex = pool.mutex from rfl, ← locked.worker who, asleep]
    exact Iff.rfl
  · change other ∈ pool.sleepers.erase who ↔ _
    rw [locked.nodup.mem_erase_iff]
    by_cases same : other = who
    · simp [same]
    · rw [Function.update_of_ne same, locked.asleep]
      exact and_iff_right same

/-- A thread that pushes goes on; it takes the mutex, releases it or leaves it. -/
theorem Locked.pushTo (locked : pool.Locked) {who : P} {next : PusherPlace J}
    (worker : after.worker = pool.worker) (sleepers : after.sleepers = pool.sleepers)
    (pusher : after.pusher = Function.update pool.pusher who next)
    (mine : next.Holds ↔ after.mutex = some (.inr who))
    (others : ∀ other, other ≠ .inr who → (after.mutex = some other ↔ pool.mutex = some other)) :
    after.Locked where
  worker := by
    intro other
    rw [worker, others (.inl other) nofun]
    exact locked.worker other
  pusher := by
    intro other
    rw [pusher]
    by_cases same : other = who
    · rw [same, Function.update_self]
      exact mine
    · rw [Function.update_of_ne same, others _ fun inr => same (Sum.inr.inj inr)]
      exact locked.pusher other
  nodup := sleepers ▸ locked.nodup
  asleep := by
    rw [worker, sleepers]
    exact locked.asleep

/-- Every action keeps the mutex. -/
theorem Locked.step (locked : pool.Locked) (step : Step pool action after) : after.Locked := by
  have off {who : Fin n} {place : WorkerPlace J} (at' : pool.worker who = place)
      (awake : place ≠ .asleep) : pool.worker who ≠ .asleep := by
    rw [at']
    exact awake
  cases step with
  | @lock who from' free =>
      have awake : pool.worker who ≠ .asleep := by
        rcases from' with place | place <;> exact off place nofun
      refine locked.work rfl rfl ⟨fun _ => rfl, fun _ => trivial⟩ (fun other differs => ?_)
        locked.nodup (locked.awake awake nofun)
      rw [free]
      exact ⟨fun same => absurd (Option.some.inj same).symm differs, nofun⟩
  | pass testing _ =>
      exact locked.keep rfl rfl rfl rfl (by rw [testing]; exact Iff.rfl) (off testing nofun) nofun
  | decide testing _ _ =>
      exact locked.keep rfl rfl rfl rfl (by rw [testing]; exact Iff.rfl) (off testing nofun) nofun
  | @sleep who deciding =>
      have fresh : who ∉ pool.sleepers := fun member =>
        off deciding nofun ((locked.asleep who).mp member)
      refine locked.release rfl rfl rfl (by rw [deciding]; trivial) id ?_ fun other => ?_
      · exact List.nodup_append.mpr ⟨locked.nodup, List.nodup_singleton who, by
          rintro other member _ last rfl
          exact fresh (List.mem_singleton.mp last ▸ member)⟩
      · rw [List.mem_append, List.mem_singleton]
        by_cases same : other = who
        · simp [same]
        · rw [Function.update_of_ne same, locked.asleep]
          exact or_iff_left same
  | finish checking _ _ =>
      exact locked.keep rfl rfl rfl rfl (by rw [checking]; exact Iff.rfl) (off checking nofun) nofun
  | goOn checking _ =>
      exact locked.keep rfl rfl rfl rfl (by rw [checking]; exact Iff.rfl) (off checking nofun) nofun
  | take taking _ =>
      exact locked.keep rfl rfl rfl rfl (by rw [taking]; exact Iff.rfl) (off taking nofun) nofun
  | unlock unlocking =>
      exact locked.release rfl rfl rfl (by rw [unlocking]; trivial) id locked.nodup
        (locked.awake (off unlocking nofun) nofun)
  | again running =>
      exact locked.keep rfl rfl rfl rfl (by rw [running]; exact Iff.rfl) (off running nofun) nofun
  | leave returning =>
      exact locked.release rfl rfl rfl (by rw [returning]; trivial) id locked.nodup
        (locked.awake (off returning nofun) nofun)
  | spurious member => exact locked.rouse member
  | @push who job outside =>
      refine locked.pushTo rfl rfl rfl ?_ fun _ _ => Iff.rfl
      change False ↔ pool.mutex = _
      rw [← locked.pusher who, outside]
      exact Iff.rfl
  | pushLock locking free =>
      refine locked.pushTo rfl rfl rfl ⟨fun _ => rfl, fun _ => trivial⟩ fun other differs => ?_
      rw [free]
      exact ⟨fun same => absurd (Option.some.inj same).symm differs, nofun⟩
  | @emplace who job emplacing =>
      refine locked.pushTo rfl rfl rfl ?_ fun _ _ => Iff.rfl
      change True ↔ pool.mutex = _
      rw [← locked.pusher who, emplacing]
      exact Iff.rfl
  | @signal who sleeper signalling member =>
      have pushed : (pool.pushTo who .unlocking).Locked := by
        refine locked.pushTo rfl rfl rfl ?_ fun _ _ => Iff.rfl
        change True ↔ pool.mutex = _
        rw [← locked.pusher who, signalling]
        exact Iff.rfl
      exact pushed.rouse member
  | @signalNobody who signalling _ =>
      refine locked.pushTo rfl rfl rfl ?_ fun _ _ => Iff.rfl
      change True ↔ pool.mutex = _
      rw [← locked.pusher who, signalling]
      exact Iff.rfl
  | @pushUnlock who unlocking =>
      refine locked.pushTo rfl rfl rfl ⟨False.elim, nofun⟩ fun other differs => ?_
      have held : pool.mutex = some (.inr who) := by
        rw [← locked.pusher who, unlocking]
        trivial
      rw [held]
      exact ⟨nofun, fun same => absurd (Option.some.inj same).symm differs⟩
  | store _ => exact ⟨locked.worker, locked.pusher, locked.nodup, locked.asleep⟩
  | broadcast _ =>
      refine ⟨fun who => ?_, locked.pusher, List.nodup_nil, fun who => ?_⟩
      · change (if who ∈ pool.sleepers then WorkerPlace.waking else pool.worker who).Holds ↔ _
        split_ifs with member
        · change False ↔ pool.mutex = _
          rw [← locked.worker who, (locked.asleep who).mp member]
          exact Iff.rfl
        · exact locked.worker who
      · change who ∈ [] ↔
          (if who ∈ pool.sleepers then WorkerPlace.waking else pool.worker who) = .asleep
        split_ifs with member
        · simp
        · rw [← locked.asleep who]
          simp [member]
  | join _ _ => exact ⟨locked.worker, locked.pusher, locked.nodup, locked.asleep⟩

end ThreadPool

end Join
