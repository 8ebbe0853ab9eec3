import Join.Core.ThreadPool

/-!
# The jobs of a thread pool, and its end

The deque and the jobs that were taken account for every job that was pushed, in order, and
while a job is in the deque a worker comes for it. A worker leaves when the flag is stored
and the deque is empty.

The flag is stored, and the condition broadcast, without the mutex. A worker that has found
the predicate false and does not sleep yet misses both, and sleeps for ever after.
-/

set_option autoImplicit false

namespace Join

open Library

variable {n : ℕ} {P J : Type}

/-- What a worker that stands there knows of the deque, of the jobs that were pushed after the
flag was stored, and of the flag. -/
def WorkerPlace.Fits (jobs late : List J) (stop : Bool) : WorkerPlace J → Prop
  | .deciding => jobs = []
  | .checking => stop = true ∨ jobs ≠ []
  | .taking => jobs ≠ []
  | .returning => stop = true ∧ jobs = []
  | .returned => stop = true ∧ jobs <:+ late
  | _ => True

/-- The worker has found the predicate false and does not sleep yet. -/
def WorkerPlace.decided : WorkerPlace J → Bool
  | .deciding => true
  | _ => false

namespace ThreadPool

/-- The jobs that were pushed are those that were taken and those in the deque, and every
worker knows what it has seen. -/
structure Accounted (pool : ThreadPool n P J) : Prop where
  account : pool.pushed = pool.taken.map Prod.snd ++ pool.jobs
  fits : ∀ who, (pool.worker who).Fits pool.jobs pool.late pool.stop

/-- While a job is in the deque a worker comes for it, or a signal is about to wake one;
unless all workers have left. -/
def Served (pool : ThreadPool n P J) : Prop :=
  pool.jobs ≠ [] → (∃ who, (pool.worker who).Awake) ∨
    (∀ who, (pool.worker who).gone = true) ∨ ∃ who, pool.pusher who = .signalling

theorem initial_accounted : (initial n P J).Accounted := ⟨rfl, fun _ => trivial⟩

theorem initial_served : (initial n P J).Served := fun some => absurd rfl some

variable {pool after : ThreadPool n P J}

/-- A worker moves on and leaves the deque alone. -/
theorem Accounted.moveTo (accounted : pool.Accounted) {who : Fin n} {next : WorkerPlace J}
    (worker : after.worker = Function.update pool.worker who next)
    (jobs : after.jobs = pool.jobs) (late : after.late = pool.late)
    (stop : after.stop = pool.stop) (pushed : after.pushed = pool.pushed)
    (taken : after.taken = pool.taken) (fits : next.Fits pool.jobs pool.late pool.stop) :
    after.Accounted := by
  refine ⟨?_, fun other => ?_⟩
  · rw [pushed, taken, jobs]
    exact accounted.account
  · rw [worker, jobs, late, stop]
    by_cases same : other = who
    · rw [same, Function.update_self]
      exact fits
    · rw [Function.update_of_ne same]
      exact accounted.fits other

/-- What a worker knows that does not have the mutex. -/
theorem Fits.outside {place : WorkerPlace J} {jobs jobs' late late' : List J} {stop : Bool}
    (fits : place.Fits jobs late stop) (outside : ¬place.Holds)
    (still : stop = true → jobs <:+ late → jobs' <:+ late') : place.Fits jobs' late' stop := by
  cases place with
  | returned => exact ⟨fits.1, still fits.1 fits.2⟩
  | locking => trivial
  | asleep => trivial
  | waking => trivial
  | running job => trivial
  | _ => exact absurd trivial outside

/-- What a worker knows when the flag is stored. -/
theorem Fits.stored {place : WorkerPlace J} {jobs late : List J} {stop : Bool}
    (fits : place.Fits jobs late stop) : place.Fits jobs late true := by
  cases place with
  | checking => exact .inl rfl
  | returning => exact ⟨rfl, fits.2⟩
  | returned => exact ⟨rfl, fits.2⟩
  | _ => exact fits

variable [DecidableEq P] {action : ThreadPoolAction n P J}

/-- Every action accounts for the jobs. -/
theorem Accounted.step (accounted : pool.Accounted) (locked : pool.Locked)
    (step : Step pool action after) : after.Accounted := by
  cases step with
  | lock _ _ => exact accounted.moveTo rfl rfl rfl rfl rfl rfl trivial
  | pass _ holds => exact accounted.moveTo rfl rfl rfl rfl rfl rfl holds
  | decide _ _ empty => exact accounted.moveTo rfl rfl rfl rfl rfl rfl empty
  | sleep _ => exact accounted.moveTo rfl rfl rfl rfl rfl rfl trivial
  | finish _ stop empty => exact accounted.moveTo rfl rfl rfl rfl rfl rfl ⟨stop, empty⟩
  | @goOn who checking some =>
      refine accounted.moveTo rfl rfl rfl rfl rfl rfl ?_
      have fits := accounted.fits who
      rw [checking] at fits
      rcases fits with stop | queued
      · exact some stop
      · exact queued
  | @take who job rest taking first =>
      have held : pool.mutex = some (.inl who) := by
        rw [← locked.worker who, taking]
        trivial
      refine ⟨?_, fun other => ?_⟩
      · change pool.pushed = (pool.taken ++ [(who, job)]).map Prod.snd ++ rest
        rw [accounted.account, first, List.map_append, List.append_assoc]
        rfl
      · change (Function.update pool.worker who (.unlocking job) other).Fits rest pool.late pool.stop
        by_cases same : other = who
        · rw [same, Function.update_self]
          trivial
        · rw [Function.update_of_ne same]
          have fits := accounted.fits other
          rw [first] at fits
          refine Fits.outside fits (fun holds => same ?_) fun _ suffix => ?_
          · rw [locked.worker other, held] at holds
            exact (Sum.inl.inj (Option.some.inj holds)).symm
          · exact (List.suffix_cons job rest).trans suffix
  | unlock _ => exact accounted.moveTo rfl rfl rfl rfl rfl rfl trivial
  | again _ => exact accounted.moveTo rfl rfl rfl rfl rfl rfl trivial
  | @leave who returning =>
      refine accounted.moveTo rfl rfl rfl rfl rfl rfl ?_
      have fits := accounted.fits who
      rw [returning] at fits
      refine ⟨fits.1, ?_⟩
      rw [fits.2]
      exact List.nil_suffix
  | spurious _ => exact accounted.moveTo rfl rfl rfl rfl rfl rfl trivial
  | push _ _ => exact ⟨accounted.account, accounted.fits⟩
  | pushLock _ _ => exact ⟨accounted.account, accounted.fits⟩
  | @emplace who job emplacing =>
      have held : pool.mutex = some (.inr who) := by
        rw [← locked.pusher who, emplacing]
        trivial
      refine ⟨?_, fun other => Fits.outside (accounted.fits other) (fun holds => ?_)
        fun stop suffix => ?_⟩
      · change pool.pushed ++ [job] = pool.taken.map Prod.snd ++ (pool.jobs ++ [job])
        rw [accounted.account, List.append_assoc]
      · have mine := (locked.worker other).mp holds
        rw [held] at mine
        cases mine
      · have grown : (if pool.stop then pool.late ++ [job] else pool.late) = pool.late ++ [job] :=
          if_pos stop
        obtain ⟨before, same⟩ := suffix
        refine ⟨before, ?_⟩
        rw [grown, ← same, List.append_assoc]
  | signal _ _ => exact accounted.moveTo rfl rfl rfl rfl rfl rfl trivial
  | signalNobody _ _ => exact ⟨accounted.account, accounted.fits⟩
  | pushUnlock _ => exact ⟨accounted.account, accounted.fits⟩
  | store _ => exact ⟨accounted.account, fun who => Fits.stored (accounted.fits who)⟩
  | broadcast _ =>
      refine ⟨accounted.account, fun who => ?_⟩
      change (if who ∈ pool.sleepers then WorkerPlace.waking else pool.worker who).Fits _ _ _
      split_ifs
      · trivial
      · exact accounted.fits who
  | join _ _ => exact ⟨accounted.account, accounted.fits⟩

omit [DecidableEq P] in
/-- A worker that is awake after it has moved comes for the job. -/
theorem served_of_awake {who : Fin n} (awake : (after.worker who).Awake) : after.Served :=
  fun _ => .inl ⟨who, awake⟩

omit [DecidableEq P] in
theorem served_of_empty (empty : after.jobs = []) : after.Served := fun some => absurd empty some

omit [DecidableEq P] in
/-- The workers and the deque stay as they are. -/
theorem Served.same (served : pool.Served) (worker : after.worker = pool.worker)
    (jobs : after.jobs = pool.jobs)
    (pusher : (∃ who, pool.pusher who = .signalling) → ∃ who, after.pusher who = .signalling) :
    after.Served := by
  intro some
  rw [worker]
  rw [jobs] at some
  exact (served some).imp id (.imp id pusher)

/-- A thread that was not signalling moves on. -/
theorem signalling_of_ne {who : P} {next place : PusherPlace J} (at' : pool.pusher who = place)
    (differs : place ≠ .signalling) (signalling : ∃ other, pool.pusher other = .signalling) :
    ∃ other, (pool.pushTo who next).pusher other = .signalling := by
  obtain ⟨other, now⟩ := signalling
  refine ⟨other, (Function.update_of_ne ?_ _ _).trans now⟩
  rintro rfl
  exact differs (at'.symm.trans now)

/-- Every action keeps the deque served. -/
theorem Served.step (served : pool.Served) (locked : pool.Locked) (accounted : pool.Accounted)
    (step : Step pool action after) : after.Served := by
  have moved {who : Fin n} {next : WorkerPlace J} (awake : next.Awake) :
      (Function.update pool.worker who next who).Awake := by
    rw [Function.update_self]
    exact awake
  cases step with
  | lock _ _ => exact served_of_awake (moved trivial)
  | pass _ _ => exact served_of_awake (moved trivial)
  | decide _ _ _ => exact served_of_awake (moved trivial)
  | @sleep who deciding =>
      have fits := accounted.fits who
      rw [deciding] at fits
      exact served_of_empty fits
  | finish _ _ empty => exact served_of_empty empty
  | goOn _ _ => exact served_of_awake (moved trivial)
  | take _ _ => exact served_of_awake (moved trivial)
  | unlock _ => exact served_of_awake (moved trivial)
  | again _ => exact served_of_awake (moved trivial)
  | @leave who returning =>
      have fits := accounted.fits who
      rw [returning] at fits
      exact served_of_empty fits.2
  | spurious _ => exact served_of_awake (moved trivial)
  | push _ outside => exact served.same rfl rfl (signalling_of_ne outside nofun)
  | pushLock locking _ => exact served.same rfl rfl (signalling_of_ne locking nofun)
  | @emplace who job emplacing =>
      exact fun _ => .inr (.inr ⟨who, Function.update_self ..⟩)
  | signal _ _ => exact served_of_awake (moved trivial)
  | @signalNobody who signalling nobody =>
      have held : pool.mutex = some (.inr who) := by
        rw [← locked.pusher who, signalling]
        trivial
      intro _
      by_cases gone : ∀ other, (pool.worker other).gone = true
      · exact .inr (.inl gone)
      · left
        obtain ⟨other, there⟩ := not_forall.mp gone
        refine ⟨other, ?_⟩
        change (pool.worker other).Awake
        have outside : ¬(pool.worker other).Holds := by
          intro holds
          rw [locked.worker other, held] at holds
          cases holds
        have awake : pool.worker other ≠ .asleep := by
          intro asleep
          have member := (locked.asleep other).mpr asleep
          rw [nobody] at member
          cases member
        cases place : pool.worker other with
        | asleep => exact absurd place awake
        | returning =>
            rw [place] at outside
            exact absurd trivial outside
        | returned =>
            rw [place] at there
            exact absurd rfl there
        | _ => trivial
  | pushUnlock unlocking => exact served.same rfl rfl (signalling_of_ne unlocking nofun)
  | store _ => exact served.same rfl rfl id
  | broadcast _ =>
      intro some
      rcases served some with ⟨who, awake⟩ | gone | signalling
      · refine .inl ⟨who, ?_⟩
        change (if who ∈ pool.sleepers then WorkerPlace.waking else pool.worker who).Awake
        split_ifs
        · trivial
        · exact awake
      · refine .inr (.inl fun who => ?_)
        change (if who ∈ pool.sleepers then WorkerPlace.waking else pool.worker who).gone = true
        rw [if_neg]
        · exact gone who
        · intro member
          have there := gone who
          rw [(locked.asleep who).mp member] at there
          cases there
      · exact .inr (.inr signalling)
  | join _ _ => exact served.same rfl rfl id

/-! ## The end of the pool -/

/-- The broadcast comes when no worker has found the predicate false and does not sleep yet. -/
def Undisturbed (pool : ThreadPool n P J) (action : ThreadPoolAction n P J) : Prop :=
  action = .broadcast → ∀ who, pool.worker who ≠ .deciding

/-- The broadcast is done, the flag is stored, no job is in the deque, and a worker sleeps. -/
structure Hung (pool : ThreadPool n P J) (who : Fin n) : Prop where
  broadcast : pool.life = .joining ∨ pool.life = .joined
  stop : pool.stop = true
  empty : pool.jobs = []
  asleep : pool.worker who = .asleep

/-- The flag is stored when the destructor has begun. -/
def Stored (pool : ThreadPool n P J) : Prop := pool.life ≠ .alive → pool.stop = true

theorem Stored.step (stored : pool.Stored) (step : Step pool action after) : after.Stored := by
  cases step with
  | store _ => exact fun _ => rfl
  | broadcast stopped => exact fun _ => stored (by rw [stopped]; exact nofun)
  | join joining _ => exact fun _ => stored (by rw [joining]; exact nofun)
  | _ => exact stored

/-- The broadcast is done. -/
def Ended (pool : ThreadPool n P J) : Prop := pool.life = .joining ∨ pool.life = .joined

/-- After the broadcast nobody sleeps or is about to. -/
def Roused (pool : ThreadPool n P J) : Prop :=
  pool.Ended → ∀ who, pool.worker who ≠ .asleep ∧ pool.worker who ≠ .deciding

omit [DecidableEq P] in
/-- A worker goes on, and does not fall asleep after the broadcast. -/
theorem Roused.moveTo (roused : pool.Roused) {who : Fin n} {next : WorkerPlace J}
    (worker : after.worker = Function.update pool.worker who next)
    (life : after.life = pool.life)
    (awake : pool.Ended → next ≠ .asleep ∧ next ≠ .deciding) : after.Roused := by
  intro past other
  rw [Ended, life] at past
  rw [worker]
  by_cases same : other = who
  · rw [same, Function.update_self]
    exact awake past
  · rw [Function.update_of_ne same]
    exact roused past other

/-- Every action that is not disturbed keeps the workers awake after the broadcast. -/
theorem Roused.step (roused : pool.Roused) (locked : pool.Locked) (stored : pool.Stored)
    (undisturbed : pool.Undisturbed action) (step : Step pool action after) : after.Roused := by
  cases step with
  | lock _ _ => exact roused.moveTo rfl rfl fun _ => ⟨nofun, nofun⟩
  | pass _ _ => exact roused.moveTo rfl rfl fun _ => ⟨nofun, nofun⟩
  | decide _ goesOn _ =>
      refine roused.moveTo rfl rfl fun past => ?_
      have begun : pool.life ≠ .alive := by
        rcases past with now | now <;> rw [now] <;> exact nofun
      rw [stored begun] at goesOn
      cases goesOn
  | sleep deciding => exact roused.moveTo rfl rfl fun past => absurd deciding (roused past _).2
  | finish _ _ _ => exact roused.moveTo rfl rfl fun _ => ⟨nofun, nofun⟩
  | goOn _ _ => exact roused.moveTo rfl rfl fun _ => ⟨nofun, nofun⟩
  | take _ _ => exact roused.moveTo rfl rfl fun _ => ⟨nofun, nofun⟩
  | unlock _ => exact roused.moveTo rfl rfl fun _ => ⟨nofun, nofun⟩
  | again _ => exact roused.moveTo rfl rfl fun _ => ⟨nofun, nofun⟩
  | leave _ => exact roused.moveTo rfl rfl fun _ => ⟨nofun, nofun⟩
  | spurious _ => exact roused.moveTo rfl rfl fun _ => ⟨nofun, nofun⟩
  | signal _ _ => exact roused.moveTo rfl rfl fun _ => ⟨nofun, nofun⟩
  | push _ _ => exact roused
  | pushLock _ _ => exact roused
  | emplace _ => exact roused
  | signalNobody _ _ => exact roused
  | pushUnlock _ => exact roused
  | store _ =>
      rintro (joining | joined)
      · cases joining
      · cases joined
  | broadcast _ =>
      intro _ who
      change (if who ∈ pool.sleepers then WorkerPlace.waking else pool.worker who) ≠ .asleep ∧
        (if who ∈ pool.sleepers then WorkerPlace.waking else pool.worker who) ≠ .deciding
      split_ifs with member
      · exact ⟨nofun, nofun⟩
      · exact ⟨fun asleep => member ((locked.asleep who).mpr asleep), undisturbed rfl who⟩
  | join joining _ => exact fun _ => roused (.inl joining)

/-! ## Runs -/

/-- What holds of a pool whatever its threads do. -/
structure Sound (pool : ThreadPool n P J) : Prop where
  locked : pool.Locked
  accounted : pool.Accounted
  served : pool.Served
  stored : pool.Stored

theorem Sound.act (sound : pool.Sound) (happens : pool.act action = some after) :
    after.Sound := by
  have step := step_of_act happens
  exact ⟨sound.locked.step step, sound.accounted.step sound.locked step,
    sound.served.step sound.locked sound.accounted step, sound.stored.step step⟩

omit [DecidableEq P] in
theorem initial_sound : (initial n P J).Sound :=
  ⟨initial_locked, initial_accounted, initial_served, fun begun => absurd rfl begun⟩

theorem sound_of_trace {actions : List (ThreadPoolAction n P J)}
    (trace : Trace act (initial n P J) actions pool) : pool.Sound :=
  trace.invariant Sound (fun _ _ _ sound happens => sound.act happens) initial_sound

theorem roused_of_trace {actions : List (ThreadPoolAction n P J)}
    (trace : Trace act (initial n P J) actions pool)
    (along : Along act Undisturbed (initial n P J) actions) : pool.Roused := by
  have both := trace.invariant_along (fun pool => pool.Sound ∧ pool.Roused)
    (fun _ _ _ holds undisturbed happens => ⟨holds.1.act happens,
      holds.2.step holds.1.locked holds.1.stored undisturbed (step_of_act happens)⟩)
    ⟨initial_sound, by rintro (joining | joined) <;> contradiction⟩ along
  exact both.2

/-- A worker that decides to sleep when the broadcast comes sleeps next, and the pool hangs. -/
theorem Sound.hangs (sound : pool.Sound) {who : Fin n} (deciding : pool.worker who = .deciding)
    (happens : pool.act .broadcast = some after) :
    ∃ later, after.act (.work who) = some later ∧ later.Hung who := by
  have fits := sound.accounted.fits who
  rw [deciding] at fits
  cases step_of_act happens with
  | broadcast stopped =>
      have still : pool.broadcast.worker who = .deciding := by
        change (if who ∈ pool.sleepers then WorkerPlace.waking else pool.worker who) = .deciding
        rw [if_neg]
        · exact deciding
        · intro member
          rw [(sound.locked.asleep who).mp member] at deciding
          cases deciding
      refine ⟨{ pool.broadcast.moveTo who .asleep with mutex := none, sleepers := [] ++ [who] },
        ?_, ⟨.inl rfl, sound.stored (by rw [stopped]; exact nofun), fits,
          Function.update_self ..⟩⟩
      change ThreadPool.work pool.broadcast who = _
      rw [ThreadPool.work, still]
      rfl

/-- In every run each job that was pushed was taken by one worker, in the order of the
pushes, or is in the deque; a worker comes for it, unless all have left; and a worker leaves
only jobs behind that were pushed after the flag was stored. No worker hangs if no broadcast
was disturbed, and one hangs next where one was. -/
theorem runs_every_job {actions : List (ThreadPoolAction n P J)}
    (trace : Trace act (initial n P J) actions pool) :
    (pool.pushed = pool.taken.map Prod.snd ++ pool.jobs ∧
      (pool.jobs ≠ [] → (∃ who, (pool.worker who).Awake) ∨
        (∀ who, (pool.worker who).gone = true) ∨ ∃ who, pool.pusher who = .signalling) ∧
      ∀ who, pool.worker who = .returned → pool.jobs <:+ pool.late) ∧
    (Along act Undisturbed (initial n P J) actions → ∀ who, ¬pool.Hung who) ∧
    ∀ who after, pool.worker who = .deciding → pool.act .broadcast = some after →
      ∃ later, after.act (.work who) = some later ∧ later.Hung who := by
  have sound := sound_of_trace trace
  refine ⟨⟨sound.accounted.account, sound.served, fun who returned => ?_⟩,
    fun along who hung => ?_, fun who after deciding happens => sound.hangs deciding happens⟩
  · have fits := sound.accounted.fits who
    rw [returned] at fits
    exact fits.2
  · exact (roused_of_trace trace along hung.broadcast who).1 hung.asleep

/-- The test that `Undisturbed` is, for runs that are computed. -/
def undisturbed (pool : ThreadPool n P J) : ThreadPoolAction n P J → Bool
  | .broadcast => decide (∀ who, (pool.worker who).decided = false)
  | _ => true

omit [DecidableEq P] in
theorem undisturbed_of_test (pool : ThreadPool n P J) (action : ThreadPoolAction n P J)
    (test : pool.undisturbed action = true) : pool.Undisturbed action := by
  rintro rfl who deciding
  have quiet := of_decide_eq_true test who
  rw [deciding] at quiet
  cases quiet

/-- A worker sleeps, a job is pushed, the worker runs it and sleeps again, and the pool is
destroyed. -/
def runsOneJob : List (ThreadPoolAction 1 Unit ℕ) :=
  [.work 0, .work 0, .work 0, .push () 7, .advance (), .advance (), .signal () (some 0),
    .advance (), .work 0, .work 0, .work 0, .work 0, .work 0, .work 0, .work 0, .work 0, .work 0,
    .store, .broadcast, .work 0, .work 0, .work 0, .work 0, .join]

theorem runs_every_job_one : ∃ pool : ThreadPool 1 Unit ℕ,
    Trace act (initial 1 Unit ℕ) runsOneJob pool ∧ pool.life = .joined ∧
      pool.pushed = pool.taken.map Prod.snd ++ pool.jobs ∧ ∀ who, ¬pool.Hung who := by
  have followed : (follow act (initial 1 Unit ℕ) runsOneJob).any
      (fun pool => decide (pool.life = .joined)) = true := by
    decide +kernel
  obtain ⟨pool, trace, joined⟩ := Trace.exists_of_follow followed
  have checked : checks act undisturbed (initial 1 Unit ℕ) runsOneJob = true := by
    decide +kernel
  exact ⟨pool, trace, of_decide_eq_true joined, (runs_every_job trace).1.1,
    (runs_every_job trace).2.1 (along_of_checks undisturbed_of_test checked)⟩

/-- The flag is stored and the condition broadcast between the predicate of a worker and its
sleep: the worker sleeps for ever, and the destructor waits for it. -/
theorem pool_hangs : ¬∀ (actions : List (ThreadPoolAction 1 Unit ℕ)) (pool : ThreadPool 1 Unit ℕ),
    Trace act (initial 1 Unit ℕ) actions pool → ∀ who, ¬pool.Hung who := by
  have followed : (follow act (initial 1 Unit ℕ)
      [.work 0, .work 0, .store, .broadcast, .work 0]).any (fun pool =>
        decide (pool.life = .joining) && pool.stop && pool.jobs.isEmpty &&
        (match pool.worker 0 with
        | .asleep => true
        | _ => false)) = true := by
    decide +kernel
  obtain ⟨pool, trace, test⟩ := Trace.exists_of_follow followed
  simp only [Bool.and_eq_true, decide_eq_true_eq, List.isEmpty_iff] at test
  obtain ⟨⟨⟨joining, stop⟩, empty⟩, place⟩ := test
  intro never
  split at place
  · rename_i asleep
    exact never _ pool trace 0 ⟨.inl joining, stop, empty, asleep⟩
  · cases place

end ThreadPool

end Join
