import Mathlib.Algebra.Order.BigOperators.Group.List
import Mathlib.Algebra.Order.Ring.Nat
import Join.Library.Trace

/-!
# The workers of a server

`BasicHttpServer` has a number of workers that take turns at a mutex. The one that has it waits
with `select` for a connection or for the event that tells it to stop, gives the mutex back and
serves the connection. `close` adds the number of workers to the counter of the event and joins
them one after the other. A read takes one from the counter, since it is a semaphore.

`select` looks at the event before a connection is accepted, and the counter may change in
between. A worker that has not been scheduled since it was made is a worker in front of the mutex,
so `create` makes them all at once.

The counter is balanced as long as nobody closes a server that has no workers. Such a close leaves
its number in the counter, and the workers that are made next stop at once.
-/

set_option autoImplicit false

namespace Join

open Library

/-- Where a worker stands in `BasicHttpWorker::work`. -/
inductive HttpWorkerPlace
  /-- In front of the mutex. -/
  | locking
  /-- In `select`, before it looks at the event. -/
  | selecting
  /-- In `select`, behind a look at an event that was not there. -/
  | watching
  /-- `select` has seen the event. -/
  | stopping
  /-- In `processRequest`, without the mutex. -/
  | serving
  | returned
deriving DecidableEq

namespace HttpWorkerPlace

/-- Counts the workers that have the mutex. -/
@[simp] def holding : HttpWorkerPlace → ℕ
  | selecting | watching | stopping => 1
  | _ => 0

/-- Counts the workers that have not returned. -/
@[simp] def working : HttpWorkerPlace → ℕ
  | returned => 0
  | _ => 1

/-- Counts the workers that have looked at an event that was not there. -/
@[simp] def expecting : HttpWorkerPlace → ℕ
  | watching => 1
  | _ => 0

/-- The steps that a worker does at most until it returns, when the event is there. -/
@[simp] def effort : HttpWorkerPlace → ℕ
  | watching => 5
  | serving => 4
  | locking => 3
  | selecting => 2
  | stopping => 1
  | returned => 0

end HttpWorkerPlace

open HttpWorkerPlace

/-- `BasicHttpServer`: `_nworkers`, the counter of `_event`, `_workers`, whether `_acceptor` is
open, the connections that wait there, and whether the owner is in `close`. Where the workers stand
tells who has `_mutex`. -/
structure HttpServer where
  nworkers : ℕ
  event : ℕ
  workers : List HttpWorkerPlace
  listening : Bool
  backlog : ℕ
  closing : Bool
deriving DecidableEq

/-- A step of a client, of the owner or of a worker. -/
inductive HttpServerAction
  | connect
  | create (opened : Bool)
  | close
  | join
  | closed
  | lock (worker : ℕ)
  | poll (worker : ℕ)
  /-- `select` goes to sleep and looks again. -/
  | again (worker : ℕ)
  | accept (worker : ℕ)
  /-- `select` fails. -/
  | interrupt (worker : ℕ)
  | stop (worker : ℕ)
  /-- `processRequest` returns. -/
  | finish (worker : ℕ)
deriving DecidableEq

namespace HttpServer

/-- A server that is constructed. -/
def start (nworkers : ℕ) : HttpServer := ⟨nworkers, 0, [], false, 0, false⟩

/-- What the places of the workers count for. -/
def weigh (weight : HttpWorkerPlace → ℕ) (workers : List HttpWorkerPlace) : ℕ :=
  (workers.map weight).sum

/-- A worker goes from one place to another. -/
def move (server : HttpServer) (worker : ℕ) (here there : HttpWorkerPlace) : Option HttpServer :=
  if server.workers[worker]? = some here then
    some { server with workers := server.workers.set worker there }
  else none

/-- One step. -/
def act (server : HttpServer) : HttpServerAction → Option HttpServer
  | .connect =>
      if server.listening then some { server with backlog := server.backlog + 1 } else none
  | .create opened =>
      if server.closing then none
      else if server.listening || !opened then some server
      else some { server with
        listening := true
        workers := server.workers ++ List.replicate server.nworkers .locking }
  | .close =>
      if server.closing then none
      else some { server with event := server.event + server.nworkers, closing := true }
  | .join =>
      match server.workers with
      | .returned :: workers => if server.closing then some { server with workers } else none
      | _ => none
  | .closed =>
      if server.closing ∧ server.workers = [] then
        some { server with listening := false, backlog := 0, closing := false }
      else none
  | .lock worker =>
      if weigh holding server.workers = 0 then server.move worker .locking .selecting else none
  | .poll worker =>
      server.move worker .selecting (if server.event = 0 then .watching else .stopping)
  | .again worker => server.move worker .watching .selecting
  | .accept worker =>
      if server.backlog = 0 then none
      else (server.move worker .watching .serving).map fun server =>
        { server with backlog := server.backlog - 1 }
  | .interrupt worker => server.move worker .watching .serving
  | .stop worker =>
      (server.move worker .stopping .returned).map fun server =>
        { server with event := server.event - 1 }
  | .finish worker => server.move worker .serving .locking

/-- While the server is not being closed the counter is zero and no worker stops, and while it is
being closed the counter is the number of workers that have not returned. -/
def Balanced (server : HttpServer) : Prop :=
  if server.closing then server.event = weigh working server.workers
  else server.event = 0 ∧ ∀ place ∈ server.workers, place ≠ .stopping ∧ place ≠ .returned

/-- A server that is closed has its workers. -/
def ClosesWorkers (server : HttpServer) (action : HttpServerAction) : Prop :=
  action = .close → server.workers.length = server.nworkers

instance (server : HttpServer) (action : HttpServerAction) :
    Decidable (server.ClosesWorkers action) := inferInstanceAs (Decidable (_ → _))

/-! ## The steps -/

/-- A connection is accepted. -/
@[simp] def Accepts (action : HttpServerAction) : Bool :=
  match action with
  | .accept _ => true
  | _ => false

/-- A worker goes from one place to another. It takes the mutex only when nobody has it, watches
when the event was not there, comes nearer to its return when it was, and takes one from the
counter when it returns. -/
structure Moves (server after : HttpServer) (action : HttpServerAction) (worker : ℕ)
    (here there : HttpWorkerPlace) : Prop where
  found : server.workers[worker]? = some here
  workers : after.workers = server.workers.set worker there
  closing : after.closing = server.closing
  event : after.event = server.event - (1 - working there)
  takes : holding there ≤ holding here ∨ weigh holding server.workers = 0
  busy : working here = 1
  watching : server.event ≠ 0 → expecting there = 0
  stopping : server.event = 0 → there ≠ .stopping
  returned : there = .returned → here = .stopping
  nearer : server.event ≠ 0 → effort there < effort here
  accepts : Accepts action = true → expecting here = 1
  inside : action ≠ .connect ∧ action ≠ .close

/-- What a step does. -/
inductive Step (server : HttpServer) : HttpServerAction → HttpServer → Prop
  | worker {action : HttpServerAction} {after : HttpServer} {worker : ℕ}
      {here there : HttpWorkerPlace} (moves : server.Moves after action worker here there) :
      server.Step action after
  | connect : server.Step .connect { server with backlog := server.backlog + 1 }
  | keep (opened : Bool) (idle : server.closing = false) : server.Step (.create opened) server
  | create (opened : Bool) (idle : server.closing = false) : server.Step (.create opened)
      { server with
        listening := true
        workers := server.workers ++ List.replicate server.nworkers .locking }
  | close (idle : server.closing = false) : server.Step .close
      { server with event := server.event + server.nworkers, closing := true }
  | join {workers : List HttpWorkerPlace} (closing : server.closing = true)
      (first : server.workers = .returned :: workers) : server.Step .join { server with workers }
  | closed (closing : server.closing = true) (done : server.workers = []) : server.Step .closed
      { server with listening := false, backlog := 0, closing := false }

variable {server after : HttpServer} {action : HttpServerAction} {worker : ℕ}
variable {here there : HttpWorkerPlace}

theorem move_eq_some (moved : server.move worker here there = some after) :
    server.workers[worker]? = some here ∧
      after = { server with workers := server.workers.set worker there } := by
  rw [move] at moved
  split_ifs at moved with found
  exact ⟨found, (Option.some.inj moved).symm⟩

theorem step_of_act (happens : server.act action = some after) : server.Step action after := by
  cases action with
  | connect =>
      rw [act] at happens
      split_ifs at happens
      cases happens
      exact .connect
  | create opened =>
      rw [act] at happens
      split_ifs at happens with closing made
      · cases happens
        exact .keep opened (Bool.eq_false_iff.mpr closing)
      · cases happens
        exact .create opened (Bool.eq_false_iff.mpr closing)
  | close =>
      rw [act] at happens
      split_ifs at happens with closing
      cases happens
      exact .close (Bool.eq_false_iff.mpr closing)
  | join =>
      rw [act] at happens
      split at happens
      · rename_i workers first
        split_ifs at happens with closing
        cases happens
        exact .join closing first
      · cases happens
  | closed =>
      rw [act] at happens
      split_ifs at happens with done
      cases happens
      exact .closed done.1 done.2
  | lock worker =>
      rw [act] at happens
      split_ifs at happens with free
      obtain ⟨found, rfl⟩ := move_eq_some happens
      refine @Step.worker server _ _ worker .locking .selecting ?_
      constructor <;> simp [found, free]
  | poll worker =>
      obtain ⟨found, rfl⟩ := move_eq_some happens
      by_cases zero : server.event = 0
      · simp only [if_pos zero]
        refine @Step.worker server _ _ worker .selecting .watching ?_
        constructor <;> simp [found, zero]
      · simp only [if_neg zero]
        refine @Step.worker server _ _ worker .selecting .stopping ?_
        constructor <;> simp [found, zero]
  | again worker =>
      obtain ⟨found, rfl⟩ := move_eq_some happens
      refine @Step.worker server _ _ worker .watching .selecting ?_
      constructor <;> simp [found]
  | accept worker =>
      rw [act] at happens
      split_ifs at happens
      obtain ⟨moved, moves, rfl⟩ := Option.map_eq_some_iff.mp happens
      obtain ⟨found, rfl⟩ := move_eq_some moves
      refine @Step.worker server _ _ worker .watching .serving ?_
      constructor <;> simp [found]
  | interrupt worker =>
      obtain ⟨found, rfl⟩ := move_eq_some happens
      refine @Step.worker server _ _ worker .watching .serving ?_
      constructor <;> simp [found]
  | stop worker =>
      obtain ⟨moved, moves, rfl⟩ := Option.map_eq_some_iff.mp happens
      obtain ⟨found, rfl⟩ := move_eq_some moves
      refine @Step.worker server _ _ worker .stopping .returned ?_
      constructor <;> simp [found]
  | finish worker =>
      obtain ⟨found, rfl⟩ := move_eq_some happens
      refine @Step.worker server _ _ worker .serving .locking ?_
      constructor <;> simp [found]

/-! ## Weights -/

/-- A worker that goes on changes the weight by its own. -/
theorem weigh_set {workers : List HttpWorkerPlace} (found : workers[worker]? = some here)
    (weight : HttpWorkerPlace → ℕ) (there : HttpWorkerPlace) :
    weigh weight (workers.set worker there) + weight here =
      weigh weight workers + weight there := by
  induction workers generalizing worker with
  | nil => cases found
  | cons place workers inductionHypothesis =>
      cases worker with
      | zero =>
          cases found
          rw [List.set_cons_zero, weigh, weigh, List.map_cons, List.map_cons, List.sum_cons,
            List.sum_cons]
          omega
      | succ worker =>
          have rest := @inductionHypothesis worker found
          rw [weigh, weigh] at rest ⊢
          rw [List.set_cons_succ, List.map_cons, List.map_cons, List.sum_cons, List.sum_cons]
          omega

/-- Every worker weighs as much as another weight says at least. -/
theorem le_weigh {workers : List HttpWorkerPlace} (found : workers[worker]? = some here)
    (weight : HttpWorkerPlace → ℕ) : weight here ≤ weigh weight workers :=
  List.single_le_sum (fun _ _ => Nat.zero_le _) _
    (List.mem_map_of_mem (List.mem_of_getElem? found))

/-! ## The mutex -/

/-- At most one worker has the mutex. -/
def Orderly (server : HttpServer) : Prop := weigh holding server.workers ≤ 1

theorem Orderly.step (orderly : server.Orderly) (step : server.Step action after) :
    after.Orderly := by
  cases step with
  | @worker _ _ worker here there moves =>
      have holders := weigh_set moves.found holding there
      have few : holding there ≤ 1 := by
        cases there <;> decide
      have takes := moves.takes
      rw [Orderly] at orderly ⊢
      rw [moves.workers]
      omega
  | connect => exact orderly
  | keep opened idle => exact orderly
  | create opened idle => simpa [Orderly, weigh] using orderly
  | close idle => exact orderly
  | join closing first =>
      rw [Orderly, first] at orderly
      exact Nat.le_trans (Nat.le_add_left _ _) orderly
  | closed closing done => exact orderly

theorem orderly_run {nworkers : ℕ} {actions : List HttpServerAction}
    (run : Trace act (start nworkers) actions server) : server.Orderly :=
  run.invariant Orderly (fun _ _ _ orderly happens => orderly.step (step_of_act happens))
    (show (start nworkers).Orderly from Nat.zero_le 1)

/-! ## The counter -/

theorem balanced_closing (closing : server.closing = true) :
    server.Balanced ↔ server.event = weigh working server.workers := by
  rw [Balanced, if_pos closing]

theorem balanced_idle (idle : server.closing = false) :
    server.Balanced ↔ server.event = 0 ∧
      ∀ place ∈ server.workers, place ≠ .stopping ∧ place ≠ .returned := by
  rw [Balanced, idle]
  rfl

theorem Balanced.moves (balanced : server.Balanced)
    (moves : server.Moves after action worker here there) : after.Balanced := by
  cases closing : server.closing with
  | false =>
      rw [balanced_idle closing] at balanced
      rw [balanced_idle (moves.closing.trans closing)]
      obtain ⟨zero, going⟩ := balanced
      refine ⟨?_, ?_⟩
      · rw [moves.event, zero]
        exact Nat.zero_sub _
      · intro place member
        rw [moves.workers] at member
        rcases List.mem_or_eq_of_mem_set member with old | rfl
        · exact going place old
        · refine ⟨moves.stopping zero, fun returned => ?_⟩
          exact (going here (List.mem_of_getElem? moves.found)).1 (moves.returned returned)
  | true =>
      have left := weigh_set moves.found working there
      have busy := moves.busy
      have few : working there ≤ 1 := by
        cases there <;> decide
      rw [balanced_closing closing] at balanced
      rw [balanced_closing (moves.closing.trans closing), moves.event, moves.workers, balanced]
      omega

/-- A step of a balanced server leaves it balanced exactly when it does not close a server without
its workers. -/
theorem Step.balances (step : server.Step action after) (balanced : server.Balanced) :
    after.Balanced ↔ server.ClosesWorkers action := by
  cases step with
  | worker moves =>
      exact iff_of_true (balanced.moves moves) fun same => absurd same moves.inside.2
  | connect => exact iff_of_true balanced nofun
  | keep opened idle => exact iff_of_true balanced nofun
  | create opened idle =>
      rw [balanced_idle idle] at balanced
      refine iff_of_true ?_ nofun
      rw [balanced_idle (by exact idle)]
      refine ⟨balanced.1, ?_⟩
      intro place member
      rcases List.mem_append.mp member with old | new
      · exact balanced.2 place old
      · rw [List.eq_of_mem_replicate new]
        decide
  | close idle =>
      rw [balanced_idle idle] at balanced
      have all : server.workers.map working = List.replicate server.workers.length 1 := by
        apply List.map_eq_replicate_iff.mpr
        intro place member
        have going := (balanced.2 place member).2
        cases place <;> first | rfl | exact absurd rfl going
      rw [balanced_closing rfl, ClosesWorkers, forall_prop_of_true rfl]
      change server.event + server.nworkers = weigh working server.workers ↔ _
      rw [balanced.1, Nat.zero_add, weigh, all, List.sum_replicate, Nat.nsmul_eq_mul, Nat.mul_one]
      exact eq_comm
  | join closing first =>
      rw [balanced_closing closing, first] at balanced
      refine iff_of_true ?_ nofun
      rw [balanced_closing (by exact closing)]
      exact balanced.trans (Nat.zero_add _)
  | closed closing done =>
      rw [balanced_closing closing, done] at balanced
      refine iff_of_true ((balanced_idle rfl).mpr ⟨balanced, ?_⟩) nofun
      intro place member
      change place ∈ server.workers at member
      rw [done] at member
      cases member

theorem balanced_start (nworkers : ℕ) : (start nworkers).Balanced := ⟨rfl, nofun⟩

/-- Along a run, the counter of the event is balanced exactly when every server that is closed has
its workers. -/
theorem balanced_iff {nworkers : ℕ} {actions : List HttpServerAction} {final : HttpServer}
    (run : Trace act (start nworkers) actions final) :
    Throughout act Balanced (start nworkers) actions ↔
      Along act ClosesWorkers (start nworkers) actions := by
  refine run.throughout_iff Balanced ?_ (balanced_start nworkers)
  intro server action after balanced happens
  exact (step_of_act happens).balances balanced

/-- A server with one worker, from its creation to the end of its `close`. -/
def lifetime : List HttpServerAction :=
  [.create true, .lock 0, .poll 0, .connect, .accept 0, .close, .finish 0, .lock 0, .poll 0,
    .stop 0, .join, .closed]

theorem balanced_iff_lifetime : Throughout act Balanced (start 1) lifetime := by
  have run : Trace act (start 1) lifetime (start 1) := Trace.of_follow rfl
  have sound : ∀ server action, decide (ClosesWorkers server action) = true →
      ClosesWorkers server action := fun _ _ => of_decide_eq_true
  exact (balanced_iff run).mpr (along_of_checks sound rfl)

/-! ## Closing ends -/

/-- The steps of the workers and of the owner at most until all workers are joined. -/
def remaining (server : HttpServer) : ℕ := weigh effort server.workers + server.workers.length

theorem remaining_le (server : HttpServer) : server.remaining ≤ 6 * server.workers.length := by
  have efforts := List.sum_le_card_nsmul (server.workers.map effort) 5 (by
    intro count member
    obtain ⟨place, -, rfl⟩ := List.mem_map.mp member
    cases place <;> decide)
  rw [List.length_map, Nat.nsmul_eq_mul] at efforts
  rw [remaining, weigh]
  omega

theorem Orderly.expecting_le (orderly : server.Orderly) : weigh expecting server.workers ≤ 1 := by
  refine Nat.le_trans (List.sum_le_sum ?_) orderly
  intro place _
  cases place <;> decide

/-- What a step does while the server is being closed. -/
structure Nears (server after : HttpServer) (action : HttpServerAction) : Prop where
  closing : after.closing = true
  remaining : after.remaining + (if action = .connect then 0 else 1) ≤ server.remaining
  expecting : weigh expecting after.workers + (if Accepts action then 1 else 0) ≤
    weigh expecting server.workers

theorem Step.nears (step : server.Step action after) (balanced : server.Balanced)
    (closing : server.closing = true) (before : action ≠ .closed) :
    server.Nears after action := by
  cases step with
  | @worker _ _ worker here there moves =>
      rw [balanced_closing closing] at balanced
      have event : server.event ≠ 0 := by
        have here := le_weigh moves.found working
        rw [← balanced, moves.busy] at here
        exact Nat.ne_of_gt here
      have nearer := moves.nearer event
      have efforts := weigh_set moves.found effort there
      have lookers := weigh_set moves.found expecting there
      have watching := moves.watching event
      refine ⟨moves.closing.trans closing, ?_, ?_⟩
      · rw [HttpServer.remaining, HttpServer.remaining, moves.workers, List.length_set,
          if_neg moves.inside.1]
        omega
      · rw [moves.workers]
        split_ifs with accepts
        · have here := moves.accepts accepts
          omega
        · omega
  | connect => exact ⟨closing, Nat.le_refl _, Nat.le_refl _⟩
  | keep opened idle => cases closing.symm.trans idle
  | create opened idle => cases closing.symm.trans idle
  | close idle => cases closing.symm.trans idle
  | join closing first =>
      have left (weight : HttpWorkerPlace → ℕ) := congrArg (weigh weight) first
      have fewer := congrArg List.length first
      refine ⟨closing, ?_, ?_⟩
      · rw [HttpServer.remaining, HttpServer.remaining, left, fewer, if_neg (by decide)]
        exact Nat.le_of_eq (congrArg (· + _ + 1) (Nat.zero_add _)).symm
      · rw [left]
        exact Nat.le_add_left _ _
  | closed closing done => exact absurd rfl before

/-- A worker that has not returned, or one that has the mutex, can go on. -/
theorem exists_move (found : server.workers[worker]? = some here) (busy : here ≠ .returned) :
    ∃ action next, action ≠ .connect ∧ server.act action = some next := by
  have go {worker : ℕ} {here : HttpWorkerPlace} (there : HttpWorkerPlace)
      (found : server.workers[worker]? = some here) :
      server.move worker here there =
        some { server with workers := server.workers.set worker there } := if_pos found
  have holder {worker : ℕ} {place : HttpWorkerPlace}
      (found : server.workers[worker]? = some place) (held : holding place ≠ 0) :
      ∃ action next, action ≠ .connect ∧ server.act action = some next := by
    cases place with
    | selecting => exact ⟨.poll worker, _, nofun, go _ found⟩
    | watching => exact ⟨.again worker, _, nofun, go _ found⟩
    | stopping => exact ⟨.stop worker, _, nofun, congrArg (Option.map _) (go _ found)⟩
    | _ => exact absurd rfl held
  by_cases held : holding here ≠ 0
  · exact holder found held
  · by_cases free : weigh holding server.workers = 0
    · cases here with
      | locking => exact ⟨.lock worker, _, nofun, (if_pos free).trans (go _ found)⟩
      | serving => exact ⟨.finish worker, _, nofun, go _ found⟩
      | returned => exact absurd rfl busy
      | _ => exact absurd nofun held
    · by_contra stuck
      apply free
      apply List.sum_eq_zero
      intro count member
      obtain ⟨place, inside, rfl⟩ := List.mem_map.mp member
      obtain ⟨other, there⟩ := List.getElem?_of_mem inside
      by_contra held
      exact stuck (holder there held)

/-- While the server is being closed, a worker or the owner can go on. -/
theorem exists_act (closing : server.closing = true) :
    ∃ action next, action ≠ .connect ∧ server.act action = some next := by
  cases standing : server.workers with
  | nil => exact ⟨.closed, _, nofun, if_pos ⟨closing, standing⟩⟩
  | cons first workers =>
      by_cases returned : first = .returned
      · refine ⟨.join, { server with workers }, nofun, ?_⟩
        rw [act, standing, returned]
        exact if_pos closing
      · have found : server.workers[0]? = some first := by
          rw [standing]
          rfl
        exact exists_move found returned

/-- A run while the server is being closed. -/
theorem nears_run {more : List HttpServerAction} (balanced : server.Balanced)
    (closing : server.closing = true) (run : Trace act server more after)
    (before : .closed ∉ more) :
    after.Balanced ∧ after.closing = true ∧
      after.remaining + more.countP (fun action => action ≠ .connect) ≤ server.remaining ∧
      weigh expecting after.workers + more.countP Accepts ≤ weigh expecting server.workers := by
  induction run with
  | nil => exact ⟨balanced, closing, Nat.le_refl _, Nat.le_refl _⟩
  | @snoc actions state after action trace happens inductionHypothesis =>
      obtain ⟨even, still, fewer, watching⟩ :=
        inductionHypothesis fun member => before (List.mem_append_left _ member)
      have step := step_of_act happens
      have nears := step.nears even still (by
        rintro rfl
        exact before (List.mem_append_right _ List.mem_cons_self))
      have meets : state.ClosesWorkers action := by
        rintro rfl
        rw [act, if_pos still] at happens
        cases happens
      refine ⟨(step.balances even).mpr meets, nears.closing, ?_, ?_⟩
      · have step := nears.remaining
        rw [List.countP_append, List.countP_singleton]
        by_cases outside : action = .connect
        · rw [if_pos outside] at step
          rw [if_neg (by simp [outside])]
          omega
        · rw [if_neg outside] at step
          rw [if_pos (decide_eq_true outside)]
          omega
      · have step := nears.expecting
        rw [List.countP_append, List.countP_singleton]
        omega

/-- A server whose closes all had their workers is being closed. Then `close` returns: there is
always a worker or the owner that can go on, each worker and its join take six steps at most, and
at most one more connection is accepted. -/
theorem close_returns {nworkers : ℕ} {actions : List HttpServerAction}
    (run : Trace act (start nworkers) actions server)
    (closes : Along act ClosesWorkers (start nworkers) actions)
    (closing : server.closing = true) (more : List HttpServerAction)
    (goes : Trace act server more after) (before : .closed ∉ more) :
    (∃ action next, action ≠ .connect ∧ after.act action = some next) ∧
      more.countP (fun action => action ≠ .connect) ≤ 6 * server.workers.length ∧
      more.countP Accepts ≤ 1 := by
  have balanced : server.Balanced := by
    refine run.invariant_along Balanced ?_ (balanced_start nworkers) closes
    intro server action after balanced meets happens
    exact ((step_of_act happens).balances balanced).mpr meets
  obtain ⟨-, still, fewer, watching⟩ := nears_run balanced closing goes before
  refine ⟨exists_act still, ?_, ?_⟩
  · exact Nat.le_trans (Nat.le_trans (Nat.le_add_left _ _) fewer) server.remaining_le
  · exact Nat.le_trans (Nat.le_trans (Nat.le_add_left _ _) watching)
      (orderly_run run).expecting_le

theorem close_returns_stop :
    (∃ action next, action ≠ .connect ∧ act ⟨1, 0, [], true, 0, true⟩ action =
      some next) ∧
      [HttpServerAction.lock 0, .poll 0, .stop 0, .join].countP
        (fun action => action ≠ .connect) ≤ 6 ∧
      [HttpServerAction.lock 0, .poll 0, .stop 0, .join].countP Accepts ≤ 1 := by
  have run : Trace act (start 1) [.create true, .close]
      ⟨1, 1, [.locking], true, 0, true⟩ := Trace.of_follow rfl
  have sound : ∀ server action, decide (ClosesWorkers server action) = true →
      ClosesWorkers server action := fun _ _ => of_decide_eq_true
  exact close_returns run (along_of_checks sound rfl) rfl _ (Trace.of_follow rfl) (by decide)

end HttpServer

end Join
