import Join.Core.EpollStop
import Join.Core.UringStop

/-!
# A stop of a proactor

Both backends read the running flag first in `stop`, and return if it is not set; `run` sets
it. A call that comes between the start of the thread that executes `run` and that store is
lost, and the thread that joins the proactor thread after it waits for ever.
-/

set_option autoImplicit false

namespace Join

open Library

/-- Once every call of `stop` has returned and no Stop command is left, the loop of either
backend is stopped for good exactly if one of the calls read the running flag after `run`
had set it. -/
theorem stopped_iff_heeded (T : Type) [DecidableEq T] :
    (∀ (spin : Bool) (actions : List (UringAction T)) (proactor : UringProactor T),
      Trace (UringProactor.act spin) (.initial T) actions proactor → proactor.Settled →
        (proactor.Stopped spin ↔ proactor.heeded = true)) ∧
    ∀ (maker : T) (own wakeup : ℤ), wakeup ≠ own →
      ∀ (actions : List (EpollAction T)) (proactor : EpollProactor T),
        Trace (EpollProactor.act own wakeup) (.initial maker own wakeup) actions proactor →
          proactor.Settled → (proactor.Stopped own wakeup ↔ proactor.heeded = true) := by
  refine ⟨fun spin actions proactor trace settled => ?_,
    fun maker own wakeup other actions proactor trace settled => ?_⟩
  · exact UringProactor.stopped_iff trace settled
  · exact EpollProactor.stopped_iff other trace settled

/-! ## Runs with one caller -/

/-- The one caller of an io_uring proactor is in no call, and no command is left. -/
def UringProactor.quiet (proactor : UringProactor Unit) : Bool :=
  decide (proactor.caller () = .idle) && proactor.commands.slots.isEmpty &&
    !(proactor.commands.sending ()).inside && proactor.loop.inHand.isNone

/-- The same of an epoll proactor and its reactor. -/
def EpollProactor.quiet (proactor : EpollProactor Unit) : Bool :=
  decide (proactor.caller () = .idle) && proactor.commands.slots.isEmpty &&
    !(proactor.commands.sending ()).inside && proactor.inHand.isNone &&
    proactor.reactor.commands.slots.isEmpty &&
    !(proactor.reactor.commands.sending ()).inside && proactor.reactor.loop.inHand.isEmpty

theorem UringProactor.settled_of_quiet {proactor : UringProactor Unit}
    (test : proactor.quiet = true) : proactor.Settled := by
  simp only [quiet, Bool.and_eq_true, decide_eq_true_eq, List.isEmpty_iff, Bool.not_eq_true',
    Option.isNone_iff_eq_none] at test
  obtain ⟨⟨⟨idle, slots⟩, outside⟩, inHand⟩ := test
  refine ⟨fun who => ?_, ?_⟩
  · rw [idle]
    trivial
  · rintro (queued | ⟨command, member, _⟩)
    · exact Doorbell.not_underway_of_empty slots (fun _ => outside) queued
    · rw [inHand] at member
      cases member

theorem EpollProactor.settled_of_quiet {proactor : EpollProactor Unit}
    (test : proactor.quiet = true) : proactor.Settled := by
  simp only [quiet, Bool.and_eq_true, decide_eq_true_eq, List.isEmpty_iff, Bool.not_eq_true',
    Option.isNone_iff_eq_none] at test
  obtain ⟨⟨⟨⟨⟨⟨idle, slots⟩, outside⟩, inHand⟩, slots'⟩, outside'⟩, processing⟩ := test
  refine ⟨fun who => ?_, ?_, ?_⟩
  · rw [idle]
    trivial
  · rintro (queued | ⟨command, member, _⟩)
    · exact Doorbell.not_underway_of_empty slots (fun _ => outside) queued
    · rw [inHand] at member
      cases member
  · rintro (queued | ⟨command, place, _⟩)
    · exact Doorbell.not_underway_of_empty slots' (fun _ => outside') queued
    · rw [place] at processing
      cases processing

/-- A thread stops an io_uring proactor that runs. -/
def stopsUring : List (UringAction Unit) :=
  [.run, .start, .stop () false, .look (), .advance (), .advance (), .advance (), .advance (),
    .proceed (), .callReadCommands, .readCommands, .readCommands, .readCommands,
    .processCommand]

/-- The reactor of an epoll proactor starts, and has read the command of the constructor. -/
def startsEpoll : List (EpollAction Unit) :=
  [.reactor .run, .reactor .start, .reactor .check, .reactor (.wait true []),
    .reactor .readCommands, .reactor .readCommands, .reactor .readCommands,
    .reactor (.processCommand none), .reactor .readCommands, .reactor .sweep, .reactor .check]

/-- A thread stops an epoll proactor that runs. -/
def stopsEpoll : List (EpollAction Unit) :=
  startsEpoll ++
    ([.stop () false, .look (), .advance (), .advance (), .advance (), .advance (), .proceed (),
      .reactor (.wait false [⟨4, epollIn, 0⟩]), .reactor .dispatchEvent, .readCommands,
      .readCommands, .readCommands, .processCommand, .readCommands,
      .reactor .callbackReturns, .reactor .sweep, .reactor .check, .delegate (),
      .reactor (.advance ()), .reactor (.advance ()), .reactor (.advance ()),
      .reactor (.advance ()), .reactor (.proceed ()), .comeBack (), .reactor (.wait true []),
      .reactor .readCommands, .reactor .readCommands, .reactor .readCommands,
      .reactor (.processCommand none)] : List (EpollAction Unit))

theorem stopped_iff_heeded_running :
    (∃ proactor : UringProactor Unit,
      Trace (UringProactor.act false) (.initial Unit) stopsUring proactor ∧
        proactor.Stopped false) ∧
    ∃ proactor : EpollProactor Unit,
      Trace (EpollProactor.act 3 4) (.initial () 3 4) stopsEpoll proactor ∧
        proactor.Stopped 3 4 := by
  have uring : (follow (UringProactor.act false) (.initial Unit) stopsUring).any
      (fun proactor => proactor.quiet && proactor.heeded) = true := by
    decide +kernel
  have epoll : (follow (EpollProactor.act 3 4) (.initial () 3 4) stopsEpoll).any
      (fun proactor => proactor.quiet && proactor.heeded) = true := by
    decide +kernel
  obtain ⟨left, leftTrace, leftTest⟩ := Trace.exists_of_follow uring
  obtain ⟨right, rightTrace, rightTest⟩ := Trace.exists_of_follow epoll
  rw [Bool.and_eq_true] at leftTest rightTest
  refine ⟨⟨left, leftTrace, ?_⟩, right, rightTrace, ?_⟩
  · exact ((stopped_iff_heeded Unit).1 false _ left leftTrace
      (UringProactor.settled_of_quiet leftTest.1)).mpr leftTest.2
  · exact ((stopped_iff_heeded Unit).2 () 3 4 (by decide) _ right rightTrace
      (EpollProactor.settled_of_quiet rightTest.1)).mpr rightTest.2

/-- A call of `stop` that comes before `run` has set the running flag returns, and the loop
runs for ever after, with either backend. -/
theorem stop_lost :
    (¬∀ (spin : Bool) (actions : List (UringAction Unit)) (proactor : UringProactor Unit),
      Trace (UringProactor.act spin) (.initial Unit) actions proactor →
        .stop () true ∈ actions → proactor.Settled → proactor.Stopped spin) ∧
    ¬∀ (actions : List (EpollAction Unit)) (proactor : EpollProactor Unit),
      Trace (EpollProactor.act 3 4) (.initial () 3 4) actions proactor →
        .stop () true ∈ actions → proactor.Settled → proactor.Stopped 3 4 := by
  have uring : (follow (UringProactor.act false) (.initial Unit)
      [.run, .stop () true, .look (), .start]).any
      (fun proactor => proactor.quiet && proactor.running) = true := by
    decide +kernel
  have epoll : (follow (EpollProactor.act 3 4) (.initial () 3 4)
      ([.stop () true, .look ()] ++ startsEpoll)).any
      (fun proactor => proactor.quiet && proactor.reactor.running) = true := by
    decide +kernel
  obtain ⟨left, leftTrace, leftTest⟩ := Trace.exists_of_follow uring
  obtain ⟨right, rightTrace, rightTest⟩ := Trace.exists_of_follow epoll
  rw [Bool.and_eq_true] at leftTest rightTest
  refine ⟨fun never => ?_, fun never => ?_⟩
  · have stopped := never false _ left leftTrace (by simp)
      (UringProactor.settled_of_quiet leftTest.1) _ left .nil
    rw [leftTest.2] at stopped
    cases stopped
  · have stopped := never _ right rightTrace (by simp)
      (EpollProactor.settled_of_quiet rightTest.1) _ right .nil
    rw [rightTest.2] at stopped
    cases stopped

end Join
