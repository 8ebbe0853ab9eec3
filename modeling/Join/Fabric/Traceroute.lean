import Join.Fabric.PingEcho

/-!
# Tracing the route to a host

`trace` sends some probes with the time to live 1, then some with the time to live 2, and so on,
until the host has answered. When a probe is larger than a link on the way takes, and the error
says how large it may be, the round of probes is over, and the next round has the same time to
live and smaller probes.

So a round takes the trace to the next hop or makes the probes smaller, and the trace comes to an
end. It tells of a hop at the end of a round that has not made the probes smaller. A round whose
first probes are answered by the host and whose last one makes the probes smaller ends the trace
too, and its hop is not told of.
-/

set_option autoImplicit false

namespace Join

open Library

/-! ## The code -/

/-- `PingStats`, as far as a trace looks at it. -/
structure PingStats where
  size : ℤ
  hop : ℕ
  sent : UInt32 := 0
  answer : PingAnswer := {}

namespace PingStats

/-- `PingStats::reset`. -/
def reset (stats : PingStats) : PingStats := { stats with sent := 0, answer := {} }

/-- What an echo does to the statistics. -/
def echo (strerror : ℕ → List UInt8) (stats : PingStats) (result : EchoResult) : PingStats :=
  { stats with
    sent := if result.sent then stats.sent + 1 else stats.sent
    answer := result.answer strerror }

/-- `Ping::isFatal`. -/
def isFatal (stats : PingStats) (transmitted : UInt32) : Bool :=
  stats.sent == transmitted && !stats.answer.code.is .temporaryError &&
    !stats.answer.code.is .outOfMemory

end PingStats

/-- `Ping::headerSize`. -/
def Ping.headerSize (inet6 : Bool) : ℤ := (if inet6 then 40 else 20) + icmpHeaderSize

/-- The size of a probe that fits an MTU; the difference of the two numbers wraps. -/
def shrunk (overhead : ℤ) (mtu : UInt32) : ℤ := max 0 (((mtu.toNat : ℤ) - overhead).bmod (2 ^ 32))

/-- What a trace does that is seen from outside: its notifications and its echoes. -/
inductive TraceCall
  | onStart
  | echo (stats : PingStats)
  | onSuccess (stats : PingStats)
  | onFailure (stats : PingStats)
  | onHop (stats : PingStats)
  | onStop

/-- The variables of `trace`, with what has been seen so far. -/
structure Tracing where
  stats : PingStats
  hop : ℕ
  reached : ℤ
  narrowed : Bool
  aborted : Bool
  calls : List TraceCall

namespace Tracing

variable (strerror : ℕ → List UInt8) (overhead : ℤ)

/-- A probe with its result. -/
def probe (tracing : Tracing) (result : EchoResult) : Tracing :=
  let stats := tracing.stats.echo strerror result
  let calls := tracing.calls ++ [.echo tracing.stats]
  if result.replied then
    { tracing with stats := stats, reached := tracing.hop, calls := calls ++ [.onSuccess stats] }
  else if stats.answer.expired then
    { tracing with stats := stats, calls := calls ++ [.onSuccess stats] }
  else if stats.answer.mtu ≠ 0 ∧ shrunk overhead stats.answer.mtu < stats.size then
    { tracing with
      stats := { stats with size := shrunk overhead stats.answer.mtu }
      narrowed := true
      calls := calls ++ [.onFailure stats] }
  else
    { tracing with
      stats := stats
      aborted := stats.isFatal tracing.stats.sent
      calls := calls ++ [.onFailure stats] }

/-- The loop over the probes of a round. -/
def probes : List EchoResult → Tracing → Tracing
  | [], tracing => tracing
  | result :: results, tracing =>
      if tracing.narrowed = false ∧ tracing.aborted = false then
        probes results (tracing.probe strerror overhead result)
      else tracing

/-- A round of probes with the same time to live. -/
def round (results : List EchoResult) (tracing : Tracing) : Tracing :=
  let begun : Tracing :=
    { tracing with stats := { tracing.stats.reset with hop := tracing.hop }, narrowed := false }
  let probed := probes strerror overhead results begun
  if probed.narrowed then probed
  else { probed with hop := probed.hop + 1, calls := probed.calls ++ [.onHop probed.stats] }

variable (maxHops : ℤ) (rows : ℕ → List EchoResult)

/-- The loop over the rounds, for a number of rounds at most. -/
def rounds : ℕ → ℕ → Tracing → Option Tracing
  | 0, _, _ => none
  | fuel + 1, row, tracing =>
      if (tracing.hop : ℤ) ≤ maxHops ∧ tracing.reached = -1 ∧ tracing.aborted = false then
        rounds fuel (row + 1) (tracing.round strerror overhead (rows row))
      else some tracing

/-- The variables before the first round. -/
def start (size : ℤ) (ttl : ℕ) : Tracing where
  stats := { size := size, hop := ttl }
  hop := 1
  reached := -1
  narrowed := false
  aborted := false
  calls := [.onStart]

/-- The results of a round, for a number of probes. -/
def rowsOf (probeCount : ℕ) (results : ℕ → ℕ → EchoResult) (row : ℕ) : List EchoResult :=
  (List.range probeCount).map (results row)

omit overhead in
/-- `trace` with a socket that is open: the results are those of the probes of each round, and
the time to live that the statistics begin with is the default one. -/
def trace (inet6 : Bool) (probeCount : ℕ) (results : ℕ → ℕ → EchoResult) (size : ℤ) (ttl : ℕ)
    (fuel : ℕ) : Option Tracing :=
  (rounds strerror (Ping.headerSize inet6) maxHops (rowsOf probeCount results) fuel 0
    (start size ttl)).map fun tracing => { tracing with calls := tracing.calls ++ [.onStop] }

end Tracing

/-! ## The probes that are made -/

namespace EchoResult

variable (strerror : ℕ → List UInt8) (overhead size : ℤ)

/-- A result that is neither a reply nor a time to live that was over. -/
def fails (result : EchoResult) : Bool :=
  !result.replied && !(result.answer strerror).expired

/-- A result that makes the probes smaller. -/
def narrows (result : EchoResult) : Bool :=
  result.fails strerror && ((result.answer strerror).mtu != 0 &&
    shrunk overhead (result.answer strerror).mtu < size)

/-- A result that ends the trace: the probe was not sent, and not for a reason that passes. -/
def aborts (result : EchoResult) : Bool :=
  result.fails strerror && !result.narrows strerror overhead size && !result.sent &&
    !(result.answer strerror).code.is .temporaryError &&
      !(result.answer strerror).code.is .outOfMemory

/-- The results of the probes that are made: the round is over after one that makes the probes
smaller or ends the trace. -/
def made : List EchoResult → List EchoResult
  | [] => []
  | result :: results =>
      if result.narrows strerror overhead size || result.aborts strerror overhead size then [result]
      else result :: made results

/-- The size of the probes after a round. -/
def sizeAfter (results : List EchoResult) : ℤ :=
  ((made strerror overhead size results).find? (narrows strerror overhead size)).elim size
    fun result => shrunk overhead (result.answer strerror).mtu

end EchoResult

namespace TraceCall

/-- The hop of an echo. -/
def probedHop : TraceCall → Option ℕ
  | echo stats => some stats.hop
  | _ => none

/-- The hop that `onHop` tells of. -/
def notifiedHop : TraceCall → Option ℕ
  | onHop stats => some stats.hop
  | _ => none

end TraceCall

namespace EchoResult

variable {strerror : ℕ → List UInt8} {overhead size : ℤ} {results : List EchoResult}

theorem shrunk_nonneg (overhead : ℤ) (mtu : UInt32) : 0 ≤ shrunk overhead mtu := le_max_left _ _

/-- A result does not both make the probes smaller and end the trace. -/
theorem aborts_of_narrows {result : EchoResult}
    (narrowing : result.narrows strerror overhead size = true) :
    result.aborts strerror overhead size = false := by
  rw [aborts, narrowing]
  simp only [Bool.not_true, Bool.and_false, Bool.false_and]

theorem made_cons_of_closing {result : EchoResult}
    (closing : (result.narrows strerror overhead size ||
      result.aborts strerror overhead size) = true) :
    made strerror overhead size (result :: results) = [result] := by
  rw [made, if_pos closing]

theorem made_cons_of_open {result : EchoResult}
    (narrowing : result.narrows strerror overhead size = false)
    (aborting : result.aborts strerror overhead size = false) :
    made strerror overhead size (result :: results) =
      result :: made strerror overhead size results := by
  rw [made, narrowing, aborting, if_neg (by decide)]

theorem made_ne_nil (present : results ≠ []) : made strerror overhead size results ≠ [] := by
  cases results with
  | nil => exact absurd rfl present
  | cons result results =>
      rw [made]
      split
      · exact List.cons_ne_nil _ _
      · exact List.cons_ne_nil _ _

/-- A round of probes ends because they get smaller or because the trace ends, not both. -/
theorem not_aborts_of_narrows
    (narrowing : (made strerror overhead size results).any (narrows strerror overhead size)) :
    (made strerror overhead size results).any (aborts strerror overhead size) = false := by
  induction results with
  | nil => cases narrowing
  | cons result results inductionHypothesis =>
      cases narrowed : result.narrows strerror overhead size with
      | true =>
          rw [made_cons_of_closing (by rw [narrowed, Bool.true_or]), List.any_cons,
            aborts_of_narrows narrowed]
          rfl
      | false =>
          cases aborted : result.aborts strerror overhead size with
          | true =>
              rw [made_cons_of_closing (by rw [aborted, Bool.or_true]), List.any_cons,
                narrowed] at narrowing
              cases narrowing
          | false =>
              rw [made_cons_of_open narrowed aborted, List.any_cons, narrowed,
                Bool.false_or] at narrowing
              rw [made_cons_of_open narrowed aborted, List.any_cons, aborted, Bool.false_or]
              exact inductionHypothesis narrowing

/-- A round that narrows makes the probes smaller. -/
theorem sizeAfter_of_narrows
    (narrowing : (made strerror overhead size results).any (narrows strerror overhead size)) :
    0 ≤ sizeAfter strerror overhead size results ∧
      sizeAfter strerror overhead size results < size := by
  obtain ⟨result, found⟩ := Option.isSome_iff_exists.mp
    (List.find?_isSome.mpr (List.any_eq_true.mp narrowing))
  rw [sizeAfter, found, Option.elim_some]
  refine ⟨shrunk_nonneg _ _, ?_⟩
  have holds := List.find?_some found
  rw [narrows, Bool.and_eq_true, Bool.and_eq_true, decide_eq_true_eq] at holds
  exact holds.2.2

/-- A round that does not narrow leaves the size of the probes. -/
theorem sizeAfter_of_not_narrows
    (wide : (made strerror overhead size results).any (narrows strerror overhead size) = false) :
    sizeAfter strerror overhead size results = size := by
  have none : (made strerror overhead size results).find? (narrows strerror overhead size) =
      none := by
    rw [List.find?_eq_none]
    intro result member holds
    exact List.any_eq_false.mp wide result member holds
  rw [sizeAfter, none, Option.elim_none]

end EchoResult

namespace Tracing

/-- The hops that were probed. -/
def probed (tracing : Tracing) : List ℕ := tracing.calls.filterMap TraceCall.probedHop

/-- The hops that `onHop` was called with. -/
def notified (tracing : Tracing) : List ℕ := tracing.calls.filterMap TraceCall.notifiedHop

variable {strerror : ℕ → List UInt8} {overhead : ℤ}

/-- What a loop over probes has done. -/
structure Probed (strerror : ℕ → List UInt8) (overhead : ℤ) (results : List EchoResult)
    (before after : Tracing) : Prop where
  hop : after.hop = before.hop
  statsHop : after.stats.hop = before.stats.hop
  size : after.stats.size = EchoResult.sizeAfter strerror overhead before.stats.size results
  reached : after.reached =
    if (EchoResult.made strerror overhead before.stats.size results).any EchoResult.replied then
      (before.hop : ℤ)
    else before.reached
  narrowed : after.narrowed = (EchoResult.made strerror overhead before.stats.size results).any
    (EchoResult.narrows strerror overhead before.stats.size)
  aborted : after.aborted = (EchoResult.made strerror overhead before.stats.size results).any
    (EchoResult.aborts strerror overhead before.stats.size)
  notified : after.notified = before.notified
  probed : after.probed = before.probed ++
    List.replicate (EchoResult.made strerror overhead before.stats.size results).length
      before.stats.hop

/-- What one probe has done. -/
structure ProbedOne (strerror : ℕ → List UInt8) (overhead : ℤ) (result : EchoResult)
    (before after : Tracing) : Prop where
  hop : after.hop = before.hop
  statsHop : after.stats.hop = before.stats.hop
  size : after.stats.size =
    if result.narrows strerror overhead before.stats.size then
      shrunk overhead (result.answer strerror).mtu
    else before.stats.size
  reached : after.reached = if result.replied then (before.hop : ℤ) else before.reached
  narrowed : after.narrowed = result.narrows strerror overhead before.stats.size
  aborted : after.aborted = result.aborts strerror overhead before.stats.size
  notified : after.notified = before.notified
  probed : after.probed = before.probed ++ [before.stats.hop]

/-- A probe counts as sent when its request was written. -/
theorem isFatal_echo (stats : PingStats) (result : EchoResult) :
    (stats.echo strerror result).isFatal stats.sent =
      (!result.sent && !(result.answer strerror).code.is .temporaryError &&
        !(result.answer strerror).code.is .outOfMemory) := by
  have counted : ((stats.echo strerror result).sent == stats.sent) = !result.sent := by
    rw [PingStats.echo]
    cases result.sent with
    | true =>
        have moved : stats.sent + 1 ≠ stats.sent := by
          intro same
          have numbers := congrArg UInt32.toNat same
          rw [UInt32.toNat_add] at numbers
          have bound := stats.sent.toNat_lt
          change (stats.sent.toNat + 1) % 2 ^ 32 = _ at numbers
          omega
        exact beq_eq_false_iff_ne.mpr moved
    | false => exact beq_self_eq_true _
  rw [PingStats.isFatal, counted]
  rfl

theorem notifiedHop_calls (calls : List TraceCall) (stats : PingStats) {last : TraceCall}
    (other : last.notifiedHop = none) :
    (calls ++ [TraceCall.echo stats] ++ [last]).filterMap TraceCall.notifiedHop =
      calls.filterMap TraceCall.notifiedHop := by
  rw [List.append_assoc, List.filterMap_append, List.singleton_append,
    List.filterMap_cons_none rfl, List.filterMap_cons_none other, List.filterMap_nil,
    List.append_nil]

theorem probedHop_calls (calls : List TraceCall) (stats : PingStats) {last : TraceCall}
    (other : last.probedHop = none) :
    (calls ++ [TraceCall.echo stats] ++ [last]).filterMap TraceCall.probedHop =
      calls.filterMap TraceCall.probedHop ++ [stats.hop] := by
  have first : (TraceCall.echo stats).probedHop = some stats.hop := rfl
  rw [List.append_assoc, List.filterMap_append, List.singleton_append,
    List.filterMap_cons_some first, List.filterMap_cons_none other, List.filterMap_nil]

/-- What a probe does. -/
theorem probedOne {tracing : Tracing} (wide : tracing.narrowed = false)
    (goes : tracing.aborted = false) (result : EchoResult) :
    ProbedOne strerror overhead result tracing (tracing.probe strerror overhead result) := by
  have silent {fine : EchoResult} (passes : fine.fails strerror = false) :
      fine.narrows strerror overhead tracing.stats.size = false ∧
        fine.aborts strerror overhead tracing.stats.size = false := by
    rw [EchoResult.aborts, EchoResult.narrows, passes]
    exact ⟨rfl, rfl⟩
  rw [probe]
  cases replied : result.replied with
  | true =>
      have passes : result.fails strerror = false := by rw [EchoResult.fails, replied]; rfl
      rw [if_pos rfl]
      constructor
      · rfl
      · rfl
      · rw [(silent passes).1]
        rfl
      · rw [replied]
        rfl
      · rw [(silent passes).1]
        exact wide
      · rw [(silent passes).2]
        exact goes
      · exact notifiedHop_calls _ _ (by rfl)
      · exact probedHop_calls _ _ (by rfl)
  | false =>
      have answer : (tracing.stats.echo strerror result).answer = result.answer strerror := rfl
      have size : (tracing.stats.echo strerror result).size = tracing.stats.size := rfl
      rw [if_neg Bool.false_ne_true, answer, size]
      cases expired : (result.answer strerror).expired with
      | true =>
          have passes : result.fails strerror = false := by
            rw [EchoResult.fails, expired, Bool.not_true, Bool.and_false]
          rw [if_pos rfl]
          constructor
          · rfl
          · rfl
          · rw [(silent passes).1]
            rfl
          · rw [replied]
            rfl
          · rw [(silent passes).1]
            exact wide
          · rw [(silent passes).2]
            exact goes
          · exact notifiedHop_calls _ _ (by rfl)
          · exact probedHop_calls _ _ (by rfl)
      | false =>
          have fails : result.fails strerror = true := by
            rw [EchoResult.fails, replied, expired]
            rfl
          rw [if_neg Bool.false_ne_true]
          by_cases narrowing : (result.answer strerror).mtu ≠ 0 ∧
              shrunk overhead (result.answer strerror).mtu < tracing.stats.size
          · have narrows : result.narrows strerror overhead tracing.stats.size = true := by
              rw [EchoResult.narrows, fails, Bool.true_and, Bool.and_eq_true, bne_iff_ne,
                decide_eq_true_eq]
              exact narrowing
            rw [if_pos narrowing]
            constructor
            · rfl
            · rfl
            · rw [narrows]
              rfl
            · rw [replied]
              rfl
            · exact narrows.symm
            · rw [EchoResult.aborts_of_narrows narrows]
              exact goes
            · exact notifiedHop_calls _ _ (by rfl)
            · exact probedHop_calls _ _ (by rfl)
          · have narrows : result.narrows strerror overhead tracing.stats.size = false := by
              apply Bool.eq_false_of_not_eq_true
              rw [EchoResult.narrows, fails, Bool.true_and, Bool.and_eq_true, bne_iff_ne,
                decide_eq_true_eq]
              exact narrowing
            rw [if_neg narrowing]
            constructor
            · rfl
            · rfl
            · rw [narrows]
              rfl
            · rw [replied]
              rfl
            · rw [narrows]
              exact wide
            · rw [EchoResult.aborts, fails, narrows, isFatal_echo, Bool.not_false, Bool.true_and,
                Bool.true_and]
            · exact notifiedHop_calls _ _ (by rfl)
            · exact probedHop_calls _ _ (by rfl)

/-- A round that is over makes no more probes. -/
theorem probes_of_closed {tracing : Tracing}
    (closed : tracing.narrowed = true ∨ tracing.aborted = true) (results : List EchoResult) :
    probes strerror overhead results tracing = tracing := by
  cases results with
  | nil => rfl
  | cons result results =>
      rw [probes, if_neg]
      rintro ⟨wide, goes⟩
      rcases closed with narrowed | aborted
      · rw [wide] at narrowed
        cases narrowed
      · rw [goes] at aborted
        cases aborted

/-- The last probe of a round. -/
theorem ProbedOne.alone {before after : Tracing} {result : EchoResult}
    {results : List EchoResult} (one : ProbedOne strerror overhead result before after)
    (closing : (result.narrows strerror overhead before.stats.size ||
      result.aborts strerror overhead before.stats.size) = true) :
    Probed strerror overhead (result :: results) before after := by
  have made := @EchoResult.made_cons_of_closing strerror overhead before.stats.size results result
    closing
  constructor
  · exact one.hop
  · exact one.statsHop
  · rw [one.size, EchoResult.sizeAfter, made]
    cases narrowing : result.narrows strerror overhead before.stats.size with
    | true => rw [List.find?_cons_of_pos narrowing]; rfl
    | false => rw [List.find?_cons_of_neg (by rw [narrowing]; decide)]; rfl
  · rw [one.reached, made, List.any_cons, List.any_nil, Bool.or_false]
  · rw [one.narrowed, made, List.any_cons, List.any_nil, Bool.or_false]
  · rw [one.aborted, made, List.any_cons, List.any_nil, Bool.or_false]
  · exact one.notified
  · rw [one.probed, made]
    rfl

/-- A probe after which the round goes on. -/
theorem ProbedOne.cons {before middle after : Tracing} {result : EchoResult}
    {results : List EchoResult} (one : ProbedOne strerror overhead result before middle)
    (narrowing : result.narrows strerror overhead before.stats.size = false)
    (aborting : result.aborts strerror overhead before.stats.size = false)
    (rest : Probed strerror overhead results middle after) :
    Probed strerror overhead (result :: results) before after := by
  have size : middle.stats.size = before.stats.size := by
    rw [one.size, narrowing]
    rfl
  have made := @EchoResult.made_cons_of_open strerror overhead before.stats.size results result
    narrowing aborting
  constructor
  · exact rest.hop.trans one.hop
  · exact rest.statsHop.trans one.statsHop
  · rw [rest.size, size, EchoResult.sizeAfter, EchoResult.sizeAfter, made,
      List.find?_cons_of_neg (by rw [narrowing]; decide)]
  · rw [rest.reached, size, made, List.any_cons, one.hop, one.reached]
    cases result.replied with
    | true => simp
    | false => simp
  · rw [rest.narrowed, size, made, List.any_cons, narrowing, Bool.false_or]
  · rw [rest.aborted, size, made, List.any_cons, aborting, Bool.false_or]
  · exact rest.notified.trans one.notified
  · rw [rest.probed, one.probed, one.statsHop, size, made, List.length_cons,
      List.replicate_succ, List.append_assoc, List.singleton_append]

/-- What the probes of a round do. -/
theorem probed_probes {tracing : Tracing} (wide : tracing.narrowed = false)
    (goes : tracing.aborted = false) (results : List EchoResult) :
    Probed strerror overhead results tracing (probes strerror overhead results tracing) := by
  induction results generalizing tracing with
  | nil =>
      constructor
      · rfl
      · rfl
      · rfl
      · rfl
      · exact wide
      · exact goes
      · rfl
      · exact (List.append_nil _).symm
  | cons result results inductionHypothesis =>
      have one := @probedOne strerror overhead tracing wide goes result
      rw [probes, if_pos ⟨wide, goes⟩]
      cases narrowing : result.narrows strerror overhead tracing.stats.size with
      | true =>
          have stops : probes strerror overhead results (tracing.probe strerror overhead result) =
              tracing.probe strerror overhead result := by
            apply probes_of_closed
            rw [one.narrowed, narrowing]
            exact Or.inl rfl
          rw [stops]
          exact one.alone (by rw [narrowing, Bool.true_or])
      | false =>
          cases aborting : result.aborts strerror overhead tracing.stats.size with
          | true =>
              have stops : probes strerror overhead results
                  (tracing.probe strerror overhead result) =
                    tracing.probe strerror overhead result := by
                apply probes_of_closed
                rw [one.aborted, aborting]
                exact Or.inr rfl
              rw [stops]
              exact one.alone (by rw [aborting, Bool.or_true])
          | false =>
              exact one.cons narrowing aborting (inductionHypothesis
                (one.narrowed.trans narrowing) (one.aborted.trans aborting))

/-! ## Rounds -/

/-- What a round has done. -/
structure Rounded (strerror : ℕ → List UInt8) (overhead : ℤ) (results : List EchoResult)
    (before after : Tracing) : Prop where
  hop : after.hop =
    if (EchoResult.made strerror overhead before.stats.size results).any
      (EchoResult.narrows strerror overhead before.stats.size) then before.hop else before.hop + 1
  size : after.stats.size = EchoResult.sizeAfter strerror overhead before.stats.size results
  reached : after.reached =
    if (EchoResult.made strerror overhead before.stats.size results).any EchoResult.replied then
      (before.hop : ℤ)
    else before.reached
  aborted : after.aborted = (EchoResult.made strerror overhead before.stats.size results).any
    (EchoResult.aborts strerror overhead before.stats.size)
  notified : after.notified =
    if (EchoResult.made strerror overhead before.stats.size results).any
      (EchoResult.narrows strerror overhead before.stats.size) then before.notified
    else before.notified ++ [before.hop]
  lastProbed : results ≠ [] → after.probed.getLast? = some before.hop

theorem rounded {tracing : Tracing} (goes : tracing.aborted = false)
    (results : List EchoResult) :
    Rounded strerror overhead results tracing (tracing.round strerror overhead results) := by
  have probed := @probed_probes strerror overhead
    { tracing with stats := { tracing.stats.reset with hop := tracing.hop }, narrowed := false }
    rfl goes results
  have last : results ≠ [] → (probes strerror overhead results
      { tracing with
        stats := { tracing.stats.reset with hop := tracing.hop }
        narrowed := false }).probed.getLast? = some tracing.hop := by
    intro present
    rw [probed.probed, List.getLast?_append_of_ne_nil, List.getLast?_replicate, if_neg]
    · rw [List.length_eq_zero_iff]
      exact EchoResult.made_ne_nil present
    · rw [Ne, List.replicate_eq_nil_iff, List.length_eq_zero_iff]
      exact EchoResult.made_ne_nil present
  rw [round]
  dsimp only
  cases narrowed : (EchoResult.made strerror overhead tracing.stats.size results).any
      (EchoResult.narrows strerror overhead tracing.stats.size) with
  | true =>
      have ended := probed.narrowed.trans narrowed
      rw [if_pos ended]
      constructor
      · rw [narrowed]
        exact probed.hop
      · exact probed.size
      · exact probed.reached
      · exact probed.aborted
      · rw [narrowed]
        exact probed.notified
      · exact last
  | false =>
      have ended := probed.narrowed.trans narrowed
      rw [if_neg (by rw [ended]; decide)]
      constructor
      · rw [narrowed]
        exact congrArg (· + 1) probed.hop
      · exact probed.size
      · exact probed.reached
      · exact probed.aborted
      · rw [narrowed]
        change List.filterMap _ (_ ++ [TraceCall.onHop _]) = tracing.notified ++ [tracing.hop]
        rw [List.filterMap_append]
        exact congrArg₂ (· ++ ·) probed.notified (congrArg (fun hop => [hop]) probed.statsHop)
      · intro present
        change (List.filterMap _ (_ ++ [TraceCall.onHop _])).getLast? = _
        rw [List.filterMap_append, List.filterMap_cons_none rfl, List.filterMap_nil,
          List.append_nil]
        exact last present

/-- More rounds do not change a trace that is over. -/
theorem rounds_succ {maxHops : ℤ} {rows : ℕ → List EchoResult} {fuel row : ℕ}
    {tracing final : Tracing}
    (returns : rounds strerror overhead maxHops rows fuel row tracing = some final) :
    rounds strerror overhead maxHops rows (fuel + 1) row tracing = some final := by
  induction fuel generalizing row tracing with
  | zero => cases returns
  | succ fuel inductionHypothesis =>
      rw [rounds] at returns ⊢
      split at returns
      · rename_i goes
        rw [if_pos goes]
        exact inductionHypothesis returns
      · rename_i ended
        rw [if_neg ended]
        exact returns

/-- The last hop that was probed, or zero. -/
def lastProbed (tracing : Tracing) : ℕ := tracing.probed.getLast?.getD 0

/-- Every hop up to the last one that was probed has been told of once, in order. -/
def Reports (tracing : Tracing) : Prop := tracing.notified = List.range' 1 tracing.lastProbed

end Tracing

/-! ## The rounds of a trace -/

namespace Rows

variable (strerror : ℕ → List UInt8) (overhead maxHops size : ℤ) (rows : ℕ → List EchoResult)

/-- The size of the probes of a round. -/
def sizeAt : ℕ → ℤ
  | 0 => size
  | row + 1 => EchoResult.sizeAfter strerror overhead (sizeAt row) (rows row)

/-- The results of the probes that a round makes. -/
def madeAt (row : ℕ) : List EchoResult :=
  EchoResult.made strerror overhead (sizeAt strerror overhead size rows row) (rows row)

/-- A round that makes the probes smaller. -/
def narrowsAt (row : ℕ) : Bool :=
  (madeAt strerror overhead size rows row).any
    (EchoResult.narrows strerror overhead (sizeAt strerror overhead size rows row))

/-- A round that ends the trace because of an error. -/
def abortsAt (row : ℕ) : Bool :=
  (madeAt strerror overhead size rows row).any
    (EchoResult.aborts strerror overhead (sizeAt strerror overhead size rows row))

/-- A round in which the host answers. -/
def repliesAt (row : ℕ) : Bool := (madeAt strerror overhead size rows row).any EchoResult.replied

/-- The hop of a round. -/
def hopAt : ℕ → ℕ
  | 0 => 1
  | row + 1 =>
      if narrowsAt strerror overhead size rows row then hopAt row else hopAt row + 1

/-- The rounds before one have not ended the trace. -/
def Quiet (row : ℕ) : Prop :=
  ∀ earlier < row, repliesAt strerror overhead size rows earlier = false ∧
    abortsAt strerror overhead size rows earlier = false

/-- In no round that is made does the host answer before the probes get smaller. -/
def Unmixed : Prop :=
  ∀ row, Quiet strerror overhead size rows row →
    (hopAt strerror overhead size rows row : ℤ) ≤ maxHops →
      repliesAt strerror overhead size rows row = true →
        narrowsAt strerror overhead size rows row = false

variable {strerror overhead maxHops size rows}

theorem hopAt_mono {row later : ℕ} (before : row ≤ later) :
    hopAt strerror overhead size rows row ≤ hopAt strerror overhead size rows later := by
  induction later, before using Nat.le_induction with
  | base => exact Nat.le_refl _
  | succ later _ inductionHypothesis =>
      rw [hopAt]
      split
      · exact inductionHypothesis
      · exact Nat.le_succ_of_le inductionHypothesis

/-- The state before a round that the trace may make. -/
structure Ready (strerror : ℕ → List UInt8) (overhead maxHops size : ℤ)
    (rows : ℕ → List EchoResult) (row : ℕ) (tracing : Tracing) : Prop where
  hop : tracing.hop = hopAt strerror overhead size rows row
  probeSize : tracing.stats.size = sizeAt strerror overhead size rows row
  reached : tracing.reached = -1
  aborted : tracing.aborted = false
  quiet : Quiet strerror overhead size rows row
  bound : (tracing.hop : ℤ) ≤ max 1 (maxHops + 1)
  notified : ∃ hops, tracing.hop = hops + 1 ∧ tracing.notified = List.range' 1 hops ∧
    (tracing.lastProbed = hops ∨ tracing.lastProbed = tracing.hop ∧ (tracing.hop : ℤ) ≤ maxHops)

/-- A trace that has gone through all hops. -/
theorem Ready.finished {row : ℕ} {tracing : Tracing}
    (ready : Ready strerror overhead maxHops size rows row tracing)
    (ended : ¬ (tracing.hop : ℤ) ≤ maxHops) :
    tracing.Reports ∧ Unmixed strerror overhead maxHops size rows := by
  constructor
  · obtain ⟨hops, -, notified, last | ⟨-, inside⟩⟩ := ready.notified
    · rw [Tracing.Reports, notified, last]
    · exact absurd inside ended
  · intro other quiet inside replies
    rcases Nat.lt_or_ge other row with earlier | later
    · rw [(ready.quiet other earlier).1] at replies
      cases replies
    · have grows := @hopAt_mono strerror overhead size rows row other later
      rw [ready.hop] at ended
      omega

/-- A round that does not end the trace. -/
theorem Ready.step {row : ℕ} {tracing : Tracing}
    (ready : Ready strerror overhead maxHops size rows row tracing)
    (inside : (tracing.hop : ℤ) ≤ maxHops) (present : rows row ≠ [])
    (replies : repliesAt strerror overhead size rows row = false)
    (aborts : abortsAt strerror overhead size rows row = false) :
    Ready strerror overhead maxHops size rows (row + 1)
      (tracing.round strerror overhead (rows row)) := by
  have rounded := @Tracing.rounded strerror overhead tracing ready.aborted (rows row)
  obtain ⟨hop, resized, reached, aborted, notified, last⟩ := rounded
  rw [ready.probeSize] at hop resized reached aborted notified
  obtain ⟨hops, next, told, -⟩ := ready.notified
  have probed := congrArg (Option.getD · 0) (last present)
  change Tracing.lastProbed _ = tracing.hop at probed
  change _ = if narrowsAt strerror overhead size rows row then _ else _ at hop notified
  change _ = if repliesAt strerror overhead size rows row then _ else _ at reached
  change _ = abortsAt strerror overhead size rows row at aborted
  constructor
  · rw [hop, hopAt, ready.hop]
  · exact resized
  · rw [reached, replies]
    exact ready.reached
  · exact aborted.trans aborts
  · intro earlier before
    rcases Nat.lt_succ_iff_lt_or_eq.mp before with before | rfl
    · exact ready.quiet earlier before
    · exact ⟨replies, aborts⟩
  · rw [hop]
    split
    · exact ready.bound
    · push_cast
      omega
  · cases narrowed : narrowsAt strerror overhead size rows row with
    | true =>
        rw [narrowed, if_pos rfl] at hop notified
        refine ⟨hops, hop.trans next, notified.trans told, Or.inr ⟨probed.trans hop.symm, ?_⟩⟩
        rw [hop]
        exact inside
    | false =>
        rw [narrowed, if_neg Bool.false_ne_true] at hop notified
        refine ⟨hops + 1, by rw [hop, next], ?_, Or.inl (probed.trans next)⟩
        rw [notified, told, next, List.range'_concat, Nat.one_mul, Nat.add_comm 1]

/-- A round that ends the trace. -/
theorem Ready.stop {row : ℕ} {tracing : Tracing}
    (ready : Ready strerror overhead maxHops size rows row tracing)
    (inside : (tracing.hop : ℤ) ≤ maxHops) (present : rows row ≠ [])
    (ends : repliesAt strerror overhead size rows row = true ∨
      abortsAt strerror overhead size rows row = true) :
    ((tracing.round strerror overhead (rows row)).reached ≠ -1 ∨
      (tracing.round strerror overhead (rows row)).aborted = true) ∧
    ((tracing.round strerror overhead (rows row)).hop : ℤ) ≤ max 1 (maxHops + 1) ∧
    ((tracing.round strerror overhead (rows row)).Reports ↔
      Unmixed strerror overhead maxHops size rows) := by
  have rounded := @Tracing.rounded strerror overhead tracing ready.aborted (rows row)
  obtain ⟨hop, resized, reached, aborted, notified, last⟩ := rounded
  rw [ready.probeSize] at hop resized reached aborted notified
  obtain ⟨hops, next, told, -⟩ := ready.notified
  have probed := congrArg (Option.getD · 0) (last present)
  change Tracing.lastProbed _ = tracing.hop at probed
  change _ = if narrowsAt strerror overhead size rows row then _ else _ at hop notified
  change _ = if repliesAt strerror overhead size rows row then _ else _ at reached
  change _ = abortsAt strerror overhead size rows row at aborted
  refine ⟨?_, ?_, ?_⟩
  · rcases ends with replies | aborts
    · left
      rw [reached, if_pos replies]
      omega
    · exact Or.inr (aborted.trans aborts)
  · rw [hop]
    split
    · exact ready.bound
    · push_cast
      omega
  · rw [Tracing.Reports, probed]
    cases narrowed : narrowsAt strerror overhead size rows row with
    | true =>
        rw [narrowed, if_pos rfl] at notified
        have replies : repliesAt strerror overhead size rows row = true := by
          rcases ends with replies | aborts
          · exact replies
          · have none := EchoResult.not_aborts_of_narrows narrowed
            exact absurd (none.symm.trans aborts) Bool.false_ne_true
        apply iff_of_false
        · rw [notified, told, next]
          intro same
          have lengths := congrArg List.length same
          rw [List.length_range', List.length_range'] at lengths
          omega
        · intro unmixed
          have wide := unmixed row ready.quiet (ready.hop ▸ inside) replies
          rw [narrowed] at wide
          cases wide
    | false =>
        rw [narrowed, if_neg Bool.false_ne_true] at notified
        apply iff_of_true
        · rw [notified, told, next, List.range'_concat, Nat.one_mul, Nat.add_comm 1]
        · intro other quiet _ replies
          rcases Nat.lt_trichotomy other row with earlier | rfl | later
          · rw [(ready.quiet other earlier).1] at replies
            cases replies
          · exact narrowed
          · obtain ⟨silent, goes⟩ := quiet row later
            rcases ends with answered | fatal
            · exact absurd (silent.symm.trans answered) Bool.false_ne_true
            · exact absurd (goes.symm.trans fatal) Bool.false_ne_true

/-- A round goes on to the next hop or makes the probes smaller. -/
theorem Ready.measure_lt {row : ℕ} {tracing : Tracing}
    (ready : Ready strerror overhead maxHops size rows row tracing)
    (inside : (tracing.hop : ℤ) ≤ maxHops) :
    (maxHops + 1 - (tracing.round strerror overhead (rows row)).hop).toNat +
        (tracing.round strerror overhead (rows row)).stats.size.toNat <
      (maxHops + 1 - tracing.hop).toNat + tracing.stats.size.toNat := by
  have rounded := @Tracing.rounded strerror overhead tracing ready.aborted (rows row)
  cases narrowed : (EchoResult.made strerror overhead tracing.stats.size (rows row)).any
      (EchoResult.narrows strerror overhead tracing.stats.size) with
  | true =>
      have smaller := EchoResult.sizeAfter_of_narrows narrowed
      rw [rounded.hop, rounded.size, narrowed, if_pos rfl]
      omega
  | false =>
      rw [rounded.hop, rounded.size, narrowed, if_neg Bool.false_ne_true,
        EchoResult.sizeAfter_of_not_narrows narrowed]
      push_cast
      omega

/-- The rounds come to an end, and every hop is told of unless a round is mixed. -/
theorem Ready.rounds {fuel row : ℕ} {tracing : Tracing}
    (ready : Ready strerror overhead maxHops size rows row tracing)
    (present : ∀ row, rows row ≠ [])
    (enough : (maxHops + 1 - tracing.hop).toNat + tracing.stats.size.toNat < fuel) :
    ∃ final, Tracing.rounds strerror overhead maxHops rows fuel row tracing = some final ∧
      (final.hop : ℤ) ≤ max 1 (maxHops + 1) ∧
        (final.Reports ↔ Unmixed strerror overhead maxHops size rows) := by
  induction fuel generalizing row tracing with
  | zero => exact absurd enough (Nat.not_lt_zero _)
  | succ fuel inductionHypothesis =>
      by_cases inside : (tracing.hop : ℤ) ≤ maxHops
      · rw [Tracing.rounds, if_pos ⟨inside, ready.reached, ready.aborted⟩]
        cases ends : (repliesAt strerror overhead size rows row ||
            abortsAt strerror overhead size rows row) with
        | true =>
            obtain ⟨ended, bound, reports⟩ := ready.stop inside (present row)
              (Bool.or_eq_true _ _ ▸ ends)
            refine ⟨_, ?_, bound, reports⟩
            obtain ⟨more, rfl⟩ : ∃ more, fuel = more + 1 := ⟨fuel - 1, by omega⟩
            rw [Tracing.rounds, if_neg]
            rintro ⟨-, waiting, goes⟩
            rcases ended with reached | aborted
            · exact reached waiting
            · exact absurd (goes.symm.trans aborted) Bool.false_ne_true
        | false =>
            rw [Bool.or_eq_false_iff] at ends
            apply inductionHypothesis (ready.step inside (present row) ends.1 ends.2)
            have less := ready.measure_lt inside
            omega
      · rw [Tracing.rounds, if_neg fun goes => inside goes.1]
        obtain ⟨reports, unmixed⟩ := ready.finished inside
        exact ⟨tracing, rfl, ready.bound, iff_of_true reports unmixed⟩

/-- The state before the first round. -/
theorem ready_start (strerror : ℕ → List UInt8) (overhead maxHops size : ℤ)
    (rows : ℕ → List EchoResult) (ttl : ℕ) :
    Ready strerror overhead maxHops size rows 0 (Tracing.start size ttl) := by
  constructor
  · rfl
  · rfl
  · rfl
  · rfl
  · intro earlier before
    exact absurd before (Nat.not_lt_zero _)
  · exact le_max_left _ _
  · exact ⟨0, rfl, rfl, Or.inl rfl⟩

end Rows

namespace Tracing

/-- The notification at the end leaves the hops as they are. -/
theorem reports_onStop (tracing : Tracing) :
    Reports { tracing with calls := tracing.calls ++ [.onStop] } ↔ tracing.Reports := by
  have told : notified { tracing with calls := tracing.calls ++ [.onStop] } =
      tracing.notified := by
    rw [notified, List.filterMap_append, List.filterMap_cons_none rfl, List.filterMap_nil,
      List.append_nil]
    rfl
  have seen : probed { tracing with calls := tracing.calls ++ [.onStop] } = tracing.probed := by
    rw [probed, List.filterMap_append, List.filterMap_cons_none rfl, List.filterMap_nil,
      List.append_nil]
    rfl
  rw [Reports, Reports, lastProbed, lastProbed, told, seen]

theorem rounds_le {strerror : ℕ → List UInt8} {overhead maxHops : ℤ}
    {rows : ℕ → List EchoResult} {fuel more row : ℕ} {tracing final : Tracing}
    (returns : rounds strerror overhead maxHops rows fuel row tracing = some final)
    (enough : fuel ≤ more) :
    rounds strerror overhead maxHops rows more row tracing = some final := by
  induction more, enough using Nat.le_induction with
  | base => exact returns
  | succ more _ inductionHypothesis => exact rounds_succ inductionHypothesis

/-- A trace comes to an end, and the hop never passes the greatest number. Every hop is told of,
up to the last one that was probed, unless in a round that is made the host answers before the
probes get smaller. -/
theorem trace_reports_iff (strerror : ℕ → List UInt8) (maxHops : ℤ) (inet6 : Bool)
    (probeCount : ℕ) (results : ℕ → ℕ → EchoResult) (size : ℤ) (ttl : ℕ)
    (bounded : maxHops < 2147483647) (positive : 0 < probeCount) :
    ∃ final, (∀ fuel, maxHops.toNat + size.toNat < fuel →
        trace strerror maxHops inet6 probeCount results size ttl fuel = some final) ∧
      (final.hop : ℤ) ≤ 2147483647 ∧
        (final.Reports ↔ Rows.Unmixed strerror (Ping.headerSize inet6) maxHops size
          (rowsOf probeCount results)) := by
  have present (row : ℕ) : rowsOf probeCount results row ≠ [] := by
    intro empty
    have none := congrArg List.length empty
    rw [rowsOf, List.length_map, List.length_range] at none
    exact absurd positive (by rw [none]; exact Nat.lt_irrefl 0)
  have ready := Rows.ready_start strerror (Ping.headerSize inet6) maxHops size
    (rowsOf probeCount results) ttl
  obtain ⟨final, returns, bound, reports⟩ := @Rows.Ready.rounds _ _ _ _ _
    (maxHops.toNat + size.toNat + 1) _ _ ready present (by
      change (maxHops + 1 - (1 : ℕ)).toNat + size.toNat < _
      omega)
  refine ⟨{ final with calls := final.calls ++ [.onStop] }, ?_, ?_, ?_⟩
  · intro fuel enough
    rw [trace, rounds_le returns enough]
    rfl
  · have inside : (final.hop : ℤ) ≤ max 1 (maxHops + 1) := bound
    change (final.hop : ℤ) ≤ 2147483647
    omega
  · exact (reports_onStop final).trans reports

instance (tracing : Tracing) : Decidable tracing.Reports :=
  inferInstanceAs (Decidable (_ = _))

/-! ## Two traces -/

/-- A router has answered, then the host. -/
def twoHops (row _probe : ℕ) : EchoResult :=
  .answered (if row = 0 then { expired := true, code := .libjoin .timedOut } else {})

theorem trace_reports_two_hops : ∃ final,
    (∀ fuel, (30 : ℤ).toNat + (56 : ℤ).toNat < fuel →
      trace (fun _ => []) 30 false 3 twoHops 56 60 fuel = some final) ∧
    (final.hop : ℤ) ≤ 2147483647 ∧
      (final.Reports ↔ Rows.Unmixed (fun _ => []) (Ping.headerSize false) 30 56 (rowsOf 3 twoHops)) :=
  trace_reports_iff (fun _ => []) 30 false 3 twoHops 56 60 (by decide) (by decide)

/-- The host has answered the first probe, and the second one is too large for a link. -/
def reachedThenNarrowed (_row probe : ℕ) : EchoResult :=
  .answered (if probe = 0 then {} else { mtu := 60, code := .libjoin .messageTooLong })

/-- The hop at which the host answered is not told of. -/
theorem reached_hop_unreported : ¬ ∀ (strerror : ℕ → List UInt8) (maxHops : ℤ) (inet6 : Bool)
    (probeCount : ℕ) (results : ℕ → ℕ → EchoResult) (size : ℤ) (ttl : ℕ),
    maxHops < 2147483647 → 0 < probeCount →
      ∃ final, (∀ fuel, maxHops.toNat + size.toNat < fuel →
        trace strerror maxHops inet6 probeCount results size ttl fuel = some final) ∧
          final.Reports := by
  intro always
  obtain ⟨final, returns, reports⟩ :=
    always (fun _ => []) 1 false 2 reachedThenNarrowed 56 60 (by decide) (by decide)
  have silent : (trace (fun _ => []) 1 false 2 reachedThenNarrowed 56 60 58).any
      (fun tracing => decide tracing.Reports) = false := by decide +kernel
  rw [returns 58 (by decide), Option.any_some, decide_eq_false_iff_not] at silent
  exact silent reports

end Tracing

end Join
