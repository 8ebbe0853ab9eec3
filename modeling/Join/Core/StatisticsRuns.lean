import Join.Core.Statistics
import Join.Library.Trace
import Mathlib.Algebra.BigOperators.Ring.Finset
import Mathlib.Algebra.Order.BigOperators.Group.Finset

/-!
# Statistics under contention

Any number of threads call `BasicStats::stop` on one object. A call adds its duration to the
sum, stores it as the last one, lowers the minimum and raises the maximum in a loop of weak
compare-exchanges each, and then counts it in its bucket and in the number of samples. An action
is one access to one of these words; a weak compare-exchange may fail for no reason.

A word that counts is the word of what has been added to it by the calls that are past that
access. The minimum is no greater than the duration of any call that is past its loop: what a
call in the loop has read is never less than the minimum, which only falls, so that the loop is
left only when the minimum is low enough.
-/

set_option autoImplicit false

namespace Join.Stats

open Library

/-- The words of `BasicStats`. -/
structure Words where
  counts : ℕ → UInt64
  count : UInt64
  last : UInt64
  min : UInt64
  max : UInt64
  sum : UInt64

/-- The words before the first sample. -/
def Words.initial : Words := ⟨fun _ => 0, 0, 0, 0xFFFFFFFFFFFFFFFF, 0, 0⟩

/-- The next access of a call of `stop`, with what the loop it is in has read. -/
inductive StopPlace where
  | sum
  | last
  | loadMin
  | casMin (prev : UInt64)
  | loadMax
  | casMax (prev : UInt64)
  | bucket
  | count
  | done
deriving DecidableEq

namespace StopPlace

/-- How far a call has come. -/
def rank : StopPlace → ℕ
  | .sum => 0
  | .last => 1
  | .loadMin => 2
  | .casMin _ => 2
  | .loadMax => 3
  | .casMax _ => 3
  | .bucket => 4
  | .count => 5
  | .done => 6

end StopPlace

/-- A call of `stop` by a thread, for a duration. -/
structure StopCall (T : Type) where
  who : T
  ns : UInt64
  place : StopPlace
deriving DecidableEq

/-- The words and all calls that have been made. -/
structure StatsSystem (T : Type) where
  words : Words
  calls : List (StopCall T)

/-- A thread calls `stop` at the end of a duration, or a call makes its next access. -/
inductive StatsAction (T : Type) where
  | stop (who : T) (ns : UInt64)
  | advance (call : ℕ) (spurious : Bool)

/-- One more sample in a bucket. -/
def Words.tally (words : Words) (i : ℕ) : Words :=
  { words with counts := Function.update words.counts i (words.counts i + 1) }

/-- One access of a call of `stop`: the words after it, and the next access. -/
def Words.access (words : Words) (ns : UInt64) (spurious : Bool) : StopPlace → Words × StopPlace
  | .sum => ({ words with sum := words.sum + ns }, .last)
  | .last => ({ words with last := ns }, .loadMin)
  | .loadMin => (words, .casMin words.min)
  | .casMin prev =>
      if ns < prev then
        if words.min = prev ∧ spurious = false then ({ words with min := ns }, .loadMax)
        else (words, .casMin words.min)
      else (words, .loadMax)
  | .loadMax => (words, .casMax words.max)
  | .casMax prev =>
      if prev < ns then
        if words.max = prev ∧ spurious = false then ({ words with max := ns }, .bucket)
        else (words, .casMax words.max)
      else (words, .bucket)
  | .bucket => (words.tally (countsIndex ns.toNat), .count)
  | .count => ({ words with count := words.count + 1 }, .done)
  | .done => (words, .done)

namespace StatsSystem

variable {T : Type} [DecidableEq T]

/-- An object that has just been constructed. -/
def initial (T : Type) : StatsSystem T := ⟨.initial, []⟩

/-- One action. A thread makes one call at a time. -/
def act (system : StatsSystem T) : StatsAction T → Option (StatsSystem T)
  | .stop who ns =>
      if ∀ call ∈ system.calls, call.who = who → call.place = .done then
        some { system with calls := system.calls ++ [⟨who, ns, .sum⟩] }
      else none
  | .advance i spurious =>
      match system.calls[i]? with
      | none => none
      | some call =>
          if call.place = .done then none
          else
            let (words, place) := system.words.access call.ns spurious call.place
            some ⟨words, system.calls.set i { call with place := place }⟩

/-- All calls have returned. -/
def Finished (system : StatsSystem T) : Prop := ∀ call ∈ system.calls, call.place = .done

/-- The durations of the calls. -/
def samples (system : StatsSystem T) : List UInt64 := system.calls.map StopCall.ns

end StatsSystem

/-- The durations for which `stop` is called in a run. -/
def recorded {T : Type} : List (StatsAction T) → List UInt64
  | [] => []
  | .stop _ ns :: rest => ns :: recorded rest
  | .advance _ _ :: rest => recorded rest

/-! ## Totals of the calls -/

variable {T : Type}

/-- The sum of what the calls contribute. -/
def total (weight : StopCall T → ℕ) (calls : List (StopCall T)) : ℕ := (calls.map weight).sum

theorem total_snoc (weight : StopCall T → ℕ) (calls : List (StopCall T)) (call : StopCall T) :
    total weight (calls ++ [call]) = total weight calls + weight call := by
  rw [total, List.map_append, List.sum_append, List.map_singleton, List.sum_singleton]
  rfl

/-- A call that goes on contributes what it does then. -/
theorem total_set (weight : StopCall T → ℕ) {calls : List (StopCall T)} {i : ℕ}
    {call : StopCall T} (here : calls[i]? = some call) (next : StopCall T) :
    total weight (calls.set i next) + weight call = total weight calls + weight next := by
  induction calls generalizing i with
  | nil => cases here
  | cons first rest ih =>
      cases i with
      | zero =>
          cases here
          rw [List.set_cons_zero, total, total, List.map_cons, List.map_cons, List.sum_cons,
            List.sum_cons]
          omega
      | succ i =>
          have tail := ih here
          unfold total at tail ⊢
          rw [List.set_cons_succ, List.map_cons, List.map_cons, List.sum_cons, List.sum_cons]
          omega

/-- A call that goes on keeps its duration. -/
theorem map_ns_set {calls : List (StopCall T)} {i : ℕ} {call : StopCall T}
    (here : calls[i]? = some call) (next : StopPlace) :
    (calls.set i { call with place := next }).map StopCall.ns = calls.map StopCall.ns := by
  induction calls generalizing i with
  | nil => cases here
  | cons first rest ih =>
      cases i with
      | zero =>
          cases here
          rfl
      | succ i => rw [List.set_cons_succ, List.map_cons, ih here, List.map_cons]

/-- What a call has added to the sum. -/
def added (call : StopCall T) : ℕ := if 0 < call.place.rank then call.ns.toNat else 0

/-- What a call has added to a bucket. -/
def bucketed (i : ℕ) (call : StopCall T) : ℕ :=
  if 4 < call.place.rank ∧ countsIndex call.ns.toNat = i then 1 else 0

/-- What a call has added to the number of samples. -/
def numbered (call : StopCall T) : ℕ := if 5 < call.place.rank then 1 else 0

/-- A word that counts what the calls contribute. -/
def Counts (weight : StopCall T → ℕ) (word : UInt64) (calls : List (StopCall T)) : Prop :=
  word.toNat = total weight calls % 2 ^ 64

theorem Counts.snoc {weight : StopCall T → ℕ} {word : UInt64} {calls : List (StopCall T)}
    (counts : Counts weight word calls) {call : StopCall T} (none : weight call = 0) :
    Counts weight word (calls ++ [call]) := by
  unfold Counts at *
  rw [total_snoc, none, counts]
  rfl

/-- The word grows by what the call that goes on contributes more than before. -/
theorem Counts.set {weight : StopCall T → ℕ} {word after : UInt64} {calls : List (StopCall T)}
    (counts : Counts weight word calls) {i : ℕ} {call next : StopCall T}
    (here : calls[i]? = some call) {grown : ℕ} (more : weight next = weight call + grown)
    (grows : after.toNat = (word.toNat + grown) % 2 ^ 64) :
    Counts weight after (calls.set i next) := by
  have totals := total_set weight here next
  unfold Counts at *
  rw [grows, counts]
  omega

/-! ## The words that only fall or only rise -/

/-- The word is no greater than the duration. -/
def Below (word ns : UInt64) : Prop := word ≤ ns

/-- The word is no less than the duration. -/
def Above (word ns : UInt64) : Prop := ns ≤ word

theorem Below.trans (a b c : UInt64) (first : Below a b) (second : Below b c) : Below a c :=
  UInt64.le_trans first second

theorem Above.trans (a b c : UInt64) (first : Above a b) (second : Above b c) : Above a c :=
  UInt64.le_trans second first

/-- A word that is beyond the durations of the calls that are past a place, and beyond what any
call has read of it, and that is its first value or the duration of a call. -/
structure Extreme (beyond : UInt64 → UInt64 → Prop) (first : UInt64) (place : ℕ)
    (read : StopPlace → Option UInt64) (word : UInt64) (calls : List (StopCall T)) : Prop where
  past : ∀ call ∈ calls, place < call.place.rank → beyond word call.ns
  reads : ∀ call ∈ calls, ∀ prev ∈ read call.place, beyond word prev
  attained : word = first ∨ word ∈ calls.map StopCall.ns

section

variable {beyond : UInt64 → UInt64 → Prop} {first word after : UInt64} {place : ℕ}
variable {read : StopPlace → Option UInt64} {calls : List (StopCall T)}

theorem Extreme.snoc (extreme : Extreme beyond first place read word calls) (call : StopCall T)
    (early : call.place.rank ≤ place) (unread : read call.place = none) :
    Extreme beyond first place read word (calls ++ [call]) where
  past other member beyond' := by
    rcases List.mem_append.mp member with old | new
    · exact extreme.past other old beyond'
    · rw [List.mem_singleton.mp new] at beyond'
      exact absurd beyond' (Nat.not_lt.mpr early)
  reads other member prev seen := by
    rcases List.mem_append.mp member with old | new
    · exact extreme.reads other old prev seen
    · rw [List.mem_singleton.mp new, unread] at seen
      cases seen
  attained := by
    rw [List.map_append]
    exact extreme.attained.imp_right (List.mem_append_left _)

/-- The word moves on with a call that goes on. -/
theorem Extreme.set (transitive : ∀ a b c, beyond a b → beyond b c → beyond a c)
    (extreme : Extreme beyond first place read word calls) {i : ℕ} {call : StopCall T}
    (here : calls[i]? = some call) {next : StopPlace} (moves : beyond after word)
    (source : after = word ∨ after = call.ns) (past : place < next.rank → beyond after call.ns)
    (reads : ∀ prev ∈ read next, beyond after prev) :
    Extreme beyond first place read after (calls.set i { call with place := next }) where
  past other member late := by
    rcases List.mem_or_eq_of_mem_set member with old | rfl
    · exact transitive _ _ _ moves (extreme.past other old late)
    · exact past late
  reads other member prev seen := by
    rcases List.mem_or_eq_of_mem_set member with old | rfl
    · exact transitive _ _ _ moves (extreme.reads other old prev seen)
    · exact reads prev seen
  attained := by
    rw [map_ns_set here]
    rcases source with rfl | rfl
    · exact extreme.attained
    · exact .inr (List.mem_map_of_mem (List.mem_of_getElem? here))

end

/-! ## What an access does -/

/-- What the loop of the minimum has read. -/
def StopPlace.readMin : StopPlace → Option UInt64
  | .casMin prev => some prev
  | _ => none

/-- What the loop of the maximum has read. -/
def StopPlace.readMax : StopPlace → Option UInt64
  | .casMax prev => some prev
  | _ => none

/-- The words and the place after one access of a call. -/
inductive Accesses (words : Words) (ns : UInt64) : StopPlace → Words → StopPlace → Prop where
  | sum : Accesses words ns .sum { words with sum := words.sum + ns } .last
  | last : Accesses words ns .last { words with last := ns } .loadMin
  | loadMin : Accesses words ns .loadMin words (.casMin words.min)
  | lower (below : ns < words.min) :
      Accesses words ns (.casMin words.min) { words with min := ns } .loadMax
  | againMin (prev : UInt64) : Accesses words ns (.casMin prev) words (.casMin words.min)
  | leaveMin (prev : UInt64) (enough : prev ≤ ns) : Accesses words ns (.casMin prev) words .loadMax
  | loadMax : Accesses words ns .loadMax words (.casMax words.max)
  | raise (above : words.max < ns) :
      Accesses words ns (.casMax words.max) { words with max := ns } .bucket
  | againMax (prev : UInt64) : Accesses words ns (.casMax prev) words (.casMax words.max)
  | leaveMax (prev : UInt64) (enough : ns ≤ prev) : Accesses words ns (.casMax prev) words .bucket
  | bucket : Accesses words ns .bucket (words.tally (countsIndex ns.toNat)) .count
  | count : Accesses words ns .count { words with count := words.count + 1 } .done

theorem accesses_access (words : Words) (ns : UInt64) (spurious : Bool) {place : StopPlace}
    (unfinished : place ≠ .done) :
    Accesses words ns place (words.access ns spurious place).1
      (words.access ns spurious place).2 := by
  cases place with
  | sum => exact .sum
  | last => exact .last
  | loadMin => exact .loadMin
  | casMin prev =>
      simp only [Words.access]
      split_ifs with below exchanged
      · obtain ⟨rfl, _⟩ := exchanged
        exact .lower below
      · exact .againMin prev
      · exact .leaveMin prev (UInt64.not_lt.mp below)
  | loadMax => exact .loadMax
  | casMax prev =>
      simp only [Words.access]
      split_ifs with above exchanged
      · obtain ⟨rfl, _⟩ := exchanged
        exact .raise above
      · exact .againMax prev
      · exact .leaveMax prev (UInt64.not_lt.mp above)
  | bucket => exact .bucket
  | count => exact .count
  | done => exact absurd rfl unfinished

section

variable {words after : Words} {who : T} {ns : UInt64} {place next : StopPlace}

theorem Accesses.sum_grows (who : T) (accesses : Accesses words ns place after next) :
    ∃ grown, added (⟨who, ns, next⟩ : StopCall T) = added (⟨who, ns, place⟩ : StopCall T) + grown ∧
      after.sum.toNat = (words.sum.toNat + grown) % 2 ^ 64 := by
  have same : words.sum.toNat = (words.sum.toNat + 0) % 2 ^ 64 :=
    (Nat.mod_eq_of_lt words.sum.toNat_lt).symm
  cases accesses with
  | sum => exact ⟨ns.toNat, (Nat.zero_add _).symm, UInt64.toNat_add ..⟩
  | _ => exact ⟨0, rfl, same⟩

theorem Accesses.count_grows (who : T) (accesses : Accesses words ns place after next) :
    ∃ grown, numbered (⟨who, ns, next⟩ : StopCall T) =
        numbered (⟨who, ns, place⟩ : StopCall T) + grown ∧
      after.count.toNat = (words.count.toNat + grown) % 2 ^ 64 := by
  have same : words.count.toNat = (words.count.toNat + 0) % 2 ^ 64 :=
    (Nat.mod_eq_of_lt words.count.toNat_lt).symm
  cases accesses with
  | count => exact ⟨1, rfl, UInt64.toNat_add ..⟩
  | _ => exact ⟨0, rfl, same⟩

theorem Accesses.counts_grow (who : T) (accesses : Accesses words ns place after next) (i : ℕ) :
    ∃ grown, bucketed i (⟨who, ns, next⟩ : StopCall T) =
        bucketed i (⟨who, ns, place⟩ : StopCall T) + grown ∧
      (after.counts i).toNat = ((words.counts i).toNat + grown) % 2 ^ 64 := by
  have same : (words.counts i).toNat = ((words.counts i).toNat + 0) % 2 ^ 64 :=
    (Nat.mod_eq_of_lt (words.counts i).toNat_lt).symm
  cases accesses with
  | bucket =>
      by_cases here : countsIndex ns.toNat = i
      · subst here
        refine ⟨1, by simp [bucketed, StopPlace.rank], ?_⟩
        simp only [Words.tally, Function.update_self]
        exact UInt64.toNat_add ..
      · refine ⟨0, by simp [bucketed, StopPlace.rank, here], ?_⟩
        simp only [Words.tally, Function.update_of_ne (Ne.symm here)]
        exact same
  | count => exact ⟨0, by simp [bucketed, StopPlace.rank], same⟩
  | _ => exact ⟨0, rfl, same⟩

/-- The minimum falls, to the duration of the call at the most, and the loop is left only when
it is no greater than that. -/
theorem Accesses.min_falls (accesses : Accesses words ns place after next)
    (past : 2 < place.rank → Below words.min ns)
    (reads : ∀ prev ∈ place.readMin, Below words.min prev) :
    Below after.min words.min ∧ (after.min = words.min ∨ after.min = ns) ∧
      (2 < next.rank → Below after.min ns) ∧ ∀ prev ∈ next.readMin, Below after.min prev := by
  have same : Below words.min words.min := UInt64.le_refl words.min
  cases accesses with
  | lower below =>
      exact ⟨UInt64.le_of_lt below, .inr rfl, fun _ => UInt64.le_refl ns, fun _ seen => by cases seen⟩
  | leaveMin prev enough =>
      exact ⟨same, .inl rfl, fun _ => UInt64.le_trans (reads prev rfl) enough,
        fun _ seen => by cases seen⟩
  | loadMin =>
      refine ⟨same, .inl rfl, past, ?_⟩
      rintro prev ⟨⟩
      exact same
  | againMin =>
      refine ⟨same, .inl rfl, past, ?_⟩
      rintro prev ⟨⟩
      exact same
  | sum => exact ⟨same, .inl rfl, fun late => absurd late (by decide), fun _ seen => by cases seen⟩
  | last => exact ⟨same, .inl rfl, fun late => absurd late (by decide), fun _ seen => by cases seen⟩
  | _ => exact ⟨same, .inl rfl, fun _ => past (by simp [StopPlace.rank]), fun _ seen => by cases seen⟩

/-- The maximum rises, to the duration of the call at the most, and the loop is left only when
it is no less than that. -/
theorem Accesses.max_rises (accesses : Accesses words ns place after next)
    (past : 3 < place.rank → Above words.max ns)
    (reads : ∀ prev ∈ place.readMax, Above words.max prev) :
    Above after.max words.max ∧ (after.max = words.max ∨ after.max = ns) ∧
      (3 < next.rank → Above after.max ns) ∧ ∀ prev ∈ next.readMax, Above after.max prev := by
  have same : Above words.max words.max := UInt64.le_refl words.max
  cases accesses with
  | raise above =>
      exact ⟨UInt64.le_of_lt above, .inr rfl, fun _ => UInt64.le_refl ns, fun _ seen => by cases seen⟩
  | leaveMax prev enough =>
      exact ⟨same, .inl rfl, fun _ => UInt64.le_trans enough (reads prev rfl),
        fun _ seen => by cases seen⟩
  | loadMax =>
      refine ⟨same, .inl rfl, past, ?_⟩
      rintro prev ⟨⟩
      exact same
  | againMax =>
      refine ⟨same, .inl rfl, past, ?_⟩
      rintro prev ⟨⟩
      exact same
  | bucket => exact ⟨same, .inl rfl, fun _ => past (by decide), fun _ seen => by cases seen⟩
  | count => exact ⟨same, .inl rfl, fun _ => past (by decide), fun _ seen => by cases seen⟩
  | _ =>
      exact ⟨same, .inl rfl, fun late => absurd late (by simp [StopPlace.rank]),
        fun _ seen => by cases seen⟩

end

/-! ## All runs -/

namespace StatsSystem

/-- What holds after every action. -/
structure Sound (system : StatsSystem T) : Prop where
  sum : Counts added system.words.sum system.calls
  count : Counts numbered system.words.count system.calls
  counts : ∀ i, Counts (bucketed i) (system.words.counts i) system.calls
  min : Extreme Below 0xFFFFFFFFFFFFFFFF 2 StopPlace.readMin system.words.min system.calls
  max : Extreme Above 0 3 StopPlace.readMax system.words.max system.calls

variable {system after final : StatsSystem T} {action : StatsAction T}
variable {actions : List (StatsAction T)}

theorem initial_sound : (initial T).Sound where
  sum := rfl
  count := rfl
  counts _ := rfl
  min := ⟨fun _ member => absurd member List.not_mem_nil,
    fun _ member => absurd member List.not_mem_nil, .inl rfl⟩
  max := ⟨fun _ member => absurd member List.not_mem_nil,
    fun _ member => absurd member List.not_mem_nil, .inl rfl⟩

/-- A call begins. -/
theorem Sound.stop (sound : system.Sound) (who : T) (ns : UInt64) :
    Sound { system with calls := system.calls ++ [⟨who, ns, .sum⟩] } where
  sum := sound.sum.snoc rfl
  count := sound.count.snoc rfl
  counts i := (sound.counts i).snoc rfl
  min := sound.min.snoc _ (Nat.zero_le 2) rfl
  max := sound.max.snoc _ (Nat.zero_le 3) rfl

/-- A call makes an access. -/
theorem Sound.access (sound : system.Sound) {i : ℕ} {call : StopCall T}
    (here : system.calls[i]? = some call) {words : Words} {next : StopPlace}
    (accesses : Accesses system.words call.ns call.place words next) :
    Sound ⟨words, system.calls.set i { call with place := next }⟩ := by
  have member := List.mem_of_getElem? here
  obtain ⟨summed, sums, sum⟩ := accesses.sum_grows call.who
  obtain ⟨one, numbers, count⟩ := accesses.count_grows call.who
  obtain ⟨falls, least, under, readMin⟩ :=
    accesses.min_falls (sound.min.past call member) (sound.min.reads call member)
  obtain ⟨rises, most, above, readMax⟩ :=
    accesses.max_rises (sound.max.past call member) (sound.max.reads call member)
  exact {
    sum := sound.sum.set here sums sum
    count := sound.count.set here numbers count
    counts := fun bucket => by
      obtain ⟨grown, buckets, counts⟩ := accesses.counts_grow call.who bucket
      exact (sound.counts bucket).set here buckets counts
    min := sound.min.set Below.trans here falls least under readMin
    max := sound.max.set Above.trans here rises most
      above readMax }

theorem recorded_append (first second : List (StatsAction T)) :
    recorded (first ++ second) = recorded first ++ recorded second := by
  induction first with
  | nil => rfl
  | cons action rest ih =>
      cases action with
      | stop who ns => rw [List.cons_append, recorded, recorded, ih, List.cons_append]
      | advance i spurious => rw [List.cons_append, recorded, recorded, ih]

section

variable [DecidableEq T]

/-- An action begins a call, or is an access of one. -/
theorem act_cases (happens : system.act action = some after) :
    (∃ who ns, action = .stop who ns ∧
      after = { system with calls := system.calls ++ [⟨who, ns, .sum⟩] }) ∨
    ∃ i spurious call words next, action = .advance i spurious ∧ system.calls[i]? = some call ∧
      Accesses system.words call.ns call.place words next ∧
      after = ⟨words, system.calls.set i { call with place := next }⟩ := by
  cases action with
  | stop who ns =>
      rw [act] at happens
      split_ifs at happens
      cases happens
      exact .inl ⟨who, ns, rfl, rfl⟩
  | advance i spurious =>
      rw [act] at happens
      cases here : system.calls[i]? with
      | none =>
          rw [here] at happens
          cases happens
      | some call =>
          rw [here] at happens
          dsimp only at happens
          split_ifs at happens with finished
          cases happens
          exact .inr ⟨i, spurious, call, _, _, rfl, here,
            accesses_access system.words call.ns spurious finished, rfl⟩

theorem Sound.step (sound : system.Sound) (happens : system.act action = some after) :
    after.Sound := by
  rcases act_cases happens with ⟨who, ns, _, rfl⟩ | ⟨i, _, call, words, next, _, here, accesses, rfl⟩
  · exact sound.stop who ns
  · exact sound.access here accesses

/-- The durations of the calls are those that `stop` was called for. -/
theorem samples_step (happens : system.act action = some after) :
    after.samples = system.samples ++ recorded [action] := by
  rcases act_cases happens with ⟨who, ns, rfl, rfl⟩ | ⟨i, _, call, words, next, rfl, here, _, rfl⟩
  · rw [samples, List.map_append]
    rfl
  · rw [samples, map_ns_set here, recorded, recorded, List.append_nil]
    rfl

theorem samples_run (trace : Trace act (initial T) actions final) :
    final.samples = recorded actions := by
  induction trace with
  | nil => rfl
  | snoc _ happens ih => rw [samples_step happens, ih, recorded_append]

theorem sound_of_trace (trace : Trace act (initial T) actions final) : final.Sound :=
  trace.invariant Sound (fun _ _ _ sound happens => sound.step happens) initial_sound

end

/-! ## When all calls have returned -/

theorem Finished.total_eq (finished : system.Finished) {weight : StopCall T → ℕ} {final : UInt64 → ℕ}
    (done : ∀ who ns, weight ⟨who, ns, .done⟩ = final ns) :
    total weight system.calls = (system.samples.map final).sum := by
  rw [total, samples, List.map_map]
  congr 1
  refine List.map_congr_left fun call member => ?_
  have place := finished call member
  obtain ⟨who, ns, place'⟩ := call
  cases place
  exact done who ns

theorem sum_ones (samples : List UInt64) : (samples.map fun _ => 1).sum = samples.length := by
  rw [List.map_const', List.sum_replicate_nat, Nat.mul_one]

theorem sum_indicator (samples : List UInt64) (i : ℕ) :
    (samples.map fun ns => if countsIndex ns.toNat = i then 1 else 0).sum =
      samples.countP fun ns => decide (countsIndex ns.toNat = i) := by
  induction samples with
  | nil => rfl
  | cons ns samples ih =>
      rw [List.map_cons, List.sum_cons, ih, List.countP_cons, Nat.add_comm]
      simp only [decide_eq_true_eq]

/-- Every sample is in one of the buckets. -/
theorem sum_buckets (samples : List UInt64) :
    ∑ i ∈ Finset.range countsLen,
      samples.countP (fun ns => decide (countsIndex ns.toNat = i)) = samples.length := by
  induction samples with
  | nil => simp
  | cons ns samples ih =>
      have inside : countsIndex ns.toNat ∈ Finset.range countsLen :=
        Finset.mem_range.mpr (countsIndex_lt ns.toNat_lt)
      simp only [List.countP_cons, decide_eq_true_eq]
      rw [Finset.sum_add_distrib, ih, Finset.sum_ite_eq, if_pos inside, List.length_cons]

/-- The minimum over samples, when there are any. -/
theorem Sound.min_exact (sound : system.Sound) (finished : system.Finished)
    (some : system.samples ≠ []) :
    system.words.min ∈ system.samples ∧ ∀ ns ∈ system.samples, system.words.min ≤ ns := by
  have least : ∀ ns ∈ system.samples, system.words.min ≤ ns := by
    intro ns sample
    obtain ⟨call, member, rfl⟩ := List.mem_map.mp sample
    exact sound.min.past call member (by rw [finished call member]; decide)
  refine ⟨?_, least⟩
  rcases sound.min.attained with first | attained
  · obtain ⟨ns, rest, shape⟩ := List.exists_cons_of_ne_nil some
    have member : ns ∈ system.samples := by
      rw [shape]
      exact List.mem_cons_self
    have order := least ns member
    have small := ns.toNat_lt
    rw [UInt64.le_iff_toNat_le, first] at order
    have same : system.words.min = ns := by
      apply UInt64.toNat_inj.mp
      rw [first]
      change 2 ^ 64 - 1 = ns.toNat
      change 2 ^ 64 - 1 ≤ ns.toNat at order
      omega
    rw [same]
    exact member
  · exact attained

theorem Sound.max_exact (sound : system.Sound) (finished : system.Finished)
    (some : system.samples ≠ []) :
    system.words.max ∈ system.samples ∧ ∀ ns ∈ system.samples, ns ≤ system.words.max := by
  have greatest : ∀ ns ∈ system.samples, ns ≤ system.words.max := by
    intro ns sample
    obtain ⟨call, member, rfl⟩ := List.mem_map.mp sample
    exact sound.max.past call member (by rw [finished call member]; decide)
  refine ⟨?_, greatest⟩
  rcases sound.max.attained with first | attained
  · obtain ⟨ns, rest, shape⟩ := List.exists_cons_of_ne_nil some
    have member : ns ∈ system.samples := by
      rw [shape]
      exact List.mem_cons_self
    have order := greatest ns member
    rw [UInt64.le_iff_toNat_le, first] at order
    have same : system.words.max = ns := by
      apply UInt64.toNat_inj.mp
      rw [first]
      exact (Nat.le_zero.mp order).symm
    rw [same]
    exact member
  · exact attained

theorem Sound.count_exact (sound : system.Sound) (finished : system.Finished) :
    system.words.count.toNat = system.samples.length % 2 ^ 64 := by
  have counted : total numbered system.calls = (system.samples.map fun _ => 1).sum :=
    finished.total_eq fun _ _ => rfl
  rw [sound.count, counted, sum_ones]

theorem Sound.sum_exact (sound : system.Sound) (finished : system.Finished) :
    system.words.sum.toNat = (system.samples.map UInt64.toNat).sum % 2 ^ 64 := by
  have summed : total added system.calls = (system.samples.map UInt64.toNat).sum :=
    finished.total_eq fun _ _ => rfl
  rw [sound.sum, summed]

theorem Sound.counts_exact (sound : system.Sound) (finished : system.Finished) (i : ℕ) :
    (system.words.counts i).toNat =
      system.samples.countP (fun ns => decide (countsIndex ns.toNat = i)) % 2 ^ 64 := by
  have counted : total (bucketed i) system.calls =
      (system.samples.map fun ns => if countsIndex ns.toNat = i then 1 else 0).sum := by
    apply finished.total_eq
    intro who ns
    simp [bucketed, StopPlace.rank]
  rw [sound.counts i, counted, sum_indicator]

/-- Once all calls have returned, no sample is lost. The words that count are those of the number
of the samples, in all and in each bucket, and of their sum, and the minimum and the maximum are
exact. -/
theorem samples_kept [DecidableEq T] (trace : Trace act (initial T) actions final)
    (finished : final.Finished) :
    final.words.count.toNat = (recorded actions).length % 2 ^ 64 ∧
      final.words.sum.toNat = ((recorded actions).map UInt64.toNat).sum % 2 ^ 64 ∧
      (recorded actions ≠ [] →
        (final.words.min ∈ recorded actions ∧ ∀ ns ∈ recorded actions, final.words.min ≤ ns) ∧
        (final.words.max ∈ recorded actions ∧ ∀ ns ∈ recorded actions, ns ≤ final.words.max)) ∧
      (∀ i, (final.words.counts i).toNat =
        (recorded actions).countP (fun ns => decide (countsIndex ns.toNat = i)) % 2 ^ 64) ∧
      (∑ i ∈ Finset.range countsLen, (final.words.counts i).toNat) % 2 ^ 64 =
        final.words.count.toNat ∧
      ((recorded actions).length < 2 ^ 64 →
        final.words.count.toNat = (recorded actions).length ∧
        (∀ i, (final.words.counts i).toNat =
          (recorded actions).countP fun ns => decide (countsIndex ns.toNat = i)) ∧
        ∑ i ∈ Finset.range countsLen, (final.words.counts i).toNat = final.words.count.toNat) := by
  have sound := sound_of_trace trace
  have count := sound.count_exact finished
  have counts := sound.counts_exact finished
  rw [← samples_run trace]
  refine ⟨count, sound.sum_exact finished,
    fun some => ⟨sound.min_exact finished some, sound.max_exact finished some⟩, counts, ?_, ?_⟩
  · simp only [counts]
    rw [← Finset.sum_nat_mod, sum_buckets, count]
  · intro few
    have exact : ∀ i, (final.words.counts i).toNat =
        final.samples.countP fun ns => decide (countsIndex ns.toNat = i) := by
      intro i
      rw [counts i, Nat.mod_eq_of_lt (List.countP_le_length.trans_lt few)]
    rw [Nat.mod_eq_of_lt few] at count
    refine ⟨count, exact, ?_⟩
    simp only [exact]
    rw [sum_buckets, count]

/-- Two threads record 5 and 3 at a time: both read the first minimum, and the second one to
exchange it has to try again. -/
def crossing : List (StatsAction Bool) :=
  [.stop true 5, .stop false 3, .advance 0 false, .advance 1 false, .advance 0 false,
    .advance 1 false, .advance 0 false, .advance 1 false, .advance 0 false, .advance 1 false,
    .advance 1 true, .advance 1 false, .advance 0 false, .advance 1 false, .advance 0 false,
    .advance 1 false, .advance 1 false, .advance 0 false, .advance 1 false, .advance 0 false,
    .advance 1 false]

instance (system : StatsSystem T) : Decidable system.Finished :=
  inferInstanceAs (Decidable (∀ call ∈ system.calls, call.place = .done))

theorem samples_kept_crossing : ∃ final : StatsSystem Bool,
    Trace act (initial Bool) crossing final ∧ final.Finished ∧
      final.words.count.toNat = 2 % 2 ^ 64 ∧ final.words.min ∈ recorded crossing := by
  have run : (follow act (initial Bool) crossing).any
      (fun final => decide final.Finished) = true := by
    decide
  obtain ⟨final, trace, finished⟩ := Trace.exists_of_follow run
  have kept := samples_kept trace (of_decide_eq_true finished)
  exact ⟨final, trace, of_decide_eq_true finished, kept.1, (kept.2.2.1 (by decide)).1.1⟩

end StatsSystem

end Join.Stats
