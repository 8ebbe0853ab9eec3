import Join.Core.Pool

/-!
# The safety of the free list

Every chunk is in one place: in the free list, with one owner, or on its way back. A
thread that has read the head remembers a generation. The generation of the head is the
number of updates modulo `2 ^ 32`, so if fewer updates than that have happened during the
call and the head has the remembered generation, no update has happened at all: then the
list is still the one the thread has seen, and what it read from the first chunk is the
index of the second one. That is all a compare-exchange that succeeds needs.
-/

set_option autoImplicit false

namespace Join

open Library

variable {T : Type}

/-- Where a chunk is. -/
inductive ChunkPlace (T : Type) where
  | free
  | owned (who : T)
  | moving (who : T)

namespace PoolSystem

/-- The chunk is at the place, given the free list. -/
def At (system : PoolSystem T) (free : List ℕ) (chunk : ℕ) : ChunkPlace T → Prop
  | .free => chunk ∈ free
  | .owned who => chunk ∈ system.owned who
  | .moving who => (system.thread who).moving = some chunk

/-- The thread has read this head, at a moment of the call from which on the counts of
updates agree with the generation; if no update has happened since, the head is still the
same. -/
def Saw (system : PoolSystem T) (who : T) (cur : TaggedIndex) (then' : Prop) : Prop :=
  ∃ moment, system.began who ≤ moment ∧ moment ≤ system.updates ∧
    cur.gen = moment % 2 ^ 32 ∧
    (system.updates = moment → system.segment.head = cur ∧ then')

/-- The facts a thread relies on in each local state. -/
def Knows (system : PoolSystem T) (who : T) : PoolThread → Prop
  | .idle | .pop | .push _ => True
  | .popNext cur => cur.idx ≠ nullIdx ∧ system.Saw who cur True
  | .popClaim cur next =>
      cur.idx ≠ nullIdx ∧ next.gen = nextGen cur.gen ∧
        system.Saw who cur (next.idx = system.segment.next cur.idx)
  | .pushLink _ cur => system.Saw who cur True
  | .pushClaim chunk cur => system.segment.next chunk = cur.idx ∧ system.Saw who cur True

/-- The invariant, with the free list and the place of every chunk. -/
structure Good (count : ℕ) (system : PoolSystem T) (free : List ℕ) (place : ℕ → ChunkPlace T) :
    Prop where
  few : count ≤ nullIdx
  links : Linked nullIdx system.segment.next system.segment.head.idx free
  freeNodup : free.Nodup
  ownedNodup : ∀ who, (system.owned who).Nodup
  places : ∀ chunk at', system.At free chunk at' ↔ chunk < count ∧ place chunk = at'
  gen : system.segment.head.gen = system.updates % 2 ^ 32
  began : ∀ who, system.began who ≤ system.updates
  knows : ∀ who, system.Knows who (system.thread who)

variable {count : ℕ} {system : PoolSystem T} {free : List ℕ} {place : ℕ → ChunkPlace T}

theorem Good.not_null (good : system.Good count free place) {chunk : ℕ} (member : chunk ∈ free) :
    chunk ≠ nullIdx := by
  have small := ((good.places chunk .free).mp member).1
  have few := good.few
  omega

/-- Two places of one chunk are the same. -/
theorem Good.place_eq (good : system.Good count free place) {chunk : ℕ}
    {first second : ChunkPlace T} (left : system.At free chunk first)
    (right : system.At free chunk second) : first = second :=
  ((good.places chunk first).mp left).2.symm.trans ((good.places chunk second).mp right).2

theorem initial_good (positive : 0 < count) (few : count ≤ nullIdx) (memory : ℕ → ℕ) :
    (initial T count memory).Good count (List.range' 0 count) fun _ => .free where
  few := few
  links := by
    refine Linked.range' count (fun i _ inside => ?_) ?_ positive
    · change i + 1 < 0 + count at inside
      simp only [initial, PoolSegment.initial]
      rw [if_pos (by omega)]
    · simp only [initial, PoolSegment.initial]
      rw [if_neg (by omega), if_pos (by omega)]
  freeNodup := List.nodup_range'
  ownedNodup := fun _ => List.nodup_nil
  places := by
    intro chunk at'
    cases at' with
    | free => simp [At, List.mem_range'_1]
    | owned who => simp [At, initial]
    | moving who => simp [At, initial, PoolThread.moving]
  gen := rfl
  began := fun _ => Nat.le_refl _
  knows := fun _ => trivial

/-! ## The steps of others -/

/-- What a thread relies on, stated of two systems: the updates grow, and while they do not
the head and the successors in the free list stay; the successor of a chunk on its way back
stays. -/
structure Keeps (before after : PoolSystem T) (free : List ℕ) (who : T) : Prop where
  updates : before.updates ≤ after.updates
  began : after.began who = before.began who
  head : after.updates = before.updates → after.segment.head = before.segment.head
  next : after.updates = before.updates → ∀ chunk ∈ free,
    after.segment.next chunk = before.segment.next chunk
  own : ∀ chunk, (before.thread who).moving = some chunk →
    after.segment.next chunk = before.segment.next chunk

theorem Saw.keeps {after : PoolSystem T} {who : T} {cur : TaggedIndex} {fact fact' : Prop}
    (saw : system.Saw who cur fact) (keeps : Keeps system after free who)
    (still : after.updates = system.updates → system.segment.head = cur → fact → fact') :
    after.Saw who cur fact' := by
  obtain ⟨moment, since, past, same, then'⟩ := saw
  have more := keeps.updates
  refine ⟨moment, by rw [keeps.began]; exact since, by omega, same, fun equal => ?_⟩
  have unchanged : after.updates = system.updates := by omega
  obtain ⟨head, known⟩ := then' (by omega)
  exact ⟨(keeps.head unchanged).trans head, still unchanged head known⟩

/-- A step of another thread keeps what a thread knows. -/
theorem Good.knows_of_keeps (good : system.Good count free place) {after : PoolSystem T} {who : T}
    (keeps : Keeps system after free who) : after.Knows who (system.thread who) := by
  have knows := good.knows who
  have own := keeps.own
  cases now : system.thread who with
  | idle => trivial
  | pop => trivial
  | push chunk => trivial
  | popNext cur =>
      rw [now] at knows
      exact ⟨knows.1, knows.2.keeps keeps fun _ _ _ => trivial⟩
  | popClaim cur next =>
      rw [now] at knows
      obtain ⟨inner, gen, saw⟩ := knows
      refine ⟨inner, gen, saw.keeps keeps fun unchanged head fact => ?_⟩
      obtain ⟨rest, list, _⟩ := good.links.exists_cons (by rw [head]; exact inner)
      rw [keeps.next unchanged cur.idx (by rw [list, head]; exact List.mem_cons_self ..)]
      exact fact
  | pushLink chunk cur =>
      rw [now] at knows
      exact knows.keeps keeps fun _ _ _ => trivial
  | pushClaim chunk cur =>
      rw [now] at knows own
      refine ⟨?_, knows.2.keeps keeps fun _ _ _ => trivial⟩
      rw [own chunk rfl]
      exact knows.1

/-! ## What a successful compare-exchange means -/

/-- If the head is the one a timely thread has read, no update has happened since. -/
theorem Good.unchanged (good : system.Good count free place) {who : T} {cur : TaggedIndex}
    {fact : Prop} (timely : system.updates < system.began who + 2 ^ 32)
    (saw : system.Saw who cur fact) (head : system.segment.head = cur) : fact := by
  obtain ⟨moment, since, past, same, then'⟩ := saw
  have gen := good.gen
  rw [head, same] at gen
  exact (then' (by omega)).2

/-! ## The steps of a thread -/

/-- A chunk changes its place and the others stay. -/
theorem places_update {before after : ℕ → ChunkPlace T → Prop} {chunk : ℕ}
    {destination : ChunkPlace T}
    (places : ∀ other at', before other at' ↔ other < count ∧ place other = at')
    (small : chunk < count)
    (others : ∀ other, other ≠ chunk → ∀ at', after other at' ↔ before other at')
    (here : ∀ at', after chunk at' ↔ destination = at') :
    ∀ other at', after other at' ↔
      other < count ∧ Function.update place chunk destination other = at' := by
  intro other at'
  by_cases same : other = chunk
  · subst same
    rw [here, Function.update_self]
    exact (and_iff_right small).symm
  · rw [others other same, places, Function.update_of_ne same]

variable [DecidableEq T]

/-- Only the local state of one thread changes, and not the chunk it is putting back. -/
theorem Good.quiet (good : system.Good count free place) {who : T} {next : PoolThread}
    (same : next.moving = (system.thread who).moving) (knows : system.Knows who next) :
    Good count { system with thread := Function.update system.thread who next } free place :=
  { good with
    places := by
      intro chunk at'
      rw [← good.places chunk at']
      cases at' with
      | free => rfl
      | owned other => rfl
      | moving other =>
          simp only [At]
          by_cases self : other = who
          · rw [self, Function.update_self, same]
          · rw [Function.update_of_ne self]
    knows := by
      intro other
      by_cases self : other = who
      · subst self
        simp only [Function.update_self]
        exact knows
      · simp only [Function.update_of_ne self]
        exact good.knows other }

/-- A thread that has just read the head knows it. -/
theorem Good.saw_head (good : system.Good count free place) (who : T) :
    system.Saw who system.segment.head True :=
  ⟨system.updates, good.began who, Nat.le_refl _, good.gen, fun _ => ⟨rfl, trivial⟩⟩

/-- The head of the loop of `pop`: it gives up only when the list is empty. -/
theorem Good.look (good : system.Good count free place) {who : T}
    (still : (system.thread who).moving = none) :
    Good count
      { system with
        thread := Function.update system.thread who
          (PoolThread.look system.segment system.segment.head).next } free place := by
  unfold PoolThread.look
  split_ifs with null
  · exact good.quiet still.symm trivial
  · exact good.quiet still.symm ⟨null, good.saw_head who⟩

/-- A step of a thread changes the successor of the chunk it is putting back. -/
theorem Good.link (good : system.Good count free place) {who : T} {chunk : ℕ}
    {cur : TaggedIndex} (now : system.thread who = .pushLink chunk cur) :
    Good count
      { system with
        segment :=
          { system.segment with next := Function.update system.segment.next chunk cur.idx }
        thread := Function.update system.thread who (.pushClaim chunk cur) } free place := by
  have moves : system.At free chunk (.moving who) := by simp [At, now, PoolThread.moving]
  have apart : ∀ other ∈ free, other ≠ chunk := by
    rintro other member rfl
    have there : system.At free other .free := member
    cases good.place_eq there moves
  have knows := good.knows who
  rw [now] at knows
  have keeps : ∀ other, other ≠ who → Keeps system
      { system with
        segment :=
          { system.segment with next := Function.update system.segment.next chunk cur.idx }
        thread := Function.update system.thread who (.pushClaim chunk cur) } free other := by
    intro other different
    refine ⟨Nat.le_refl _, rfl, fun _ => rfl, fun _ cell member => ?_, fun cell moving => ?_⟩
    · exact Function.update_of_ne (apart cell member) _ _
    · refine Function.update_of_ne ?_ _ _
      rintro rfl
      have elsewhere : system.At free cell (.moving other) := moving
      cases good.place_eq elsewhere moves
      exact different rfl
  exact {
    few := good.few
    links := good.links.congr fun cell member => Function.update_of_ne (apart cell member) _ _
    freeNodup := good.freeNodup
    ownedNodup := good.ownedNodup
    places := by
      intro other at'
      rw [← good.places other at']
      cases at' with
      | free => rfl
      | owned someone => rfl
      | moving someone =>
          simp only [At]
          by_cases self : someone = who
          · rw [self, Function.update_self, now]
            rfl
          · rw [Function.update_of_ne self]
    gen := good.gen
    began := good.began
    knows := by
      intro other
      by_cases self : other = who
      · subst self
        simp only [Function.update_self]
        refine ⟨Function.update_self .., ?_⟩
        exact knows
      · simp only [Function.update_of_ne self]
        exact good.knows_of_keeps (keeps other self) }

/-- The first chunk of the list is handed out. -/
theorem Good.take (good : system.Good count free place)
    {who : T} {next : TaggedIndex} (timely : system.updates < system.began who + 2 ^ 32)
    (now : system.thread who = .popClaim system.segment.head next) :
    ∃ rest, Good count
      { system with
        segment := { system.segment with head := next }
        thread := Function.update system.thread who .idle
        owned := Function.update system.owned who
          (system.segment.head.idx :: system.owned who)
        updates := system.updates + 1 } rest
      (Function.update place system.segment.head.idx (.owned who)) := by
  have knows := good.knows who
  rw [now] at knows
  obtain ⟨inner, gen, saw⟩ := knows
  have successor := good.unchanged timely saw rfl
  obtain ⟨rest, list, links⟩ := good.links.exists_cons inner
  have first : system.segment.head.idx ∈ free := by
    rw [list]
    exact List.mem_cons_self ..
  have here : system.At free system.segment.head.idx .free := first
  have nodup := good.freeNodup
  rw [list, List.nodup_cons] at nodup
  have notOwned : ∀ someone, system.segment.head.idx ∉ system.owned someone := by
    intro someone member
    have there : system.At free system.segment.head.idx (.owned someone) := member
    cases good.place_eq here there
  have keeps : ∀ other, Keeps system
      { system with
        segment := { system.segment with head := next }
        thread := Function.update system.thread who .idle
        owned := Function.update system.owned who
          (system.segment.head.idx :: system.owned who)
        updates := system.updates + 1 } free other := by
    intro other
    refine ⟨Nat.le_succ _, rfl, fun same => ?_, fun same => ?_, fun _ _ => rfl⟩
    · exact absurd same (Nat.succ_ne_self _)
    · exact absurd same (Nat.succ_ne_self _)
  refine ⟨rest, ?_⟩
  exact {
    few := good.few
    links := by
      simp only [successor]
      exact links
    freeNodup := nodup.2
    ownedNodup := by
      intro other
      by_cases self : other = who
      · subst self
        simp only [Function.update_self]
        exact List.nodup_cons.mpr ⟨notOwned other, good.ownedNodup other⟩
      · simp only [Function.update_of_ne self]
        exact good.ownedNodup other
    places := by
      refine places_update good.places ((good.places _ .free).mp here).1 ?_ ?_
      · intro other different at'
        cases at' with
        | free => simp [At, list, different]
        | owned someone =>
            by_cases self : someone = who
            · simp [At, self, different]
            · simp [At, self]
        | moving someone =>
            by_cases self : someone = who
            · simp [At, self, now, PoolThread.moving]
            · simp [At, self]
      · intro at'
        cases at' with
        | free => simp [At, nodup.1]
        | owned someone =>
            by_cases self : someone = who
            · simp [At, self]
            · simp [At, self, notOwned someone, Ne.symm self]
        | moving someone =>
            simp only [At, reduceCtorEq, iff_false]
            by_cases self : someone = who
            · simp [self, PoolThread.moving]
            · intro moving
              rw [Function.update_of_ne self] at moving
              have there : system.At free system.segment.head.idx (.moving someone) := moving
              cases good.place_eq here there
    gen := by
      simp only [gen, nextGen, good.gen]
      omega
    began := fun other => Nat.le_succ_of_le (good.began other)
    knows := by
      intro other
      by_cases self : other = who
      · subst self
        simp only [Function.update_self]
        trivial
      · simp only [Function.update_of_ne self]
        exact good.knows_of_keeps (keeps other) }

/-- A chunk becomes the first of the list. -/
theorem Good.put (good : system.Good count free place) {who : T} {chunk : ℕ}
    (now : system.thread who = .pushClaim chunk system.segment.head) :
    Good count
      { system with
        segment := { system.segment with head := ⟨chunk, nextGen system.segment.head.gen⟩ }
        thread := Function.update system.thread who .idle
        updates := system.updates + 1 } (chunk :: free)
      (Function.update place chunk .free) := by
  have knows := good.knows who
  rw [now] at knows
  have moves : system.At free chunk (.moving who) := by simp [At, now, PoolThread.moving]
  have absent : chunk ∉ free := by
    intro member
    have there : system.At free chunk .free := member
    cases good.place_eq there moves
  have keeps : ∀ other, Keeps system
      { system with
        segment := { system.segment with head := ⟨chunk, nextGen system.segment.head.gen⟩ }
        thread := Function.update system.thread who .idle
        updates := system.updates + 1 } free other := by
    intro other
    refine ⟨Nat.le_succ _, rfl, fun same => ?_, fun same => ?_, fun _ _ => rfl⟩
    · exact absurd same (Nat.succ_ne_self _)
    · exact absurd same (Nat.succ_ne_self _)
  exact {
    few := good.few
    links := by
      refine ⟨rfl, ?_⟩
      simp only [knows.1]
      exact good.links
    freeNodup := List.nodup_cons.mpr ⟨absent, good.freeNodup⟩
    ownedNodup := good.ownedNodup
    places := by
      refine places_update good.places ((good.places _ _).mp moves).1 ?_ ?_
      · intro other different at'
        cases at' with
        | free => simp [At, different]
        | owned someone => rfl
        | moving someone =>
            by_cases self : someone = who
            · simp [At, self, now, PoolThread.moving, Ne.symm different]
            · simp [At, self]
      · intro at'
        cases at' with
        | free => simp [At]
        | owned someone =>
            simp only [At, reduceCtorEq, iff_false]
            intro member
            have there : system.At free chunk (.owned someone) := member
            cases good.place_eq there moves
        | moving someone =>
            simp only [At, reduceCtorEq, iff_false]
            by_cases self : someone = who
            · simp [self, PoolThread.moving]
            · intro moving
              rw [Function.update_of_ne self] at moving
              have there : system.At free chunk (.moving someone) := moving
              cases good.place_eq there moves
              exact self rfl
    gen := by
      simp only [nextGen, good.gen]
      omega
    began := fun other => Nat.le_succ_of_le (good.began other)
    knows := by
      intro other
      by_cases self : other = who
      · subst self
        simp only [Function.update_self]
        trivial
      · simp only [Function.update_of_ne self]
        exact good.knows_of_keeps (keeps other) }

/-- A step that neither hands out a chunk nor updates the head. -/
theorem act_step_of_quiet {who : T} {weak : Bool} {turn : PoolTurn}
    (turns : (system.thread who).step weak system.segment = turn)
    (hands : PoolReply.handsOut turn.reply = []) (updates : PoolReply.updates turn.reply = 0) :
    system.act (.step who weak) =
      some { system with
        segment := turn.memory
        thread := Function.update system.thread who turn.next } := by
  simp only [act, turns, hands, updates, List.nil_append, Nat.add_zero, Function.update_eq_self]

theorem handsOut_look (segment : PoolSegment) (cur : TaggedIndex) :
    PoolReply.handsOut (PoolThread.look segment cur).reply = [] ∧
      PoolReply.updates (PoolThread.look segment cur).reply = 0 ∧
      (PoolThread.look segment cur).memory = segment := by
  unfold PoolThread.look
  split_ifs <;> exact ⟨rfl, rfl, rfl⟩

/-- A step of `pop` that reads the head again. -/
theorem Good.look_step (good : system.Good count free place) {who : T} {weak : Bool}
    {after : PoolSystem T} (still : (system.thread who).moving = none)
    (turns : (system.thread who).step weak system.segment =
      PoolThread.look system.segment system.segment.head)
    (step : system.act (.step who weak) = some after) : after.Good count free place := by
  obtain ⟨hands, updates, memory⟩ := handsOut_look system.segment system.segment.head
  rw [act_step_of_quiet turns hands updates, Option.some.injEq] at step
  subst step
  rw [memory]
  exact good.look still

/-- Every step of a timely thread keeps the invariant. -/
theorem Good.step (good : system.Good count free place) {who : T} {weak : Bool}
    {after : PoolSystem T} (timely : system.Timely)
    (step : system.act (.step who weak) = some after) :
    ∃ free place, after.Good count free place := by
  have busy := timely who
  cases now : system.thread who with
  | idle =>
      rw [act_step_of_quiet (by rw [now]) rfl rfl, Option.some.injEq] at step
      subst step
      exact ⟨free, place, good.quiet (by rw [now]; rfl) trivial⟩
  | pop =>
      exact ⟨free, place, good.look_step (by rw [now]; rfl) (by rw [now]; rfl) step⟩
  | popNext cur =>
      rw [act_step_of_quiet (by rw [now]) rfl rfl, Option.some.injEq] at step
      subst step
      have knows := good.knows who
      rw [now] at knows
      obtain ⟨inner, moment, since, past, gen, then'⟩ := knows
      exact ⟨free, place, good.quiet (by rw [now]; rfl)
        ⟨inner, rfl, moment, since, past, gen, fun same => ⟨(then' same).1, rfl⟩⟩⟩
  | popClaim cur next =>
      by_cases succeeds : system.segment.head = cur ∧ weak = false
      · obtain ⟨rfl, rfl⟩ := succeeds
        obtain ⟨rest, taken⟩ := good.take (busy (by rw [now]; simp)) now
        refine ⟨rest, Function.update place system.segment.head.idx (.owned who), ?_⟩
        simp only [act, now, PoolThread.step, and_self, if_true, Turn.finish,
          Option.some.injEq] at step
        subst step
        exact taken
      · refine ⟨free, place, good.look_step (by rw [now]; rfl) ?_ step⟩
        rw [now]
        exact if_neg succeeds
  | push chunk =>
      rw [act_step_of_quiet (by rw [now]) rfl rfl, Option.some.injEq] at step
      subst step
      exact ⟨free, place, good.quiet (by rw [now]; rfl) (good.saw_head who)⟩
  | pushLink chunk cur =>
      rw [act_step_of_quiet (by rw [now]) rfl rfl, Option.some.injEq] at step
      subst step
      exact ⟨free, place, good.link now⟩
  | pushClaim chunk cur =>
      by_cases succeeds : system.segment.head = cur ∧ weak = false
      · obtain ⟨rfl, rfl⟩ := succeeds
        refine ⟨chunk :: free, Function.update place chunk .free, ?_⟩
        simp only [act, now, PoolThread.step, and_self, if_true, Turn.finish, Option.some.injEq,
          PoolReply.handsOut, List.nil_append, Function.update_eq_self] at step
        subst step
        exact good.put now
      · have turns : (system.thread who).step weak system.segment =
            .goOn system.segment (.pushLink chunk system.segment.head) := by
          rw [now]
          exact if_neg succeeds
        rw [act_step_of_quiet turns rfl rfl, Option.some.injEq] at step
        subst step
        exact ⟨free, place, good.quiet (by rw [now]; rfl) (good.saw_head who)⟩

/-! ## Calls and owners -/

theorem Good.pop (good : system.Good count free place) {who : T} {after : PoolSystem T}
    (step : system.act (.pop who) = some after) : after.Good count free place := by
  simp only [act] at step
  split_ifs at step with idle
  cases step
  have started : Good count { system with thread := Function.update system.thread who .pop } free
      place := good.quiet (by rw [idle]; rfl) trivial
  refine { started with
    began := ?_
    knows := ?_ }
  · intro other
    by_cases self : other = who
    · simp [self]
    · simp only [Function.update_of_ne self]
      exact good.began other
  · intro other
    by_cases self : other = who
    · subst self
      simp only [Function.update_self]
      trivial
    · simp only [Function.update_of_ne self]
      have keeps : Keeps system
          { system with
            thread := Function.update system.thread who .pop
            began := Function.update system.began who system.updates } free other :=
        ⟨Nat.le_refl _, Function.update_of_ne self _ _, fun _ => rfl, fun _ _ _ => rfl,
          fun _ _ => rfl⟩
      exact good.knows_of_keeps keeps

/-- A chunk that is put back leaves its owner. -/
theorem Good.push (good : system.Good count free place) {who : T} {chunk : ℕ}
    {after : PoolSystem T} (step : system.act (.push who chunk) = some after) :
    ∃ free place, after.Good count free place := by
  simp only [act] at step
  split_ifs at step with enabled
  cases step
  obtain ⟨idle, mine⟩ := enabled
  have here : system.At free chunk (.owned who) := mine
  refine ⟨free, Function.update place chunk (.moving who), ?_⟩
  exact {
    few := good.few
    links := good.links
    freeNodup := good.freeNodup
    ownedNodup := by
      intro other
      by_cases self : other = who
      · subst self
        simp only [Function.update_self]
        exact (good.ownedNodup other).erase chunk
      · simp only [Function.update_of_ne self]
        exact good.ownedNodup other
    places := by
      refine places_update good.places ((good.places _ _).mp here).1 ?_ ?_
      · intro other different at'
        cases at' with
        | free => rfl
        | owned someone =>
            by_cases self : someone = who
            · simp [At, self, List.mem_erase_of_ne different]
            · simp [At, self]
        | moving someone =>
            by_cases self : someone = who
            · simp [At, self, idle, PoolThread.moving, Ne.symm different]
            · simp [At, self]
      · intro at'
        cases at' with
        | free =>
            simp only [At, reduceCtorEq, iff_false]
            intro member
            have there : system.At free chunk .free := member
            cases good.place_eq there here
        | owned someone =>
            simp only [At, reduceCtorEq, iff_false]
            by_cases self : someone = who
            · subst self
              simp only [Function.update_self]
              exact (good.ownedNodup someone).not_mem_erase
            · intro member
              rw [Function.update_of_ne self] at member
              have there : system.At free chunk (.owned someone) := member
              cases good.place_eq there here
              exact self rfl
        | moving someone =>
            by_cases self : someone = who
            · simp [At, self, PoolThread.moving]
            · simp only [At, Function.update_of_ne self, ChunkPlace.moving.injEq]
              constructor
              · intro moving
                have there : system.At free chunk (.moving someone) := moving
                cases good.place_eq there here
              · intro same
                exact absurd same.symm self
    gen := good.gen
    began := by
      intro other
      by_cases self : other = who
      · simp [self]
      · simp only [Function.update_of_ne self]
        exact good.began other
    knows := by
      intro other
      by_cases self : other = who
      · subst self
        simp only [Function.update_self]
        trivial
      · simp only [Function.update_of_ne self]
        have keeps : Keeps system
            { system with
              thread := Function.update system.thread who (.push chunk)
              owned := Function.update system.owned who ((system.owned who).erase chunk)
              began := Function.update system.began who system.updates } free other :=
          ⟨Nat.le_refl _, Function.update_of_ne self _ _, fun _ => rfl, fun _ _ _ => rfl,
            fun _ _ => rfl⟩
        exact good.knows_of_keeps keeps }

/-- What an owner writes over its chunk concerns nobody. -/
theorem Good.scribble (good : system.Good count free place) {who : T} {chunk value : ℕ}
    {after : PoolSystem T} (step : system.act (.scribble who chunk value) = some after) :
    after.Good count free place := by
  simp only [act] at step
  split_ifs at step with mine
  cases step
  have here : system.At free chunk (.owned who) := mine
  have apart : ∀ other ∈ free, other ≠ chunk := by
    rintro other member rfl
    have there : system.At free other .free := member
    cases good.place_eq there here
  refine { good with
    links := good.links.congr fun cell member => Function.update_of_ne (apart cell member) _ _
    knows := fun other => good.knows_of_keeps ⟨Nat.le_refl _, rfl, fun _ => rfl, ?_, ?_⟩ }
  · exact fun _ cell member => Function.update_of_ne (apart cell member) _ _
  · intro cell moving
    refine Function.update_of_ne ?_ _ _
    rintro rfl
    have there : system.At free cell (.moving other) := moving
    cases good.place_eq there here

/-- A chunk changes its owner. -/
theorem Good.give (good : system.Good count free place) {who other : T} {chunk : ℕ}
    {after : PoolSystem T} (step : system.act (.give who other chunk) = some after) :
    ∃ place, after.Good count free place := by
  simp only [act] at step
  split_ifs at step with enabled
  cases step
  obtain ⟨mine, different⟩ := enabled
  have here : system.At free chunk (.owned who) := mine
  have elsewhere : ∀ someone, chunk ∈ system.owned someone → someone = who := by
    intro someone member
    have there : system.At free chunk (.owned someone) := member
    cases good.place_eq there here
    rfl
  refine ⟨Function.update place chunk (.owned other), ?_⟩
  exact { good with
    ownedNodup := by
      intro someone
      by_cases isOther : someone = other
      · subst isOther
        simp only [Function.update_self]
        refine List.nodup_cons.mpr ⟨fun member => ?_, good.ownedNodup someone⟩
        exact different (elsewhere someone member).symm
      · simp only [Function.update_of_ne isOther]
        by_cases self : someone = who
        · subst self
          simp only [Function.update_self]
          exact (good.ownedNodup someone).erase chunk
        · simp only [Function.update_of_ne self]
          exact good.ownedNodup someone
    places := by
      refine places_update good.places ((good.places _ _).mp here).1 ?_ ?_
      · intro cell apart at'
        cases at' with
        | free => rfl
        | moving someone => rfl
        | owned someone =>
            by_cases isOther : someone = other
            · simp [At, isOther, apart]
            · by_cases self : someone = who
              · subst self
                simp [At, different, List.mem_erase_of_ne apart]
              · simp [At, isOther, self]
      · intro at'
        cases at' with
        | free =>
            simp only [At, reduceCtorEq, iff_false]
            intro member
            have there : system.At free chunk .free := member
            cases good.place_eq there here
        | moving someone =>
            simp only [At, reduceCtorEq, iff_false]
            intro moving
            have there : system.At free chunk (.moving someone) := moving
            cases good.place_eq there here
        | owned someone =>
            by_cases isOther : someone = other
            · simp [At, isOther]
            · simp only [At, Function.update_of_ne isOther, ChunkPlace.owned.injEq]
              constructor
              · intro member
                by_cases self : someone = who
                · subst self
                  rw [Function.update_self] at member
                  exact absurd member (good.ownedNodup someone).not_mem_erase
                · rw [Function.update_of_ne self] at member
                  exact absurd (elsewhere someone member) self
              · intro same
                exact absurd same.symm isOther }

/-- Every action of timely threads keeps the invariant. -/
theorem Good.act (good : system.Good count free place) (timely : system.Timely)
    {action : PoolAction T} {after : PoolSystem T} (step : system.act action = some after) :
    ∃ free place, after.Good count free place := by
  cases action with
  | pop who => exact ⟨free, place, good.pop step⟩
  | push who chunk => exact good.push step
  | step who weak => exact good.step timely step
  | scribble who chunk value => exact ⟨free, place, good.scribble step⟩
  | give who other chunk =>
      obtain ⟨place, next⟩ := good.give step
      exact ⟨free, place, next⟩

/-! ## What the threads are promised -/

/-- The safety of the pool at one moment, with the chunks that are reachable from the head:
they form a list without repetition that ends, every chunk is in exactly one place, and a
`pop` that gives up does so at a moment at which the list is empty. -/
structure Safe (count : ℕ) (system : PoolSystem T) (free : List ℕ) : Prop where
  links : Linked nullIdx system.segment.next system.segment.head.idx free
  freeNodup : free.Nodup
  ownedNodup : ∀ who, (system.owned who).Nodup
  place : ∀ chunk < count, ∃! at', system.At free chunk at'
  chunk : ∀ chunk at', system.At free chunk at' → chunk < count
  fails : ∀ who weak,
    ((system.thread who).step weak system.segment).reply = some (.popped none) → free = []

/-- A `pop` gives up only when the head that it reads is the null index. -/
theorem head_of_fails {now : PoolThread} {weak : Bool} {segment : PoolSegment}
    (fails : (now.step weak segment).reply = some (.popped none)) :
    segment.head.idx = nullIdx := by
  have look : (PoolThread.look segment segment.head).reply = some (.popped none) →
      segment.head.idx = nullIdx := by
    intro returned
    unfold PoolThread.look at returned
    split_ifs at returned with null
    · exact null
    · cases returned
  cases now with
  | pop => exact look fails
  | popClaim cur next =>
      simp only [PoolThread.step] at fails
      split_ifs at fails
      · cases fails
      · exact look fails
  | pushClaim chunk cur =>
      simp only [PoolThread.step] at fails
      split_ifs at fails
      · cases fails
      · cases fails
  | _ => cases fails

omit [DecidableEq T] in
theorem Good.safe (good : system.Good count free place) : system.Safe count free where
  links := good.links
  freeNodup := good.freeNodup
  ownedNodup := good.ownedNodup
  place := by
    intro chunk small
    refine ⟨place chunk, (good.places chunk _).mpr ⟨small, rfl⟩, fun at' there => ?_⟩
    exact ((good.places chunk at').mp there).2.symm
  chunk := fun chunk at' there => ((good.places chunk at').mp there).1
  fails := by
    intro who weak returned
    have links := good.links
    rw [head_of_fails returned] at links
    exact links.eq_nil fun cell member => good.not_null member

/-- The free list is safe for any number of threads, however their steps interleave, as
long as fewer updates of the head than there are generations happen during a call. -/
theorem pool_safe (count : ℕ) (positive : 0 < count) (few : count ≤ nullIdx) (memory : ℕ → ℕ)
    (run : Run (initial T count memory) system) : ∃ free, system.Safe count free := by
  have invariant : ∃ free place, system.Good count free place := by
    induction run with
    | refl => exact ⟨_, _, initial_good positive few memory⟩
    | tail _ step ih =>
        obtain ⟨timely, action, step⟩ := step
        obtain ⟨free, place, good⟩ := ih
        exact good.act timely step
  obtain ⟨free, place, good⟩ := invariant
  exact ⟨free, good.safe⟩

/-! ## A run -/

/-- Perform actions one after the other. -/
def perform : PoolSystem T → List (PoolAction T) → Option (PoolSystem T)
  | system, [] => some system
  | system, action :: rest => (system.act action).bind fun next => perform next rest

/-- An action updates the head once at most. -/
theorem updates_act {action : PoolAction T} {after : PoolSystem T}
    (step : system.act action = some after) : after.updates ≤ system.updates + 1 := by
  cases action with
  | step who weak =>
      cases step
      refine Nat.add_le_add_left ?_ _
      unfold PoolReply.updates
      split <;> omega
  | _ =>
      simp only [act] at step
      split_ifs at step
      cases step
      exact Nat.le_succ _

/-- Short scripts are timely. -/
theorem run_of_perform {actions : List (PoolAction T)} {after : PoolSystem T}
    (short : system.updates + actions.length < 2 ^ 32)
    (performed : system.perform actions = some after) : Run system after := by
  induction actions generalizing system with
  | nil =>
      cases performed
      exact .refl
  | cons action rest ih =>
      obtain ⟨next, step, remaining⟩ := Option.bind_eq_some_iff.mp performed
      rw [List.length_cons] at short
      have bound := updates_act step
      refine .head ⟨fun who _ => ?_, action, step⟩ (ih (by omega) remaining)
      omega

/-- A slow `pop` has read the head and the second chunk. Another thread takes both chunks,
writes over them and puts the first one back. -/
def slowPop : List (PoolAction Bool) :=
  List.flatten [[.pop false, .step false false, .step false false],
    [.pop true], List.replicate 3 (.step true false),
    [.pop true], List.replicate 3 (.step true false),
    [.scribble true 0 7, .scribble true 1 9, .push true 0],
    List.replicate 3 (.step true false), List.replicate 3 (.step false false)]

/-- The head has the old index again but not the old generation, the compare-exchange fails, and
the list is not spoilt. -/
theorem pool_safe_aba :
    ∃ system : PoolSystem Bool, system.owned false = [0] ∧ system.owned true = [1] ∧
      ∃ free, system.Safe 2 free := by
  have run : (((initial Bool 2 fun _ => 0).perform slowPop).any fun system =>
      system.owned false == [0] && system.owned true == [1]) = true := by
    decide +kernel
  obtain ⟨system, performed, tested⟩ := (Option.any_eq_true ..).mp run
  simp only [Bool.and_eq_true, beq_iff_eq] at tested
  exact ⟨system, tested.1, tested.2, pool_safe 2 (by decide) (by decide) (fun _ => 0)
    (run_of_perform (by decide) performed)⟩

end PoolSystem

end Join
