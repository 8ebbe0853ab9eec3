import Mathlib.Data.Int.Notation
import Join.Library.Ownership
import Join.Library.Trace

/-!
# The file cache

`Cache` maps files into memory and keeps the mappings by the names of the files. `get` looks at
the file before it takes the mutex. Under the mutex it gives out the mapping that it has, when the
file has not changed since, or replaces it; `remove` and `clear` take mappings away.

The kernel puts a mapping at any address where there is none, so an address may be used again.
-/

set_option autoImplicit false

namespace Join

open Library

/-- What `stat` tells of a regular file: its size and the time of its last change. -/
structure FileStat where
  size : ℕ
  ctime : ℤ × ℤ
deriving DecidableEq

/-- `CacheEntry`. -/
structure CacheEntry where
  size : ℕ
  modifTime : ℤ × ℤ
  addr : ℕ
deriving DecidableEq

/-- What a thread does with the cache. -/
inductive CacheAction (Thread Name : Type)
  /-- `get` calls `stat`, and the file is there and no directory. -/
  | stat (thread : Thread) (name : Name) (sbuf : FileStat)
  /-- The rest of `get`: where `mmap` puts the file, if `open` and `mmap` succeed. -/
  | get (thread : Thread) (mapped : Option ℕ)
  | remove (name : Name)
  | clear

/-- The entries, the sizes of the mappings of the process, what each thread has seen that is in
front of the mutex, what its last `get` returned, and whether an address was unmapped where nothing
of the size was mapped. -/
structure CacheSystem (Thread Name : Type) where
  entries : List (Name × CacheEntry)
  mapped : ℕ → Option ℕ
  looked : Thread → Option (Name × FileStat)
  returned : Thread → Option ℕ
  fault : Bool

namespace CacheSystem

variable {Thread Name : Type}

/-! ## The code -/

/-- An empty cache. -/
def start : CacheSystem Thread Name := ⟨[], fun _ => none, fun _ => none, fun _ => none, false⟩

/-- `munmap`. -/
def munmap (system : CacheSystem Thread Name) (addr size : ℕ) : CacheSystem Thread Name :=
  { system with
    mapped := Function.update system.mapped addr none
    fault := system.fault || system.mapped addr != some size }

/-- `_entries.emplace` of a new mapping. -/
def emplace (system : CacheSystem Thread Name) (name : Name) (sbuf : FileStat) (addr : ℕ) :
    CacheSystem Thread Name :=
  { system with
    entries := (name, ⟨sbuf.size, sbuf.ctime, addr⟩) :: system.entries
    mapped := Function.update system.mapped addr (some sbuf.size) }

/-- `mmap`, where there is something to map. -/
def mmap (system : CacheSystem Thread Name) (name : Name) (sbuf : FileStat) (addr : ℕ) :
    Option (CacheSystem Thread Name) :=
  if 0 < sbuf.size ∧ system.mapped addr = none then some (system.emplace name sbuf addr) else none

/-- The loop of `Cache::clear`. -/
def munmapAll (system : CacheSystem Thread Name) (entries : List (Name × CacheEntry)) :
    CacheSystem Thread Name :=
  entries.foldl (fun system entry => system.munmap entry.2.addr entry.2.size) system

/-- `Cache::clear`. -/
def clear (system : CacheSystem Thread Name) : CacheSystem Thread Name :=
  { system.munmapAll system.entries with entries := [] }

variable [DecidableEq Name]

/-- `_entries.find`. -/
def find (entries : List (Name × CacheEntry)) (name : Name) : Option CacheEntry :=
  (entries.find? fun entry => entry.1 = name).map Prod.snd

/-- `_entries.erase`. -/
def erase (system : CacheSystem Thread Name) (name : Name) : CacheSystem Thread Name :=
  { system with entries := system.entries.filter fun entry => entry.1 ≠ name }

/-- The entry of a file is unmapped and erased, as `get` and `remove` do it. -/
def drop (system : CacheSystem Thread Name) (name : Name) : CacheSystem Thread Name :=
  match find system.entries name with
  | none => system
  | some entry => (system.munmap entry.addr entry.size).erase name

section

variable [DecidableEq Thread]

omit [DecidableEq Name] in
/-- `get` returns. -/
def give (system : CacheSystem Thread Name) (thread : Thread) (addr : Option ℕ) :
    CacheSystem Thread Name :=
  { system with
    looked := Function.update system.looked thread none
    returned := Function.update system.returned thread addr }

/-- `Cache::get` when it has to map the file. -/
def load (system : CacheSystem Thread Name) (thread : Thread) (name : Name) (sbuf : FileStat)
    (mapped : Option ℕ) : Option (CacheSystem Thread Name) :=
  let dropped := system.drop name
  match mapped with
  | none => some (dropped.give thread none)
  | some addr =>
      (dropped.mmap name sbuf addr).map fun system => system.give thread (some addr)

/-- `Cache::get` behind the `stat`. -/
def get (system : CacheSystem Thread Name) (thread : Thread) (name : Name) (sbuf : FileStat)
    (mapped : Option ℕ) : Option (CacheSystem Thread Name) :=
  match find system.entries name with
  | none => system.load thread name sbuf mapped
  | some entry =>
      if entry.modifTime = sbuf.ctime then some (system.give thread (some entry.addr))
      else system.load thread name sbuf mapped

/-- One step of a thread. -/
def act (system : CacheSystem Thread Name) : CacheAction Thread Name →
    Option (CacheSystem Thread Name)
  | .stat thread name sbuf =>
      if system.looked thread = none then
        some { system with looked := Function.update system.looked thread (some (name, sbuf)) }
      else none
  | .get thread mapped =>
      match system.looked thread with
      | none => none
      | some (name, sbuf) => system.get thread name sbuf mapped
  | .remove name => some (system.drop name)
  | .clear => some system.clear

end

/-! ## The entries own the mappings -/

/-- What the entry of a file says is mapped. -/
def claims (entries : List (Name × CacheEntry)) (name : Name) : Option (ℕ × ℕ) :=
  (find entries name).map fun entry => (entry.addr, entry.size)

/-- The entries and the mappings belong together, one to one, and nothing was unmapped that was
not mapped. -/
structure Sound (system : CacheSystem Thread Name) : Prop where
  owned : Owned system.mapped (claims system.entries)
  nodup : (system.entries.map Prod.fst).Nodup
  faultless : system.fault = false

section

variable {system : CacheSystem Thread Name} {entries : List (Name × CacheEntry)} {name : Name}
variable {entry : CacheEntry}

theorem find_cons (name : Name) (entry : CacheEntry) (entries : List (Name × CacheEntry)) :
    find ((name, entry) :: entries) = Function.update (find entries) name (some entry) := by
  funext other
  rw [find, List.find?_cons]
  by_cases same : name = other
  · rw [← same, Function.update_self]
    simp
  · rw [Function.update_of_ne (Ne.symm same)]
    simp [same, find]

theorem find_filter (entries : List (Name × CacheEntry)) (name : Name) :
    find (entries.filter fun entry => entry.1 ≠ name) =
      Function.update (find entries) name none := by
  funext other
  rw [find, List.find?_filter]
  by_cases same : other = name
  · rw [same, Function.update_self, Option.map_eq_none_iff, List.find?_eq_none]
    intro entry _ both
    simp at both
  · rw [Function.update_of_ne same, find]
    congr 2
    funext entry
    by_cases here : entry.1 = other
    · simp [here, same]
    · simp [here]

theorem find_eq_none_iff : find entries name = none ↔ name ∉ entries.map Prod.fst := by
  rw [find, Option.map_eq_none_iff, List.find?_eq_none, List.mem_map]
  constructor
  · rintro absent ⟨entry, member, same⟩
    exact absent entry member (decide_eq_true same)
  · intro absent entry member same
    exact absent ⟨entry, member, of_decide_eq_true same⟩

theorem claims_update {others : List (Name × CacheEntry)} {value : Option CacheEntry}
    (found : find others = Function.update (find entries) name value) :
    claims others = Function.update (claims entries) name
      (value.map fun entry => (entry.addr, entry.size)) := by
  funext other
  rw [claims, found]
  exact congrFun (Function.comp_update (Option.map _) (find entries) name value) other

theorem claims_of_find (found : find entries name = some entry) :
    claims entries name = some (entry.addr, entry.size) := by
  rw [claims, found]
  rfl

omit [DecidableEq Name] in
/-- What is unmapped for an entry is mapped. -/
theorem fault_munmap (faultless : system.fault = false)
    (backed : system.mapped entry.addr = some entry.size) :
    (system.munmap entry.addr entry.size).fault = false := by
  rw [munmap]
  dsimp only
  rw [faultless, backed, bne_self_eq_false]
  rfl

theorem Sound.drop (sound : system.Sound) (name : Name) : (system.drop name).Sound := by
  rw [CacheSystem.drop]
  cases found : find system.entries name with
  | none => exact sound
  | some entry =>
      have claimed := claims_of_find found
      have backed := sound.owned.backed name entry.addr entry.size claimed
      constructor
      · change Owned (Function.update system.mapped entry.addr none)
          (claims (system.entries.filter fun entry => entry.1 ≠ name))
        rw [claims_update (find_filter ..)]
        exact sound.owned.release claimed
      · exact sound.nodup.sublist (List.filter_sublist.map _)
      · exact fault_munmap sound.faultless backed

/-- Behind `drop` there is no entry. -/
theorem find_drop (system : CacheSystem Thread Name) (name : Name) :
    find (system.drop name).entries = Function.update (find system.entries) name none := by
  rw [drop]
  cases found : find system.entries name with
  | none =>
      dsimp only
      rw [← found, Function.update_eq_self]
  | some entry => exact find_filter system.entries name

theorem Sound.emplace (sound : system.Sound) {sbuf : FileStat} {addr : ℕ}
    (absent : find system.entries name = none) (free : system.mapped addr = none) :
    (system.emplace name sbuf addr).Sound := by
  constructor
  · change Owned (Function.update system.mapped addr (some sbuf.size))
      (claims ((name, ⟨sbuf.size, sbuf.ctime, addr⟩) :: system.entries))
    rw [claims_update (find_cons ..)]
    exact sound.owned.acquire free (congrArg (Option.map _) absent) sbuf.size
  · exact List.nodup_cons.mpr ⟨find_eq_none_iff.mp absent, sound.nodup⟩
  · exact sound.faultless

/-- The loop of `clear` unmaps the entries one after the other. -/
theorem sound_munmapAll (system : CacheSystem Thread Name) (entries : List (Name × CacheEntry))
    (owned : Owned system.mapped (claims entries)) (nodup : (entries.map Prod.fst).Nodup)
    (faultless : system.fault = false) :
    (∀ addr, (system.munmapAll entries).mapped addr = none) ∧
      (system.munmapAll entries).fault = false := by
  induction entries generalizing system with
  | nil => exact ⟨owned.eq_none fun name => rfl, faultless⟩
  | cons first entries inductionHypothesis =>
      obtain ⟨name, entry⟩ := first
      rw [List.map_cons, List.nodup_cons] at nodup
      rw [claims_update (find_cons ..)] at owned
      have claimed := Function.update_self name (some (entry.addr, entry.size)) (claims entries)
      have released := owned.release claimed
      rw [Function.update_idem] at released
      have idle : claims entries name = none :=
        congrArg (Option.map _) (find_eq_none_iff.mpr nodup.1)
      rw [← idle, Function.update_eq_self] at released
      exact inductionHypothesis _ released nodup.2
        (fault_munmap faultless (owned.backed name entry.addr entry.size claimed))

omit [DecidableEq Name] in
/-- What unmapping leaves alone. -/
theorem looked_munmapAll (entries : List (Name × CacheEntry)) (system : CacheSystem Thread Name) :
    (system.munmapAll entries).looked = system.looked := by
  induction entries generalizing system with
  | nil => rfl
  | cons first entries inductionHypothesis => exact inductionHypothesis _

theorem Sound.clear (sound : system.Sound) : system.clear.Sound := by
  obtain ⟨unmapped, faultless⟩ :=
    sound_munmapAll system system.entries sound.owned sound.nodup sound.faultless
  refine ⟨?_, List.nodup_nil, faultless⟩
  have none : system.clear.mapped = fun _ => none := funext unmapped
  rw [none]
  exact Owned.empty

end

/-! ## The steps -/

section

variable [DecidableEq Thread] {system after : CacheSystem Thread Name}
variable {action : CacheAction Thread Name}

/-- What a step does. `get` gives out an entry with the time that it has seen, or drops the entry
of the file and maps it, if it can. -/
inductive Step (system : CacheSystem Thread Name) :
    CacheAction Thread Name → CacheSystem Thread Name → Prop
  | stat (thread : Thread) (name : Name) (sbuf : FileStat) : system.Step (.stat thread name sbuf)
      { system with looked := Function.update system.looked thread (some (name, sbuf)) }
  | found {thread : Thread} {name : Name} {sbuf : FileStat} {entry : CacheEntry}
      (mapped : Option ℕ) (looked : system.looked thread = some (name, sbuf))
      (held : find system.entries name = some entry) (same : entry.modifTime = sbuf.ctime) :
      system.Step (.get thread mapped) (system.give thread (some entry.addr))
  | failed {thread : Thread} {name : Name} {sbuf : FileStat}
      (looked : system.looked thread = some (name, sbuf))
      (stale : ∀ entry, find system.entries name = some entry → entry.modifTime ≠ sbuf.ctime) :
      system.Step (.get thread none) ((system.drop name).give thread none)
  | loaded {thread : Thread} {name : Name} {sbuf : FileStat} {addr : ℕ}
      (looked : system.looked thread = some (name, sbuf))
      (stale : ∀ entry, find system.entries name = some entry → entry.modifTime ≠ sbuf.ctime)
      (free : (system.drop name).mapped addr = none) : system.Step (.get thread (some addr))
        (((system.drop name).emplace name sbuf addr).give thread (some addr))
  | remove (name : Name) : system.Step (.remove name) (system.drop name)
  | clear : system.Step .clear system.clear

theorem step_of_load {thread : Thread} {name : Name} {sbuf : FileStat} {mapped : Option ℕ}
    (looked : system.looked thread = some (name, sbuf))
    (stale : ∀ entry, find system.entries name = some entry → entry.modifTime ≠ sbuf.ctime)
    (loads : system.load thread name sbuf mapped = some after) :
    system.Step (.get thread mapped) after := by
  cases mapped with
  | none =>
      cases loads
      exact .failed looked stale
  | some addr =>
      obtain ⟨made, maps, rfl⟩ := Option.map_eq_some_iff.mp loads
      rw [mmap] at maps
      split_ifs at maps with free
      cases maps
      exact .loaded looked stale free.2

theorem step_of_act (happens : system.act action = some after) : system.Step action after := by
  cases action with
  | stat thread name sbuf =>
      rw [act] at happens
      split_ifs at happens
      cases happens
      exact .stat thread name sbuf
  | get thread mapped =>
      rw [act] at happens
      split at happens
      · cases happens
      · rename_i name sbuf looked
        rw [get] at happens
        split at happens
        · rename_i absent
          refine step_of_load looked ?_ happens
          rw [absent]
          exact nofun
        · rename_i entry found
          split_ifs at happens with same
          · cases happens
            exact .found mapped looked found same
          · refine step_of_load looked ?_ happens
            intro other held
            rw [found] at held
            cases held
            exact same
  | remove name =>
      cases happens
      exact .remove name
  | clear =>
      cases happens
      exact .clear

omit [DecidableEq Thread] in
theorem find_drop_self (system : CacheSystem Thread Name) (name : Name) :
    find (system.drop name).entries name = none := by
  rw [find_drop]
  exact Function.update_self ..

theorem Sound.give (sound : system.Sound) (thread : Thread) (addr : Option ℕ) :
    (system.give thread addr).Sound :=
  ⟨sound.owned, sound.nodup, sound.faultless⟩

theorem Sound.step (sound : system.Sound) (step : system.Step action after) : after.Sound := by
  cases step with
  | stat thread name sbuf => exact ⟨sound.owned, sound.nodup, sound.faultless⟩
  | found mapped looked held same => exact sound.give ..
  | failed looked stale => exact (sound.drop _).give ..
  | loaded looked stale free =>
      exact ((sound.drop _).emplace (find_drop_self system _) free).give ..
  | remove name => exact sound.drop name
  | clear => exact sound.clear

omit [DecidableEq Thread] in
theorem sound_start : (start : CacheSystem Thread Name).Sound :=
  ⟨Owned.empty, List.nodup_nil, rfl⟩

theorem sound_run {actions : List (CacheAction Thread Name)} {before : CacheSystem Thread Name}
    (run : Trace act before actions system) (sound : before.Sound) : system.Sound :=
  run.invariant Sound (fun _ _ _ sound happens => sound.step (step_of_act happens)) sound

/-- In every run the cache unmaps only what it has mapped, and as much of it as it has mapped. Each
entry has a mapping of its own and each mapping an entry, so that nothing stays mapped when there
are no entries. -/
theorem owned_run {actions : List (CacheAction Thread Name)}
    (run : Trace act start actions system) :
    system.fault = false ∧ Owned system.mapped (claims system.entries) ∧
      (system.entries = [] → ∀ addr, system.mapped addr = none) := by
  have sound := sound_run run sound_start
  refine ⟨sound.faultless, sound.owned, ?_⟩
  intro empty addr
  have unclaimed : ∀ name, claims system.entries name = none := by
    intro name
    rw [empty]
    rfl
  exact sound.owned.eq_none unclaimed addr

/-- Two threads look at a file, which changes in between. -/
def looks : List (CacheAction Bool ℕ) := [.stat false 0 ⟨10, (1, 0)⟩, .stat true 0 ⟨12, (2, 0)⟩]

/-- The thread that has looked first gets the file last. -/
def race : List (CacheAction Bool ℕ) := looks ++ [.get true (some 4096), .get false (some 8192)]

theorem owned_run_race : ∃ system, Trace act start race system ∧ system.fault = false ∧
    Owned system.mapped (claims system.entries) ∧
    (system.entries = [] → ∀ addr, system.mapped addr = none) := by
  have run : Trace act start race _ := Trace.of_follow rfl
  exact ⟨_, run, owned_run run⟩

/-! ## What a pointer points to -/

/-- The entry of a file that had last changed at a time is left alone. -/
def Spares (name : Name) (ctime : ℤ × ℤ) (system : CacheSystem Thread Name) :
    CacheAction Thread Name → Prop
  | .stat _ _ _ => True
  | .get thread _ => ∀ sbuf, system.looked thread = some (name, sbuf) → sbuf.ctime = ctime
  | .remove other => other ≠ name
  | .clear => False

section

variable {name other : Name} {entry : CacheEntry}

omit [DecidableEq Thread] in
theorem find_drop_iff (held : find system.entries name = some entry) :
    find (system.drop other).entries name = some entry ↔ other ≠ name := by
  rw [find_drop]
  by_cases same : name = other
  · rw [same, Function.update_self]
    exact iff_of_false nofun (fun different => different rfl)
  · rw [Function.update_of_ne same]
    exact iff_of_true held (Ne.symm same)

omit [DecidableEq Thread] in
/-- A `get` that does not find the time that it has seen spares the other files. -/
theorem spares_of_stale {thread : Thread} {sbuf : FileStat} {mapped : Option ℕ}
    (looked : system.looked thread = some (other, sbuf))
    (stale : ∀ entry, find system.entries other = some entry → entry.modifTime ≠ sbuf.ctime)
    (held : find system.entries name = some entry) :
    other ≠ name ↔ Spares name entry.modifTime system (.get thread mapped) := by
  rw [Spares, looked]
  constructor
  · intro different seen same
    cases same
    exact absurd rfl different
  · rintro spared rfl
    exact stale entry held (spared sbuf rfl).symm

/-- A step leaves the entry of a file as it is exactly when it spares the file. -/
theorem Step.find_iff (step : system.Step action after)
    (held : find system.entries name = some entry) :
    find after.entries name = some entry ↔ Spares name entry.modifTime system action := by
  cases step with
  | stat thread other sbuf => exact iff_of_true held trivial
  | found mapped looked found same =>
      refine iff_of_true held ?_
      intro seen equal
      rw [looked] at equal
      cases equal
      rw [held] at found
      cases found
      exact same.symm
  | failed looked stale =>
      exact (find_drop_iff held).trans (spares_of_stale looked stale held)
  | @loaded thread other sbuf addr looked stale free =>
      rw [← spares_of_stale looked stale held, ← find_drop_iff held]
      change find ((other, _) :: (system.drop other).entries) name = _ ↔ _
      rw [find_cons]
      by_cases same : name = other
      · rw [same, Function.update_self, find_drop_self]
        refine iff_of_false ?_ nofun
        intro equal
        rw [same] at held
        exact stale entry held (congrArg CacheEntry.modifTime (Option.some.inj equal)).symm
      · rw [Function.update_of_ne same]
  | remove other => exact find_drop_iff held
  | clear => exact iff_of_false nofun id

end

/-- What threads in front of the mutex have seen, and what is in the entries, was seen by a call
of `stat` in the run. -/
structure Seen (actions : List (CacheAction Thread Name)) (system : CacheSystem Thread Name) :
    Prop where
  looked : ∀ thread name sbuf, system.looked thread = some (name, sbuf) →
    .stat thread name sbuf ∈ actions
  entries : ∀ name entry, find system.entries name = some entry → ∃ thread sbuf,
    .stat thread name sbuf ∈ actions ∧ sbuf.ctime = entry.modifTime ∧ sbuf.size = entry.size

omit [DecidableEq Thread] in
theorem Seen.mono {actions more : List (CacheAction Thread Name)} (seen : Seen actions system)
    (subset : ∀ action ∈ actions, action ∈ more) : Seen more system := by
  refine ⟨?_, ?_⟩
  · intro thread name sbuf looked
    exact subset _ (seen.looked thread name sbuf looked)
  · intro name entry found
    obtain ⟨thread, sbuf, member, same⟩ := seen.entries name entry found
    exact ⟨thread, sbuf, subset _ member, same⟩

section

variable {actions : List (CacheAction Thread Name)}

omit [DecidableEq Thread] in
theorem Seen.drop (seen : Seen actions system) (name : Name) : Seen actions (system.drop name) := by
  have found := find_drop system name
  refine ⟨?_, ?_⟩
  · rw [CacheSystem.drop]
    cases find system.entries name with
    | none => exact seen.looked
    | some entry => exact seen.looked
  · intro other entry held
    rw [found] at held
    by_cases same : other = name
    · rw [same, Function.update_self] at held
      cases held
    · rw [Function.update_of_ne same] at held
      exact seen.entries other entry held

theorem Seen.give (seen : Seen actions system) (thread : Thread) (addr : Option ℕ) :
    Seen actions (system.give thread addr) := by
  refine ⟨?_, seen.entries⟩
  intro other name sbuf looked
  change Function.update system.looked thread none other = _ at looked
  by_cases same : other = thread
  · rw [same, Function.update_self] at looked
    cases looked
  · rw [Function.update_of_ne same] at looked
    exact seen.looked other name sbuf looked

omit [DecidableEq Thread] in
theorem Seen.emplace (seen : Seen actions system) {thread : Thread} {name : Name}
    {sbuf : FileStat} {addr : ℕ} (member : .stat thread name sbuf ∈ actions) :
    Seen actions (system.emplace name sbuf addr) := by
  refine ⟨seen.looked, ?_⟩
  · intro other entry held
    change find ((name, _) :: system.entries) other = _ at held
    rw [find_cons] at held
    by_cases same : other = name
    · rw [same, Function.update_self] at held
      cases held
      rw [same]
      exact ⟨thread, sbuf, member, rfl, rfl⟩
    · rw [Function.update_of_ne same] at held
      exact seen.entries other entry held

theorem Seen.step (seen : Seen actions system) (step : system.Step action after) :
    Seen (actions ++ [action]) after := by
  have known := seen.mono (fun _ => List.mem_append_left [action])
  cases step with
  | stat thread name sbuf =>
      refine ⟨?_, known.entries⟩
      intro other name' sbuf' looked
      change Function.update system.looked thread _ other = _ at looked
      by_cases same : other = thread
      · rw [same, Function.update_self] at looked
        cases looked
        rw [same]
        exact List.mem_append_right _ List.mem_cons_self
      · rw [Function.update_of_ne same] at looked
        exact known.looked other name' sbuf' looked
  | found mapped looked held same => exact known.give ..
  | failed looked stale => exact (known.drop _).give ..
  | loaded looked stale free =>
      exact ((known.drop _).emplace (known.looked _ _ _ looked)).give ..
  | remove name => exact known.drop name
  | clear =>
      refine ⟨?_, nofun⟩
      rw [clear, looked_munmapAll]
      exact known.looked

end

theorem seen_run {actions : List (CacheAction Thread Name)}
    (run : Trace act start actions system) : Seen actions system := by
  induction run with
  | nil => exact ⟨nofun, nofun⟩
  | snoc _ happens inductionHypothesis => exact inductionHypothesis.step (step_of_act happens)

/-- What `get` returns is the address of the entry, which was made when the file had changed at the
same time. -/
theorem find_of_returned {thread : Thread} {name : Name} {sbuf : FileStat} {mapped : Option ℕ}
    {addr : ℕ} (looked : system.looked thread = some (name, sbuf))
    (gets : system.act (.get thread mapped) = some after)
    (returned : after.returned thread = some addr) :
    ∃ entry, find after.entries name = some entry ∧ entry.addr = addr ∧
      entry.modifTime = sbuf.ctime := by
  have given (system : CacheSystem Thread Name) (addr : Option ℕ) :
      (system.give thread addr).returned thread = addr := Function.update_self ..
  cases step_of_act gets with
  | found mapped saw held same =>
      rw [looked] at saw
      cases saw
      rw [given] at returned
      exact ⟨_, held, Option.some.inj returned, same⟩
  | failed saw stale =>
      rw [given] at returned
      cases returned
  | loaded saw stale free =>
      rw [looked] at saw
      cases saw
      rw [given] at returned
      cases returned
      refine ⟨⟨sbuf.size, sbuf.ctime, addr⟩, ?_, rfl, rfl⟩
      change find ((name, _) :: (system.drop name).entries) name = _
      rw [find_cons]
      exact Function.update_self ..

/-- A pointer that `get` returns is the address of the entry of the file, which has the size that
the file had in some call of `stat`, when it had last changed at the same time. However the calls
of all threads go on, the entry and its mapping stay as they are exactly as long as nobody removes
the file, clears the cache, or comes with a `stat` of the file that shows another time. -/
theorem get_pointer {actions : List (CacheAction Thread Name)} {thread : Thread} {name : Name}
    {sbuf : FileStat} {mapped : Option ℕ} {addr : ℕ} (run : Trace act start actions system)
    (looked : system.looked thread = some (name, sbuf))
    (gets : system.act (.get thread mapped) = some after)
    (returned : after.returned thread = some addr) :
    ∃ size, (∃ other seen, .stat other name seen ∈ actions ∧ seen.ctime = sbuf.ctime ∧
        seen.size = size) ∧
      ∀ more later, Trace act after more later →
        (Throughout act (fun state => state.mapped addr = some size ∧
            find state.entries name = some ⟨size, sbuf.ctime, addr⟩) after more ↔
          Along act (Spares name sbuf.ctime) after more) := by
  have sound := sound_run (run.snoc gets) sound_start
  obtain ⟨⟨size, ctime, addr⟩, found, rfl, rfl⟩ := find_of_returned looked gets returned
  obtain ⟨other, earlier, member, same⟩ := (seen_run (run.snoc gets)).entries name _ found
  refine ⟨size, ⟨other, earlier, ?_, same⟩, ?_⟩
  · rcases List.mem_append.mp member with before | last
    · exact before
    · cases List.mem_singleton.mp last
  · intro more later goes
    have both : Throughout act (fun state => state.Sound ∧
        find state.entries name = some ⟨size, sbuf.ctime, addr⟩) after more ↔
          Along act (Spares name sbuf.ctime) after more := by
      refine goes.throughout_iff _ ?_ ⟨sound, found⟩
      rintro state action next ⟨sound, held⟩ happens
      have step := step_of_act happens
      rw [← step.find_iff held]
      exact and_iff_right (sound.step step)
    rw [← both]
    constructor
    · intro throughout front rest state split trace
      exact ⟨sound_run trace sound, (throughout front rest state split trace).2⟩
    · intro throughout front rest state split trace
      obtain ⟨sound, held⟩ := throughout front rest state split trace
      exact ⟨sound.owned.backed name addr size (claims_of_find held), held⟩

/-- The pointer that the second thread gets does not outlive the call of the first one. -/
theorem get_pointer_race : ∃ system after : CacheSystem Bool ℕ,
    Trace act start looks system ∧ system.act (.get true (some 4096)) = some after ∧
    ∃ size, (∃ other seen, .stat other 0 seen ∈ looks ∧ seen.ctime = (2, 0) ∧ seen.size = size) ∧
      ∀ more later, Trace act after more later →
        (Throughout act (fun state => state.mapped 4096 = some size ∧
            find state.entries 0 = some ⟨size, (2, 0), 4096⟩) after more ↔
          Along act (Spares 0 (2, 0)) after more) := by
  have run : Trace act start looks _ := Trace.of_follow rfl
  exact ⟨_, _, run, rfl,
    @get_pointer Bool ℕ _ _ _ _ looks true 0 ⟨12, (2, 0)⟩ (some 4096) 4096 run rfl rfl rfl⟩

end

end CacheSystem

end Join
