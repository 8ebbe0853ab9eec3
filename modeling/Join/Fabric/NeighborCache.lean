import Join.Fabric.RouteCache
import Join.Library.Replica

/-!
# The neighbor cache

`NeighborManager` keeps the neighbors of the kernel by their interface and their address. The
kernel tells of every neighbor that comes, changes or goes, and its messages are handled one after
the other, later than they are sent. `refresh` throws the cache away and asks for a dump, in which
the kernel tells of all its neighbors while they go on changing.

However the changes, the messages, the dumps and the calls of `refresh` are interleaved: when a
dump has ended that began after the cache was last thrown away, the messages that are still on the
way make the cache the kernel's table.
-/

set_option autoImplicit false

namespace Join

open Library

/-! ## What the cache holds -/

/-- `NeighborKey`. -/
structure NeighborKey where
  index : UInt32
  ip : IpAddress
deriving DecidableEq

/-- `Neighbor`, what it holds besides its key. -/
structure Neighbor where
  mac : MacAddress := Octets.zero 6
  /-- `NUD_NONE` -/
  state : UInt16 := 0
deriving DecidableEq

namespace NeighborChangeType

/-- `NeighborChangeType::Added`. -/
def added : UInt32 := 1

/-- `NeighborChangeType::Deleted`. -/
def deleted : UInt32 := 2

/-- `NeighborChangeType::Modified`. -/
def modified : UInt32 := 4

/-- `NeighborChangeType::MacChanged`. -/
def macChanged : UInt32 := 8

/-- `NeighborChangeType::StateChanged`. -/
def stateChanged : UInt32 := 16

end NeighborChangeType

/-- `NeighborInfo`, with the key of the neighbor. -/
structure NeighborInfo where
  key : NeighborKey
  neighbor : Neighbor
  flags : UInt32
deriving DecidableEq

/-! ## The handler -/

/-- A message of the kernel about a neighbor: its header, its `ndmsg` and the bytes of its
attributes. -/
structure NeighborMessage where
  nlmsgType : UInt16
  family : UInt8
  ifindex : Int32
  state : UInt16
  rta : List UInt8
deriving DecidableEq

/-- `IpAddress::IpAddress (RTA_DATA (rta), addrlen, index)`. -/
def IpAddress.ofScopedData (family : UInt8) (data : List UInt8) (index : UInt32) : IpAddress :=
  if family = 10 then .ipv6 (Octets.ofMemory 16 data) index else .ipv4 (Octets.ofMemory 4 data)

/-- What the handler reads from the attributes. -/
structure NeighborFields where
  ip : IpAddress
  mac : MacAddress
deriving DecidableEq

/-- One turn of the loop: `NDA_DST` and `NDA_LLADDR`. -/
def NeighborFields.read (family : UInt8) (index : UInt32) (fields : NeighborFields)
    (attr : Attribute) : NeighborFields :=
  if attr.type = 1 then { fields with ip := .ofScopedData family attr.data index }
  else if attr.type = 2 then { fields with mac := Octets.ofMemory 6 attr.data }
  else fields

namespace NeighborFields

variable (family : UInt8) (index : UInt32) (fields : NeighborFields) (data : List UInt8)

theorem read_dst : fields.read family index ⟨1, data⟩ =
    { fields with ip := .ofScopedData family data index } := rfl

theorem read_lladdr : fields.read family index ⟨2, data⟩ =
    { fields with mac := Octets.ofMemory 6 data } := rfl

/-- Other attributes are not read. -/
theorem read_other {attr : Attribute} (unread : attr.type ≠ 1 ∧ attr.type ≠ 2) :
    fields.read family index attr = fields := by
  rw [read, if_neg unread.1, if_neg unread.2]

end NeighborFields

/-- The loop over the attributes. -/
def NeighborMessage.fields (message : NeighborMessage) : NeighborFields :=
  (attributes message.rta).foldl (NeighborFields.read message.family message.ifindex.toUInt32)
    ⟨.wildcard message.family, Octets.zero 6⟩

/-- A message that is not about a neighbor with an internet address. -/
def NeighborMessage.Ignored (message : NeighborMessage) : Prop :=
  message.nlmsgType ≠ 28 ∧ message.nlmsgType ≠ 29 ∨ message.ifindex.toInt ≤ 0 ∨
    message.family ≠ 2 ∧ message.family ≠ 10

instance (message : NeighborMessage) : Decidable message.Ignored :=
  inferInstanceAs (Decidable (_ ∨ _))

/-- `NeighborManager::_neighbors`. -/
abbrev NeighborCache : Type := NeighborKey → Option Neighbor

namespace NeighborCache

/-- `NeighborManager::acquire`: the neighbor under a key, which is created when there is none, and
whether it was there. -/
def acquire (neighbors : NeighborCache) (key : NeighborKey) : Neighbor × UInt32 :=
  match neighbors key with
  | some neighbor => (neighbor, NeighborChangeType.modified)
  | none => ({}, NeighborChangeType.added)

/-- `NeighborManager::onNeighborMessage`: the cache and what the listeners are told. -/
def onNeighborMessage (neighbors : NeighborCache) (message : NeighborMessage) :
    NeighborCache × Option NeighborInfo :=
  if message.ifindex.toInt ≤ 0 then (neighbors, none)
  else if message.family ≠ 2 ∧ message.family ≠ 10 then (neighbors, none)
  else
    let fields := message.fields
    let key : NeighborKey := ⟨message.ifindex.toUInt32, fields.ip⟩
    if fields.ip.isWildcard then (neighbors, none)
    else if message.nlmsgType = 29 then
      match neighbors key with
      | some neighbor =>
          (Function.update neighbors key none, some ⟨key, neighbor, NeighborChangeType.deleted⟩)
      | none => (neighbors, none)
    else
      let acquired := neighbors.acquire key
      let neighbor := acquired.1
      let mac := updateValue neighbor.mac fields.mac NeighborChangeType.macChanged
      let state := updateValue neighbor.state message.state NeighborChangeType.stateChanged
      let updated : Neighbor := ⟨mac.1, state.1⟩
      (Function.update neighbors key (some updated),
        some ⟨key, updated, acquired.2 ||| mac.2 ||| state.2⟩)

/-- `NeighborManager::onMessage`: `RTM_NEWNEIGH` and `RTM_DELNEIGH`. -/
def onMessage (neighbors : NeighborCache) (message : NeighborMessage) :
    NeighborCache × Option NeighborInfo :=
  if message.nlmsgType = 28 ∨ message.nlmsgType = 29 then neighbors.onNeighborMessage message
  else (neighbors, none)

/-- The cache after some messages have been handled. -/
def handled (neighbors : NeighborCache) (messages : List NeighborMessage) : NeighborCache :=
  messages.foldl (fun neighbors message => (neighbors.onMessage message).1) neighbors

end NeighborCache

/-! ## The kernel -/

/-- A neighbor in the kernel's table. Its link layer address is an ethernet address, and the
attributes besides the ones that the handler reads can be sent. -/
structure KernelNeighbor where
  family : RouteFamily
  ifindex : Int32
  ifindex_pos : 0 < ifindex.toInt
  dst : Octets family.width
  lladdr : Option MacAddress
  state : UInt16
  others : List Attribute
  others_unread : ∀ attr ∈ others, attr.type ≠ 1 ∧ attr.type ≠ 2
  others_fit : ∀ attr ∈ others, attr.Fits

/-- The address with some bytes, on an interface. -/
def RouteFamily.scoped (index : UInt32) :
    (family : RouteFamily) → Octets family.width → IpAddress
  | inet, octets => .ipv4 octets
  | inet6, octets => .ipv6 octets index

namespace KernelNeighbor

/-- The key under which the neighbor is cached. -/
def key (neighbor : KernelNeighbor) : NeighborKey :=
  ⟨neighbor.ifindex.toUInt32, neighbor.family.scoped neighbor.ifindex.toUInt32 neighbor.dst⟩

/-- What is cached of the neighbor. -/
def cached (neighbor : KernelNeighbor) : Neighbor :=
  ⟨neighbor.lladdr.getD (Octets.zero 6), neighbor.state⟩

/-- `NDA_LLADDR`, if the neighbor is resolved. -/
def lladdrAttribute (neighbor : KernelNeighbor) : List Attribute :=
  match neighbor.lladdr with
  | some octets => [⟨2, octets.bytes⟩]
  | none => []

/-- The attributes that the kernel sends. -/
def sentAttributes (neighbor : KernelNeighbor) : List Attribute :=
  [⟨1, neighbor.dst.bytes⟩] ++ neighbor.lladdrAttribute ++ neighbor.others

/-- The message about a neighbor, of type `RTM_NEWNEIGH` or `RTM_DELNEIGH`. -/
def message (nlmsgType : UInt16) (neighbor : KernelNeighbor) : NeighborMessage where
  nlmsgType := nlmsgType
  family := neighbor.family.code
  ifindex := neighbor.ifindex
  state := neighbor.state
  rta := attributeBytes neighbor.sentAttributes

end KernelNeighbor

/-- The kernel's table. -/
abbrev NeighborTable : Type := List KernelNeighbor

namespace NeighborTable

/-- The neighbor with a key. -/
def lookup (table : NeighborTable) (key : NeighborKey) : Option KernelNeighbor :=
  table.find? fun neighbor => neighbor.key = key

/-- The neighbors without the one with a key. -/
def without (table : NeighborTable) (key : NeighborKey) : NeighborTable :=
  table.filter fun neighbor => neighbor.key ≠ key

/-- What the cache should have: the neighbors whose address is not a wildcard. -/
def shown (table : NeighborTable) : NeighborCache := fun key =>
  if key.ip.isWildcard then none else (table.lookup key).map KernelNeighbor.cached

end NeighborTable

/-- The kernel's table, the messages on the way, the neighbors that the dump in progress has not
come to, and the cache. -/
structure NeighborSystem where
  table : NeighborTable
  queue : List NeighborMessage
  dump : Option (List NeighborKey)
  neighbors : NeighborCache

/-- What happens. -/
inductive NeighborAction
  /-- A neighbor comes or changes. -/
  | set (neighbor : KernelNeighbor)
  /-- A neighbor goes. -/
  | remove (key : NeighborKey)
  /-- The kernel sends a message that is not about a neighbor with an internet address. -/
  | other (message : NeighborMessage)
  /-- The oldest message is handled. -/
  | receive
  /-- `refresh` throws the cache away. -/
  | clear
  /-- The kernel takes the request of `dumpNeighbors`; it does not while it has another one. -/
  | startDump
  /-- The dump comes to a key. -/
  | dump (key : NeighborKey)
  /-- The dump is over. -/
  | finishDump

namespace NeighborSystem

/-- Some neighbors in the kernel, and nothing else. -/
def start (table : NeighborTable) : NeighborSystem := ⟨table, [], none, fun _ => none⟩

/-- One thing happens. -/
def act (system : NeighborSystem) : NeighborAction → Option NeighborSystem
  | .set neighbor => some { system with
      table := neighbor :: system.table.without neighbor.key
      queue := system.queue ++ [neighbor.message 28] }
  | .remove key =>
      match system.table.lookup key with
      | none => none
      | some neighbor => some { system with
          table := system.table.without key
          queue := system.queue ++ [neighbor.message 29] }
  | .other message =>
      if message.Ignored then some { system with queue := system.queue ++ [message] } else none
  | .receive =>
      match system.queue with
      | [] => none
      | message :: queue => some { system with
          queue := queue
          neighbors := (system.neighbors.onMessage message).1 }
  | .clear => some { system with neighbors := fun _ => none }
  | .startDump =>
      if system.dump = none then
        some { system with dump := some (system.table.map KernelNeighbor.key) }
      else none
  | .dump key =>
      match system.dump with
      | none => none
      | some keys =>
          match system.table.lookup key with
          | none => some { system with dump := some (keys.filter fun other => other ≠ key) }
          | some neighbor => some { system with
              dump := some (keys.filter fun other => other ≠ key)
              queue := system.queue ++ [neighbor.message 28] }
  | .finishDump => if system.dump = some [] then some { system with dump := none } else none

end NeighborSystem

/-- How far the last refresh is. -/
inductive RefreshPhase
  /-- No dump has begun since the cache was thrown away. -/
  | cleared
  /-- A dump has begun since. -/
  | dumping
  /-- A dump that began since is over. -/
  | complete
deriving DecidableEq

namespace RefreshPhase

/-- The phase after an action. -/
def next : RefreshPhase → NeighborAction → RefreshPhase
  | _, .clear => cleared
  | cleared, .startDump => dumping
  | dumping, .finishDump => complete
  | phase, _ => phase

/-- The phase after a run. -/
def after (actions : List NeighborAction) : RefreshPhase := actions.foldl next cleared

theorem after_snoc (actions : List NeighborAction) (action : NeighborAction) :
    after (actions ++ [action]) = next (after actions) action := by
  rw [after, List.foldl_append]
  rfl

end RefreshPhase

/-! ## What a message tells -/

namespace NeighborMessage

/-- What the handler does with the message, whatever is in the cache. -/
def notices (message : NeighborMessage) : List (Notice NeighborKey Neighbor) :=
  if message.Ignored then []
  else if message.fields.ip.isWildcard then []
  else
    [(⟨message.ifindex.toUInt32, message.fields.ip⟩,
      if message.nlmsgType = 29 then none else some ⟨message.fields.mac, message.state⟩)]

end NeighborMessage

namespace NeighborCache

/-- The handler on the messages that it does not ignore at once. -/
theorem onNeighborMessage_fst (neighbors : NeighborCache) (message : NeighborMessage)
    (positive : ¬ message.ifindex.toInt ≤ 0)
    (internet : ¬ (message.family ≠ 2 ∧ message.family ≠ 10)) :
    (neighbors.onNeighborMessage message).1 =
      if message.fields.ip.isWildcard then neighbors
      else Function.update neighbors ⟨message.ifindex.toUInt32, message.fields.ip⟩
        (if message.nlmsgType = 29 then none
          else some ⟨message.fields.mac, message.state⟩) := by
  rw [onNeighborMessage, if_neg positive, if_neg internet]
  dsimp only
  by_cases wild : message.fields.ip.isWildcard = true
  · rw [if_pos wild, if_pos wild]
  · rw [if_neg wild, if_neg wild]
    by_cases gone : message.nlmsgType = 29
    · rw [if_pos gone, if_pos gone]
      cases held : neighbors ⟨message.ifindex.toUInt32, message.fields.ip⟩ with
      | some neighbor => rfl
      | none =>
          change neighbors = _
          rw [← held, Function.update_eq_self]
    · rw [if_neg gone, if_neg gone]
      dsimp only
      rw [updateValue_fst, updateValue_fst]

/-- The handler makes of the cache what the message tells. -/
theorem onMessage_fst (neighbors : NeighborCache) (message : NeighborMessage) :
    (neighbors.onMessage message).1 = replayed neighbors message.notices := by
  rw [onMessage, NeighborMessage.notices]
  by_cases ignored : message.Ignored
  · rw [if_pos ignored]
    change _ = neighbors
    split_ifs with known
    · rcases ignored with unknown | negative | family
      · exact (known.elim unknown.1 unknown.2).elim
      · rw [onNeighborMessage, if_pos negative]
      · rw [onNeighborMessage, if_pos family, ite_self]
    · rfl
  · rw [if_neg ignored]
    obtain ⟨heard, positive, internet⟩ := (not_or.trans (and_congr_right' not_or)).mp ignored
    have known : message.nlmsgType = 28 ∨ message.nlmsgType = 29 := by
      by_contra unknown
      exact heard (not_or.mp unknown)
    rw [if_pos known, onNeighborMessage_fst neighbors message positive internet]
    split_ifs
    · rfl
    · rfl
    · rfl

theorem handled_eq_replayed (neighbors : NeighborCache) (messages : List NeighborMessage) :
    neighbors.handled messages =
      replayed neighbors (messages.flatMap NeighborMessage.notices) := by
  induction messages generalizing neighbors with
  | nil => rfl
  | cons message messages inductionHypothesis =>
      rw [List.flatMap_cons, replayed_append, ← onMessage_fst]
      exact inductionHypothesis _

end NeighborCache

/-! ## A neighbor is read as it was sent -/

namespace KernelNeighbor

theorem sentAttributes_fit (neighbor : KernelNeighbor) :
    ∀ attr ∈ neighbor.sentAttributes, attr.Fits := by
  have short {type : UInt16} {data : List UInt8} (small : data.length ≤ 16) :
      (Attribute.mk type data).Fits := by
    change data.length + 4 < 65536
    omega
  intro attr member
  rw [sentAttributes, List.mem_append, List.mem_append] at member
  rcases member with (dst | lladdr) | other
  · rw [List.mem_singleton.mp dst]
    exact short (KernelRoute.length_bytes_le _)
  · rw [lladdrAttribute] at lladdr
    cases given : neighbor.lladdr with
    | none =>
        rw [given] at lladdr
        cases lladdr
    | some octets =>
        rw [given] at lladdr
        rw [List.mem_singleton.mp lladdr]
        apply short
        rw [octets.length_eq]
        decide
  · exact neighbor.others_fit attr other

theorem foldl_read_others (family : UInt8) (index : UInt32) {list : List Attribute}
    (unread : ∀ attr ∈ list, attr.type ≠ 1 ∧ attr.type ≠ 2) (fields : NeighborFields) :
    list.foldl (NeighborFields.read family index) fields = fields := by
  induction list generalizing fields with
  | nil => rfl
  | cons attr list inductionHypothesis =>
      rw [List.foldl_cons, fields.read_other family index (unread attr List.mem_cons_self)]
      apply inductionHypothesis
      intro other member
      exact unread other (List.mem_cons_of_mem _ member)

theorem ofScopedData_bytes (family : RouteFamily) (octets : Octets family.width)
    (index : UInt32) :
    IpAddress.ofScopedData family.code octets.bytes index = family.scoped index octets := by
  cases family with
  | inet => exact congrArg IpAddress.ipv4 (Octets.ofMemory_bytes octets)
  | inet6 => exact congrArg (IpAddress.ipv6 · index) (Octets.ofMemory_bytes octets)

theorem fields_message (nlmsgType : UInt16) (neighbor : KernelNeighbor) :
    (neighbor.message nlmsgType).fields = ⟨neighbor.key.ip, neighbor.cached.mac⟩ := by
  rw [NeighborMessage.fields]
  change (attributes (attributeBytes neighbor.sentAttributes)).foldl
    (NeighborFields.read neighbor.family.code neighbor.ifindex.toUInt32) _ = _
  rw [attributes_attributeBytes neighbor.sentAttributes_fit, sentAttributes, List.foldl_append,
    List.foldl_append, List.foldl_cons, List.foldl_nil, NeighborFields.read_dst,
    ofScopedData_bytes, foldl_read_others _ _ neighbor.others_unread, lladdrAttribute, key,
    cached]
  cases neighbor.lladdr with
  | none => rfl
  | some octets =>
      rw [List.foldl_cons, List.foldl_nil, NeighborFields.read_lladdr, Octets.ofMemory_bytes]
      rfl

/-- What a message of the kernel tells. -/
theorem notices_message (neighbor : KernelNeighbor) {nlmsgType : UInt16}
    (known : nlmsgType = 28 ∨ nlmsgType = 29) :
    (neighbor.message nlmsgType).notices =
      if neighbor.key.ip.isWildcard then []
      else [(neighbor.key, if nlmsgType = 29 then none else some neighbor.cached)] := by
  have heard : ¬ (neighbor.message nlmsgType).Ignored := by
    rintro (⟨new, del⟩ | negative | family)
    · exact known.elim new del
    · exact absurd neighbor.ifindex_pos (Int.not_lt.mpr negative)
    · change neighbor.family.code ≠ 2 ∧ neighbor.family.code ≠ 10 at family
      revert family
      cases neighbor.family with
      | inet => decide
      | inet6 => decide
  rw [NeighborMessage.notices, fields_message]
  exact if_neg heard

end KernelNeighbor

/-! ## The table -/

namespace NeighborTable

variable {table : NeighborTable}

theorem key_of_lookup {key : NeighborKey} {neighbor : KernelNeighbor}
    (found : table.lookup key = some neighbor) : neighbor.key = key := by
  have same := List.find?_some found
  exact of_decide_eq_true same

theorem lookup_without (table : NeighborTable) (key : NeighborKey) :
    (table.without key).lookup = Function.update table.lookup key none := by
  funext other
  rw [lookup, without, List.find?_filter]
  by_cases same : other = key
  · rw [same, Function.update_self, List.find?_eq_none]
    intro neighbor _ both
    simp at both
  · rw [Function.update_of_ne same, lookup]
    congr 1
    funext neighbor
    by_cases here : neighbor.key = other
    · simp [here, same]
    · simp [here]

theorem lookup_cons (neighbor : KernelNeighbor) (table : NeighborTable) :
    lookup (neighbor :: table) =
      Function.update table.lookup neighbor.key (some neighbor) := by
  funext other
  rw [lookup, List.find?_cons]
  by_cases same : neighbor.key = other
  · rw [← same, Function.update_self]
    simp
  · rw [Function.update_of_ne (Ne.symm same)]
    simp [same, lookup]

/-- What is shown of a table in which one neighbor is another one: a wildcard never is. -/
theorem shown_update (table : NeighborTable) {other : NeighborTable} {key : NeighborKey}
    {found : Option KernelNeighbor}
    (lookup : other.lookup = Function.update table.lookup key found) :
    other.shown = if key.ip.isWildcard then table.shown
      else Function.update table.shown key (found.map KernelNeighbor.cached) := by
  have same : key.ip.isWildcard = true → other.shown = table.shown := by
    intro wild
    funext query
    rw [shown, shown, lookup]
    by_cases here : query = key
    · rw [here, if_pos wild, if_pos wild]
    · rw [Function.update_of_ne here]
  by_cases wild : key.ip.isWildcard = true
  · rw [if_pos wild, same wild]
  · rw [if_neg wild]
    funext query
    rw [shown, lookup]
    by_cases here : query = key
    · rw [here, Function.update_self, Function.update_self, if_neg wild]
    · rw [Function.update_of_ne here, Function.update_of_ne here, shown]

theorem shown_of_lookup {key : NeighborKey} (found : table.lookup key = none) :
    table.shown key = none := by
  rw [shown, found]
  exact ite_self none

end NeighborTable

/-! ## The run -/

namespace NeighborSystem

/-- What the cache may lack when the messages on the way have been handled. -/
def Missing (phase : RefreshPhase) (dump : Option (List NeighborKey)) (key : NeighborKey) : Prop :=
  match phase with
  | .cleared => True
  | .dumping => ∃ keys, dump = some keys ∧ key ∈ keys
  | .complete => False

/-- The cache has what the kernel's table has, but for what is missing. -/
def Follows (phase : RefreshPhase) (system : NeighborSystem) : Prop :=
  Tracks system.table.shown system.neighbors (system.queue.flatMap NeighborMessage.notices)
    (Missing phase system.dump)

theorem flatMap_snoc (queue : List NeighborMessage) (message : NeighborMessage) :
    (queue ++ [message]).flatMap NeighborMessage.notices =
      queue.flatMap NeighborMessage.notices ++ message.notices := by
  rw [List.flatMap_append, List.flatMap_singleton]

/-- The table changes under a key and the kernel tells of it. -/
theorem tracks_change {table other : NeighborTable} {neighbors : NeighborCache}
    {queue : List NeighborMessage} {missing : NeighborKey → Prop} {neighbor : KernelNeighbor}
    {nlmsgType : UInt16} (known : nlmsgType = 28 ∨ nlmsgType = 29)
    (tracks : Tracks table.shown neighbors (queue.flatMap NeighborMessage.notices) missing)
    (lookup : other.lookup = Function.update table.lookup neighbor.key
      (if nlmsgType = 29 then none else some neighbor)) :
    Tracks other.shown neighbors
      ((queue ++ [neighbor.message nlmsgType]).flatMap NeighborMessage.notices) missing := by
  rw [flatMap_snoc, neighbor.notices_message known, table.shown_update lookup]
  by_cases wild : neighbor.key.ip.isWildcard = true
  · rw [if_pos wild, if_pos wild, List.append_nil]
    exact tracks
  · rw [if_neg wild, if_neg wild]
    have value : (if nlmsgType = 29 then none else some neighbor).map KernelNeighbor.cached =
        if nlmsgType = 29 then none else some neighbor.cached := by
      split_ifs
      · rfl
      · rfl
    rw [value]
    exact tracks.change neighbor.key _

/-- The dump tells of a neighbor. -/
theorem tracks_dump {table : NeighborTable} {neighbors : NeighborCache}
    {queue : List NeighborMessage} {missing : NeighborKey → Prop} {neighbor : KernelNeighbor}
    (tracks : Tracks table.shown neighbors (queue.flatMap NeighborMessage.notices) missing)
    (found : table.lookup neighbor.key = some neighbor) :
    Tracks table.shown neighbors
      ((queue ++ [neighbor.message 28]).flatMap NeighborMessage.notices)
      fun key => missing key ∧ key ≠ neighbor.key := by
  rw [flatMap_snoc, neighbor.notices_message (.inl rfl)]
  by_cases wild : neighbor.key.ip.isWildcard = true
  · rw [if_pos wild, List.append_nil]
    apply tracks.of_absent
    intro key miss fewer
    have same : key = neighbor.key := not_not.mp fun different => fewer ⟨miss, different⟩
    rw [same, NeighborTable.shown, if_pos wild]
  · rw [if_neg wild]
    apply tracks.tell
    rw [NeighborTable.shown, if_neg wild, found]
    rfl

/-- One thing that happens leaves the cache following the table. -/
theorem follows_act {phase : RefreshPhase} {system after : NeighborSystem}
    {action : NeighborAction} (follows : system.Follows phase)
    (happens : system.act action = some after) : after.Follows (phase.next action) := by
  cases action with
  | set neighbor =>
      cases happens
      apply tracks_change (.inl rfl) follows
      rw [NeighborTable.lookup_cons, NeighborTable.lookup_without, Function.update_idem]
      rfl
  | remove key =>
      rw [act] at happens
      cases found : system.table.lookup key with
      | none =>
          rw [found] at happens
          cases happens
      | some neighbor =>
          rw [found] at happens
          cases happens
          apply tracks_change (.inr rfl) follows
          rw [NeighborTable.key_of_lookup found, NeighborTable.lookup_without]
          rfl
  | other message =>
      rw [act] at happens
      split_ifs at happens with ignored
      cases happens
      have nothing : message.notices = [] := if_pos ignored
      rw [Follows, flatMap_snoc, nothing, List.append_nil]
      exact follows
  | receive =>
      rw [act] at happens
      cases queued : system.queue with
      | nil =>
          rw [queued] at happens
          cases happens
      | cons message queue =>
          rw [queued] at happens
          cases happens
          rw [Follows, queued, List.flatMap_cons] at follows
          rw [Follows, NeighborCache.onMessage_fst]
          refine ⟨?_, ?_⟩
          · rw [← replayed_append]
            exact follows.sound
          · rw [← replayed_append]
            exact follows.complete
  | clear =>
      cases happens
      exact Tracks.clear follows
  | startDump =>
      rw [act] at happens
      split_ifs at happens with idle
      cases happens
      apply Tracks.of_absent follows
      intro key miss fewer
      cases phase with
      | cleared =>
          apply NeighborTable.shown_of_lookup
          rw [NeighborTable.lookup, List.find?_eq_none]
          intro neighbor member keyed
          apply fewer
          exact ⟨_, rfl, List.mem_map.mpr ⟨neighbor, member, of_decide_eq_true keyed⟩⟩
      | dumping =>
          obtain ⟨keys, running, -⟩ := miss
          rw [idle] at running
          cases running
      | complete => exact absurd miss id
  | dump key =>
      rw [act] at happens
      cases running : system.dump with
      | none =>
          rw [running] at happens
          cases happens
      | some keys =>
          rw [running] at happens
          have still : ∀ other, Missing phase system.dump other → other ≠ key →
              Missing phase (some (keys.filter fun other => other ≠ key)) other := by
            intro other miss different
            cases phase with
            | cleared => trivial
            | dumping =>
                obtain ⟨keys', same, member⟩ := miss
                rw [running] at same
                cases same
                exact ⟨_, rfl, List.mem_filter.mpr ⟨member, decide_eq_true different⟩⟩
            | complete => exact miss
          dsimp only at happens
          cases found : system.table.lookup key with
          | none =>
              rw [found] at happens
              cases happens
              apply Tracks.of_absent follows
              intro other miss fewer
              have same : other = key := not_not.mp fun different => fewer (still other miss different)
              rw [same]
              exact NeighborTable.shown_of_lookup found
          | some neighbor =>
              rw [found] at happens
              cases happens
              have keyed := NeighborTable.key_of_lookup found
              rw [← keyed] at found
              apply (tracks_dump follows found).of_absent
              rintro other ⟨miss, different⟩ fewer
              rw [keyed] at different
              exact absurd (still other miss different) fewer
  | finishDump =>
      rw [act] at happens
      split_ifs at happens with done
      cases happens
      apply Tracks.of_absent follows
      intro key miss fewer
      cases phase with
      | cleared => exact absurd trivial fewer
      | dumping =>
          obtain ⟨keys, same, member⟩ := miss
          rw [done] at same
          cases same
          cases member
      | complete => exact absurd miss id

theorem follows_run {table : NeighborTable} {actions : List NeighborAction}
    {system : NeighborSystem} (run : Trace act (start table) actions system) :
    system.Follows (RefreshPhase.after actions) := by
  induction run with
  | nil => exact Tracks.start _
  | snoc _ happens inductionHypothesis =>
      rw [RefreshPhase.after_snoc]
      exact follows_act inductionHypothesis happens

/-- However changes, messages, dumps and refreshes are interleaved: when a dump is over that
began after the cache was last thrown away, the messages that are on the way make the cache the
kernel's table. -/
theorem handled_eq_shown {table : NeighborTable} {actions : List NeighborAction}
    {system : NeighborSystem} (run : Trace act (start table) actions system)
    (complete : RefreshPhase.after actions = .complete) :
    system.neighbors.handled system.queue = system.table.shown := by
  have follows := follows_run run
  rw [complete] at follows
  rw [NeighborCache.handled_eq_replayed]
  exact Tracks.replayed_eq follows fun key => id

/-! ## A neighbor that changes while it is dumped -/

/-- The router `192.168.0.1` on the second interface, in some state. -/
def router (state : UInt16) : KernelNeighbor where
  family := .inet
  ifindex := 2
  ifindex_pos := by decide
  dst := ⟨[192, 168, 0, 1], rfl⟩
  lladdr := some ⟨[2, 0, 0, 0, 0, 1], rfl⟩
  state := state
  others := []
  others_unread := no_attributes _
  others_fit := no_attributes _

theorem handled_eq_shown_router : ∃ system,
    Trace act (start [router 2]) [.startDump, .set (router 4), .dump (router 2).key, .receive,
      .finishDump] system ∧
    system.neighbors.handled system.queue = system.table.shown := by
  have followed : (follow act (start [router 2]) [.startDump, .set (router 4),
      .dump (router 2).key, .receive, .finishDump]).any (fun _ => true) = true := rfl
  obtain ⟨system, run, _⟩ := Trace.exists_of_follow followed
  exact ⟨system, run, handled_eq_shown run rfl⟩

end NeighborSystem

end Join
