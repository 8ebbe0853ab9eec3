import Mathlib.Data.Finset.Basic
import Mathlib.Logic.Function.Basic
import Join.Core.Address
import Join.Fabric.NetlinkMessage
import Join.Library.Trace

/-!
# The route cache

`RouteManager` keeps the routes of the kernel's main table by their `RouteKey`: the output
interface, the destination and the prefix length. The kernel tells of every route that comes
and of every one that goes, and the handler enters the route under its key or erases what is
under the key.

The kernel tells routes apart by more than the key. A notification that a route went erases
the entry even when the table holds another route with the same key: so the cache follows the
table exactly as long as only the last route of its key is removed.
-/

set_option autoImplicit false

namespace Join

open Library

/-! ## What the cache holds -/

/-- `RouteKey`. -/
structure RouteKey where
  index : UInt32
  dest : IpAddress
  prefixLength : UInt32
deriving DecidableEq

/-- `Route`, what it holds besides its key. -/
structure Route where
  gateway : IpAddress := .default
  metric : UInt32 := 0
  /-- `RTN_UNICAST` -/
  type : UInt8 := 1
  /-- `RT_SCOPE_UNIVERSE` -/
  scope : UInt8 := 0
  /-- `RTPROT_STATIC` -/
  protocol : UInt8 := 4
deriving DecidableEq

namespace RouteChangeType

/-- `RouteChangeType::Added`. -/
def added : UInt32 := 1

/-- `RouteChangeType::Deleted`. -/
def deleted : UInt32 := 2

/-- `RouteChangeType::Modified`. -/
def modified : UInt32 := 4

/-- `RouteChangeType::GatewayChanged`. -/
def gatewayChanged : UInt32 := 8

/-- `RouteChangeType::MetricChanged`. -/
def metricChanged : UInt32 := 16

/-- `RouteChangeType::TypeChanged`. -/
def typeChanged : UInt32 := 32

/-- `RouteChangeType::ScopeChanged`. -/
def scopeChanged : UInt32 := 64

/-- `RouteChangeType::ProtocolChanged`. -/
def protocolChanged : UInt32 := 128

end RouteChangeType

/-- `RouteInfo`, with the key of the route. -/
structure RouteInfo where
  key : RouteKey
  route : Route
  flags : UInt32
deriving DecidableEq

/-! ## The handler -/

/-- A message of the kernel about a route: its header, its `rtmsg` and the bytes of its
attributes. -/
structure RouteMessage where
  nlmsgType : UInt16
  family : UInt8
  dstLen : UInt8
  table : UInt8
  protocol : UInt8
  scope : UInt8
  type : UInt8
  rta : List UInt8
deriving DecidableEq

/-- `IpAddress::IpAddress (family)`. -/
def IpAddress.wildcard (family : UInt8) : IpAddress :=
  if family = 10 then .ipv6 (Octets.zero 16) 0 else .ipv4 (Octets.zero 4)

/-- `IpAddress::IpAddress (RTA_DATA (rta), addrlen)`. -/
def IpAddress.ofData (family : UInt8) (data : List UInt8) : IpAddress :=
  if family = 10 then .ipv6 (Octets.ofMemory 16 data) 0 else .ipv4 (Octets.ofMemory 4 data)

/-- What the handler reads from the attributes. -/
structure RouteFields where
  index : UInt32
  dest : IpAddress
  gateway : IpAddress
  metric : UInt32
deriving DecidableEq

/-- One turn of the loop: `RTA_DST`, `RTA_GATEWAY`, `RTA_PRIORITY` and `RTA_OIF`. -/
def RouteFields.read (family : UInt8) (fields : RouteFields) (attr : Attribute) : RouteFields :=
  if attr.type = 1 then { fields with dest := .ofData family attr.data }
  else if attr.type = 5 then { fields with gateway := .ofData family attr.data }
  else if attr.type = 6 then { fields with metric := dataValue attr.data }
  else if attr.type = 4 then { fields with index := dataValue attr.data }
  else fields

namespace RouteFields

variable (family : UInt8) (fields : RouteFields) (data : List UInt8)

theorem read_dst : fields.read family ⟨1, data⟩ = { fields with dest := .ofData family data } := rfl

theorem read_gateway :
    fields.read family ⟨5, data⟩ = { fields with gateway := .ofData family data } := rfl

theorem read_priority :
    fields.read family ⟨6, data⟩ = { fields with metric := dataValue data } := rfl

theorem read_oif : fields.read family ⟨4, data⟩ = { fields with index := dataValue data } := rfl

/-- Other attributes are not read. -/
theorem read_other {attr : Attribute}
    (unread : attr.type ≠ 1 ∧ attr.type ≠ 4 ∧ attr.type ≠ 5 ∧ attr.type ≠ 6) :
    fields.read family attr = fields := by
  obtain ⟨dst, oif, gateway, priority⟩ := unread
  rw [read, if_neg dst, if_neg gateway, if_neg priority, if_neg oif]

end RouteFields

/-- The loop over the attributes. -/
def RouteMessage.fields (message : RouteMessage) : RouteFields :=
  (attributes message.rta).foldl (RouteFields.read message.family)
    ⟨0, .wildcard message.family, .wildcard message.family, 0⟩

/-- `RouteManager::_routes`. -/
abbrev RouteCache : Type := RouteKey → Option Route

namespace RouteCache

/-- `RouteManager::acquire`: the route under a key, which is created when there is none, and
whether it was there. -/
def acquire (routes : RouteCache) (key : RouteKey) : Route × UInt32 :=
  match routes key with
  | some route => (route, RouteChangeType.modified)
  | none => ({}, RouteChangeType.added)

/-- `RouteManager::onRouteMessage`: the cache and what the listeners are told. -/
def onRouteMessage (routes : RouteCache) (message : RouteMessage) :
    RouteCache × Option RouteInfo :=
  if message.family ≠ 2 ∧ message.family ≠ 10 then (routes, none)
  else if message.table ≠ 254 then (routes, none)
  else
    let fields := message.fields
    let key : RouteKey := ⟨fields.index, fields.dest, message.dstLen.toUInt32⟩
    if fields.index = 0 then (routes, none)
    else if message.nlmsgType = 25 then
      match routes key with
      | some route =>
          (Function.update routes key none, some ⟨key, route, RouteChangeType.deleted⟩)
      | none => (routes, none)
    else
      let acquired := routes.acquire key
      let route := acquired.1
      let gateway := updateValue route.gateway fields.gateway RouteChangeType.gatewayChanged
      let metric := updateValue route.metric fields.metric RouteChangeType.metricChanged
      let type := updateValue route.type message.type RouteChangeType.typeChanged
      let scope := updateValue route.scope message.scope RouteChangeType.scopeChanged
      let protocol := updateValue route.protocol message.protocol RouteChangeType.protocolChanged
      let updated : Route := ⟨gateway.1, metric.1, type.1, scope.1, protocol.1⟩
      (Function.update routes key (some updated),
        some ⟨key, updated,
          acquired.2 ||| gateway.2 ||| metric.2 ||| type.2 ||| scope.2 ||| protocol.2⟩)

/-- `RouteManager::onMessage`: `RTM_NEWROUTE` and `RTM_DELROUTE`. -/
def onMessage (routes : RouteCache) (message : RouteMessage) : RouteCache × Option RouteInfo :=
  if message.nlmsgType = 24 ∨ message.nlmsgType = 25 then routes.onRouteMessage message
  else (routes, none)

end RouteCache

/-! ## The kernel -/

/-- An address family with routes. -/
inductive RouteFamily
  | inet
  | inet6
deriving DecidableEq

namespace RouteFamily

/-- `AF_INET` and `AF_INET6`. -/
def code : RouteFamily → UInt8
  | inet => 2
  | inet6 => 10

/-- The size of an address. -/
def width : RouteFamily → ℕ
  | inet => 4
  | inet6 => 16

/-- The address with some bytes. -/
def address : (family : RouteFamily) → Octets family.width → IpAddress
  | inet, octets => .ipv4 octets
  | inet6, octets => .ipv6 octets 0

theorem ofData_bytes (family : RouteFamily) (octets : Octets family.width) :
    IpAddress.ofData family.code octets.bytes = family.address octets := by
  cases family with
  | inet => exact congrArg IpAddress.ipv4 (Octets.ofMemory_bytes octets)
  | inet6 => exact congrArg (IpAddress.ipv6 · 0) (Octets.ofMemory_bytes octets)

theorem wildcard_code (family : RouteFamily) :
    IpAddress.wildcard family.code = family.address (Octets.zero family.width) := by
  cases family with
  | inet => rfl
  | inet6 => rfl

end RouteFamily

/-- A route of the kernel's main table: it has an output interface, the destination of a default
route is the wildcard, and the attributes besides the ones that the handler reads can be sent. -/
structure KernelRoute where
  family : RouteFamily
  index : UInt32
  index_ne : index ≠ 0
  dest : Octets family.width
  prefixLength : UInt8
  dest_default : prefixLength = 0 → dest = Octets.zero family.width
  metric : UInt32
  gateway : Option (Octets family.width)
  type : UInt8
  scope : UInt8
  protocol : UInt8
  others : List Attribute
  others_unread : ∀ attr ∈ others, attr.type ≠ 1 ∧ attr.type ≠ 4 ∧ attr.type ≠ 5 ∧ attr.type ≠ 6
  others_fit : ∀ attr ∈ others, attr.Fits
deriving DecidableEq

namespace KernelRoute

/-- The key under which the route is cached. -/
def key (route : KernelRoute) : RouteKey :=
  ⟨route.index, route.family.address route.dest, route.prefixLength.toUInt32⟩

/-- The address of the gateway, the wildcard when there is none. -/
def gatewayAddress (route : KernelRoute) : IpAddress :=
  route.family.address (route.gateway.getD (Octets.zero route.family.width))

/-- `RTA_DST`, which a default route does not have. -/
def dstAttribute (route : KernelRoute) : List Attribute :=
  if route.prefixLength = 0 then [] else [⟨1, route.dest.bytes⟩]

/-- `RTA_PRIORITY`, unless the metric is zero. -/
def priorityAttribute (route : KernelRoute) : List Attribute :=
  if route.metric = 0 then [] else [⟨6, valueData route.metric⟩]

/-- `RTA_GATEWAY`, if there is one. -/
def gatewayAttribute (route : KernelRoute) : List Attribute :=
  match route.gateway with
  | some octets => [⟨5, octets.bytes⟩]
  | none => []

/-- The attributes that the kernel sends. -/
def sentAttributes (route : KernelRoute) : List Attribute :=
  route.dstAttribute ++ route.priorityAttribute ++ [⟨4, valueData route.index⟩] ++
    route.gatewayAttribute ++ route.others

/-- The message about a route, of type `RTM_NEWROUTE` or `RTM_DELROUTE`. -/
def message (nlmsgType : UInt16) (route : KernelRoute) : RouteMessage where
  nlmsgType := nlmsgType
  family := route.family.code
  dstLen := route.prefixLength
  table := 254
  protocol := route.protocol
  scope := route.scope
  type := route.type
  rta := attributeBytes route.sentAttributes

end KernelRoute

/-- The kernel's table and the cache. -/
structure RouteSystem where
  table : Finset KernelRoute
  routes : RouteCache

/-- A change of the table. -/
inductive RouteChange
  | add (route : KernelRoute)
  | remove (route : KernelRoute)

namespace RouteSystem

/-- No routes. -/
def start : RouteSystem := ⟨∅, fun _ => none⟩

/-- A route comes or goes, and the notification of it is handled. -/
def act (system : RouteSystem) : RouteChange → Option RouteSystem
  | .add route =>
      if route ∈ system.table then none
      else some ⟨insert route system.table, (system.routes.onMessage (route.message 24)).1⟩
  | .remove route =>
      if route ∈ system.table then
        some ⟨system.table.erase route, (system.routes.onMessage (route.message 25)).1⟩
      else none

/-- The cache has an entry under a key exactly when the table has a route with the key, and the
entry's gateway and metric are those of such a route. -/
structure Follows (system : RouteSystem) : Prop where
  entry_iff : ∀ key, (system.routes key).isSome = true ↔ ∃ route ∈ system.table, route.key = key
  exists_route : ∀ key entry, system.routes key = some entry → ∃ route ∈ system.table,
    route.key = key ∧ entry.gateway = route.gatewayAddress ∧ entry.metric = route.metric

/-- A route that is removed is the only one with its key. -/
def RemovesLast (system : RouteSystem) : RouteChange → Prop
  | .add _ => True
  | .remove route => ∀ other ∈ system.table, other.key = route.key → other = route

end RouteSystem

/-! ## A notification is read as it was sent -/

namespace KernelRoute

theorem length_bytes_le {family : RouteFamily} (octets : Octets family.width) :
    octets.bytes.length ≤ 16 := by
  rw [octets.length_eq]
  cases family with
  | inet => decide
  | inet6 => decide

theorem sentAttributes_fit (route : KernelRoute) : ∀ attr ∈ route.sentAttributes, attr.Fits := by
  have short {type : UInt16} {data : List UInt8} (small : data.length ≤ 16) :
      (Attribute.mk type data).Fits := by
    change data.length + 4 < 65536
    omega
  have value (value : UInt32) : (valueData value).length ≤ 16 := by
    rw [valueData, length_leBytes]
    decide
  intro attr member
  rw [sentAttributes, List.mem_append, List.mem_append, List.mem_append, List.mem_append]
    at member
  rcases member with (((dst | priority) | oif) | gateway) | other
  · rw [dstAttribute] at dst
    split_ifs at dst
    · cases dst
    · rw [List.mem_singleton.mp dst]
      exact short (length_bytes_le _)
  · rw [priorityAttribute] at priority
    split_ifs at priority
    · cases priority
    · rw [List.mem_singleton.mp priority]
      exact short (value _)
  · rw [List.mem_singleton.mp oif]
    exact short (value _)
  · rw [gatewayAttribute] at gateway
    cases given : route.gateway with
    | none =>
        rw [given] at gateway
        cases gateway
    | some octets =>
        rw [given] at gateway
        rw [List.mem_singleton.mp gateway]
        exact short (length_bytes_le _)
  · exact route.others_fit attr other

/-- Attributes that the handler does not know leave what it has read. -/
theorem foldl_read_others (family : UInt8) {list : List Attribute}
    (unread : ∀ attr ∈ list, attr.type ≠ 1 ∧ attr.type ≠ 4 ∧ attr.type ≠ 5 ∧ attr.type ≠ 6)
    (fields : RouteFields) : list.foldl (RouteFields.read family) fields = fields := by
  induction list generalizing fields with
  | nil => rfl
  | cons attr list inductionHypothesis =>
      rw [List.foldl_cons, fields.read_other family (unread attr (List.mem_cons_self ..))]
      apply inductionHypothesis
      intro other member
      exact unread other (List.mem_cons_of_mem _ member)

theorem foldl_read_dst (route : KernelRoute) {fields : RouteFields}
    (wild : fields.dest = .wildcard route.family.code) :
    route.dstAttribute.foldl (RouteFields.read route.family.code) fields =
      { fields with dest := route.family.address route.dest } := by
  rw [dstAttribute]
  by_cases default : route.prefixLength = 0
  · rw [if_pos default, List.foldl_nil, route.dest_default default, ← route.family.wildcard_code,
      ← wild]
  · rw [if_neg default, List.foldl_cons, List.foldl_nil, RouteFields.read_dst,
      RouteFamily.ofData_bytes]

theorem foldl_read_priority (route : KernelRoute) {fields : RouteFields}
    (zero : fields.metric = 0) :
    route.priorityAttribute.foldl (RouteFields.read route.family.code) fields =
      { fields with metric := route.metric } := by
  rw [priorityAttribute]
  by_cases absent : route.metric = 0
  · rw [if_pos absent, List.foldl_nil, absent, ← zero]
  · rw [if_neg absent, List.foldl_cons, List.foldl_nil, RouteFields.read_priority,
      dataValue_valueData]

theorem foldl_read_gateway (route : KernelRoute) {fields : RouteFields}
    (wild : fields.gateway = .wildcard route.family.code) :
    route.gatewayAttribute.foldl (RouteFields.read route.family.code) fields =
      { fields with gateway := route.gatewayAddress } := by
  rw [gatewayAttribute, gatewayAddress]
  cases given : route.gateway with
  | none =>
      rw [List.foldl_nil, Option.getD_none, ← route.family.wildcard_code, ← wild]
  | some octets =>
      rw [List.foldl_cons, List.foldl_nil, RouteFields.read_gateway, RouteFamily.ofData_bytes,
        Option.getD_some]

/-- The handler reads what the kernel has sent. -/
theorem fields_message (nlmsgType : UInt16) (route : KernelRoute) :
    (route.message nlmsgType).fields =
      ⟨route.index, route.family.address route.dest, route.gatewayAddress, route.metric⟩ := by
  have oif (fields : RouteFields) : [Attribute.mk 4 (valueData route.index)].foldl
      (RouteFields.read route.family.code) fields = { fields with index := route.index } := by
    rw [List.foldl_cons, List.foldl_nil, RouteFields.read_oif, dataValue_valueData]
  rw [RouteMessage.fields]
  change (attributes (attributeBytes route.sentAttributes)).foldl
    (RouteFields.read route.family.code) _ = _
  rw [attributes_attributeBytes route.sentAttributes_fit, sentAttributes, List.foldl_append,
    List.foldl_append, List.foldl_append, List.foldl_append, route.foldl_read_dst rfl,
    route.foldl_read_priority rfl, oif, route.foldl_read_gateway rfl,
    foldl_read_others _ route.others_unread]

end KernelRoute

/-! ## What a notification does to the cache -/

namespace RouteCache

theorem family_code (route : KernelRoute) :
    ¬ (route.family.code ≠ 2 ∧ route.family.code ≠ 10) := by
  cases route.family with
  | inet => decide
  | inet6 => decide

/-- What the handler does with a message of the kernel. -/
theorem onMessage_message (routes : RouteCache) (route : KernelRoute) {nlmsgType : UInt16}
    (known : nlmsgType = 24 ∨ nlmsgType = 25) :
    (routes.onMessage (route.message nlmsgType)).1 = Function.update routes route.key
      (if nlmsgType = 25 then none
        else some ⟨route.gatewayAddress, route.metric, route.type, route.scope,
          route.protocol⟩) := by
  have family := family_code route
  have read := route.fields_message nlmsgType
  have handled : routes.onMessage (route.message nlmsgType) =
      routes.onRouteMessage (route.message nlmsgType) := if_pos known
  rw [handled, onRouteMessage, read]
  change (if route.family.code ≠ 2 ∧ route.family.code ≠ 10 then _ else _ : _ × _).1 = _
  rw [if_neg family]
  change (if (254 : UInt8) ≠ 254 then _ else _ : _ × _).1 = _
  rw [if_neg (not_not_intro rfl)]
  dsimp only
  rw [if_neg route.index_ne]
  change (if nlmsgType = 25 then _ else _ : _ × _).1 = _
  by_cases gone : nlmsgType = 25
  · rw [if_pos gone, if_pos gone]
    change (match routes route.key with | some _ => _ | none => _ : _ × _).1 = _
    cases held : routes route.key with
    | some entry => rfl
    | none =>
        change routes = _
        rw [← held, Function.update_eq_self]
  · rw [if_neg gone, if_neg gone]
    dsimp only
    rw [updateValue_fst, updateValue_fst, updateValue_fst, updateValue_fst, updateValue_fst]
    rfl

/-- A route that comes is entered. -/
theorem onMessage_new (routes : RouteCache) (route : KernelRoute) :
    (routes.onMessage (route.message 24)).1 = Function.update routes route.key
      (some ⟨route.gatewayAddress, route.metric, route.type, route.scope, route.protocol⟩) :=
  routes.onMessage_message route (Or.inl rfl)

/-- A route that goes is erased. -/
theorem onMessage_del (routes : RouteCache) (route : KernelRoute) :
    (routes.onMessage (route.message 25)).1 = Function.update routes route.key none :=
  routes.onMessage_message route (Or.inr rfl)

end RouteCache

/-! ## The run -/

namespace RouteSystem

variable {system after : RouteSystem} {route : KernelRoute}

/-- The entry of a route that comes is that of a route in the table. -/
theorem follows_add (follows : system.Follows)
    (happens : system.act (.add route) = some after) : after.Follows := by
  rw [act] at happens
  split_ifs at happens
  rw [RouteCache.onMessage_new] at happens
  cases happens
  have here : route ∈ insert route system.table := Finset.mem_insert_self ..
  constructor
  · intro key
    dsimp only
    by_cases same : key = route.key
    · rw [same, Function.update_self]
      exact iff_of_true rfl ⟨route, here, rfl⟩
    · rw [Function.update_of_ne same, follows.entry_iff]
      constructor
      · rintro ⟨other, member, keyed⟩
        exact ⟨other, Finset.mem_insert_of_mem member, keyed⟩
      · rintro ⟨other, member, keyed⟩
        rcases Finset.mem_insert.mp member with rfl | member
        · exact absurd keyed.symm same
        · exact ⟨other, member, keyed⟩
  · intro key entry held
    dsimp only at held ⊢
    by_cases same : key = route.key
    · rw [same, Function.update_self] at held
      cases held
      exact ⟨route, here, same.symm, rfl, rfl⟩
    · rw [Function.update_of_ne same] at held
      obtain ⟨other, member, values⟩ := follows.exists_route key entry held
      exact ⟨other, Finset.mem_insert_of_mem member, values⟩

/-- After a route went the cache follows exactly when no other route had its key. -/
theorem follows_remove_iff (follows : system.Follows)
    (happens : system.act (.remove route) = some after) :
    after.Follows ↔ system.RemovesLast (.remove route) := by
  rw [act] at happens
  split_ifs at happens with present
  rw [RouteCache.onMessage_del] at happens
  cases happens
  have kept {other : KernelRoute} {key : RouteKey} (member : other ∈ system.table)
      (keyed : other.key = key) (different : key ≠ route.key) :
      other ∈ system.table.erase route := by
    apply Finset.mem_erase_of_ne_of_mem _ member
    rintro rfl
    exact different keyed.symm
  constructor
  · intro after other member keyed
    by_contra different
    have entry := (after.entry_iff route.key).mpr
      ⟨other, Finset.mem_erase_of_ne_of_mem different member, keyed⟩
    dsimp only at entry
    rw [Function.update_self] at entry
    cases entry
  · intro last
    constructor
    · intro key
      dsimp only
      by_cases same : key = route.key
      · rw [same, Function.update_self]
        refine iff_of_false Bool.false_ne_true ?_
        rintro ⟨other, member, keyed⟩
        obtain ⟨different, member⟩ := Finset.mem_erase.mp member
        exact different (last other member keyed)
      · rw [Function.update_of_ne same, follows.entry_iff]
        constructor
        · rintro ⟨other, member, keyed⟩
          exact ⟨other, kept member keyed same, keyed⟩
        · rintro ⟨other, member, keyed⟩
          exact ⟨other, Finset.mem_of_mem_erase member, keyed⟩
    · intro key entry held
      dsimp only at held ⊢
      by_cases same : key = route.key
      · rw [same, Function.update_self] at held
        cases held
      · rw [Function.update_of_ne same] at held
        obtain ⟨other, member, keyed, values⟩ := follows.exists_route key entry held
        exact ⟨other, kept member keyed same, keyed, values⟩

/-- A change is followed exactly when it does not remove one of several routes with one key. -/
theorem follows_act_iff {change : RouteChange} (follows : system.Follows)
    (happens : system.act change = some after) :
    after.Follows ↔ system.RemovesLast change := by
  cases change with
  | add route => exact iff_of_true (follows_add follows happens) trivial
  | remove route => exact follows_remove_iff follows happens

theorem follows_start : start.Follows := by
  constructor
  · intro key
    refine iff_of_false Bool.false_ne_true ?_
    rintro ⟨route, member, -⟩
    exact absurd member (Finset.notMem_empty route)
  · intro key entry held
    cases held

/-- Along a run, the cache follows the kernel's table after every notification exactly when every
route that was removed was the only one with its key. -/
theorem cache_follows_iff {changes : List RouteChange} {final : RouteSystem}
    (run : Trace act start changes final) :
    Throughout act Follows start changes ↔ Along act RemovesLast start changes :=
  run.throughout_iff Follows (fun _ _ _ => follows_act_iff) follows_start

/-! ## Two routes with one key -/

theorem act_add (absent : route ∉ system.table) : ∃ after,
    system.act (.add route) = some after ∧ after.table = insert route system.table :=
  ⟨_, if_neg absent, rfl⟩

theorem act_remove (present : route ∈ system.table) : ∃ after,
    system.act (.remove route) = some after ∧ after.table = system.table.erase route :=
  ⟨_, if_pos present, rfl⟩

/-- Whichever two routes have one key: when both are added and the first is removed, the cache
does not follow the table any more. -/
theorem not_throughout_of_collision {first second : KernelRoute} (different : second ≠ first)
    (keyed : second.key = first.key) : ∃ final,
    Trace act start [.add first, .add second, .remove first] final ∧
      ¬ Throughout act Follows start [.add first, .add second, .remove first] := by
  obtain ⟨one, adds, table⟩ := act_add (show first ∉ start.table from Finset.notMem_empty first)
  have only : one.table = {first} := table
  obtain ⟨two, addsSecond, tableSecond⟩ :=
    act_add (show second ∉ one.table by rw [only]; exact Finset.notMem_singleton.mpr different)
  have present : first ∈ two.table := by
    rw [tableSecond, only]
    exact Finset.mem_insert_of_mem (Finset.mem_singleton_self first)
  have other : second ∈ two.table := by
    rw [tableSecond]
    exact Finset.mem_insert_self ..
  obtain ⟨three, removes, -⟩ := act_remove present
  have run : Trace act start [.add first, .add second, .remove first] three :=
    ((Trace.single adds).snoc addsSecond).snoc removes
  refine ⟨three, run, ?_⟩
  intro throughout
  have follows := follows_add (follows_add follows_start adds) addsSecond
  have last := (follows_remove_iff follows removes).mp
    (throughout _ [] three (List.append_nil _).symm run)
  exact different (last second other keyed)

theorem one_ne : (1 : UInt32) ≠ 0 := by decide

/-- A default route with a metric. -/
def defaultRoute (metric : UInt32) : KernelRoute where
  family := .inet
  index := 1
  index_ne := one_ne
  dest := Octets.zero 4
  prefixLength := 0
  dest_default _ := rfl
  metric := metric
  gateway := none
  type := 1
  scope := 0
  protocol := 4
  others := []
  others_unread := no_attributes _
  others_fit := no_attributes _

/-- One route comes and goes. -/
theorem cache_follows_single : ∃ final,
    Trace act start [.add (defaultRoute 100), .remove (defaultRoute 100)] final ∧
      (Throughout act Follows start [.add (defaultRoute 100), .remove (defaultRoute 100)] ↔
        Along act RemovesLast start [.add (defaultRoute 100), .remove (defaultRoute 100)]) := by
  obtain ⟨one, adds, table⟩ :=
    act_add (show defaultRoute 100 ∉ start.table from Finset.notMem_empty _)
  have present : defaultRoute 100 ∈ one.table := by
    rw [table]
    exact Finset.mem_insert_self ..
  obtain ⟨two, removes, -⟩ := act_remove present
  have run : Trace act start [.add (defaultRoute 100), .remove (defaultRoute 100)] two :=
    (Trace.single adds).snoc removes
  exact ⟨two, run, cache_follows_iff run⟩

/-- The default routes of an interface with the metrics 100 and 200 have one key: when the first
is removed, the entry of the second is gone. -/
theorem removed_metric_forgets_other : ¬ ∀ (changes : List RouteChange) (final : RouteSystem),
    Trace act start changes final → Throughout act Follows start changes := by
  intro always
  have different : defaultRoute 200 ≠ defaultRoute 100 := by
    intro same
    have metrics : (200 : UInt32) = 100 := congrArg KernelRoute.metric same
    exact absurd metrics (by decide)
  obtain ⟨final, run, broken⟩ := not_throughout_of_collision different rfl
  exact broken (always _ final run)

end RouteSystem

end Join
