import Mathlib.Data.List.Induction
import Mathlib.Logic.Function.Basic
import Join.Core.Address
import Join.Fabric.NetlinkMessage
import Join.Library.CString

/-!
# The link cache

`InterfaceManager` keeps the links of the kernel by their index. A message about a link
overwrites its flags, and of the other values the ones that stand among its attributes; a link
that went is erased.

The kernel sends all that a link has, so an attribute that is absent tells that the link has
none. The handler leaves the value as it was: what is cached after a message is what the message
has and, for the rest, what the newest of the earlier messages had.
-/

set_option autoImplicit false

namespace Join

open Library

/-! ## The handler -/

/-- `Interface`, what is known of it from the messages about links. -/
structure Interface where
  master : UInt32 := 0
  name : List UInt8 := []
  kind : List UInt8 := []
  mtu : UInt32 := 0
  flags : UInt32 := 0
  mac : MacAddress := Octets.zero 6
deriving DecidableEq

namespace InterfaceChangeType

/-- `InterfaceChangeType::Added`. -/
def added : UInt32 := 1

/-- `InterfaceChangeType::Deleted`. -/
def deleted : UInt32 := 2

/-- `InterfaceChangeType::AdminStateChanged`. -/
def adminStateChanged : UInt32 := 8

/-- `InterfaceChangeType::OperStateChanged`. -/
def operStateChanged : UInt32 := 16

/-- `InterfaceChangeType::MacChanged`. -/
def macChanged : UInt32 := 32

/-- `InterfaceChangeType::NameChanged`. -/
def nameChanged : UInt32 := 64

/-- `InterfaceChangeType::MtuChanged`. -/
def mtuChanged : UInt32 := 128

/-- `InterfaceChangeType::KindChanged`. -/
def kindChanged : UInt32 := 256

/-- `InterfaceChangeType::MasterChanged`. -/
def masterChanged : UInt32 := 512

end InterfaceChangeType

/-- `LinkInfo`. -/
structure LinkInfo where
  interface : Option Interface
  flags : UInt32
deriving DecidableEq

/-- A message of the kernel about a link: its header, its `ifinfomsg` and the bytes of its
attributes. -/
structure LinkMessage where
  nlmsgType : UInt16
  family : UInt8
  index : UInt32
  flags : UInt32
  rta : List UInt8
deriving DecidableEq

namespace Interface

/-- One turn of the loop in `onLinkInfoMessage`: `IFLA_INFO_KIND`. -/
def readInfo (state : Interface × UInt32) (attr : Attribute) : Interface × UInt32 :=
  if attr.type = 1 then
    let kind := updateValue state.1.kind (cString attr.data) InterfaceChangeType.kindChanged
    ({ state.1 with kind := kind.1 }, state.2 ||| kind.2)
  else state

/-- `InterfaceManager::onLinkInfoMessage`. -/
def onLinkInfoMessage (state : Interface × UInt32) (data : List UInt8) : Interface × UInt32 :=
  (attributes data).foldl readInfo state

/-- One turn of the loop in `onLinkMessage`: `IFLA_ADDRESS`, `IFLA_IFNAME`, `IFLA_MTU`,
`IFLA_LINKINFO` and `IFLA_MASTER`. -/
def read (state : Interface × UInt32) (attr : Attribute) : Interface × UInt32 :=
  if attr.type = 1 then
    let mac := updateValue state.1.mac (Octets.ofMemory 6 attr.data) InterfaceChangeType.macChanged
    ({ state.1 with mac := mac.1 }, state.2 ||| mac.2)
  else if attr.type = 3 then
    let name := updateValue state.1.name (cString attr.data) InterfaceChangeType.nameChanged
    ({ state.1 with name := name.1 }, state.2 ||| name.2)
  else if attr.type = 4 then
    let mtu := updateValue state.1.mtu (dataValue attr.data) InterfaceChangeType.mtuChanged
    ({ state.1 with mtu := mtu.1 }, state.2 ||| mtu.2)
  else if attr.type = 18 then onLinkInfoMessage state attr.data
  else if attr.type = 10 then
    let master :=
      updateValue state.1.master (dataValue attr.data) InterfaceChangeType.masterChanged
    ({ state.1 with master := master.1 }, state.2 ||| master.2)
  else state

/-- What has changed in the flags: `IFF_UP` and `IFF_RUNNING`. -/
def flagChanges (old new : UInt32) : UInt32 :=
  (if old &&& 1 ≠ new &&& 1 then InterfaceChangeType.adminStateChanged else 0) |||
    (if old &&& 64 ≠ new &&& 64 then InterfaceChangeType.operStateChanged else 0)

end Interface

/-- `InterfaceManager::_interfaces`. -/
abbrev LinkCache : Type := UInt32 → Option Interface

namespace LinkCache

/-- `InterfaceManager::acquire`: the interface with an index, which is created when there is
none, and whether it was. -/
def acquire (interfaces : LinkCache) (index : UInt32) : Interface × UInt32 :=
  match interfaces index with
  | some iface => (iface, 0)
  | none => ({}, InterfaceChangeType.added)

/-- `InterfaceManager::onLinkMessage`: the cache and what the listeners are told. -/
def onLinkMessage (interfaces : LinkCache) (message : LinkMessage) :
    LinkCache × Option LinkInfo :=
  if message.family = 7 then (interfaces, none)
  else if message.nlmsgType = 17 then
    (Function.update interfaces message.index none,
      some ⟨interfaces message.index, InterfaceChangeType.deleted⟩)
  else
    let acquired := interfaces.acquire message.index
    let changes := acquired.2 ||| Interface.flagChanges acquired.1.flags message.flags
    let read := (attributes message.rta).foldl Interface.read
      ({ acquired.1 with flags := message.flags }, changes)
    (Function.update interfaces message.index (some read.1), some ⟨some read.1, read.2⟩)

/-- `InterfaceManager::onMessage`: `RTM_NEWLINK` and `RTM_DELLINK`. -/
def onMessage (interfaces : LinkCache) (message : LinkMessage) : LinkCache × Option LinkInfo :=
  if message.nlmsgType = 16 ∨ message.nlmsgType = 17 then interfaces.onLinkMessage message
  else (interfaces, none)

end LinkCache

/-! ## The kernel -/

/-- A link of the kernel, with its name, its kind and its master, and the attributes besides the
ones that the handler reads. -/
structure Link where
  index : UInt32
  flags : UInt32
  name : List UInt8
  name_noZero : 0 ∉ name
  name_small : name.length < 16
  mtu : UInt32
  address : Option MacAddress
  kind : Option (List UInt8)
  kind_noZero : ∀ text ∈ kind, 0 ∉ text
  kind_small : ∀ text ∈ kind, text.length + 12 < 65536
  master : Option UInt32
  others : List Attribute
  others_unread : ∀ attr ∈ others, attr.type ≠ 1 ∧ attr.type ≠ 3 ∧ attr.type ≠ 4 ∧
    attr.type ≠ 10 ∧ attr.type ≠ 18
  others_fit : ∀ attr ∈ others, attr.Fits

namespace Link

/-- `IFLA_ADDRESS`, if the link has one. -/
def addressAttribute (link : Link) : List Attribute :=
  match link.address with
  | some mac => [⟨1, mac.bytes⟩]
  | none => []

/-- The data of `IFLA_LINKINFO`, which has the kind within. -/
def infoData (text : List UInt8) : List UInt8 := attributeBytes [⟨1, text ++ [0]⟩]

/-- `IFLA_LINKINFO`, if the link is of a kind. -/
def infoAttribute (link : Link) : List Attribute :=
  match link.kind with
  | some text => [⟨18, infoData text⟩]
  | none => []

/-- `IFLA_MASTER`, if the link has one. -/
def masterAttribute (link : Link) : List Attribute :=
  match link.master with
  | some index => [⟨10, valueData index⟩]
  | none => []

/-- The attributes that the kernel sends. -/
def sentAttributes (link : Link) : List Attribute :=
  [⟨3, link.name ++ [0]⟩] ++ [⟨4, valueData link.mtu⟩] ++ link.masterAttribute ++
    link.addressAttribute ++ link.infoAttribute ++ link.others

/-- The message about a link, of family `AF_UNSPEC`. -/
def message (link : Link) : LinkMessage where
  nlmsgType := 16
  family := 0
  index := link.index
  flags := link.flags
  rta := attributeBytes link.sentAttributes

/-- The interface after the message: what the link has, and otherwise what was there. -/
def overwrite (link : Link) (iface : Interface) : Interface where
  master := link.master.getD iface.master
  name := link.name
  kind := link.kind.getD iface.kind
  mtu := link.mtu
  flags := link.flags
  mac := link.address.getD iface.mac

end Link

/-- What the kernel tells: a link is there, a link went, or something about the ports of a
bridge, with the family `AF_BRIDGE`. -/
inductive LinkEvent
  | newLink (link : Link)
  | delLink (index : UInt32)
  | bridge (nlmsgType : UInt16) (index flags : UInt32) (rta : List UInt8)

/-- The message of the kernel. -/
def LinkEvent.message : LinkEvent → LinkMessage
  | newLink link => link.message
  | delLink index => ⟨17, 0, index, 0, []⟩
  | bridge nlmsgType index flags rta => ⟨nlmsgType, 7, index, flags, rta⟩

/-- The cache after the messages. -/
def LinkCache.after (history : List LinkEvent) : LinkCache :=
  history.foldl (fun interfaces event => (interfaces.onMessage event.message).1) fun _ => none

/-! ## A message is read as it was sent -/

namespace Interface

variable (state : Interface × UInt32)

theorem fst_read_mac (data : List UInt8) :
    (read state ⟨1, data⟩).1 = { state.1 with mac := Octets.ofMemory 6 data } :=
  congrArg (fun mac => { state.1 with mac := mac })
    (updateValue_fst state.1.mac (Octets.ofMemory 6 data) InterfaceChangeType.macChanged)

theorem fst_read_name (data : List UInt8) :
    (read state ⟨3, data⟩).1 = { state.1 with name := cString data } :=
  congrArg (fun name => { state.1 with name := name })
    (updateValue_fst state.1.name (cString data) InterfaceChangeType.nameChanged)

theorem fst_read_mtu (data : List UInt8) :
    (read state ⟨4, data⟩).1 = { state.1 with mtu := dataValue data } :=
  congrArg (fun mtu => { state.1 with mtu := mtu })
    (updateValue_fst state.1.mtu (dataValue data) InterfaceChangeType.mtuChanged)

theorem fst_read_master (data : List UInt8) :
    (read state ⟨10, data⟩).1 = { state.1 with master := dataValue data } :=
  congrArg (fun master => { state.1 with master := master })
    (updateValue_fst state.1.master (dataValue data) InterfaceChangeType.masterChanged)

theorem fst_readInfo_kind (data : List UInt8) :
    (readInfo state ⟨1, data⟩).1 = { state.1 with kind := cString data } :=
  congrArg (fun kind => { state.1 with kind := kind })
    (updateValue_fst state.1.kind (cString data) InterfaceChangeType.kindChanged)

theorem read_info (data : List UInt8) : read state ⟨18, data⟩ = onLinkInfoMessage state data := rfl

/-- Other attributes are not read. -/
theorem read_other {attr : Attribute} (unread : attr.type ≠ 1 ∧ attr.type ≠ 3 ∧ attr.type ≠ 4 ∧
    attr.type ≠ 10 ∧ attr.type ≠ 18) : read state attr = state := by
  obtain ⟨address, name, mtu, master, info⟩ := unread
  rw [read, if_neg address, if_neg name, if_neg mtu, if_neg info, if_neg master]

theorem foldl_read_others {list : List Attribute} (unread : ∀ attr ∈ list, attr.type ≠ 1 ∧
    attr.type ≠ 3 ∧ attr.type ≠ 4 ∧ attr.type ≠ 10 ∧ attr.type ≠ 18) :
    list.foldl read state = state := by
  induction list with
  | nil => rfl
  | cons attr list inductionHypothesis =>
      rw [List.foldl_cons, read_other state (unread attr (List.mem_cons_self ..))]
      apply inductionHypothesis
      intro other member
      exact unread other (List.mem_cons_of_mem _ member)

end Interface

namespace Link

variable (link : Link) (state : Interface × UInt32)

theorem fst_foldl_address : (link.addressAttribute.foldl Interface.read state).1 =
    { state.1 with mac := link.address.getD state.1.mac } := by
  rw [addressAttribute]
  cases given : link.address with
  | none => rfl
  | some mac =>
      rw [List.foldl_cons, List.foldl_nil, Interface.fst_read_mac, Octets.ofMemory_bytes,
        Option.getD_some]

theorem fst_foldl_master : (link.masterAttribute.foldl Interface.read state).1 =
    { state.1 with master := link.master.getD state.1.master } := by
  rw [masterAttribute]
  cases given : link.master with
  | none => rfl
  | some index =>
      rw [List.foldl_cons, List.foldl_nil, Interface.fst_read_master, dataValue_valueData,
        Option.getD_some]

theorem kind_fits {text : List UInt8} (small : text.length + 12 < 65536) :
    ∀ attr ∈ [Attribute.mk 1 (text ++ [0])], attr.Fits := by
  intro attr member
  rw [List.mem_singleton.mp member]
  change (text ++ [0]).length + 4 < 65536
  rw [List.length_append, List.length_singleton]
  omega

theorem fst_foldl_info : (link.infoAttribute.foldl Interface.read state).1 =
    { state.1 with kind := link.kind.getD state.1.kind } := by
  rw [infoAttribute]
  cases given : link.kind with
  | none => rfl
  | some text =>
      have terminated : cString (text ++ [0]) = text :=
        cString_append_zero (link.kind_noZero text given) []
      rw [List.foldl_cons, List.foldl_nil, Interface.read_info, Interface.onLinkInfoMessage,
        infoData, attributes_attributeBytes (kind_fits (link.kind_small text given)),
        List.foldl_cons, List.foldl_nil, Interface.fst_readInfo_kind, terminated,
        Option.getD_some]

theorem length_infoData (text : List UInt8) : (infoData text).length ≤ text.length + 8 := by
  rw [infoData, attributeBytes, List.map_singleton, List.flatMap_singleton, length_padded,
    Attribute.length_encode, List.length_append, List.length_singleton, aligned]
  omega

theorem sentAttributes_fit : ∀ attr ∈ link.sentAttributes, attr.Fits := by
  have value (type : UInt16) (number : UInt32) :
      (Attribute.mk type (valueData number)).Fits := by
    change (leBytes 4 number.toNat).length + 4 < 65536
    rw [length_leBytes]
    omega
  intro attr member
  rw [sentAttributes, List.mem_append, List.mem_append, List.mem_append, List.mem_append,
    List.mem_append] at member
  rcases member with ((((name | mtu) | master) | address) | info) | other
  · have small := link.name_small
    rw [List.mem_singleton.mp name]
    change (link.name ++ [0]).length + 4 < 65536
    rw [List.length_append, List.length_singleton]
    omega
  · rw [List.mem_singleton.mp mtu]
    exact value _ _
  · rw [masterAttribute] at master
    cases given : link.master with
    | none =>
        rw [given] at master
        cases master
    | some index =>
        rw [given] at master
        rw [List.mem_singleton.mp master]
        exact value _ _
  · rw [addressAttribute] at address
    cases given : link.address with
    | none =>
        rw [given] at address
        cases address
    | some mac =>
        rw [given] at address
        rw [List.mem_singleton.mp address]
        change mac.bytes.length + 4 < 65536
        rw [mac.length_eq]
        omega
  · rw [infoAttribute] at info
    cases given : link.kind with
    | none =>
        rw [given] at info
        cases info
    | some text =>
        rw [given] at info
        have small := link.kind_small text given
        have size := length_infoData text
        rw [List.mem_singleton.mp info]
        change (infoData text).length + 4 < 65536
        omega
  · exact link.others_fit attr other

/-- The handler reads what the kernel has sent. -/
theorem fst_foldl_sent (iface : Interface) (changes : UInt32) :
    ((attributes link.message.rta).foldl Interface.read
      ({ iface with flags := link.flags }, changes)).1 = link.overwrite iface := by
  have terminated : cString (link.name ++ [0]) = link.name :=
    cString_append_zero link.name_noZero []
  have sent : attributes link.message.rta = link.sentAttributes :=
    attributes_attributeBytes link.sentAttributes_fit
  rw [sent, sentAttributes, List.foldl_append, List.foldl_append, List.foldl_append,
    List.foldl_append, List.foldl_append, Interface.foldl_read_others _ link.others_unread,
    fst_foldl_info, fst_foldl_address, fst_foldl_master, List.foldl_cons, List.foldl_nil,
    Interface.fst_read_mtu, List.foldl_cons, List.foldl_nil, Interface.fst_read_name, terminated,
    dataValue_valueData]
  rfl

end Link

/-! ## What a message does to the cache -/

namespace LinkCache

variable (interfaces : LinkCache)

theorem acquire_fst (index : UInt32) :
    (interfaces.acquire index).1 = (interfaces index).getD {} := by
  rw [acquire]
  cases interfaces index with
  | none => rfl
  | some iface => rfl

theorem onMessage_newLink (link : Link) : (interfaces.onMessage link.message).1 =
    Function.update interfaces link.index
      (some (link.overwrite ((interfaces link.index).getD {}))) := by
  rw [← acquire_fst]
  exact congrArg (fun iface => Function.update interfaces link.index (some iface))
    (link.fst_foldl_sent (interfaces.acquire link.index).1 _)

theorem onMessage_delLink (index : UInt32) :
    (interfaces.onMessage (LinkEvent.delLink index).message).1 =
      Function.update interfaces index none := rfl

theorem onMessage_bridge (nlmsgType : UInt16) (index flags : UInt32) (rta : List UInt8) :
    (interfaces.onMessage (LinkEvent.bridge nlmsgType index flags rta).message).1 =
      interfaces := by
  rw [onMessage]
  by_cases known : (LinkEvent.bridge nlmsgType index flags rta).message.nlmsgType = 16 ∨
      (LinkEvent.bridge nlmsgType index flags rta).message.nlmsgType = 17
  · rw [if_pos known]
    rfl
  · rw [if_neg known]

theorem after_snoc (history : List LinkEvent) (event : LinkEvent) :
    after (history ++ [event]) = ((after history).onMessage event.message).1 := by
  rw [after, List.foldl_append]
  rfl

end LinkCache

/-! ## What a history leaves -/

namespace LinkEvent

/-- The link went. -/
def removes (index : UInt32) : LinkEvent → Bool
  | delLink gone => gone = index
  | _ => false

/-- The link with an index, as it is told. -/
def linkOf (index : UInt32) : LinkEvent → Option Link
  | newLink link => if link.index = index then some link else none
  | _ => none

end LinkEvent

variable {α : Type}

/-- What was told of a link since it last went, the newest first. -/
def toldOf (index : UInt32) (history : List LinkEvent) : List Link :=
  (history.reverse.takeWhile fun event => !event.removes index).filterMap
    (LinkEvent.linkOf index)

/-- What the newest of these messages that carries a value carries. -/
def lastCarried (carries : Link → Option α) (index : UInt32) (history : List LinkEvent) :
    Option α :=
  (toldOf index history).findSome? carries

theorem toldOf_removes {index : UInt32} {event : LinkEvent} (removes : event.removes index = true)
    (history : List LinkEvent) : toldOf index (history ++ [event]) = [] := by
  rw [toldOf, List.reverse_append, List.reverse_singleton, List.singleton_append,
    List.takeWhile_cons_of_neg (by rw [removes]; exact Bool.false_ne_true), List.filterMap_nil]

theorem toldOf_told {index : UInt32} {event : LinkEvent} {link : Link}
    (stays : event.removes index = false) (told : event.linkOf index = some link)
    (history : List LinkEvent) :
    toldOf index (history ++ [event]) = link :: toldOf index history := by
  rw [toldOf, List.reverse_append, List.reverse_singleton, List.singleton_append,
    List.takeWhile_cons_of_pos (by rw [stays]; rfl), List.filterMap_cons_some told]
  rfl

theorem toldOf_other {index : UInt32} {event : LinkEvent}
    (stays : event.removes index = false) (told : event.linkOf index = none)
    (history : List LinkEvent) : toldOf index (history ++ [event]) = toldOf index history := by
  rw [toldOf, List.reverse_append, List.reverse_singleton, List.singleton_append,
    List.takeWhile_cons_of_pos (by rw [stays]; rfl), List.filterMap_cons_none told]
  rfl

/-- What is remembered of the values that a link need not have. -/
structure Remembers (iface : Interface) (told : List Link) : Prop where
  mac : iface.mac = (told.findSome? Link.address).getD (Octets.zero 6)
  kind : iface.kind = (told.findSome? Link.kind).getD []
  master : iface.master = (told.findSome? Link.master).getD 0

/-- The newest message comes first. -/
theorem getD_findSome?_cons (carries : Link → Option α) (link : Link) (told : List Link)
    (default : α) : ((link :: told).findSome? carries).getD default =
      (carries link).getD ((told.findSome? carries).getD default) := by
  rw [List.findSome?_cons]
  cases carries link with
  | none => rfl
  | some value => rfl

/-- A message about a link is remembered in front of what was remembered before. -/
theorem Remembers.overwrite {iface : Interface} {told : List Link}
    (remembers : Remembers iface told) (link : Link) :
    Remembers (link.overwrite iface) (link :: told) := by
  constructor
  · rw [getD_findSome?_cons, ← remembers.mac]
    rfl
  · rw [getD_findSome?_cons, ← remembers.kind]
    rfl
  · rw [getD_findSome?_cons, ← remembers.master]
    rfl

/-- The cache remembers what was told of a link since it last went. -/
theorem remembers_after (index : UInt32) (history : List LinkEvent) :
    Remembers ((LinkCache.after history index).getD {}) (toldOf index history) := by
  induction history using List.reverseRecOn with
  | nil => exact ⟨rfl, rfl, rfl⟩
  | append_singleton history event inductionHypothesis =>
      rw [LinkCache.after_snoc]
      cases event with
      | newLink link =>
          have stays : (LinkEvent.newLink link).removes index = false := rfl
          rw [LinkEvent.message, LinkCache.onMessage_newLink]
          by_cases same : link.index = index
          · have told : (LinkEvent.newLink link).linkOf index = some link := if_pos same
            rw [toldOf_told stays told, same, Function.update_self, Option.getD_some]
            exact inductionHypothesis.overwrite link
          · have told : (LinkEvent.newLink link).linkOf index = none := if_neg same
            rw [toldOf_other stays told, Function.update_of_ne (Ne.symm same)]
            exact inductionHypothesis
      | delLink gone =>
          rw [LinkCache.onMessage_delLink]
          by_cases same : gone = index
          · have removes : (LinkEvent.delLink gone).removes index = true := decide_eq_true same
            rw [toldOf_removes removes, same, Function.update_self]
            exact ⟨rfl, rfl, rfl⟩
          · have stays : (LinkEvent.delLink gone).removes index = false := decide_eq_false same
            have told : (LinkEvent.delLink gone).linkOf index = none := rfl
            rw [toldOf_other stays told, Function.update_of_ne (Ne.symm same)]
            exact inductionHypothesis
      | bridge nlmsgType other flags rta =>
          have stays : (LinkEvent.bridge nlmsgType other flags rta).removes index = false := rfl
          have told : (LinkEvent.bridge nlmsgType other flags rta).linkOf index = none := rfl
          rw [LinkCache.onMessage_bridge, toldOf_other stays told]
          exact inductionHypothesis

/-! ## Two histories -/

/-- What is cached after a last message about a link. -/
theorem after_newLink (history : List LinkEvent) (link : Link) :
    LinkCache.after (history ++ [.newLink link]) link.index =
      some (link.overwrite ((LinkCache.after history link.index).getD {})) := by
  rw [LinkCache.after_snoc, LinkEvent.message, LinkCache.onMessage_newLink, Function.update_self]

/-- A value that the last message carries is cached, and otherwise the one that was there. -/
theorem getD_eq_getD_iff (carried : Option α) (left right : α) :
    carried.getD left = carried.getD right ↔ (carried = none → left = right) := by
  cases carried with
  | none => exact ⟨fun same _ => same, fun same => same rfl⟩
  | some value => exact iff_of_true rfl fun absent => by cases absent

theorem overwrite_eq_iff (link : Link) (left right : Interface) :
    link.overwrite left = link.overwrite right ↔
      (link.address = none → left.mac = right.mac) ∧
        (link.kind = none → left.kind = right.kind) ∧
          (link.master = none → left.master = right.master) := by
  rw [← getD_eq_getD_iff, ← getD_eq_getD_iff, ← getD_eq_getD_iff]
  constructor
  · intro same
    exact ⟨congrArg Interface.mac same, congrArg Interface.kind same,
      congrArg Interface.master same⟩
  · rintro ⟨mac, kind, master⟩
    rw [Link.overwrite, Link.overwrite, mac, kind, master]

/-- After two histories that end with the same message about a link, the same is cached of it
exactly when each of the address, the kind and the master that the message does not carry was
last carried with the same value. -/
theorem link_same_iff (left right : List LinkEvent) (link : Link) :
    LinkCache.after (left ++ [.newLink link]) link.index =
        LinkCache.after (right ++ [.newLink link]) link.index ↔
      (link.address = none →
        (lastCarried Link.address link.index left).getD (Octets.zero 6) =
          (lastCarried Link.address link.index right).getD (Octets.zero 6)) ∧
      (link.kind = none →
        (lastCarried Link.kind link.index left).getD [] =
          (lastCarried Link.kind link.index right).getD []) ∧
      (link.master = none →
        (lastCarried Link.master link.index left).getD 0 =
          (lastCarried Link.master link.index right).getD 0) := by
  have first := remembers_after link.index left
  have second := remembers_after link.index right
  rw [after_newLink, after_newLink, Option.some_inj, overwrite_eq_iff, first.mac, second.mac,
    first.kind, second.kind, first.master, second.master]
  rfl

/-! ## A port that leaves its bridge -/

theorem name_noZero : (0 : UInt8) ∉ [112] := by decide

theorem name_small : [(112 : UInt8)].length < 16 := by decide

theorem no_kind (property : List UInt8 → Prop) :
    ∀ text ∈ (none : Option (List UInt8)), property text := by
  intro text member
  cases member

/-- A link that may be the port of a bridge. -/
def port (master : Option UInt32) : Link where
  index := 2
  flags := 1
  name := [112]
  name_noZero := name_noZero
  name_small := name_small
  mtu := 1500
  address := none
  kind := none
  kind_noZero := no_kind _
  kind_small := no_kind _
  master := master
  others := []
  others_unread := no_attributes _
  others_fit := no_attributes _

/-- A link without a master is cached with the master that it had before. -/
theorem former_master_kept : ¬ ∀ (left right : List LinkEvent) (link : Link),
    LinkCache.after (left ++ [.newLink link]) link.index =
      LinkCache.after (right ++ [.newLink link]) link.index := by
  intro always
  have same := always [.newLink (port (some 5))] [] (port none)
  rw [after_newLink, after_newLink, Option.some_inj, overwrite_eq_iff] at same
  have master := same.2.2 rfl
  have before := (remembers_after 2 [.newLink (port (some 5))]).master
  have never := (remembers_after 2 []).master
  change _ = (0 : UInt32) at never
  change _ = (5 : UInt32) at before
  change ((LinkCache.after [.newLink (port (some 5))] 2).getD {}).master =
    ((LinkCache.after [] 2).getD {}).master at master
  rw [before, never] at master
  exact absurd master (by decide)

end Join
