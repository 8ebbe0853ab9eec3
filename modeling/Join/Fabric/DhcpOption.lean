import Join.Library.SortedMap
import Join.Core.Address
import Mathlib.Data.Nat.Bitwise

/-!
# DHCP option lists

`DhcpOption`: a map from option codes to values, whose values have the type that a table
of descriptions prescribes for the code. A value reaches the map through `insert`, which
converts what it is given to the type the option carries and refuses what does not fit,
or as an entry of another list.

`insert` is overloaded in the type of what it is given, which `Argument` lists. Reading an
address from a string is left to the address classes: `Parse` stands for them.
-/

set_option autoImplicit false

namespace Join

open Library

/-- `DhcpOptionValue`. A string is its bytes. -/
inductive DhcpOptionValue
  | byte (value : UInt8)
  | word (value : UInt16)
  | long (value : UInt32)
  | slong (value : Int32)
  | text (value : List UInt8)
  | ip (value : IpAddress)
  | mac (value : MacAddress)
  | bytes (value : List UInt8)
  | words (value : List UInt16)
  | ips (value : List IpAddress)
deriving DecidableEq

/-- `DhcpOption::Options`: the entries in the order of their codes. -/
abbrev DhcpOption : Type := SortedMap UInt8.toNat DhcpOptionValue

namespace DhcpOption

/-- `DhcpOption::Type`. -/
inductive OptionType
  | byte
  | word
  | long
  | slong
  | text
  | ip
  | mac
  | bytes
  | words
  | ips
deriving DecidableEq, Repr

/-- `DhcpOption::Info`. -/
structure Info where
  code : UInt8
  name : String
  type : OptionType
  min : ℕ
  max : ℕ
  mask : ℕ
deriving DecidableEq, Repr

/-- The table of `DhcpOption::describe`. -/
def table : List Info := [
  ⟨1, "SubnetMask", .ip, 0, 0, 0⟩,
  ⟨2, "TimeOffset", .slong, 0, 0, 0⟩,
  ⟨3, "Router", .ips, 0, 0, 0⟩,
  ⟨4, "TimeServer", .ips, 0, 0, 0⟩,
  ⟨5, "NameServer", .ips, 0, 0, 0⟩,
  ⟨6, "DomainNameServer", .ips, 0, 0, 0⟩,
  ⟨7, "LogServer", .ips, 0, 0, 0⟩,
  ⟨8, "CookieServer", .ips, 0, 0, 0⟩,
  ⟨9, "LprServer", .ips, 0, 0, 0⟩,
  ⟨10, "ImpressServer", .ips, 0, 0, 0⟩,
  ⟨11, "ResourceLocationServer", .ips, 0, 0, 0⟩,
  ⟨12, "HostName", .text, 0, 0, 0⟩,
  ⟨13, "BootFileSize", .word, 0, 0, 0⟩,
  ⟨14, "MeritDumpFile", .text, 0, 0, 0⟩,
  ⟨15, "DomainName", .text, 0, 0, 0⟩,
  ⟨16, "SwapServer", .ip, 0, 0, 0⟩,
  ⟨17, "RootPath", .text, 0, 0, 0⟩,
  ⟨18, "ExtensionsPath", .text, 0, 0, 0⟩,
  ⟨19, "IpForwarding", .byte, 0, 1, 0⟩,
  ⟨20, "NonLocalSourceRouting", .byte, 0, 1, 0⟩,
  ⟨22, "MaximumDatagramReassemblySize", .word, 576, 65535, 0⟩,
  ⟨23, "DefaultIpTimeToLive", .byte, 1, 255, 0⟩,
  ⟨24, "PathMtuAgingTimeout", .long, 0, 0, 0⟩,
  ⟨25, "PathMtuPlateauTable", .words, 68, 65535, 0⟩,
  ⟨26, "InterfaceMtu", .word, 68, 65535, 0⟩,
  ⟨27, "AllSubnetsAreLocal", .byte, 0, 1, 0⟩,
  ⟨28, "BroadcastAddress", .ip, 0, 0, 0⟩,
  ⟨29, "PerformMaskDiscovery", .byte, 0, 1, 0⟩,
  ⟨30, "MaskSupplier", .byte, 0, 1, 0⟩,
  ⟨31, "PerformRouterDiscovery", .byte, 0, 1, 0⟩,
  ⟨32, "RouterSolicitationAddress", .ip, 0, 0, 0⟩,
  ⟨34, "TrailerEncapsulation", .byte, 0, 1, 0⟩,
  ⟨35, "ArpCacheTimeout", .long, 0, 0, 0⟩,
  ⟨36, "EthernetEncapsulation", .byte, 0, 1, 0⟩,
  ⟨37, "TcpDefaultTtl", .byte, 1, 255, 0⟩,
  ⟨38, "TcpKeepaliveInterval", .long, 0, 0, 0⟩,
  ⟨39, "TcpKeepaliveGarbage", .byte, 0, 1, 0⟩,
  ⟨40, "NisDomain", .text, 0, 0, 0⟩,
  ⟨41, "NetworkInformationServer", .ips, 0, 0, 0⟩,
  ⟨42, "NtpServer", .ips, 0, 0, 0⟩,
  ⟨43, "VendorSpecificInformation", .bytes, 0, 0, 0⟩,
  ⟨44, "NetbiosNameServer", .ips, 0, 0, 0⟩,
  ⟨45, "NetbiosDatagramDistributionServer", .ips, 0, 0, 0⟩,
  ⟨46, "NetbiosNodeType", .byte, 0, 0, 2 ^ 1 ||| 2 ^ 2 ||| 2 ^ 4 ||| 2 ^ 8⟩,
  ⟨47, "NetbiosScope", .bytes, 0, 0, 0⟩,
  ⟨48, "XWindowFontServer", .ips, 0, 0, 0⟩,
  ⟨49, "XWindowDisplayManager", .ips, 0, 0, 0⟩,
  ⟨50, "RequestedIpAddress", .ip, 0, 0, 0⟩,
  ⟨51, "IpAddressLeaseTime", .long, 0, 0, 0⟩,
  ⟨52, "OptionOverload", .byte, 1, 3, 0⟩,
  ⟨53, "DhcpMessageType", .byte, 1, 8, 0⟩,
  ⟨54, "ServerIdentifier", .ip, 0, 0, 0⟩,
  ⟨55, "ParameterRequestList", .bytes, 0, 0, 0⟩,
  ⟨56, "Message", .text, 0, 0, 0⟩,
  ⟨57, "MaximumDhcpMessageSize", .word, 576, 65535, 0⟩,
  ⟨58, "RenewalTimeValue", .long, 0, 0, 0⟩,
  ⟨59, "RebindingTimeValue", .long, 0, 0, 0⟩,
  ⟨60, "VendorClassIdentifier", .text, 0, 0, 0⟩,
  ⟨61, "ClientIdentifier", .mac, 0, 0, 0⟩,
  ⟨66, "TftpServerName", .text, 0, 0, 0⟩,
  ⟨67, "BootFileName", .text, 0, 0, 0⟩,
  ⟨68, "MobileIpHomeAgent", .ips, 0, 0, 0⟩,
  ⟨69, "SmtpServer", .ips, 0, 0, 0⟩,
  ⟨70, "Pop3Server", .ips, 0, 0, 0⟩,
  ⟨71, "NntpServer", .ips, 0, 0, 0⟩,
  ⟨72, "DefaultWwwServer", .ips, 0, 0, 0⟩,
  ⟨73, "DefaultFingerServer", .ips, 0, 0, 0⟩,
  ⟨74, "DefaultIrcServer", .ips, 0, 0, 0⟩,
  ⟨75, "StreetTalkServer", .ips, 0, 0, 0⟩,
  ⟨76, "StreetTalkDirectoryAssistanceServer", .ips, 0, 0, 0⟩]

/-- `DhcpOption::describe`: the first description whose code is not below, if it is the one. -/
def describe (code : UInt8) : Option Info :=
  ((table.dropWhile fun info => decide (info.code < code)).head?).filter
    fun info => decide (info.code = code)

/-- `DhcpOption::codeName`. -/
def codeName (code : UInt8) : String := ((describe code).map Info.name).getD "Unknown"

/-- `DhcpOption::accepts`. -/
def accepts (info : Info) (value : ℕ) : Bool :=
  if info.mask ≠ 0 then decide (value < 32) && info.mask.testBit value
  else if info.max ≠ 0 then decide (info.min ≤ value) && decide (value ≤ info.max)
  else true

/-- What `insert` can be given: an integer of any type, a string, an address or a list. -/
inductive Argument
  | integer (value : ℤ)
  | string (value : List UInt8)
  | ip (value : IpAddress)
  | mac (value : MacAddress)
  | bytes (value : List UInt8)
  | words (value : List UInt16)
  | ips (value : List IpAddress)
deriving DecidableEq

/-- The addresses that strings denote, where they denote one. -/
structure Parse where
  ip : List UInt8 → Option IpAddress
  mac : List UInt8 → Option MacAddress

/-- `DhcpOption::fits`, for a target type with the given limits. -/
def fits (lowest highest value : ℤ) : Bool :=
  if value < 0 then decide (lowest < 0) && decide (lowest ≤ value) else decide (value ≤ highest)

/-- `DhcpOption::store`: the constraints are checked on the low 32 bits. -/
def store (info : Info) (lowest highest value : ℤ) (out : DhcpOptionValue) :
    Option DhcpOptionValue :=
  if fits lowest highest value && accepts info (value % 2 ^ 32).toNat then some out else none

/-- `DhcpOption::convert` of an integer. -/
def convertInteger (info : Info) (value : ℤ) : Option DhcpOptionValue :=
  match info.type with
  | .byte => store info 0 255 value (.byte (UInt8.ofInt value))
  | .word => store info 0 65535 value (.word (UInt16.ofInt value))
  | .long => store info 0 4294967295 value (.long (UInt32.ofInt value))
  | .slong => store info (-2147483648) 2147483647 value (.slong (Int32.ofInt value))
  | _ => none

/-- `DhcpOption::convert` of a string. -/
def convertString (parse : Parse) (info : Info) (value : List UInt8) : Option DhcpOptionValue :=
  match info.type with
  | .text => some (.text value)
  | .ip => ((parse.ip value).filter IpAddress.isIpv4).map .ip
  | .mac => (parse.mac value).map .mac
  | _ => none

/-- The overloads of `DhcpOption::convert`, once the option is described. -/
def convertTo (parse : Parse) (info : Info) : Argument → Option DhcpOptionValue
  | .integer value => convertInteger info value
  | .string value => convertString parse info value
  | .ip value => if info.type = .ip ∧ value.isIpv4 then some (.ip value) else none
  | .mac value => if info.type = .mac then some (.mac value) else none
  | .bytes value =>
      if info.type = .bytes ∧ value.all (fun element => accepts info element.toNat) then
        some (.bytes value)
      else none
  | .words value =>
      if info.type = .words ∧ value.all (fun element => accepts info element.toNat) then
        some (.words value)
      else none
  | .ips value =>
      if info.type = .ips ∧ value.all IpAddress.isIpv4 then some (.ips value) else none

/-- `DhcpOption::convert`. -/
def convert (parse : Parse) (code : UInt8) (value : Argument) : Option DhcpOptionValue :=
  (describe code).bind fun info => convertTo parse info value

/-- `DhcpOption::insert`: whether the option was added, and the list after it. -/
def insert (parse : Parse) (code : UInt8) (value : Argument) (options : DhcpOption) :
    DhcpOption × Bool :=
  match convert parse code value with
  | none => (options, false)
  | some converted => options.emplace code converted

/-! ## What a description prescribes -/

/-- The range of a description: the values of its mask, or those between its limits. -/
structure InRange (info : Info) (value : ℕ) : Prop where
  masked : info.mask ≠ 0 → value < 32 ∧ info.mask.testBit value
  limited : info.mask = 0 → info.max ≠ 0 → info.min ≤ value ∧ value ≤ info.max

theorem accepts_iff {info : Info} {value : ℕ} : accepts info value = true ↔ InRange info value := by
  rw [accepts]
  constructor
  · intro accepted
    split_ifs at accepted with masked limited
    · rw [Bool.and_eq_true, decide_eq_true_eq] at accepted
      exact ⟨fun _ => accepted, fun unmasked => absurd unmasked masked⟩
    · rw [Bool.and_eq_true, decide_eq_true_eq, decide_eq_true_eq] at accepted
      exact ⟨fun mask => absurd mask masked, fun _ _ => accepted⟩
    · exact ⟨fun mask => absurd mask masked, fun _ limit => absurd limit limited⟩
  · rintro ⟨masked, limited⟩
    split_ifs with mask limit
    · rw [Bool.and_eq_true, decide_eq_true_eq]
      exact masked mask
    · rw [Bool.and_eq_true, decide_eq_true_eq, decide_eq_true_eq]
      exact limited (not_not.mp mask) limit
    · rfl

/-- A value has the type and lies in the range that a description prescribes. -/
inductive Prescribed (info : Info) : DhcpOptionValue → Prop
  | byte (value : UInt8) (type : info.type = .byte) (range : InRange info value.toNat) :
      Prescribed info (.byte value)
  | word (value : UInt16) (type : info.type = .word) (range : InRange info value.toNat) :
      Prescribed info (.word value)
  | long (value : UInt32) (type : info.type = .long) (range : InRange info value.toNat) :
      Prescribed info (.long value)
  | slong (value : Int32) (type : info.type = .slong)
      (range : InRange info (value.toInt % 2 ^ 32).toNat) : Prescribed info (.slong value)
  | text (value : List UInt8) (type : info.type = .text) : Prescribed info (.text value)
  | ip (value : IpAddress) (type : info.type = .ip) (family : value.isIpv4) :
      Prescribed info (.ip value)
  | mac (value : MacAddress) (type : info.type = .mac) : Prescribed info (.mac value)
  | bytes (value : List UInt8) (type : info.type = .bytes)
      (range : ∀ element ∈ value, InRange info element.toNat) : Prescribed info (.bytes value)
  | words (value : List UInt16) (type : info.type = .words)
      (range : ∀ element ∈ value, InRange info element.toNat) : Prescribed info (.words value)
  | ips (value : List IpAddress) (type : info.type = .ips)
      (family : ∀ element ∈ value, element.isIpv4) : Prescribed info (.ips value)

variable {parse : Parse} {info : Info} {converted : DhcpOptionValue}

theorem store_some {lowest highest value : ℤ} {out : DhcpOptionValue}
    (stored : store info lowest highest value out = some converted) :
    converted = out ∧ fits lowest highest value = true ∧
      InRange info (value % 2 ^ 32).toNat := by
  rw [store] at stored
  split_ifs at stored with checked
  rw [Bool.and_eq_true, accepts_iff] at checked
  exact ⟨(Option.some.inj stored).symm, checked⟩

theorem fits_iff {lowest highest value : ℤ} (below : lowest ≤ 0) (above : 0 ≤ highest) :
    fits lowest highest value = true ↔ lowest ≤ value ∧ value ≤ highest := by
  rw [fits]
  split_ifs with negative
  · rw [Bool.and_eq_true, decide_eq_true_eq, decide_eq_true_eq]
    omega
  · rw [decide_eq_true_eq]
    omega

theorem convertInteger_prescribed {value : ℤ}
    (done : convertInteger info value = some converted) : Prescribed info converted := by
  unfold convertInteger at done
  split at done
  case h_1 type =>
    obtain ⟨rfl, fit, range⟩ := store_some done
    rw [fits_iff (by decide) (by decide)] at fit
    have same : (UInt8.ofInt value).toNat = (value % 2 ^ 32).toNat := by
      rw [UInt8.ofInt, UInt8.toNat_ofNat']
      omega
    exact .byte _ type (by rwa [same])
  case h_2 type =>
    obtain ⟨rfl, fit, range⟩ := store_some done
    rw [fits_iff (by decide) (by decide)] at fit
    have same : (UInt16.ofInt value).toNat = (value % 2 ^ 32).toNat := by
      rw [UInt16.ofInt, UInt16.toNat_ofNat']
      omega
    exact .word _ type (by rwa [same])
  case h_3 type =>
    obtain ⟨rfl, fit, range⟩ := store_some done
    have same : (UInt32.ofInt value).toNat = (value % 2 ^ 32).toNat := by
      rw [UInt32.ofInt, UInt32.toNat_ofNat']
      omega
    exact .long _ type (by rwa [same])
  case h_4 type =>
    obtain ⟨rfl, fit, range⟩ := store_some done
    rw [fits_iff (by decide) (by decide)] at fit
    have same : (Int32.ofInt value).toInt = value := by
      rw [Int32.toInt_ofInt, Int32.size]
      exact Int.bmod_eq_of_le (by omega) (by omega)
    exact .slong _ type (by rwa [same])
  case h_5 => exact absurd done (by simp)

theorem convertString_prescribed {value : List UInt8}
    (done : convertString parse info value = some converted) : Prescribed info converted := by
  unfold convertString at done
  split at done
  case h_1 type =>
    rw [Option.some.injEq] at done
    subst done
    exact .text _ type
  case h_2 type =>
    rw [Option.map_eq_some_iff] at done
    obtain ⟨address, found, rfl⟩ := done
    exact .ip _ type (Option.filter_eq_some_iff.mp found).2
  case h_3 type =>
    rw [Option.map_eq_some_iff] at done
    obtain ⟨address, found, rfl⟩ := done
    exact .mac _ type
  case h_4 => exact absurd done (by simp)

/-- What `convert` gives has the type of the option and lies in its range. -/
theorem convertTo_prescribed {value : Argument}
    (done : convertTo parse info value = some converted) : Prescribed info converted := by
  cases value with
  | integer value => exact convertInteger_prescribed done
  | string value => exact convertString_prescribed done
  | ip value =>
      rw [convertTo, Option.ite_none_right_eq_some, Option.some.injEq] at done
      obtain ⟨⟨type, family⟩, rfl⟩ := done
      exact .ip _ type family
  | mac value =>
      rw [convertTo, Option.ite_none_right_eq_some, Option.some.injEq] at done
      obtain ⟨type, rfl⟩ := done
      exact .mac _ type
  | bytes value =>
      rw [convertTo, Option.ite_none_right_eq_some, Option.some.injEq] at done
      obtain ⟨⟨type, range⟩, rfl⟩ := done
      exact .bytes _ type fun element member =>
        accepts_iff.mp (List.all_eq_true.mp range element member)
  | words value =>
      rw [convertTo, Option.ite_none_right_eq_some, Option.some.injEq] at done
      obtain ⟨⟨type, range⟩, rfl⟩ := done
      exact .words _ type fun element member =>
        accepts_iff.mp (List.all_eq_true.mp range element member)
  | ips value =>
      rw [convertTo, Option.ite_none_right_eq_some, Option.some.injEq] at done
      obtain ⟨⟨type, family⟩, rfl⟩ := done
      exact .ips _ type (List.all_eq_true.mp family)

/-! ## Well typed lists -/

/-- Every option of the list is described, and its value is as prescribed. -/
def WellTyped (options : DhcpOption) : Prop :=
  ∀ entry ∈ options.entries, ∃ info, describe entry.1 = some info ∧ Prescribed info entry.2

variable {options : DhcpOption}

theorem wellTyped_empty : WellTyped SortedMap.empty :=
  fun _ member => absurd member List.not_mem_nil

/-- `insert` keeps a list well typed, whether it adds the option or not. -/
theorem WellTyped.insert (typed : WellTyped options) (parse : Parse) (code : UInt8)
    (value : Argument) : WellTyped (insert parse code value options).1 := by
  unfold DhcpOption.insert
  cases done : convert parse code value with
  | none => exact typed
  | some converted =>
      obtain ⟨info, described, converts⟩ := Option.bind_eq_some_iff.mp done
      intro entry member
      rcases SortedMap.mem_emplace member with rfl | member
      · exact ⟨info, described, convertTo_prescribed converts⟩
      · exact typed entry member

/-- A code that is in the list is refused, and the list stays as it is. -/
theorem insert_of_present {code : UInt8} {stored : DhcpOptionValue}
    (present : options.find code = some stored) (parse : Parse) (value : Argument) :
    insert parse code value options = (options, false) := by
  unfold insert
  cases convert parse code value with
  | none => rfl
  | some converted => exact SortedMap.emplace_of_present present

/-- What is found after an insertion: the old value first, then what was converted. -/
theorem find_insert (parse : Parse) (code other : UInt8) (value : Argument) :
    (insert parse code value options).1.find other =
      (options.find other <|> if code = other then convert parse code value else none) := by
  unfold insert
  cases convert parse code value with
  | none => cases options.find other <;> simp
  | some converted =>
      rw [SortedMap.find_emplace]
      simp only [UInt8.toNat_inj]

/-! ## Giving a value to `insert` again -/

/-- What `insert` is given to store a value. -/
def argument : DhcpOptionValue → Argument
  | .byte value => .integer value.toNat
  | .word value => .integer value.toNat
  | .long value => .integer value.toNat
  | .slong value => .integer value.toInt
  | .text value => .string value
  | .ip value => .ip value
  | .mac value => .mac value
  | .bytes value => .bytes value
  | .words value => .words value
  | .ips value => .ips value

theorem store_of_inRange {lowest highest value : ℤ} (out : DhcpOptionValue)
    (fit : fits lowest highest value = true) (range : InRange info (value % 2 ^ 32).toNat) :
    store info lowest highest value out = some out := by
  rw [store, fit, accepts_iff.mpr range]
  rfl

/-- A prescribed value is converted to itself. -/
theorem Prescribed.converts {value : DhcpOptionValue} (prescribed : Prescribed info value)
    (parse : Parse) : convertTo parse info (argument value) = some value := by
  cases prescribed with
  | byte value type range =>
      have small := value.toNat_lt
      have fit : fits 0 255 (value.toNat : ℤ) = true :=
        (fits_iff (by decide) (by decide)).mpr (by omega)
      have low : ((value.toNat : ℤ) % 2 ^ 32).toNat = value.toNat := by omega
      have same : UInt8.ofInt (value.toNat : ℤ) = value := by
        apply UInt8.toNat_inj.mp
        rw [UInt8.ofInt, UInt8.toNat_ofNat']
        omega
      rw [argument, convertTo, convertInteger, type]
      simp only
      rw [store_of_inRange _ fit (by rwa [low]), same]
  | word value type range =>
      have small := value.toNat_lt
      have fit : fits 0 65535 (value.toNat : ℤ) = true :=
        (fits_iff (by decide) (by decide)).mpr (by omega)
      have low : ((value.toNat : ℤ) % 2 ^ 32).toNat = value.toNat := by omega
      have same : UInt16.ofInt (value.toNat : ℤ) = value := by
        apply UInt16.toNat_inj.mp
        rw [UInt16.ofInt, UInt16.toNat_ofNat']
        omega
      rw [argument, convertTo, convertInteger, type]
      simp only
      rw [store_of_inRange _ fit (by rwa [low]), same]
  | long value type range =>
      have small := value.toNat_lt
      have fit : fits 0 4294967295 (value.toNat : ℤ) = true :=
        (fits_iff (by decide) (by decide)).mpr (by omega)
      have low : ((value.toNat : ℤ) % 2 ^ 32).toNat = value.toNat := by omega
      have same : UInt32.ofInt (value.toNat : ℤ) = value := by
        apply UInt32.toNat_inj.mp
        rw [UInt32.ofInt, UInt32.toNat_ofNat']
        omega
      rw [argument, convertTo, convertInteger, type]
      simp only
      rw [store_of_inRange _ fit (by rwa [low]), same]
  | slong value type range =>
      have lowest := value.le_toInt
      have highest := value.toInt_lt
      have fit : fits (-2147483648) 2147483647 value.toInt = true :=
        (fits_iff (by decide) (by decide)).mpr (by omega)
      rw [argument, convertTo, convertInteger, type]
      simp only
      rw [store_of_inRange _ fit range, Int32.ofInt_toInt]
  | text value type => rw [argument, convertTo, convertString, type]
  | ip value type family => rw [argument, convertTo, if_pos ⟨type, family⟩]
  | mac value type => rw [argument, convertTo, if_pos type]
  | bytes value type range =>
      have all : value.all (fun element => accepts info element.toNat) = true :=
        List.all_eq_true.mpr fun element member => accepts_iff.mpr (range element member)
      rw [argument, convertTo, if_pos ⟨type, all⟩]
  | words value type range =>
      have all : value.all (fun element => accepts info element.toNat) = true :=
        List.all_eq_true.mpr fun element member => accepts_iff.mpr (range element member)
      rw [argument, convertTo, if_pos ⟨type, all⟩]
  | ips value type family =>
      rw [argument, convertTo, if_pos ⟨type, List.all_eq_true.mpr family⟩]

/-- An option behind all others is appended to the list. -/
theorem insert_behind {code : UInt8} {value : DhcpOptionValue}
    (described : describe code = some info) (prescribed : Prescribed info value) (parse : Parse)
    (behind : ∀ entry ∈ options.entries, entry.1.toNat < code.toNat) :
    (insert parse code (argument value) options).1.entries = options.entries ++ [(code, value)] := by
  have converts : convert parse code (argument value) = some value := by
    rw [convert, described, Option.bind_some, prescribed.converts]
  rw [insert, converts]
  exact SortedMap.emplace_behind behind

end DhcpOption

end Join
