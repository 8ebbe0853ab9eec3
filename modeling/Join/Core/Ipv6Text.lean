import Join.Core.Address
import Join.Library.CString
import Join.Library.Numerals

/-!
# Addresses as text

`IpAddress::toString`, the constructor that takes a text, and the comparison of two addresses,
for IPv6 addresses with a scope identifier.

The scope is written after a percent sign, by the name of the interface that has it as its
index, or as an unsigned decimal number where there is none. It is read back as a decimal
number when there are only digits after the percent sign, with `std::stoi`, whose result is a
signed number of 32 bits: the largest half of the scope identifiers does not fit, and the
constructor fails on a text that `toString` wrote.

The conversions of the bare addresses and the names of the interfaces are functions of the C
library, which are given from outside.
-/

set_option autoImplicit false

namespace Join

open Library

/-! ## The C library -/

/-- The functions of the C library that the conversions call. Null pointers and results other
than one are `none`. -/
structure Network where
  inetNtop4 : Octets 4 → Option (List UInt8)
  inetNtop6 : Octets 16 → Option (List UInt8)
  inetPton4 : List UInt8 → Option (Octets 4)
  inetPton6 : List UInt8 → Option (Octets 16)
  ifIndexToName : UInt32 → Option (List UInt8)
  ifNameToIndex : List UInt8 → UInt32

/-- A character of a bare IPv6 address: a hexadecimal digit, a colon, or the dot of an IPv4
address that stands at the end. -/
def isIpv6Character (byte : UInt8) : Bool := isHexDigit byte || byte == 58 || byte == 46

/-- `inet_ntop` writes an address, and `inet_pton` reads it back. -/
def Network.Inverts (network : Network) (octets : Octets 16) : Prop :=
  ∃ text, network.inetNtop6 octets = some text ∧ text ≠ [] ∧
    (∀ byte ∈ text, isIpv6Character byte = true) ∧ network.inetPton6 text = some octets

/-- What the constructor throws. -/
inductive AddressError
  | invalidArgument
  | outOfRange
deriving DecidableEq

/-- `std::stoi` on a text of digits. -/
def stoi (digits : List UInt8) : Except AddressError ℕ :=
  if digits.isEmpty then .error .invalidArgument
  else if 2 ^ 31 ≤ decimalNumber digits then .error .outOfRange
  else .ok (decimalNumber digits)

namespace IpAddress

variable (network : Network)

/-! ## Writing -/

/-- `'%'` -/
def percent : UInt8 := 37

/-- `'['` -/
def bracket : UInt8 := 91

/-- What follows the bare address. -/
def scopeText (scope : UInt32) : List UInt8 :=
  if 0 < scope then
    percent :: (match network.ifIndexToName scope with
      | some name => name
      | none => toDecimal scope.toNat)
  else []

/-- `IpAddress::toString`. -/
def toString : IpAddress → List UInt8
  | .ipv4 octets => (network.inetNtop4 octets).getD []
  | .ipv6 octets scope =>
      match network.inetNtop6 octets with
      | some text => text ++ scopeText network scope
      | none => []

/-! ## Reading -/

/-- The scope identifier that `Ipv6Address::parse` takes from what follows the percent sign. -/
def readScope (text : List UInt8) : Except AddressError UInt32 :=
  if text.all isDecimalDigit then
    match stoi text with
    | .ok number => .ok (UInt32.ofNat number)
    | .error error => .error error
  else .ok (network.ifNameToIndex (cString text))

/-- The bare address in a text, and its scope identifier. -/
def splitScope (address : List UInt8) : Except AddressError (List UInt8 × UInt32) :=
  match address.findIdx? (· == percent) with
  | some pos =>
      let offset := if address.head? = some bracket then 1 else 0
      let tmp := (address.drop (pos + 1)).take (address.length - pos - offset)
      match readScope network tmp with
      | .ok scope => .ok (address.take pos, scope)
      | .error error => .error error
  | none => .ok (address, 0)

/-- `Ipv6Address::parse`. -/
def parseIpv6 (address : List UInt8) : Except AddressError (Option IpAddress) :=
  match splitScope network address with
  | .ok (unscopedAddress, scope) =>
      match network.inetPton6 (cString unscopedAddress) with
      | some octets => .ok (some (.ipv6 octets scope))
      | none => .ok none
  | .error error => .error error

/-- `Ipv4Address::parse`. -/
def parseIpv4 (address : List UInt8) : Option IpAddress :=
  if address.isEmpty then none else (network.inetPton4 (cString address)).map .ipv4

/-- `IpAddress::IpAddress (const char*)` on the characters of a string. -/
def ofText (text : List UInt8) : Except AddressError IpAddress :=
  let address := cString text
  if address.isEmpty then .ok (.ipv6 (Octets.zero 16) 0)
  else
    match parseIpv6 network address with
    | .ok (some read) => .ok read
    | .error error => .error error
    | .ok none =>
        match parseIpv4 network address with
        | some read => .ok read
        | none => .error .invalidArgument

/-! ## Comparing -/

/-- `IpAddress::length`. -/
def length (address : IpAddress) : ℕ := address.addr.length

/-- `IpAddress::scope`. -/
def scope : IpAddress → UInt32
  | .ipv4 _ => 0
  | .ipv6 _ scope => scope

/-- `operator==`. -/
def equal (left right : IpAddress) : Bool :=
  if left.length ≠ right.length then false
  else if left.scope ≠ right.scope then false
  else left.addr == right.addr

/-- Two addresses compare equal when they are the same address. -/
theorem equal_iff (left right : IpAddress) : equal left right = true ↔ left = right := by
  constructor
  · intro same
    unfold equal at same
    by_cases lengths : left.length = right.length
    · rw [if_neg (not_not.mpr lengths)] at same
      by_cases scopes : left.scope = right.scope
      · rw [if_neg (not_not.mpr scopes), beq_iff_eq] at same
        cases left with
        | ipv4 octets =>
            cases right with
            | ipv4 other => exact congrArg _ (Octets.ext_bytes same)
            | ipv6 other _ => exact absurd (octets.length_eq.symm.trans
                (lengths.trans other.length_eq)) (by decide)
        | ipv6 octets index =>
            cases right with
            | ipv4 other => exact absurd (octets.length_eq.symm.trans
                (lengths.trans other.length_eq)) (by decide)
            | ipv6 other _ =>
                cases scopes
                exact congrArg (fun octets => ipv6 octets index) (Octets.ext_bytes same)
      · rw [if_pos scopes] at same
        cases same
    · rw [if_pos lengths] at same
      cases same
  · rintro rfl
    rw [equal, if_neg (not_not.mpr rfl), if_neg (not_not.mpr rfl), beq_self_eq_true]

/-- The text of an address gives an equal address. -/
def RoundTrips (address : IpAddress) : Prop :=
  ∃ read, ofText network (toString network address) = .ok read ∧ equal read address = true

theorem roundTrips_iff (address : IpAddress) :
    RoundTrips network address ↔ ofText network (toString network address) = .ok address := by
  constructor
  · rintro ⟨read, built, same⟩
    rw [built, (equal_iff read address).mp same]
  · intro built
    exact ⟨address, built, (equal_iff address address).mpr rfl⟩

/-! ## Texts that `toString` writes -/

variable {network}

/-- The place of the percent sign after a text that has none. -/
theorem find_percent {front : List UInt8} (absent : percent ∉ front) (back : List UInt8) :
    (front ++ percent :: back).findIdx? (· == percent) = some front.length := by
  have none : front.findIdx? (· == percent) = none := by
    rw [List.findIdx?_eq_none_iff]
    intro byte member
    exact beq_false_of_ne fun same => absent (same ▸ member)
  rw [List.findIdx?_append, none, List.findIdx?_cons, beq_self_eq_true, if_pos rfl]
  simp

/-- Without a percent sign there is no scope. -/
theorem splitScope_bare {text : List UInt8} (absent : percent ∉ text) :
    splitScope network text = .ok (text, 0) := by
  have none : text.findIdx? (· == percent) = none := by
    rw [List.findIdx?_eq_none_iff]
    intro byte member
    exact beq_false_of_ne fun same => absent (same ▸ member)
  rw [splitScope, none]

/-- With one, the scope is read from everything after it, unless the text starts with a
bracket. -/
theorem splitScope_percent {front : List UInt8} (absent : percent ∉ front)
    (plain : front.head? ≠ some bracket) (filled : front ≠ []) (back : List UInt8) :
    splitScope network (front ++ percent :: back) =
      match readScope network back with
      | .ok scope => .ok (front, scope)
      | .error error => .error error := by
  have head : (front ++ percent :: back).head? ≠ some bracket := by
    rwa [List.head?_append_of_ne_nil front filled]
  have tail : ((front ++ percent :: back).drop (front.length + 1)).take
      ((front ++ percent :: back).length - front.length - 0) = back := by
    rw [← List.drop_drop, List.drop_left, List.drop_one, List.tail_cons, List.length_append,
      Nat.add_sub_cancel_left, Nat.sub_zero]
    exact List.take_of_length_le (Nat.le_succ _)
  rw [splitScope, find_percent absent]
  simp only [if_neg head, tail, List.take_left]

/-- A scope identifier that was written in decimal is read back when it fits a signed number
of 32 bits. -/
theorem readScope_decimal (scope : UInt32) :
    readScope network (toDecimal scope.toNat) =
      if scope.toNat < 2 ^ 31 then .ok scope else .error .outOfRange := by
  have digits : (toDecimal scope.toNat).all isDecimalDigit = true := by
    rw [List.all_eq_true]
    intro byte member
    exact isDecimalDigit_of_mem member
  have filled : ¬ (toDecimal scope.toNat).isEmpty = true := by
    rw [List.isEmpty_iff]
    exact toDecimal_ne_nil scope.toNat
  rw [readScope, if_pos digits, stoi, if_neg filled, decimalNumber_toDecimal]
  by_cases small : scope.toNat < 2 ^ 31
  · rw [if_neg (not_le.mpr small), if_pos small]
    exact congrArg Except.ok (UInt32.ofNat_toNat)
  · rw [if_pos (not_lt.mp small), if_neg small]

/-! ## Bare addresses -/

/-- None of the characters of a bare address has a meaning for the scope or ends a string. -/
theorem notMem_of_characters {text : List UInt8}
    (characters : ∀ byte ∈ text, isIpv6Character byte = true) {byte : UInt8}
    (other : isIpv6Character byte = false) : byte ∉ text := by
  intro member
  rw [characters byte member] at other
  cases other

/-- A bare address that is read back, and a scope from what follows it. -/
theorem ofText_of_split {text bare : List UInt8} {scope : UInt32} {octets : Octets 16}
    (whole : 0 ∉ text) (filled : text ≠ []) (split : splitScope network text = .ok (bare, scope))
    (clean : 0 ∉ bare) (read : network.inetPton6 bare = some octets) :
    ofText network text = .ok (.ipv6 octets scope) := by
  have occupied : ¬ text.isEmpty = true := fun empty => filled (List.isEmpty_iff.mp empty)
  have parsed : parseIpv6 network text = .ok (some (.ipv6 octets scope)) := by
    rw [parseIpv6, split]
    simp only [cString_of_notMem clean, read]
  simp only [ofText, cString_of_notMem whole]
  rw [if_neg occupied, parsed]

/-- A scope that cannot be read makes the constructor fail. -/
theorem ofText_of_error {text : List UInt8} {error : AddressError}
    (whole : 0 ∉ text) (filled : text ≠ []) (split : splitScope network text = .error error) :
    ofText network text = .error error := by
  have occupied : ¬ text.isEmpty = true := fun empty => filled (List.isEmpty_iff.mp empty)
  have parsed : parseIpv6 network text = .error error := by rw [parseIpv6, split]
  simp only [ofText, cString_of_notMem whole]
  rw [if_neg occupied, parsed]

/-- A decimal number has no zero byte. -/
theorem notMem_toDecimal (number : ℕ) : 0 ∉ toDecimal number := by
  intro member
  exact absurd (isDecimalDigit_of_mem member) (by decide)

/-- An address without a scope comes back. -/
theorem ofText_unscoped {octets : Octets 16} (inverts : network.Inverts octets) :
    ofText network (toString network (.ipv6 octets 0)) = .ok (.ipv6 octets 0) := by
  obtain ⟨text, written, filled, characters, read⟩ := inverts
  have clean : 0 ∉ text := notMem_of_characters characters rfl
  have bare : toString network (.ipv6 octets 0) = text := by
    rw [toString, written]
    exact List.append_nil text
  rw [bare]
  exact ofText_of_split clean filled (splitScope_bare (notMem_of_characters characters rfl))
    clean read

/-- An address with a scope that has no interface: the scope is read with `std::stoi`. -/
theorem ofText_scoped {octets : Octets 16} {scope : UInt32} (inverts : network.Inverts octets)
    (nameless : network.ifIndexToName scope = none) (positive : 0 < scope) :
    ofText network (toString network (.ipv6 octets scope)) =
      if scope.toNat < 2 ^ 31 then .ok (.ipv6 octets scope) else .error .outOfRange := by
  obtain ⟨text, written, filled, characters, read⟩ := inverts
  have clean : 0 ∉ text := notMem_of_characters characters rfl
  have plain : text.head? ≠ some bracket := by
    intro head
    exact notMem_of_characters characters rfl (List.mem_of_head? head)
  have split := @splitScope_percent network text (notMem_of_characters characters rfl) plain
    filled (toDecimal scope.toNat)
  rw [readScope_decimal] at split
  have whole : 0 ∉ text ++ percent :: toDecimal scope.toNat := by
    rw [List.mem_append, List.mem_cons, not_or, not_or]
    exact ⟨clean, by decide, notMem_toDecimal _⟩
  have numbered : toString network (.ipv6 octets scope) =
      text ++ percent :: toDecimal scope.toNat := by
    rw [toString, written, scopeText, if_pos positive, nameless]
  rw [numbered]
  by_cases small : scope.toNat < 2 ^ 31
  · rw [if_pos small] at split ⊢
    exact ofText_of_split whole (by simp) split clean read
  · rw [if_neg small] at split ⊢
    exact ofText_of_error whole (by simp) split

/-! ## The round trip -/

/-- An address with a scope that has no interface comes back from its text exactly when the
scope fits a signed number of 32 bits. -/
theorem ipv6_roundTrips_iff (network : Network) (octets : Octets 16) (scope : UInt32)
    (inverts : network.Inverts octets) (nameless : network.ifIndexToName scope = none) :
    RoundTrips network (.ipv6 octets scope) ↔ scope.toNat < 2 ^ 31 := by
  rw [roundTrips_iff]
  by_cases positive : 0 < scope
  · rw [ofText_scoped inverts nameless positive]
    by_cases small : scope.toNat < 2 ^ 31
    · rw [if_pos small]
      exact iff_of_true rfl small
    · rw [if_neg small]
      exact iff_of_false (fun built => by cases built) small
  · have zero : scope = 0 := UInt32.le_zero_iff.mp (UInt32.not_lt.mp positive)
    rw [zero]
    exact iff_of_true (ofText_unscoped inverts) (by decide)

/-! ## One address -/

theorem linkLocal_length :
    [(254 : UInt8), 128, 0, 0, 0, 0, 0, 0, 0, 0, 0, 0, 0, 0, 0, 1].length = 16 := rfl

/-- The address `fe80::1`. -/
def linkLocal : Octets 16 := ⟨_, linkLocal_length⟩

/-- The characters `fe80::1`. -/
def linkLocalText : List UInt8 := [102, 101, 56, 48, 58, 58, 49]

/-- A C library on a machine without interfaces, as far as that address goes. -/
def loneNetwork : Network where
  inetNtop4 _ := none
  inetNtop6 octets := if octets = linkLocal then some linkLocalText else none
  inetPton4 _ := none
  inetPton6 text := if text = linkLocalText then some linkLocal else none
  ifIndexToName _ := none
  ifNameToIndex _ := 0

theorem loneNetwork_inverts : loneNetwork.Inverts linkLocal := by
  have characters : linkLocalText.all isIpv6Character = true := by decide
  refine ⟨linkLocalText, ?_, List.cons_ne_nil _ _, List.all_eq_true.mp characters, ?_⟩
  · simp [loneNetwork]
  · simp [loneNetwork]

theorem ipv6_roundTrips_linkLocal : loneNetwork.Inverts linkLocal ∧
    loneNetwork.ifIndexToName 7 = none ∧
    (RoundTrips loneNetwork (.ipv6 linkLocal 7) ↔ (7 : UInt32).toNat < 2 ^ 31) :=
  ⟨loneNetwork_inverts, rfl, ipv6_roundTrips_iff loneNetwork linkLocal 7 loneNetwork_inverts rfl⟩

/-- The text `fe80::1%2147483648` makes the constructor fail. -/
theorem large_scope_rejected : ¬ ∀ (network : Network) (octets : Octets 16) (scope : UInt32),
    network.Inverts octets → network.ifIndexToName scope = none →
      RoundTrips network (.ipv6 octets scope) := by
  intro all
  have back := (roundTrips_iff loneNetwork _).mp
    (all loneNetwork linkLocal (2 ^ 31) loneNetwork_inverts rfl)
  rw [ofText_scoped loneNetwork_inverts rfl (by decide), if_neg (by decide)] at back
  cases back

end IpAddress

end Join
