import Mathlib.Data.List.Basic
import Mathlib.Tactic.Common

/-!
# Addresses

`IpAddress` and `MacAddress` as far as the codecs use them: an address is a fixed
number of bytes in network order, and an IPv6 address has a scope identifier besides.

The codecs take the bytes of an address from memory, by a pointer and a length of
their own choice. What stands in memory around an address and in a variable that was
never filled is not known, so those bytes are given from outside, as a function of
the place.
-/

set_option autoImplicit false

namespace Join

/-- The bytes that memory holds at a place where nothing is known. -/
def unknownBytes (memory : ℕ → UInt8) (count : ℕ) : List UInt8 := (List.range count).map memory

@[simp] theorem length_unknownBytes (memory : ℕ → UInt8) (count : ℕ) :
    (unknownBytes memory count).length = count := by
  rw [unknownBytes, List.length_map, List.length_range]

/-- A fixed number of bytes. -/
structure Octets (count : ℕ) where
  bytes : List UInt8
  length_eq : bytes.length = count
deriving DecidableEq

namespace Octets

variable {count : ℕ}

/-- The first bytes that stand at a place in memory, with zeros after them. -/
def ofMemory (count : ℕ) (memory : List UInt8) : Octets count :=
  ⟨(memory ++ List.replicate count 0).take count, by simp⟩

/-- All bytes zero. -/
def zero (count : ℕ) : Octets count := ⟨List.replicate count 0, List.length_replicate⟩

theorem ext_bytes {left right : Octets count} (same : left.bytes = right.bytes) :
    left = right := by
  cases left
  cases right
  cases same
  rfl

/-- Memory of the size that is asked for. -/
theorem bytes_ofMemory {memory : List UInt8} (length : memory.length = count) :
    (ofMemory count memory).bytes = memory := by
  simp [ofMemory, length]

/-- Bytes copied out of memory and back. -/
@[simp] theorem ofMemory_bytes (octets : Octets count) : ofMemory count octets.bytes = octets := by
  apply ext_bytes
  exact bytes_ofMemory octets.length_eq

end Octets

/-- `IpAddress`: an IPv4 address, or an IPv6 address with its scope identifier. -/
inductive IpAddress
  | ipv4 (octets : Octets 4)
  | ipv6 (octets : Octets 16) (scope : UInt32)
deriving DecidableEq

namespace IpAddress

/-- `IpAddress::IpAddress ()`: the IPv4 wildcard. -/
def default : IpAddress := .ipv4 (Octets.zero 4)

/-- `IpAddress::family () == AF_INET`. -/
def isIpv4 : IpAddress → Bool
  | .ipv4 _ => true
  | .ipv6 _ _ => false

/-- What `IpAddress::addr ()` points to. -/
def addr : IpAddress → List UInt8
  | .ipv4 octets => octets.bytes
  | .ipv6 octets _ => octets.bytes

/-- The first bytes from `IpAddress::addr ()` on, which may go beyond the address. -/
def addrBytes (beyond : ℕ → UInt8) (count : ℕ) (address : IpAddress) : List UInt8 :=
  (address.addr ++ unknownBytes beyond count).take count

/-- `IpAddress::isWildcard`. -/
def isWildcard (address : IpAddress) : Bool := address.addr.all fun byte => byte == 0

/-- The address without its scope identifier. -/
def unscoped : IpAddress → IpAddress
  | .ipv4 octets => .ipv4 octets
  | .ipv6 octets _ => .ipv6 octets 0

@[simp] theorem length_addrBytes (beyond : ℕ → UInt8) (count : ℕ) (address : IpAddress) :
    (address.addrBytes beyond count).length = count := by
  rw [addrBytes, List.length_take, List.length_append, length_unknownBytes]
  omega

/-- No byte beyond the address is looked at when the length is that of the address. -/
theorem addrBytes_of_length (beyond : ℕ → UInt8) {count : ℕ} {address : IpAddress}
    (length : address.addr.length = count) : address.addrBytes beyond count = address.addr := by
  rw [addrBytes, List.take_append_of_le_length (Nat.le_of_eq length.symm),
    List.take_of_length_le (Nat.le_of_eq length)]

@[simp] theorem addrBytes_ipv4 (beyond : ℕ → UInt8) (octets : Octets 4) :
    (ipv4 octets).addrBytes beyond 4 = octets.bytes := addrBytes_of_length beyond octets.length_eq

@[simp] theorem addrBytes_ipv6 (beyond : ℕ → UInt8) (octets : Octets 16) (scope : UInt32) :
    (ipv6 octets scope).addrBytes beyond 16 = octets.bytes :=
  addrBytes_of_length beyond octets.length_eq

end IpAddress

/-- `MacAddress`: six bytes. -/
abbrev MacAddress : Type := Octets 6

end Join
