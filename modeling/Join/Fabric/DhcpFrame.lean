import Join.Core.Checksum
import Join.Fabric.DhcpMessage

/-!
# DHCP frames

`BasicDhcp` writes a message with an ethernet, an IP and a UDP header in front of it, and
reads such a frame back. The IP header is protected by a checksum of its own, and the ports and the
payload by one over a pseudo header, the UDP header and the payload. The packed headers are
the bytes that stand in memory; `little` is the byte order of the machine, in which the
checksums are computed and stored.
-/

set_option autoImplicit false

namespace Join

open Library

/-! ## The checksum -/

variable {little : Bool}

/-- A list is short enough for the sum of its words. -/
def Short (data : List UInt8) : Prop := data.length < 2 ^ 16

/-- The checksum of a list that is short enough has the remainder of the sum. -/
theorem checksum_mod {data : List UInt8} (short : Short data) :
    (2 ^ 16 - 1 - checksum little data 0) % (2 ^ 16 - 1) = wordSum little data % (2 ^ 16 - 1) := by
  have bound := @wordSum_le little data
  have fits : wordSum little data < 2 ^ 32 := by
    unfold Short at short
    omega
  have folded := foldSum_lt (checksumLoop little (0 : UInt16).toNat data)
  have loop := @checksumLoop_eq little data (0 : UInt16).toNat (by decide)
  rw [show (0 : UInt16).toNat = 0 from rfl, Nat.zero_add, Nat.mod_eq_of_lt fits] at loop
  rw [checksum, Nat.sub_sub_self (by omega), show (0 : UInt16).toNat = 0 from rfl, loop,
    foldSum_mod fits]

/-- Another byte in one place changes the checksum. -/
theorem checksum_set_ne {data : List UInt8} (short : Short data) {place : ℕ} {old new : UInt8}
    (there : data[place]? = some old) (other : new ≠ old) :
    (2 ^ 16 - 1 - checksum little (data.set place new) 0) % (2 ^ 16 - 1) ≠
      (2 ^ 16 - 1 - checksum little data 0) % (2 ^ 16 - 1) := by
  have short' : Short (data.set place new) := by
    rw [Short, List.length_set]
    exact short
  rw [checksum_mod short, checksum_mod short']
  exact wordSum_set_mod_ne there other

/-! ## Frames -/

namespace Dhcp

open DhcpOption

/-- `Protocol::clientPort`. -/
def clientPort : ℕ := 68

/-- `Protocol::serverPort`. -/
def serverPort : ℕ := 67

/-- `Protocol::maxMsgSize`. -/
def maxMsgSize : ℕ := 1472

/-- `DhcpMessage::headerSize`. -/
def headerSize : ℕ := 240

/-- `sizeof (Frame)`: the ethernet, the IP and the UDP header. -/
def frameSize : ℕ := 14 + 20 + 8

/-- A word of the machine, as it stands in memory. -/
def hostBytes (little : Bool) (word : ℕ) : List UInt8 :=
  if little then leBytes 2 word else beBytes 2 word

/-- The word of the machine that stands in memory. -/
def hostValue (little : Bool) (bytes : List UInt8) : ℕ :=
  if little then leValue bytes else beValue bytes

/-- `BasicDhcp::Pseudo`, filled from the headers. -/
def pseudo (ip udp : List UInt8) : List UInt8 :=
  (ip.drop 12).take 4 ++ (ip.drop 16).take 4 ++ [0, 17] ++ (udp.drop 4).take 2

/-- `BasicDhcp::udpChecksum`. -/
def udpChecksum (little : Bool) (ip udp payload : List UInt8) : ℕ :=
  let sum := checksum little (pseudo ip udp ++ udp ++ payload) 0
  if sum = 0 then 0xffff else sum

/-- An IP header without the checksum, and the addresses behind it. -/
def ipHeader (check : List UInt8) (datagram : ℕ) (source destination : IpAddress) : List UInt8 :=
  [0x45, 0xc0] ++ beBytes 2 (20 + datagram) ++ [0, 0] ++ beBytes 2 0x4000 ++ [64, 17] ++ check ++
    source.addr.take 4 ++ destination.addr.take 4

/-- A UDP header; `boot` tells of a request. -/
def udpHeader (boot : Bool) (check : List UInt8) (datagram : ℕ) : List UInt8 :=
  beBytes 2 (if boot then clientPort else serverPort) ++
    beBytes 2 (if boot then serverPort else clientPort) ++ beBytes 2 datagram ++ check

/-- An ethernet header. -/
def ethernetHeader (dest src : MacAddress) : List UInt8 := dest.bytes ++ src.bytes ++ beBytes 2 0x0800

/-- How `transmit` fails. -/
inductive TransmitFailure where
  | serialize (failure : DhcpMessage.Failure)
  | messageTooLong

/-- `BasicDhcp::transmit`: the frame that it writes. -/
def transmit (little : Bool) (packet : DhcpPacket) (src dest : MacAddress)
    (source destination : IpAddress) : Except TransmitFailure (List UInt8) :=
  match DhcpMessage.serialize packet with
  | .error failure => .error (.serialize failure)
  | .ok payload =>
      if maxMsgSize < payload.length then .error .messageTooLong
      else
        let boot := decide (packet.op = 1)
        let datagram := (8 + payload.length) % 2 ^ 16
        let blank := ipHeader [0, 0] datagram source destination
        let ip := ipHeader (hostBytes little (checksum little blank 0)) datagram source destination
        let udp := udpHeader boot
          (hostBytes little (udpChecksum little ip (udpHeader boot [0, 0] datagram) payload)) datagram
        .ok (ethernetHeader dest src ++ ip ++ udp ++ payload)

/-- A message that was received, with the link layer addresses of its frame. -/
structure Received where
  packet : DhcpPacket
  src : MacAddress
  dest : MacAddress
  deriving DecidableEq

/-- The bytes of a header with the checksum in it zero. -/
def clear (place : ℕ) (header : List UInt8) : List UInt8 :=
  (header.set place 0).set (place + 1) 0

/-- The type of the ethernet frame, and the version, the header length and the protocol of the
IP header. -/
def recognised (eth ip : List UInt8) : Bool :=
  decide ((eth.drop 12).take 2 = beBytes 2 0x0800) && decide ((ip.getD 0 0).toNat / 16 = 4) &&
    decide ((ip.getD 0 0).toNat % 16 = 20 / 4) && decide (ip.getD 9 0 = 17)

/-- The ports of a request or of a reply. -/
def ports (udp : List UInt8) : Bool :=
  (decide (udp.take 2 = beBytes 2 serverPort) &&
      decide ((udp.drop 2).take 2 = beBytes 2 clientPort)) ||
    (decide (udp.take 2 = beBytes 2 clientPort) &&
      decide ((udp.drop 2).take 2 = beBytes 2 serverPort))

/-- The packet that `deserialize` gives for a payload. -/
def decode (parse : Parse) (payload : List UInt8) : Option DhcpPacket :=
  match DhcpMessage.deserialize parse {} payload with
  | (true, packet) => some packet
  | (false, _) => none

/-- The part of `receive` behind the size, on the parts of the frame. -/
def receiveParts (little : Bool) (parse : Parse) (eth ip udp payload : List UInt8) :
    Option Received :=
  if recognised eth ip = false then none
  else if hostValue little ((ip.drop 10).take 2) ≠ checksum little (clear 10 ip) 0 then none
  else if ports udp = false then none
  else
    let datagram := beValue ((udp.drop 4).take 2)
    if datagram < 8 ∨ 8 + payload.length < datagram then none
    else
      let payload := payload.take (datagram - 8)
      let check := hostValue little ((udp.drop 6).take 2)
      if check ≠ 0 ∧ check ≠ udpChecksum little ip (clear 6 udp) payload then none
      else (decode parse payload).map fun packet =>
        ⟨packet, Octets.ofMemory 6 ((eth.drop 6).take 6), Octets.ofMemory 6 (eth.take 6)⟩

/-- `BasicDhcp::receive`. -/
def receive (little : Bool) (parse : Parse) (data : List UInt8) : Option Received :=
  if data.length < frameSize + headerSize then none
  else
    receiveParts little parse (data.take 14) ((data.drop 14).take 20) ((data.drop 34).take 8)
      (data.drop 42)

/-! ## The headers -/

@[simp]
theorem length_hostBytes (word : ℕ) : (hostBytes little word).length = 2 := by
  unfold hostBytes
  split_ifs
  · exact length_leBytes 2 word
  · exact length_beBytes 2 word

theorem hostValue_hostBytes {word : ℕ} (small : word < 2 ^ 16) :
    hostValue little (hostBytes little word) = word := by
  cases little with
  | true =>
      change leValue (leBytes 2 word) = word
      rw [leValue_leBytes]
      exact Nat.mod_eq_of_lt small
  | false =>
      change beValue (beBytes 2 word) = word
      rw [beValue_beBytes]
      exact Nat.mod_eq_of_lt small

/-- Two bytes are known by the word that they are. -/
theorem hostValue_inj {left right : List UInt8} (leftLength : left.length = 2)
    (rightLength : right.length = 2) (same : hostValue little left = hostValue little right) :
    left = right := by
  have known (bytes : List UInt8) (length : bytes.length = 2) :
      hostBytes little (hostValue little bytes) = bytes := by
    cases little with
    | true =>
        have back := leBytes_leValue bytes
        rw [length] at back
        exact back
    | false =>
        have back := leBytes_leValue bytes.reverse
        rw [List.length_reverse, length] at back
        change (leBytes 2 (leValue bytes.reverse)).reverse = bytes
        rw [back, List.reverse_reverse]
  rw [← known left leftLength, ← known right rightLength, same]

theorem length_ipHeader {check : List UInt8} (length : check.length = 2) (datagram : ℕ)
    (source destination : IpAddress) :
    (ipHeader check datagram source destination).length = 20 := by
  have four (address : IpAddress) : (address.addr.take 4).length = 4 := by
    cases address with
    | ipv4 octets => simp [IpAddress.addr, octets.length_eq]
    | ipv6 octets scope => simp [IpAddress.addr, octets.length_eq]
  simp only [ipHeader, List.length_append, length_beBytes, length, four, List.length_cons,
    List.length_nil]

theorem length_udpHeader (boot : Bool) {check : List UInt8} (length : check.length = 2)
    (datagram : ℕ) : (udpHeader boot check datagram).length = 8 := by
  simp only [udpHeader, List.length_append, length_beBytes, length]

theorem length_ethernetHeader (dest src : MacAddress) :
    (ethernetHeader dest src).length = 14 := by
  simp only [ethernetHeader, List.length_append, length_beBytes, dest.length_eq, src.length_eq]

/-- The checksum in an IP header. -/
theorem ipHeader_check {check : List UInt8} (length : check.length = 2) (datagram : ℕ)
    (source destination : IpAddress) :
    ((ipHeader check datagram source destination).drop 10).take 2 = check ∧
      clear 10 (ipHeader check datagram source destination) =
        ipHeader [0, 0] datagram source destination := by
  obtain ⟨high, low, total⟩ := List.length_eq_two.mp (length_beBytes 2 (20 + datagram))
  obtain ⟨first, second, flags⟩ := List.length_eq_two.mp (length_beBytes 2 0x4000)
  obtain ⟨left, right, rfl⟩ := List.length_eq_two.mp length
  simp only [ipHeader, total, flags, clear]
  exact ⟨rfl, rfl⟩

/-- The length and the checksum in a UDP header. -/
theorem udpHeader_fields (boot : Bool) {check : List UInt8} (length : check.length = 2)
    (datagram : ℕ) :
    ((udpHeader boot check datagram).drop 4).take 2 = beBytes 2 datagram ∧
      ((udpHeader boot check datagram).drop 6).take 2 = check ∧
      clear 6 (udpHeader boot check datagram) = udpHeader boot [0, 0] datagram := by
  obtain ⟨first, second, from'⟩ :=
    List.length_eq_two.mp (length_beBytes 2 (if boot then clientPort else serverPort))
  obtain ⟨third, fourth, to'⟩ :=
    List.length_eq_two.mp (length_beBytes 2 (if boot then serverPort else clientPort))
  obtain ⟨high, low, size⟩ := List.length_eq_two.mp (length_beBytes 2 datagram)
  obtain ⟨left, right, rfl⟩ := List.length_eq_two.mp length
  simp only [udpHeader, from', to', size, clear]
  exact ⟨rfl, rfl, rfl⟩

theorem recognised_headers (dest src : MacAddress) (check : List UInt8) (datagram : ℕ)
    (source destination : IpAddress) :
    recognised (ethernetHeader dest src) (ipHeader check datagram source destination) = true := by
  obtain ⟨high, low, total⟩ := List.length_eq_two.mp (length_beBytes 2 (20 + datagram))
  obtain ⟨first, second, flags⟩ := List.length_eq_two.mp (length_beBytes 2 0x4000)
  have type : ((ethernetHeader dest src).drop 12).take 2 = beBytes 2 0x0800 := by
    have front : (dest.bytes ++ src.bytes).length = 12 := by
      rw [List.length_append, dest.length_eq, src.length_eq]
    rw [ethernetHeader, List.drop_left' front]
    rfl
  simp [recognised, type, ipHeader, total, flags]

theorem ports_udpHeader (boot : Bool) (check : List UInt8) (datagram : ℕ) :
    ports (udpHeader boot check datagram) = true := by
  cases boot <;> rfl

/-- A frame in parts. -/
theorem receive_parts {eth ip udp payload : List UInt8} (parse : Parse) (ethLength : eth.length = 14)
    (ipLength : ip.length = 20) (udpLength : udp.length = 8)
    (enough : headerSize ≤ payload.length) :
    receive little parse (eth ++ ip ++ udp ++ payload) =
      receiveParts little parse eth ip udp payload := by
  have front : (eth ++ ip).length = 34 := by rw [List.length_append, ethLength, ipLength]
  have all : (eth ++ ip ++ udp).length = 42 := by rw [List.length_append, front, udpLength]
  have long : ¬(eth ++ ip ++ udp ++ payload).length < frameSize + headerSize := by
    rw [List.length_append, all]
    exact Nat.not_lt.mpr (Nat.add_le_add_left enough 42)
  rw [receive, if_neg long, List.drop_left' all]
  congr 1
  · rw [List.append_assoc, List.append_assoc, List.take_left' ethLength]
  · rw [List.append_assoc, List.append_assoc, List.drop_left' ethLength, List.take_left' ipLength]
  · rw [List.append_assoc, List.drop_left' front, List.take_left' udpLength]

/-! ## A byte that has changed -/

/-- A byte of the headers of a frame, but for the ethernet header and the length and the
checksum of the UDP header, or a byte of the payload. -/
def Protected (place : ℕ) (size : ℕ) : Prop := 14 ≤ place ∧ place < 38 ∨ 42 ≤ place ∧ place < size

theorem clear_set {header : List UInt8} {place other : ℕ} (new : UInt8)
    (first : other ≠ place) (second : other ≠ place + 1) :
    clear place (header.set other new) = (clear place header).set other new := by
  rw [clear, clear, List.set_comm _ _ first, List.set_comm _ _ second]

theorem getElem?_clear {header : List UInt8} {place other : ℕ} (first : other ≠ place)
    (second : other ≠ place + 1) : (clear place header)[other]? = header[other]? := by
  rw [clear, List.getElem?_set_ne second.symm, List.getElem?_set_ne first.symm]

/-- A byte of the checksum has changed. -/
theorem check_set_ne {header : List UInt8} {place other : ℕ} {old new : UInt8}
    (there : header[other]? = some old) (differs : new ≠ old)
    (inside : other = place ∨ other = place + 1) :
    ((header.set other new).drop place).take 2 ≠ (header.drop place).take 2 := by
  intro same
  have bytes := congrArg (·[other - place]?) same
  have behind : place + (other - place) = other := by omega
  have near : other - place < 2 := by omega
  simp only [List.getElem?_take_of_lt near, List.getElem?_drop, behind] at bytes
  rw [there, List.getElem?_set_self (List.getElem?_eq_some_iff.mp there).1] at bytes
  exact differs (Option.some.inj bytes)

/-- An IP header with another byte does not pass. -/
theorem receiveParts_ip {eth ip udp payload : List UInt8} (parse : Parse)
    (length : ip.length = 20)
    (right : hostValue little ((ip.drop 10).take 2) = checksum little (clear 10 ip) 0)
    {place : ℕ} {old new : UInt8} (there : ip[place]? = some old) (differs : new ≠ old) :
    receiveParts little parse eth (ip.set place new) udp payload = none := by
  have wrong : hostValue little (((ip.set place new).drop 10).take 2) ≠
      checksum little (clear 10 (ip.set place new)) 0 := by
    by_cases inside : place = 10 ∨ place = 10 + 1
    · have blank : clear 10 (ip.set place new) = clear 10 ip := by
        rcases inside with rfl | rfl
        · rw [clear, clear, List.set_set]
        · rw [clear, clear, List.set_comm new 0 (by decide), List.set_set]
      rw [blank, ← right]
      intro same
      refine check_set_ne there differs inside (hostValue_inj ?_ ?_ same) <;>
        simp [length]
    · obtain ⟨first, second⟩ := not_or.mp inside
      have kept : ((ip.set place new).drop 10).take 2 = (ip.drop 10).take 2 := by
        refine List.ext_getElem? fun i => ?_
        by_cases near : i < 2
        · rw [List.getElem?_take_of_lt near, List.getElem?_take_of_lt near, List.getElem?_drop,
            List.getElem?_drop, List.getElem?_set_ne (by omega)]
        · rw [List.getElem?_take_eq_none (Nat.not_lt.mp near),
            List.getElem?_take_eq_none (Nat.not_lt.mp near)]
      rw [kept, right, clear_set new first second]
      intro same
      refine @checksum_set_ne little (clear 10 ip) ?_ _ _ _
        ((getElem?_clear first second).trans there) differs ?_
      · simp [Short, clear, length]
      · rw [← same]
  unfold receiveParts
  split_ifs
  · rfl
  · rfl

/-- A pair of ports with another byte is not one. -/
theorem ports_set (boot : Bool) (check : List UInt8) (datagram : ℕ) {place : ℕ} {old new : UInt8}
    (inside : place < 4) (there : (udpHeader boot check datagram)[place]? = some old)
    (differs : new ≠ old) :
    ports ((udpHeader boot check datagram).set place new) = false := by
  have client : beBytes 2 clientPort = [0, 68] := rfl
  have server : beBytes 2 serverPort = [0, 67] := rfl
  obtain rfl | rfl | rfl | rfl : place = 0 ∨ place = 1 ∨ place = 2 ∨ place = 3 := by omega
  all_goals
    cases boot <;> simp [udpHeader, client, server] at there <;> subst there <;>
      simp [ports, udpHeader, client, server, differs]

/-- A payload with another byte has another checksum. -/
theorem udpChecksum_set_ne {ip udp payload : List UInt8} (ipLength : ip.length = 20)
    (udpLength : udp.length = 8) (short : payload.length ≤ maxMsgSize) {place : ℕ}
    {old new : UInt8} (there : payload[place]? = some old) (differs : new ≠ old) :
    udpChecksum little ip udp (payload.set place new) ≠ udpChecksum little ip udp payload := by
  have front : (pseudo ip udp ++ udp).length = 20 := by
    simp [pseudo, ipLength, udpLength]
  have moved : pseudo ip udp ++ udp ++ payload.set place new =
      (pseudo ip udp ++ udp ++ payload).set (20 + place) new := by
    rw [List.set_append_right _ _ (by omega), front, Nat.add_sub_cancel_left]
  have found : (pseudo ip udp ++ udp ++ payload)[20 + place]? = some old := by
    rw [List.getElem?_append_right (by omega), front, Nat.add_sub_cancel_left]
    exact there
  have fits : Short (pseudo ip udp ++ udp ++ payload) := by
    rw [Short, List.length_append, front]
    unfold maxMsgSize at short
    omega
  have changed := @checksum_set_ne little _ fits _ _ _ found differs
  intro same
  rw [udpChecksum, udpChecksum, moved] at same
  have left := @checksum_lt little ((pseudo ip udp ++ udp ++ payload).set (20 + place) new) 0
  have right := @checksum_lt little (pseudo ip udp ++ udp ++ payload) 0
  -- No checksum and all ones have one remainder, so the substitution hides nothing.
  split_ifs at same <;> omega

/-! ## What is written is read back, and nothing near it -/

/-- A message is not shorter than the shortest that `receive` takes. -/
theorem headerSize_le {packet : DhcpPacket} {payload : List UInt8}
    (serialized : DhcpMessage.serialize packet = .ok payload) : headerSize ≤ payload.length := by
  unfold DhcpMessage.serialize at serialized
  split_ifs at serialized
  cases options : DhcpMessage.serializeOptions packet.options with
  | error failure =>
      rw [options] at serialized
      cases serialized
  | ok written =>
      rw [options] at serialized
      cases serialized
      rw [List.length_append, List.length_replicate]
      unfold headerSize DhcpMessage.minMsgSize
      omega

/-- The parts of the frame that `transmit` writes, as `receive` finds them. -/
structure Consistent (little : Bool) (eth ip udp payload : List UInt8) : Prop where
  ethLength : eth.length = 14
  ipLength : ip.length = 20
  udpLength : udp.length = 8
  known : recognised eth ip = true
  header : hostValue little ((ip.drop 10).take 2) = checksum little (clear 10 ip) 0
  paired : ports udp = true
  size : beValue ((udp.drop 4).take 2) = 8 + payload.length
  datagram : hostValue little ((udp.drop 6).take 2) = udpChecksum little ip (clear 6 udp) payload

theorem udpChecksum_ne_zero (ip udp payload : List UInt8) :
    udpChecksum little ip udp payload ≠ 0 := by
  unfold udpChecksum
  dsimp only
  split_ifs with zero
  · decide
  · exact zero

theorem udpChecksum_lt (ip udp payload : List UInt8) :
    udpChecksum little ip udp payload < 2 ^ 16 := by
  unfold udpChecksum
  dsimp only
  split_ifs
  · decide
  · exact checksum_lt _ _

variable {eth ip udp payload : List UInt8}

/-- A frame that is consistent is received. -/
theorem Consistent.received (consistent : Consistent little eth ip udp payload) (parse : Parse) :
    receiveParts little parse eth ip udp payload = (decode parse payload).map fun packet =>
      ⟨packet, Octets.ofMemory 6 ((eth.drop 6).take 6), Octets.ofMemory 6 (eth.take 6)⟩ := by
  have fits : ¬(8 + payload.length < 8 ∨ 8 + payload.length < 8 + payload.length) := by omega
  rw [receiveParts, if_neg (by rw [consistent.known]; exact nofun),
    if_neg (not_not.mpr consistent.header), if_neg (by rw [consistent.paired]; exact nofun)]
  dsimp only
  rw [consistent.size, if_neg fits, Nat.add_sub_cancel_left, List.take_length,
    consistent.datagram, if_neg fun wrong => wrong.2 rfl]

/-- A frame whose payload has another byte is not received. -/
theorem Consistent.payload_changed (consistent : Consistent little eth ip udp payload)
    (parse : Parse) (short : payload.length ≤ maxMsgSize) {place : ℕ} {old new : UInt8}
    (there : payload[place]? = some old) (differs : new ≠ old) :
    receiveParts little parse eth ip udp (payload.set place new) = none := by
  have cleared : (clear 6 udp).length = 8 := by
    rw [clear, List.length_set, List.length_set, consistent.udpLength]
  have wrong : hostValue little ((udp.drop 6).take 2) ≠ 0 ∧
      hostValue little ((udp.drop 6).take 2) ≠
        udpChecksum little ip (clear 6 udp) (payload.set place new) := by
    rw [consistent.datagram]
    refine ⟨udpChecksum_ne_zero _ _ _, ?_⟩
    exact (udpChecksum_set_ne consistent.ipLength cleared short there differs).symm
  have whole : (payload.set place new).take payload.length = payload.set place new := by
    rw [List.take_of_length_le (List.length_set ..).le]
  have fits : ¬(8 + payload.length < 8 ∨ 8 + payload.length < 8 + payload.length) := by omega
  rw [receiveParts, if_neg (by rw [consistent.known]; exact nofun),
    if_neg (not_not.mpr consistent.header), if_neg (by rw [consistent.paired]; exact nofun)]
  dsimp only
  rw [consistent.size, List.length_set, if_neg fits, Nat.add_sub_cancel_left, whole,
    if_pos wrong]

/-- A frame whose ports are not those of DHCP is not received. -/
theorem receiveParts_ports (parse : Parse) (wrong : ports udp = false) :
    receiveParts little parse eth ip udp payload = none := by
  unfold receiveParts
  split_ifs
  · rfl
  · rfl
  · rfl

/-- A frame that is consistent is not received with another byte in it. -/
theorem Consistent.changed (consistent : Consistent little eth ip udp payload) (parse : Parse)
    (unpaired : ∀ {place : ℕ} {old new : UInt8}, place < 4 → udp[place]? = some old → new ≠ old →
      ports (udp.set place new) = false)
    (short : payload.length ≤ maxMsgSize) (enough : headerSize ≤ payload.length)
    {place : ℕ} {old new : UInt8}
    (inside : Protected place (eth ++ ip ++ udp ++ payload).length)
    (there : (eth ++ ip ++ udp ++ payload)[place]? = some old) (differs : new ≠ old) :
    receive little parse ((eth ++ ip ++ udp ++ payload).set place new) = none := by
  have eths := consistent.ethLength
  have ips := consistent.ipLength
  have udps := consistent.udpLength
  have front : (eth ++ ip).length = 34 := by rw [List.length_append, eths, ips]
  have all : (eth ++ ip ++ udp).length = 42 := by rw [List.length_append, front, udps]
  rcases inside with ⟨first, last⟩ | ⟨behind, -⟩
  · rw [List.getElem?_append_left (by omega)] at there
    rw [List.set_append_left _ _ (by omega)]
    by_cases header : place < 34
    · rw [List.getElem?_append_left (by omega), List.getElem?_append_right (by omega)] at there
      rw [List.set_append_left _ _ (by omega), List.set_append_right _ _ (by omega),
        receive_parts parse eths (by rw [List.length_set, ips]) udps enough]
      exact receiveParts_ip parse ips consistent.header there differs
    · rw [List.getElem?_append_right (by omega)] at there
      rw [List.set_append_right _ _ (by omega),
        receive_parts parse eths ips (by rw [List.length_set, udps]) enough]
      exact receiveParts_ports parse (unpaired (by omega) there differs)
  · rw [List.getElem?_append_right (by omega)] at there
    rw [List.set_append_right _ _ (by omega),
      receive_parts parse eths ips udps (by rw [List.length_set]; exact enough)]
    exact consistent.payload_changed parse short there differs

/-- The frame of a message whose addresses and parts are given. -/
theorem transmit_consistent {packet : DhcpPacket}
    (serialized : DhcpMessage.serialize packet = .ok payload) (short : payload.length ≤ maxMsgSize)
    (src dest : MacAddress) (source destination : IpAddress) :
    ∃ ip check, check.length = 2 ∧ Consistent little (ethernetHeader dest src) ip
        (udpHeader (decide (packet.op = 1)) check (8 + payload.length)) payload ∧
      transmit little packet src dest source destination =
        .ok (ethernetHeader dest src ++ ip ++
          udpHeader (decide (packet.op = 1)) check (8 + payload.length) ++ payload) := by
  have small : 8 + payload.length < 2 ^ 16 := by
    unfold maxMsgSize at short
    omega
  let blank := ipHeader [0, 0] (8 + payload.length) source destination
  let sum := hostBytes little (checksum little blank 0)
  let ip := ipHeader sum (8 + payload.length) source destination
  let boot := decide (packet.op = 1)
  let check := hostBytes little
    (udpChecksum little ip (udpHeader boot [0, 0] (8 + payload.length)) payload)
  have sumLength : sum.length = 2 := length_hostBytes _
  have checkLength : check.length = 2 := length_hostBytes _
  obtain ⟨inside, cleared⟩ := ipHeader_check sumLength (8 + payload.length) source destination
  obtain ⟨size, last, blanked⟩ := udpHeader_fields boot checkLength (8 + payload.length)
  refine ⟨ip, check, checkLength, ⟨length_ethernetHeader dest src,
    length_ipHeader sumLength _ _ _, length_udpHeader boot checkLength _,
    recognised_headers dest src sum _ _ _, ?_, ports_udpHeader boot check _, ?_, ?_⟩, ?_⟩
  · rw [inside, cleared]
    exact hostValue_hostBytes (checksum_lt _ _)
  · rw [size, beValue_beBytes]
    exact Nat.mod_eq_of_lt small
  · rw [last, blanked]
    exact hostValue_hostBytes (udpChecksum_lt _ _ _)
  · rw [transmit, serialized]
    dsimp only
    rw [if_neg (Nat.not_lt.mpr short), Nat.mod_eq_of_lt small]

/-- The frame that is written for a message is received as what `deserialize` makes of the
payload, with the link layer addresses of the frame; and no frame is received that has
another byte in one place of the IP header, of the ports or of the payload. -/
theorem frame_protected (little : Bool) (parse : Parse) (packet : DhcpPacket)
    (src dest : MacAddress) (source destination : IpAddress)
    (serialized : DhcpMessage.serialize packet = .ok payload)
    (short : payload.length ≤ maxMsgSize) :
    ∃ frame, transmit little packet src dest source destination = .ok frame ∧
      receive little parse frame =
        (decode parse payload).map (fun received => ⟨received, src, dest⟩) ∧
      ∀ place old new, Protected place frame.length → frame[place]? = some old → new ≠ old →
        receive little parse (frame.set place new) = none := by
  obtain ⟨ip, check, length, consistent, transmitted⟩ := @transmit_consistent little _ _
    serialized short src dest source destination
  have enough := headerSize_le serialized
  refine ⟨_, transmitted, ?_, fun place old new inside there differs => ?_⟩
  · rw [receive_parts parse consistent.ethLength consistent.ipLength consistent.udpLength enough,
      consistent.received parse]
    have dests : (ethernetHeader dest src).take 6 = dest.bytes := by
      rw [ethernetHeader, List.append_assoc, List.take_left' dest.length_eq]
    have srcs : ((ethernetHeader dest src).drop 6).take 6 = src.bytes := by
      rw [ethernetHeader, List.append_assoc, List.drop_left' dest.length_eq,
        List.take_left' src.length_eq]
    rw [dests, srcs, Octets.ofMemory_bytes, Octets.ofMemory_bytes]
  · exact consistent.changed parse (ports_set _ _ _) short enough inside there differs

/-- A request without options. -/
def plainRequest : DhcpPacket := { op := 1, id := 0xCAFE }

theorem frame_protected_plain : ∃ payload frame,
    DhcpMessage.serialize plainRequest = .ok payload ∧
    transmit true plainRequest (Octets.zero 6) (Octets.zero 6) (.ipv4 (Octets.zero 4))
      (.ipv4 (Octets.zero 4)) = .ok frame ∧
    receive true ⟨fun _ => none, fun _ => none⟩ frame =
      some ⟨plainRequest, Octets.zero 6, Octets.zero 6⟩ ∧
    ∀ place old new, Protected place frame.length → frame[place]? = some old → new ≠ old →
      receive true ⟨fun _ => none, fun _ => none⟩ (frame.set place new) = none := by
  obtain ⟨payload, serialized, short, decoded⟩ : ∃ payload,
      DhcpMessage.serialize plainRequest = .ok payload ∧ payload.length ≤ maxMsgSize ∧
        decode ⟨fun _ => none, fun _ => none⟩ payload = some plainRequest :=
    ⟨_, rfl, by decide +kernel, by decide +kernel⟩
  obtain ⟨frame, transmitted, received, changed⟩ := frame_protected true
    ⟨fun _ => none, fun _ => none⟩ plainRequest (Octets.zero 6) (Octets.zero 6)
    (.ipv4 (Octets.zero 4)) (.ipv4 (Octets.zero 4)) serialized short
  rw [decoded] at received
  exact ⟨payload, frame, serialized, transmitted, received, changed⟩

end Dhcp

end Join
