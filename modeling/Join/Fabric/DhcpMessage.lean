import Join.Library.ByteOrder
import Join.Fabric.DhcpOption

/-!
# The DHCP message codec

`DhcpMessage::serialize` and `DhcpMessage::deserialize`. A stream that is written is the
bytes that the call appends to it, and a stream that is read is the bytes that are still to
come: nothing else of a stream matters to the codec, which never moves a position and
returns at the first read that fails.

A call of `deserialize` that returns `-1` leaves what it has read in the packet, so the
packet is part of the result in both cases.
-/

set_option autoImplicit false

namespace Join

open Library

/-- `DhcpPacket`, without the link layer addresses, which the codec does not touch. -/
structure DhcpPacket where
  hardware : MacAddress := Octets.zero 6
  client : IpAddress := IpAddress.default
  your : IpAddress := IpAddress.default
  server : IpAddress := IpAddress.default
  gateway : IpAddress := IpAddress.default
  id : UInt32 := 0
  secs : UInt16 := 0
  flags : UInt16 := 0
  op : UInt8 := 0
  options : DhcpOption := SortedMap.empty
deriving DecidableEq

namespace DhcpMessage

open DhcpOption

/-- `DhcpOption::Pad`. -/
def pad : UInt8 := 0

/-- `DhcpOption::End`. -/
def endOfOptions : UInt8 := 255

/-- `DhcpOption::OptionOverload`. -/
def optionOverload : UInt8 := 52

/-- `DhcpMessage::magicCookie`. -/
def magicCookie : ℕ := 0x63825363

/-- `DhcpMessage::minMsgSize`. -/
def minMsgSize : ℕ := 300

/-- `DhcpMessage::maxOptionSize`. -/
def maxOptionSize : ℕ := 255

/-- `DhcpMessage::_ethernet`. -/
def ethernet : UInt8 := 1

/-- `op` is neither `BootRequest` nor `BootReply`. -/
def wrongOperation (op : UInt8) : Bool := decide (op ≠ 1) && decide (op ≠ 2)

/-- How `serialize` fails: with `Errc::InvalidParam` or `Errc::MessageTooLong`, or with the
exception of a value that is not of the type asked for. -/
inductive Failure
  | invalidParam
  | messageTooLong
  | badCast
deriving DecidableEq, Repr

/-! ## Encoding -/

/-- The payload that the branches of `DhcpMessage::serialize` write for an option of a type. -/
def payload : OptionType → DhcpOptionValue → Except Failure (List UInt8)
  | .byte, .byte value => .ok [value]
  | .word, .word value => .ok (beBytes 2 value.toNat)
  | .long, .long value => .ok (beBytes 4 value.toNat)
  | .slong, .slong value => .ok (beBytes 4 value.toUInt32.toNat)
  | .text, .text value => .ok value
  | .ip, .ip value => .ok (value.addr.take 4)
  | .mac, .mac value => .ok (ethernet :: value.bytes)
  | .bytes, .bytes value => .ok value
  | .words, .words value => .ok (value.flatMap fun element => beBytes 2 element.toNat)
  | .ips, .ips value => .ok (value.flatMap fun element => element.addr.take 4)
  | _, _ => .error .badCast

/-- `DhcpMessage::writeHead`. -/
def writeHead (code : UInt8) (size : ℕ) : Except Failure (List UInt8) :=
  if size > maxOptionSize then .error .messageTooLong else .ok [code, UInt8.ofNat size]

/-- One turn of the loop of `DhcpMessage::serialize` over the options. -/
def serializeOption (option : UInt8 × DhcpOptionValue) : Except Failure (List UInt8) :=
  match describe option.1 with
  | none => .ok []
  | some info => do
      let payload ← payload info.type option.2
      let head ← writeHead option.1 payload.length
      return head ++ payload

/-- `DhcpMessage::serialize` of an option list. -/
def serializeOptions (options : DhcpOption) : Except Failure (List UInt8) := do
  let written ← options.entries.mapM serializeOption
  return written.flatten ++ [endOfOptions]

/-- `DhcpMessage::writeAddress`. -/
def writeAddress (address : IpAddress) : List UInt8 :=
  if address.isIpv4 then address.addr.take 4 else List.replicate 4 0

/-- The fixed part of a message, with the magic cookie. -/
def header (packet : DhcpPacket) : List UInt8 :=
  [packet.op, ethernet, 6, 0] ++ beBytes 4 packet.id.toNat ++ beBytes 2 packet.secs.toNat ++
    beBytes 2 packet.flags.toNat ++ writeAddress packet.client ++ writeAddress packet.your ++
    writeAddress packet.server ++ writeAddress packet.gateway ++
    (packet.hardware.bytes ++ List.replicate 10 0) ++ List.replicate (64 + 128) 0 ++
    beBytes 4 magicCookie

/-- `DhcpMessage::serialize`: the bytes that it appends to the stream. -/
def serialize (packet : DhcpPacket) : Except Failure (List UInt8) :=
  if wrongOperation packet.op then .error .invalidParam
  else do
    let options ← serializeOptions packet.options
    let written := header packet ++ options
    return written ++ List.replicate (minMsgSize - written.length) pad

/-! ## Decoding -/

/-- The words that the bytes of a payload spell. -/
def payloadWords : List UInt8 → List UInt16
  | high :: low :: rest => UInt16.ofNat (beValue [high, low]) :: payloadWords rest
  | _ => []

/-- The IPv4 addresses that stand in a payload. -/
def payloadAddresses : List UInt8 → List IpAddress
  | first :: second :: third :: fourth :: rest =>
      .ipv4 ⟨[first, second, third, fourth], rfl⟩ :: payloadAddresses rest
  | _ => []

/-- What the branches of `DhcpMessage::deserialize` give to `insert`, if anything. A number in
a payload stands there most significant byte first. -/
def received (type : OptionType) (payload : List UInt8) : Option Argument :=
  match type with
  | .byte => if payload.length = 1 then some (.integer (payload.headD 0).toNat) else none
  | .word => if payload.length = 2 then some (.integer (beValue payload)) else none
  | .long => if payload.length = 4 then some (.integer (beValue payload)) else none
  | .slong =>
      if payload.length = 4 then
        some (.integer (UInt32.ofNat (beValue payload)).toInt32.toInt)
      else none
  | .text => some (.string payload)
  | .ip => if payload.length = 4 then some (.ip (.ipv4 (Octets.ofMemory 4 payload))) else none
  | .mac =>
      if payload.length = 7 ∧ payload.headD 0 = ethernet then
        some (.mac (Octets.ofMemory 6 payload.tail))
      else none
  | .bytes => some (.bytes payload)
  | .words => if payload.length % 2 = 0 then some (.words (payloadWords payload)) else none
  | .ips => if payload.length % 4 = 0 then some (.ips (payloadAddresses payload)) else none

/-- The end of a turn of the loop of `DhcpMessage::deserialize` over the options. -/
def deserializeOption (parse : Parse) (code : UInt8) (payload : List UInt8)
    (options : DhcpOption) : DhcpOption :=
  match describe code with
  | none => options
  | some info =>
      match received info.type payload with
      | none => options
      | some value => (options.insert parse code value).1

/-- `DhcpMessage::deserialize` of an option list. -/
def deserializeOptions (parse : Parse) (options : DhcpOption) :
    List UInt8 → Bool × DhcpOption
  | [] => (true, options)
  | code :: data =>
      if code = pad then deserializeOptions parse options data
      else if code = endOfOptions then (true, options)
      else
        match data with
        | [] => (false, options)
        | size :: data =>
            if data.length < size.toNat then (false, options)
            else deserializeOptions parse
              (deserializeOption parse code (data.take size.toNat) options)
              (data.drop size.toNat)
termination_by data => data.length
decreasing_by all_goals simp only [List.length_cons, List.length_drop]; omega

/-- `DhcpMessage::extract`. -/
def extract (size : ℕ) (data : List UInt8) : Option (List UInt8 × List UInt8) :=
  if data.length < size then none else some (data.take size, data.drop size)

/-- `DhcpMessage::readAddress`. -/
def readAddress (data : List UInt8) : Option (IpAddress × List UInt8) :=
  (extract 4 data).map fun taken => (.ipv4 (Octets.ofMemory 4 taken.1), taken.2)

/-- The end of `DhcpMessage::deserialize`: the options that the fields carry besides. -/
def deserializeOverload (parse : Parse) (sname file : List UInt8) (packet : DhcpPacket) :
    Bool × DhcpPacket :=
  match packet.options.find optionOverload with
  | some (.byte overload) =>
      let first :=
        if overload &&& 1 ≠ 0 then deserializeOptions parse packet.options file
        else (true, packet.options)
      if first.1 then
        let second :=
          if overload &&& 2 ≠ 0 then deserializeOptions parse first.2 sname
          else (true, first.2)
        (second.1, { packet with options := second.2 })
      else (false, { packet with options := first.2 })
  | _ => (true, packet)

/-- The part of `DhcpMessage::deserialize` behind the client hardware address. -/
def deserializeFields (parse : Parse) (packet : DhcpPacket) (data : List UInt8) :
    Bool × DhcpPacket :=
  match extract 64 data with
  | none => (false, packet)
  | some (sname, data) =>
      match extract 128 data with
      | none => (false, packet)
      | some (file, data) =>
          match extract 4 data with
          | none => (false, packet)
          | some (cookie, data) =>
              if beValue cookie ≠ magicCookie then (false, packet)
              else
                let options := deserializeOptions parse packet.options data
                let packet := { packet with options := options.2 }
                if options.1 then deserializeOverload parse sname file packet
                else (false, packet)

/-- The part of `DhcpMessage::deserialize` that reads the addresses. -/
def deserializeAddresses (parse : Parse) (packet : DhcpPacket) (data : List UInt8) :
    Bool × DhcpPacket :=
  match readAddress data with
  | none => (false, packet)
  | some (client, data) =>
      let packet := { packet with client }
      match readAddress data with
      | none => (false, packet)
      | some (your, data) =>
          let packet := { packet with your }
          match readAddress data with
          | none => (false, packet)
          | some (server, data) =>
              let packet := { packet with server }
              match readAddress data with
              | none => (false, packet)
              | some (gateway, data) =>
                  let packet := { packet with gateway }
                  match extract 16 data with
                  | none => (false, packet)
                  | some (chaddr, data) =>
                      deserializeFields parse
                        { packet with hardware := Octets.ofMemory 6 chaddr } data

/-- `DhcpMessage::deserialize`: whether it succeeds, and the packet it leaves. -/
def deserialize (parse : Parse) (packet : DhcpPacket) (data : List UInt8) : Bool × DhcpPacket :=
  let packet := { packet with options := SortedMap.empty }
  match extract 4 data with
  | none => (false, packet)
  | some (head, data) =>
      let packet := { packet with op := head.getD 0 0 }
      if wrongOperation packet.op || decide (head.getD 1 0 ≠ ethernet) ||
          decide (head.getD 2 0 ≠ 6) then (false, packet)
      else
        match extract 4 data with
        | none => (false, packet)
        | some (id, data) =>
            match extract 2 data with
            | none => (false, packet)
            | some (secs, data) =>
                match extract 2 data with
                | none => (false, packet)
                | some (flags, data) =>
                    deserializeAddresses parse
                      { packet with
                        id := UInt32.ofNat (beValue id), secs := UInt16.ofNat (beValue secs),
                        flags := UInt16.ofNat (beValue flags) } data

end DhcpMessage

end Join
