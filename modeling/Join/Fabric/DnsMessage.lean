import Join.Library.Stream
import Join.Core.Address

/-!
# The DNS message codec

`DnsMessage::serialize` and `DnsMessage::deserialize` over byte streams. A string is its
bytes, and a number of 16 or 32 bits goes into the stream most significant byte first.

Two things depend on memory that the codec does not own. An address is written with the
length that the record type asks for, so that an IPv4 address in an `AAAA` record is read
beyond its end: `beyond` is what stands there. An address is read into a variable that was
never initialised: `stack` is what stands in it when the read fails.

A call that returns `-1` gives `none`. `decodeName` gives its name in both cases, because
`decodeMail` is called without a look at its result.
-/

set_option autoImplicit false

namespace Join

open Library

/-- `QuestionRecord`. -/
structure QuestionRecord where
  host : List UInt8 := []
  type : UInt16 := 0
  dnsclass : UInt16 := 0
deriving DecidableEq

/-- `ResourceRecord`. -/
structure ResourceRecord extends QuestionRecord where
  ttl : UInt32 := 0
  addr : IpAddress := IpAddress.default
  name : List UInt8 := []
  priority : UInt16 := 0
  weight : UInt16 := 0
  port : UInt16 := 0
  txts : List (List UInt8) := []
  mail : List UInt8 := []
  serial : UInt32 := 0
  refresh : UInt32 := 0
  retry : UInt32 := 0
  expire : UInt32 := 0
  minimum : UInt32 := 0
  mxpref : UInt16 := 0
deriving DecidableEq

/-- `DnsPacket`, as far as the codec uses it. -/
structure DnsPacket where
  id : UInt16 := 0
  flags : UInt16 := 0
  questions : List QuestionRecord := []
  answers : List ResourceRecord := []
  authorities : List ResourceRecord := []
  additionals : List ResourceRecord := []
deriving DecidableEq

/-- The cases that `encodeResource` and `decodeResource` tell apart by the record type. -/
inductive RecordType
  | a
  | ns
  | cname
  | soa
  | ptr
  | mx
  | txt
  | aaaa
  | srv
  | other
deriving DecidableEq, Repr

/-- The case of a record type. -/
def RecordType.of (type : UInt16) : RecordType :=
  if type = 1 then .a
  else if type = 28 then .aaaa
  else if type = 2 then .ns
  else if type = 5 then .cname
  else if type = 12 then .ptr
  else if type = 15 then .mx
  else if type = 6 then .soa
  else if type = 16 then .txt
  else if type = 33 then .srv
  else .other

namespace DnsMessage

/-- The separator of the labels of a name. -/
def dot : UInt8 := 0x2E

/-- The separator of a mail address. -/
def atSign : UInt8 := 0x40

/-! ## Encoding -/

/-- The tokens that `std::getline` cuts from a name at the dots, with what has been taken
for the next one. There is no token after a dot at the end. -/
def getlines (token : List UInt8) : List UInt8 → List (List UInt8)
  | [] => if token.isEmpty then [] else [token]
  | byte :: rest =>
      if byte = dot then token :: getlines [] rest else getlines (token ++ [byte]) rest

/-- A length byte and as many bytes: the length of a string is cut to 8 bits. -/
def writeCounted (string : List UInt8) (data : OutStream) : OutStream :=
  let len := UInt8.ofNat string.length
  (data.write [len]).write (string.take len.toNat)

/-- `DnsMessage::encodeName`. -/
def encodeName (name : List UInt8) (data : OutStream) : OutStream :=
  ((getlines [] name).foldl (fun data token => writeCounted token data) data).write [0]

/-- Replace the first occurrence of a byte. -/
def replaceFirst (old new : UInt8) : List UInt8 → List UInt8
  | [] => []
  | byte :: rest => if byte = old then new :: rest else byte :: replaceFirst old new rest

/-- `DnsMessage::encodeMail`. -/
def encodeMail (mail : List UInt8) (data : OutStream) : OutStream :=
  encodeName (replaceFirst atSign dot mail) data

/-- Write a number of 16 bits in network order. -/
def write16 (value : UInt16) (data : OutStream) : OutStream := data.write (beBytes 2 value.toNat)

/-- Write a number of 32 bits in network order. -/
def write32 (value : UInt32) (data : OutStream) : OutStream := data.write (beBytes 4 value.toNat)

/-- `DnsMessage::encodeQuestion`. -/
def encodeQuestion (question : QuestionRecord) (data : OutStream) : Option OutStream :=
  some (write16 question.dnsclass (write16 question.type (encodeName question.host data)))

/-- The branches of `DnsMessage::encodeResource` that write the data of a record. -/
def encodeData (beyond : ℕ → UInt8) (resource : ResourceRecord) (data : OutStream) : OutStream :=
  match RecordType.of resource.type with
  | .a => data.write (resource.addr.addrBytes beyond 4)
  | .aaaa => data.write (resource.addr.addrBytes beyond 16)
  | .ns => encodeName resource.name data
  | .cname => encodeName resource.name data
  | .ptr => encodeName resource.name data
  | .mx => encodeName resource.name (write16 resource.mxpref data)
  | .soa =>
      let data := encodeMail resource.mail (encodeName resource.name data)
      let data := write32 resource.serial data
      let data := write32 resource.refresh data
      let data := write32 resource.retry data
      let data := write32 resource.expire data
      write32 resource.minimum data
  | .txt => resource.txts.foldl (fun data txt => writeCounted txt data) data
  | .srv =>
      let data := write16 resource.priority data
      let data := write16 resource.weight data
      let data := write16 resource.port data
      encodeName resource.name data
  | .other => data

/-- `DnsMessage::encodeResource`. The length of the data is written as zero first, and
replaced once the data is written: it is cut to 16 bits. -/
def encodeResource (beyond : ℕ → UInt8) (resource : ResourceRecord) (data : OutStream) :
    Option OutStream :=
  let data := write16 resource.type (encodeName resource.host data)
  let data := write32 resource.ttl (write16 resource.dnsclass data)
  let dataLenPos := data.tellp
  let data := write16 0 data
  let dataBegPos := data.tellp
  let data := encodeData beyond resource data
  let dataEndPos := data.tellp
  let dataLen := UInt16.ofNat (dataEndPos - dataBegPos)
  some ((write16 dataLen (data.seekp dataLenPos)).seekp dataEndPos)

/-- `DnsMessage::serialize`. -/
def serialize (beyond : ℕ → UInt8) (packet : DnsPacket) (data : OutStream) : Option OutStream := do
  let data := write16 packet.flags (write16 packet.id data)
  let data := write16 (UInt16.ofNat packet.questions.length) data
  let data := write16 (UInt16.ofNat packet.answers.length) data
  let data := write16 (UInt16.ofNat packet.authorities.length) data
  let data := write16 (UInt16.ofNat packet.additionals.length) data
  let data ← packet.questions.foldlM (fun data question => encodeQuestion question data) data
  let data ← packet.answers.foldlM (fun data answer => encodeResource beyond answer data) data
  let data ← packet.authorities.foldlM
    (fun data authority => encodeResource beyond authority data) data
  packet.additionals.foldlM (fun data additional => encodeResource beyond additional data) data

/-! ## Decoding -/

/-- A name without the dot at its end. -/
def dropDot (name : List UInt8) : List UInt8 :=
  if name.getLast? = some dot then name.dropLast else name

/-- `DnsMessage::decodeName`: whether it succeeds, the name and the stream after it. A label
that the stream does not hold completely leaves zeros in the name. -/
def decodeName (depth : ℕ) (name : List UInt8) (data : InStream) :
    Bool × List UInt8 × InStream :=
  if depth > 10 then (false, name, data)
  else
    let head := data.read 1
    if head.2.failed then (false, name, head.2)
    else
      let first := head.1.headD 0
      if first &&& 0xC0 = 0xC0 then
        let tail := head.2.read 1
        if tail.2.failed then (false, name, tail.2)
        else
          let second := tail.1.headD 0
          let ptr := ((first &&& 0x3F).toNat <<< 8) ||| second.toNat
          let saved := tail.2.tellg
          let inner := decodeName (depth + 1) name (tail.2.seekg ptr)
          if inner.1 then (true, inner.2.1, inner.2.2.seekg saved) else inner
      else if first = 0 then (true, dropDot name, head.2)
      else
        let label := head.2.read first.toNat
        let name := name ++ overwrite (List.replicate first.toNat 0) label.1
        if short : label.2.failed then (false, name, label.2)
        else decodeName depth (name ++ [dot]) label.2
termination_by (11 - depth, data.bytes.length - data.pos)
decreasing_by
  · exact Prod.Lex.left _ _ (by omega)
  · exact Prod.Lex.right _ (InStream.remaining_counted (Bool.eq_false_of_not_eq_true short))

/-- `DnsMessage::decodeMail`: the mail address and the stream after it. -/
def decodeMail (data : InStream) : List UInt8 × InStream :=
  let decoded := decodeName 0 [] data
  if decoded.1 then (replaceFirst dot atSign decoded.2.1, decoded.2.2)
  else decoded.2

/-- Read a number of 16 bits over `old`, which is kept when the read fails. -/
def read16 (old : UInt16) (data : InStream) : UInt16 × InStream :=
  (UInt16.ofNat (data.readNet 2 old.toNat).1, (data.readNet 2 old.toNat).2)

/-- Read a number of 32 bits over zero. -/
def read32 (data : InStream) : UInt32 × InStream :=
  (UInt32.ofNat (data.readNet 4 0).1, (data.readNet 4 0).2)

/-- `DnsMessage::decodeQuestion`. -/
def decodeQuestion (data : InStream) : Option (QuestionRecord × InStream) :=
  let host := decodeName 0 [] data
  if host.1 then
    let type := read16 0 host.2.2
    let dnsclass := read16 0 type.2
    some ({ host := host.2.1, type := type.1, dnsclass := dnsclass.1 }, dnsclass.2)
  else none

/-- The strings of a `TXT` record whose data begins at `dataBegPos`. -/
def decodeTxts (dataBegPos dataLen : ℤ) (txts : List (List UInt8)) (data : InStream) :
    Option (List (List UInt8) × InStream) :=
  if data.tellg ≠ -1 ∧ data.tellg - dataBegPos < dataLen then
    let size := data.read 1
    if size.2.failed then none
    else
      let txt := size.2.read (size.1.headD 0).toNat
      if short : txt.2.failed then none
      else decodeTxts dataBegPos dataLen (txts ++ [txt.1]) txt.2
  else some (txts, data)
termination_by data.bytes.length - data.pos
decreasing_by exact InStream.remaining_counted (Bool.eq_false_of_not_eq_true short)

/-- An address read into a variable that was not initialised. -/
def decodeAddress (stack : ℕ → UInt8) (count : ℕ) (data : InStream) : Octets count × InStream :=
  (Octets.ofMemory count (overwrite (unknownBytes stack count) (data.read count).1),
    (data.read count).2)

/-- A name that makes the record fail when it cannot be read. -/
def decodeOwnName (data : InStream) : Option (List UInt8 × InStream) :=
  let name := decodeName 0 [] data
  if name.1 then some name.2 else none

/-- The branches of `DnsMessage::decodeResource` that read the data of a record. -/
def decodeData (stack : ℕ → UInt8) (dataLen : UInt16) (resource : ResourceRecord)
    (data : InStream) : Option (ResourceRecord × InStream) :=
  let dataBegPos := data.tellg
  match RecordType.of resource.type with
  | .a =>
      let addr := decodeAddress stack 4 data
      some ({ resource with addr := .ipv4 addr.1 }, addr.2)
  | .aaaa =>
      let addr := decodeAddress stack 16 data
      some ({ resource with addr := .ipv6 addr.1 0 }, addr.2)
  | .ns => do
      let name ← decodeOwnName data
      some ({ resource with name := name.1 }, name.2)
  | .cname => do
      let name ← decodeOwnName data
      some ({ resource with name := name.1 }, name.2)
  | .ptr => do
      let name ← decodeOwnName data
      some ({ resource with name := name.1 }, name.2)
  | .mx => do
      let mxpref := read16 0 data
      let name ← decodeOwnName mxpref.2
      some ({ resource with mxpref := mxpref.1, name := name.1 }, name.2)
  | .soa => do
      let name ← decodeOwnName data
      let mail := decodeMail name.2
      let serial := read32 mail.2
      let refresh := read32 serial.2
      let retry := read32 refresh.2
      let expire := read32 retry.2
      let minimum := read32 expire.2
      some ({ resource with
        name := name.1, mail := mail.1, serial := serial.1, refresh := refresh.1,
        retry := retry.1, expire := expire.1, minimum := minimum.1 }, minimum.2)
  | .txt => do
      let txts ← decodeTxts dataBegPos dataLen.toNat [] data
      some ({ resource with txts := txts.1 }, txts.2)
  | .srv => do
      let priority := read16 0 data
      let weight := read16 0 priority.2
      let port := read16 0 weight.2
      let name ← decodeOwnName port.2
      some ({ resource with
        priority := priority.1, weight := weight.1, port := port.1, name := name.1 }, name.2)
  | .other => some (resource, data.seekg (dataBegPos + dataLen.toNat))

/-- `DnsMessage::decodeResource`. -/
def decodeResource (stack : ℕ → UInt8) (data : InStream) : Option (ResourceRecord × InStream) :=
  let host := decodeName 0 [] data
  if host.1 then
    let type := read16 0 host.2.2
    let dnsclass := read16 0 type.2
    let ttl := read32 dnsclass.2
    let dataLen := read16 0 ttl.2
    decodeData stack dataLen.1
      { host := host.2.1, type := type.1, dnsclass := dnsclass.1, ttl := ttl.1 } dataLen.2
  else none

/-- The loops of `DnsMessage::deserialize` over the records of a section. -/
def decodeSection {Record : Type} (decode : InStream → Option (Record × InStream)) :
    ℕ → InStream → Option (List Record × InStream)
  | 0, data => some ([], data)
  | count + 1, data => do
      let (record, data) ← decode data
      let (records, data) ← decodeSection decode count data
      some (record :: records, data)

/-- `DnsMessage::deserialize` into a packet. -/
def deserialize (stack : ℕ → UInt8) (packet : DnsPacket) (data : InStream) :
    Option (DnsPacket × InStream) := do
  let id := read16 packet.id data
  let flags := read16 packet.flags id.2
  let qcount := read16 0 flags.2
  let ancount := read16 0 qcount.2
  let nscount := read16 0 ancount.2
  let arcount := read16 0 nscount.2
  let (questions, data) ← decodeSection decodeQuestion qcount.1.toNat arcount.2
  let (answers, data) ← decodeSection (decodeResource stack) ancount.1.toNat data
  let (authorities, data) ← decodeSection (decodeResource stack) nscount.1.toNat data
  let (additionals, data) ← decodeSection (decodeResource stack) arcount.1.toNat data
  some ({ id := id.1, flags := flags.1, questions, answers, authorities, additionals }, data)

end DnsMessage

end Join
