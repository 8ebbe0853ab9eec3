import Join.Fabric.DnsNames

/-!
# Packets as bytes

What `serialize` writes, as one byte string: the header, then the questions and the records
of the three sections in a row. A record is its fields, the length of its data and the data,
although the code writes the length last.

The codec carries a record by its type. `carried` is what a record is on the wire: the fields
that its type has there, and the address of an `AAAA` record without its scope identifier.
`Encodable` says of which packets the bytes give back what is carried.
-/

set_option autoImplicit false

namespace Join

open Library

/-! ## What the wire carries -/

/-- The record with the fields that its type has on the wire. -/
def ResourceRecord.carried (resource : ResourceRecord) : ResourceRecord :=
  let bare : ResourceRecord :=
    { toQuestionRecord := resource.toQuestionRecord, ttl := resource.ttl }
  match RecordType.of resource.type with
  | .a => { bare with addr := resource.addr.unscoped }
  | .aaaa => { bare with addr := resource.addr.unscoped }
  | .ns => { bare with name := resource.name }
  | .cname => { bare with name := resource.name }
  | .ptr => { bare with name := resource.name }
  | .mx => { bare with mxpref := resource.mxpref, name := resource.name }
  | .soa =>
      { bare with
        name := resource.name, mail := resource.mail, serial := resource.serial,
        refresh := resource.refresh, retry := resource.retry, expire := resource.expire,
        minimum := resource.minimum }
  | .txt => { bare with txts := resource.txts }
  | .srv =>
      { bare with
        priority := resource.priority, weight := resource.weight, port := resource.port,
        name := resource.name }
  | .other => bare

/-- The packet with the fields that its records have on the wire. -/
def DnsPacket.carried (packet : DnsPacket) : DnsPacket :=
  { packet with
    answers := packet.answers.map ResourceRecord.carried
    authorities := packet.authorities.map ResourceRecord.carried
    additionals := packet.additionals.map ResourceRecord.carried }

open DnsMessage (Named MailNamed)

/-- The data of a record can be written so that it is read back, with labels up to `limit`. -/
def ResourceRecord.DataEncodable (limit : ℕ) (resource : ResourceRecord) : Prop :=
  match RecordType.of resource.type with
  | .a => resource.addr.isIpv4 = true
  | .aaaa => resource.addr.isIpv4 = false
  | .ns => Named limit resource.name
  | .cname => Named limit resource.name
  | .ptr => Named limit resource.name
  | .mx => Named limit resource.name
  | .soa => Named limit resource.name ∧ MailNamed limit resource.mail
  | .txt => (∀ txt ∈ resource.txts, txt.length ≤ 255) ∧
      (resource.txts.map (·.length + 1)).sum < 65536
  | .srv => Named limit resource.name
  | .other => True

/-- A record that can be written so that it is read back, with labels up to `limit`. -/
def ResourceRecord.Encodable (limit : ℕ) (resource : ResourceRecord) : Prop :=
  Named limit resource.host ∧ resource.DataEncodable limit

/-- A section of a packet: fewer than 65536 records, all of them proper. -/
def SectionOf {Record : Type} (proper : Record → Prop) (records : List Record) : Prop :=
  records.length < 65536 ∧ ∀ record ∈ records, proper record

/-- A packet that can be written so that it is read back, with labels up to `limit`. -/
structure DnsPacket.Encodable (limit : ℕ) (packet : DnsPacket) : Prop where
  questions : SectionOf (fun question => Named limit question.host) packet.questions
  answers : SectionOf (ResourceRecord.Encodable limit) packet.answers
  authorities : SectionOf (ResourceRecord.Encodable limit) packet.authorities
  additionals : SectionOf (ResourceRecord.Encodable limit) packet.additionals

theorem ResourceRecord.Encodable.mono {limit larger : ℕ} {resource : ResourceRecord}
    (encodable : resource.Encodable limit) (le : limit ≤ larger) : resource.Encodable larger := by
  obtain ⟨host, data⟩ := encodable
  refine ⟨host.mono le, ?_⟩
  unfold DataEncodable at data ⊢
  split at data
  · exact data
  · exact data
  · exact data.mono le
  · exact data.mono le
  · exact data.mono le
  · exact data.mono le
  · exact ⟨data.1.mono le, data.2.mono le⟩
  · exact data
  · exact data.mono le
  · exact data

theorem SectionOf.imp {Record : Type} {proper wider : Record → Prop} {records : List Record}
    (holds : SectionOf proper records) (weaker : ∀ record, proper record → wider record) :
    SectionOf wider records :=
  ⟨holds.1, fun record member => weaker record (holds.2 record member)⟩

theorem DnsPacket.Encodable.mono {limit larger : ℕ} {packet : DnsPacket}
    (encodable : packet.Encodable limit) (le : limit ≤ larger) : packet.Encodable larger where
  questions := encodable.questions.imp fun _ named => named.mono le
  answers := encodable.answers.imp fun _ proper => proper.mono le
  authorities := encodable.authorities.imp fun _ proper => proper.mono le
  additionals := encodable.additionals.imp fun _ proper => proper.mono le

namespace DnsMessage

/-! ## Numbers -/

/-- A number of 16 bits in network order. -/
def bytes16 (value : UInt16) : List UInt8 := beBytes 2 value.toNat

/-- A number of 32 bits in network order. -/
def bytes32 (value : UInt32) : List UInt8 := beBytes 4 value.toNat

@[simp] theorem length_bytes16 (value : UInt16) : (bytes16 value).length = 2 := length_beBytes 2 _

@[simp] theorem length_bytes32 (value : UInt32) : (bytes32 value).length = 4 := length_beBytes 4 _

variable {before rest bytes : List UInt8}

@[simp] theorem write16_ending (value : UInt16) :
    write16 value (.ending bytes) = .ending (bytes ++ bytes16 value) := OutStream.write_ending

@[simp] theorem write32_ending (value : UInt32) :
    write32 value (.ending bytes) = .ending (bytes ++ bytes32 value) := OutStream.write_ending

@[simp] theorem read16_between (old value : UInt16) :
    read16 old (.between before (bytes16 value ++ rest)) =
      (value, .between (before ++ bytes16 value) rest) := by
  have small : value.toNat % 256 ^ 2 = value.toNat := Nat.mod_eq_of_lt value.toNat_lt
  rw [read16, bytes16, InStream.readNet_between, small, UInt16.ofNat_toNat]

@[simp] theorem read32_between (value : UInt32) :
    read32 (.between before (bytes32 value ++ rest)) =
      (value, .between (before ++ bytes32 value) rest) := by
  have small : value.toNat % 256 ^ 4 = value.toNat := Nat.mod_eq_of_lt value.toNat_lt
  rw [read32, bytes32, InStream.readNet_between, small, UInt32.ofNat_toNat]

/-! ## Records -/

/-- A question as it is written. -/
def questionBytes (question : QuestionRecord) : List UInt8 :=
  nameBytes question.host ++ (bytes16 question.type ++ bytes16 question.dnsclass)

/-- The data of a record as it is written. -/
def dataBytes (beyond : ℕ → UInt8) (resource : ResourceRecord) : List UInt8 :=
  match RecordType.of resource.type with
  | .a => resource.addr.addrBytes beyond 4
  | .aaaa => resource.addr.addrBytes beyond 16
  | .ns => nameBytes resource.name
  | .cname => nameBytes resource.name
  | .ptr => nameBytes resource.name
  | .mx => bytes16 resource.mxpref ++ nameBytes resource.name
  | .soa =>
      nameBytes resource.name ++ (nameBytes (replaceFirst atSign dot resource.mail) ++
        (bytes32 resource.serial ++ (bytes32 resource.refresh ++ (bytes32 resource.retry ++
          (bytes32 resource.expire ++ bytes32 resource.minimum)))))
  | .txt => resource.txts.flatMap counted
  | .srv =>
      bytes16 resource.priority ++ (bytes16 resource.weight ++ (bytes16 resource.port ++
        nameBytes resource.name))
  | .other => []

/-- The fields of a record between its name and its data. -/
def fieldBytes (beyond : ℕ → UInt8) (resource : ResourceRecord) : List UInt8 :=
  bytes16 resource.type ++ (bytes16 resource.dnsclass ++ (bytes32 resource.ttl ++
    bytes16 (UInt16.ofNat (dataBytes beyond resource).length)))

/-- A record as it is written. -/
def resourceBytes (beyond : ℕ → UInt8) (resource : ResourceRecord) : List UInt8 :=
  nameBytes resource.host ++ (fieldBytes beyond resource ++ dataBytes beyond resource)

/-- The header of a packet as it is written. -/
def headerBytes (packet : DnsPacket) : List UInt8 :=
  bytes16 packet.id ++ (bytes16 packet.flags ++
    (bytes16 (UInt16.ofNat packet.questions.length) ++
      (bytes16 (UInt16.ofNat packet.answers.length) ++
        (bytes16 (UInt16.ofNat packet.authorities.length) ++
          bytes16 (UInt16.ofNat packet.additionals.length)))))

/-- The sections of a packet as they are written. -/
def sectionBytes (beyond : ℕ → UInt8) (packet : DnsPacket) : List UInt8 :=
  packet.questions.flatMap questionBytes ++
    (packet.answers.flatMap (resourceBytes beyond) ++
      (packet.authorities.flatMap (resourceBytes beyond) ++
        packet.additionals.flatMap (resourceBytes beyond)))

/-- A packet as it is written. -/
def packetBytes (beyond : ℕ → UInt8) (packet : DnsPacket) : List UInt8 :=
  headerBytes packet ++ sectionBytes beyond packet

variable {beyond : ℕ → UInt8}

@[simp] theorem length_headerBytes (packet : DnsPacket) : (headerBytes packet).length = 12 := by
  simp [headerBytes]

@[simp] theorem length_fieldBytes (resource : ResourceRecord) :
    (fieldBytes beyond resource).length = 10 := by
  simp [fieldBytes]

/-! ## Writing -/

theorem encodeQuestion_ending (question : QuestionRecord) :
    encodeQuestion question (.ending bytes) = some (.ending (bytes ++ questionBytes question)) := by
  simp [encodeQuestion, questionBytes, List.append_assoc]

theorem encodeData_ending (resource : ResourceRecord) :
    encodeData beyond resource (.ending bytes) =
      .ending (bytes ++ dataBytes beyond resource) := by
  unfold encodeData dataBytes
  cases RecordType.of resource.type <;>
    simp [encodeMail, foldl_writeCounted, List.append_assoc]

theorem encodeResource_ending (resource : ResourceRecord) :
    encodeResource beyond resource (.ending bytes) =
      some (.ending (bytes ++ resourceBytes beyond resource)) := by
  unfold encodeResource
  simp only [encodeName_ending, write16_ending, write32_ending, encodeData_ending,
    OutStream.tellp_ending]
  rw [List.length_append, Nat.add_sub_cancel_left, ← List.length_append, show ∀ (value : UInt16) (stream : OutStream), write16 value stream =
    stream.write (bytes16 value) from fun _ _ => rfl, OutStream.seekp_write_seekp (by simp)]
  simp [resourceBytes, fieldBytes, List.append_assoc]

/-- Writing records in a row appends their bytes. -/
theorem foldlM_ending {Record : Type} {encode : OutStream → Record → Option OutStream}
    {written : Record → List UInt8}
    (appends : ∀ record bytes, encode (.ending bytes) record = some (.ending (bytes ++ written record)))
    (records : List Record) :
    records.foldlM encode (.ending bytes) = some (.ending (bytes ++ records.flatMap written)) := by
  induction records generalizing bytes with
  | nil => simp
  | cons record records ih =>
      rw [List.foldlM_cons, appends]
      simp [ih, List.append_assoc]

/-- `serialize` never fails, and writes the bytes of the packet. -/
theorem serialize_empty (packet : DnsPacket) :
    serialize beyond packet .empty = some (.ending (packetBytes beyond packet)) := by
  unfold serialize
  rw [OutStream.empty_eq]
  simp only [write16_ending, List.nil_append]
  rw [foldlM_ending fun record bytes => encodeQuestion_ending record]
  simp only [Option.bind_eq_bind, Option.bind_some]
  rw [foldlM_ending fun record bytes => encodeResource_ending record]
  simp only [Option.bind_some]
  rw [foldlM_ending fun record bytes => encodeResource_ending record]
  simp only [Option.bind_some]
  rw [foldlM_ending fun record bytes => encodeResource_ending record]
  simp [packetBytes, headerBytes, sectionBytes, List.append_assoc]

end DnsMessage

end Join
