import Join.Fabric.DnsWire

/-!
# Writing a packet and reading it again

`deserialize` gives back what `serialize` wrote exactly for the encodable packets. Each
part of the codec is shown to be faithful in both directions: what is proper comes back,
with the stream standing behind it, and what comes back is proper. Sections and packets
then follow by going along the stream, because a record that came back leaves the stream
where the next one begins.
-/

set_option autoImplicit false

namespace Join.DnsMessage

open Library

variable {before rest : List UInt8} {beyond stack : ℕ → UInt8}

/-! ## Sections -/

/-- A decoder gives back what it sees of the proper records, and of no others. -/
structure Codec {Record : Type} (encode : Record → List UInt8)
    (decode : InStream → Option (Record × InStream)) (proper : Record → Prop)
    (seen : Record → Record) : Prop where
  back : ∀ record before rest, proper record →
    decode (.between before (encode record ++ rest)) =
      some (seen record, .between (before ++ encode record) rest)
  only : ∀ record before rest after,
    decode (.between before (encode record ++ rest)) = some (seen record, after) → proper record

namespace Codec

variable {Record : Type} {encode : Record → List UInt8}
  {decode : InStream → Option (Record × InStream)} {proper : Record → Prop} {seen : Record → Record}

/-- Proper records in a row come back. -/
theorem section_back (codec : Codec encode decode proper seen) {records : List Record}
    (all : ∀ record ∈ records, proper record) :
    decodeSection decode records.length (.between before (records.flatMap encode ++ rest)) =
      some (records.map seen, .between (before ++ records.flatMap encode) rest) := by
  induction records generalizing before with
  | nil => simp [decodeSection]
  | cons record records ih =>
      have first := codec.back record before (records.flatMap encode ++ rest)
        (all record List.mem_cons_self)
      have later := fun other member => all other (List.mem_cons_of_mem _ member)
      rw [List.length_cons, decodeSection, List.flatMap_cons, List.append_assoc, first]
      simp [ih later, List.append_assoc]

theorem section_back_end (codec : Codec encode decode proper seen) {records : List Record}
    (all : ∀ record ∈ records, proper record) :
    decodeSection decode records.length (.between before (records.flatMap encode)) =
      some (records.map seen, .between (before ++ records.flatMap encode) []) := by
  have whole : decodeSection decode records.length
      (.between before (records.flatMap encode ++ [])) =
        some (records.map seen, .between (before ++ records.flatMap encode) []) :=
    codec.section_back all
  rwa [List.append_nil] at whole

/-- Records that come back are as many as were asked for, and proper. -/
theorem section_only (codec : Codec encode decode proper seen) {records : List Record} {count : ℕ}
    {after : InStream}
    (back : decodeSection decode count (.between before (records.flatMap encode ++ rest)) =
      some (records.map seen, after)) :
    count = records.length ∧ (∀ record ∈ records, proper record) ∧
      after = .between (before ++ records.flatMap encode) rest := by
  induction count generalizing before records with
  | zero =>
      rw [decodeSection, Option.some.injEq, Prod.mk.injEq] at back
      have none : records = [] := List.map_eq_nil_iff.mp back.1.symm
      subst none
      refine ⟨rfl, fun _ member => absurd member List.not_mem_nil, ?_⟩
      simpa using back.2.symm
  | succ count ih =>
      rw [decodeSection] at back
      simp only [Option.bind_eq_bind, Option.bind_eq_some_iff] at back
      obtain ⟨⟨found, middle⟩, head, ⟨others, last⟩, tail, same⟩ := back
      cases records with
      | nil => simp at same
      | cons record records =>
          rw [List.map_cons, Option.some.injEq, Prod.mk.injEq, List.cons.injEq] at same
          obtain ⟨⟨rfl, rfl⟩, rfl⟩ := same
          rw [List.flatMap_cons, List.append_assoc] at head
          have first := codec.only _ _ _ _ head
          rw [codec.back _ _ _ first, Option.some.injEq, Prod.mk.injEq] at head
          obtain ⟨-, rfl⟩ := head
          obtain ⟨counts, all, stands⟩ := ih tail
          refine ⟨by rw [counts, List.length_cons], ?_, ?_⟩
          · intro other member
            rcases List.mem_cons.mp member with rfl | later
            · exact first
            · exact all other later
          · rw [stands, List.flatMap_cons, List.append_assoc]

/-- A section that comes back, with its length cut to 16 bits, is a proper one, and the stream
stands behind it. -/
theorem sectionOf_of_decode (codec : Codec encode decode proper seen) {records : List Record}
    {after : InStream}
    (back : decodeSection decode (UInt16.ofNat records.length).toNat
      (.between before (records.flatMap encode ++ rest)) = some (records.map seen, after)) :
    SectionOf proper records ∧ after = .between (before ++ records.flatMap encode) rest := by
  obtain ⟨counts, all, stands⟩ := codec.section_only back
  rw [UInt16.toNat_ofNat'] at counts
  exact ⟨⟨by omega, all⟩, stands⟩

end Codec

/-! ## Questions -/

theorem questionCodec : Codec questionBytes decodeQuestion
    (fun question => Named 191 question.host) id where
  back question before rest named := by
    rw [decodeQuestion, questionBytes, List.append_assoc, decodeName_named named]
    simp [List.append_assoc]
  only question before rest after back := by
    rw [decodeQuestion, questionBytes, List.append_assoc] at back
    generalize outcome : decodeName 0 [] (.between before (nameBytes question.host ++
      (bytes16 question.type ++ bytes16 question.dnsclass ++ rest))) = host at back
    obtain ⟨success, name, later⟩ := host
    cases success with
    | false => simp at back
    | true =>
        simp only [if_true, Option.some.injEq, Prod.mk.injEq] at back
        have same : name = question.host := congrArg QuestionRecord.host back.1
        rw [same] at outcome
        exact named_of_decodeName outcome

/-! ## The data of records -/

/-- A name in the data of a record comes back exactly when it is made of proper labels. -/
theorem decodeOwnName_named {name : List UInt8} (named : Named 191 name) :
    decodeOwnName (.between before (nameBytes name ++ rest)) =
      some (name, .between (before ++ nameBytes name) rest) := by
  rw [decodeOwnName, decodeName_named named]
  rfl

theorem named_of_decodeOwnName {name : List UInt8} {after : InStream}
    (back : decodeOwnName (.between before (nameBytes name ++ rest)) = some (name, after)) :
    Named 191 name := by
  rw [decodeOwnName] at back
  generalize outcome : decodeName 0 [] (.between before (nameBytes name ++ rest)) = found at back
  obtain ⟨success, text, later⟩ := found
  cases success with
  | false => simp at back
  | true =>
      simp only [if_true, Option.some.injEq, Prod.mk.injEq] at back
      rw [back.1] at outcome
      exact named_of_decodeName outcome

/-- A record whose name is read from its data comes back with a proper name only. -/
theorem named_of_bind {next : List UInt8 × InStream → Option (ResourceRecord × InStream)}
    {resource : ResourceRecord} {name : List UInt8} {after : InStream}
    (back : (decodeOwnName (.between before (nameBytes name ++ rest)) >>= next) =
      some (resource, after))
    (keeps : ∀ found result, next found = some result → result.1.name = found.1)
    (same : resource.name = name) : Named 191 name := by
  rw [Option.bind_eq_bind, Option.bind_eq_some_iff] at back
  obtain ⟨⟨found, later⟩, read, made⟩ := back
  have whole : found = name := (keeps _ _ made).symm.trans same
  rw [whole] at read
  exact named_of_decodeOwnName read

@[simp] theorem decodeAddress_between {count : ℕ} (octets : Octets count) :
    decodeAddress stack count (.between before (octets.bytes ++ rest)) =
      (octets, .between (before ++ octets.bytes) rest) := by
  have got : (InStream.between before (octets.bytes ++ rest)).read count =
      (octets.bytes, .between (before ++ octets.bytes) rest) :=
    InStream.read_between_of_length octets.length_eq
  rw [decodeAddress, got,
    overwrite_of_length_le (by rw [length_unknownBytes, octets.length_eq]), Octets.ofMemory_bytes]

/-! ### Texts -/

theorem length_counted {txt : List UInt8} (few : txt.length ≤ 255) :
    (counted txt).length = txt.length + 1 := by
  rw [counted_of_short (by omega), List.length_cons]

theorem length_flatMap_counted {txts : List (List UInt8)} (few : ∀ txt ∈ txts, txt.length ≤ 255) :
    (txts.flatMap counted).length = (txts.map (·.length + 1)).sum := by
  rw [List.length_flatMap]
  congr 1
  exact List.map_congr_left fun txt member => length_counted (few txt member)

/-- Counted strings are read until the length of the data is reached. -/
theorem decodeTxts_back {txts : List (List UInt8)} (few : ∀ txt ∈ txts, txt.length ≤ 255)
    (found : List (List UInt8)) {dataBegPos dataLen : ℤ}
    (reaches : (before.length : ℤ) + (txts.flatMap counted).length = dataBegPos + dataLen) :
    decodeTxts dataBegPos dataLen found (.between before (txts.flatMap counted ++ rest)) =
      some (found ++ txts, .between (before ++ txts.flatMap counted) rest) := by
  induction txts generalizing before found with
  | nil =>
      rw [List.flatMap_nil, List.length_nil] at reaches
      rw [decodeTxts, if_neg (by rw [InStream.tellg_between]; omega)]
      simp
  | cons txt txts ih =>
      have short := few txt List.mem_cons_self
      have size : (UInt8.ofNat txt.length).toNat = txt.length := by
        rw [UInt8.toNat_ofNat', Nat.mod_eq_of_lt (by omega)]
      rw [List.flatMap_cons, List.length_append, length_counted short] at reaches
      rw [decodeTxts, if_pos (by rw [InStream.tellg_between]; omega), List.flatMap_cons,
        counted_of_short (by omega), List.append_assoc, List.cons_append]
      simp only [InStream.read_one, InStream.between_failed, Bool.false_eq_true, if_false,
        List.headD_cons, size, InStream.read_between, dite_false]
      rw [ih (fun other member => few other (List.mem_cons_of_mem _ member)) _ (by
        simp only [List.length_append, List.length_singleton]
        omega)]
      simp [List.append_assoc]

/-- Strings that were read are short, and together they go beyond the length of the data by
less than one string. -/
theorem decodeTxts_only {dataBegPos dataLen : ℤ} {found result : List (List UInt8)}
    {data after : InStream} (read : decodeTxts dataBegPos dataLen found data = some (result, after)) :
    ∃ more, result = found ++ more ∧ (∀ txt ∈ more, txt.length ≤ 255) ∧
      (more = [] ∨ data.pos + ((more.map (·.length + 1)).sum : ℕ) <
        dataBegPos + dataLen + 256) := by
  revert read
  fun_induction decodeTxts dataBegPos dataLen found data with
  | case1 found data inside size ended => exact fun read => absurd read (by simp)
  | case2 found data inside size present txt short => exact fun read => absurd read (by simp)
  | case3 found data inside size present txt short ih =>
      intro read
      obtain ⟨more, rfl, few, bound⟩ := ih read
      have started : data.failed = false :=
        InStream.failed_of_read (Bool.eq_false_of_not_eq_true present)
      have moved := (InStream.read_pos (Bool.eq_false_of_not_eq_true present)).1
      have passed := (InStream.read_pos (Bool.eq_false_of_not_eq_true short)).1
      have length := InStream.read_length (Bool.eq_false_of_not_eq_true short)
      have byte := (size.1.headD 0).toNat_lt
      rw [InStream.tellg, started, if_neg Bool.false_ne_true] at inside
      refine ⟨txt.1 :: more, by rw [List.append_assoc, List.singleton_append], ?_, .inr ?_⟩
      · intro other member
        rcases List.mem_cons.mp member with rfl | later
        · rw [length]
          omega
        · exact few other later
      · rw [List.map_cons, List.sum_cons, length]
        rcases bound with rfl | bound
        · simp only [List.map_nil, List.sum_nil, Nat.cast_add, Nat.cast_one, Nat.cast_zero]
          omega
        · rw [passed, moved] at bound
          push_cast at bound ⊢
          omega
  | case4 found data done =>
      intro read
      rw [Option.some.injEq, Prod.mk.injEq] at read
      exact ⟨[], by rw [List.append_nil]; exact read.1.symm, by simp, .inl rfl⟩

/-! ### The data of a record by its type -/

/-- The fields of a record that are read before its data. -/
def bare (resource : ResourceRecord) : ResourceRecord :=
  { toQuestionRecord := resource.toQuestionRecord, ttl := resource.ttl }

/-- Encodable data comes back. -/
theorem decodeData_back {resource : ResourceRecord} (encodable : resource.DataEncodable 191) :
    decodeData stack (UInt16.ofNat (dataBytes beyond resource).length) (bare resource)
      (.between before (dataBytes beyond resource ++ rest)) =
      some (resource.carried, .between (before ++ dataBytes beyond resource) rest) := by
  unfold ResourceRecord.DataEncodable at encodable
  unfold decodeData dataBytes ResourceRecord.carried
  rw [show RecordType.of (bare resource).type = RecordType.of resource.type from rfl]
  cases type : RecordType.of resource.type with
  | a =>
      rw [type] at encodable
      cases address : resource.addr with
      | ipv4 octets =>
          simp only [IpAddress.addrBytes_ipv4, decodeAddress_between, IpAddress.unscoped]
          rfl
      | ipv6 octets scope =>
          rw [address] at encodable
          exact absurd encodable Bool.false_ne_true
  | aaaa =>
      rw [type] at encodable
      cases address : resource.addr with
      | ipv4 octets =>
          rw [address] at encodable
          exact absurd encodable Bool.false_ne_true.symm
      | ipv6 octets scope =>
          simp only [IpAddress.addrBytes_ipv6, decodeAddress_between, IpAddress.unscoped]
          rfl
  | ns =>
      rw [type] at encodable
      simp [decodeOwnName_named encodable, bare]
  | cname =>
      rw [type] at encodable
      simp [decodeOwnName_named encodable, bare]
  | ptr =>
      rw [type] at encodable
      simp [decodeOwnName_named encodable, bare]
  | mx =>
      rw [type] at encodable
      simp [decodeOwnName_named encodable, bare, List.append_assoc]
  | soa =>
      rw [type] at encodable
      simp [decodeOwnName_named encodable.1, decodeMail_named encodable.2, bare, List.append_assoc]
  | txt =>
      rw [type] at encodable
      obtain ⟨few, small⟩ := encodable
      have size : (UInt16.ofNat (resource.txts.flatMap counted).length).toNat =
          (resource.txts.flatMap counted).length := by
        rw [length_flatMap_counted few, UInt16.toNat_ofNat', Nat.mod_eq_of_lt small]
      have read : decodeTxts (InStream.between before (resource.txts.flatMap counted ++ rest)).tellg
          (resource.txts.flatMap counted).length []
          (.between before (resource.txts.flatMap counted ++ rest)) =
            some ([] ++ resource.txts, .between (before ++ resource.txts.flatMap counted) rest) :=
        decodeTxts_back few [] rfl
      simp only [size, read]
      rfl
  | srv =>
      rw [type] at encodable
      simp [decodeOwnName_named encodable, bare, List.append_assoc]
  | other => simp [bare]

/-- Data that comes back is encodable. -/
theorem decodeData_only {resource : ResourceRecord} {after : InStream}
    (back : decodeData stack (UInt16.ofNat (dataBytes beyond resource).length) (bare resource)
      (.between before (dataBytes beyond resource ++ rest)) = some (resource.carried, after)) :
    resource.DataEncodable 191 := by
  unfold decodeData dataBytes ResourceRecord.carried at back
  unfold ResourceRecord.DataEncodable
  rw [show RecordType.of (bare resource).type = RecordType.of resource.type from rfl] at back
  cases type : RecordType.of resource.type with
  | a =>
      simp only [type, Option.some.injEq, Prod.mk.injEq] at back
      have same := congrArg ResourceRecord.addr back.1
      cases address : resource.addr with
      | ipv4 octets => rfl
      | ipv6 octets scope =>
          rw [address] at same
          exact absurd same (by simp [IpAddress.unscoped])
  | aaaa =>
      simp only [type, Option.some.injEq, Prod.mk.injEq] at back
      have same := congrArg ResourceRecord.addr back.1
      cases address : resource.addr with
      | ipv4 octets =>
          rw [address] at same
          exact absurd same (by simp [IpAddress.unscoped])
      | ipv6 octets scope => rfl
  | ns =>
      simp only [type] at back
      exact named_of_bind back (by rintro found _ ⟨⟩; rfl) rfl
  | cname =>
      simp only [type] at back
      exact named_of_bind back (by rintro found _ ⟨⟩; rfl) rfl
  | ptr =>
      simp only [type] at back
      exact named_of_bind back (by rintro found _ ⟨⟩; rfl) rfl
  | mx =>
      simp only [type, List.append_assoc, read16_between] at back
      exact named_of_bind back (by rintro found _ ⟨⟩; rfl) rfl
  | soa =>
      simp only [type, List.append_assoc, Option.bind_eq_bind, Option.bind_eq_some_iff,
        Option.some.injEq, Prod.mk.injEq] at back
      obtain ⟨⟨name, later⟩, read, same, -⟩ := back
      have whole : name = resource.name := congrArg ResourceRecord.name same
      rw [whole] at read
      have named := named_of_decodeOwnName read
      rw [decodeOwnName_named named, Option.some.injEq, Prod.mk.injEq] at read
      obtain ⟨-, rfl⟩ := read
      exact ⟨named, mailNamed_of_decodeMail (congrArg ResourceRecord.mail same)⟩
  | txt =>
      simp only [type, Option.bind_eq_bind, Option.bind_eq_some_iff, Option.some.injEq,
        Prod.mk.injEq] at back
      obtain ⟨⟨txts, later⟩, read, same, -⟩ := back
      have whole : txts = resource.txts := congrArg ResourceRecord.txts same
      rw [whole] at read
      obtain ⟨more, all, few, bound⟩ := decodeTxts_only read
      rw [List.nil_append] at all
      subst all
      refine ⟨few, ?_⟩
      rcases bound with none | bound
      · rw [none]
        decide
      · rw [length_flatMap_counted few, UInt16.toNat_ofNat', InStream.tellg_between,
          InStream.between_pos] at bound
        omega
  | srv =>
      simp only [type, List.append_assoc, read16_between] at back
      exact named_of_bind back (by rintro found _ ⟨⟩; rfl) rfl
  | other => trivial

/-- Reading the data of a record does not change the name it belongs to. -/
theorem host_decodeData {dataLen : UInt16} {resource result : ResourceRecord}
    {data after : InStream} (read : decodeData stack dataLen resource data = some (result, after)) :
    result.host = resource.host := by
  unfold decodeData at read
  cases type : RecordType.of resource.type <;>
    simp only [type, Option.bind_eq_bind, Option.bind_eq_some_iff, Option.some.injEq,
      Prod.mk.injEq] at read
  case a => rw [← read.1]
  case aaaa => rw [← read.1]
  case other => rw [← read.1]
  all_goals
    obtain ⟨found, -, same, -⟩ := read
    rw [← same]

theorem host_carried (resource : ResourceRecord) : resource.carried.host = resource.host := by
  unfold ResourceRecord.carried
  cases RecordType.of resource.type <;> rfl

/-! ## Records and packets -/

/-- Behind the name of a record, its fields are read and then its data. -/
theorem decodeResource_of_host {resource : ResourceRecord}
    (named : Named 191 resource.host) :
    decodeResource stack (.between before (resourceBytes beyond resource ++ rest)) =
      decodeData stack (UInt16.ofNat (dataBytes beyond resource).length) (bare resource)
        (.between (before ++ (nameBytes resource.host ++ fieldBytes beyond resource))
          (dataBytes beyond resource ++ rest)) := by
  rw [decodeResource, resourceBytes, List.append_assoc, decodeName_named named]
  simp only [fieldBytes, List.append_assoc, if_true, read16_between, read32_between]
  rfl

/-- A record that comes back belongs to a proper name. -/
theorem named_of_decodeResource {resource result : ResourceRecord} {after : InStream}
    (back : decodeResource stack (.between before (resourceBytes beyond resource ++ rest)) =
      some (result, after)) (same : result.host = resource.host) : Named 191 resource.host := by
  rw [decodeResource, resourceBytes, List.append_assoc] at back
  generalize outcome : decodeName 0 [] (.between before (nameBytes resource.host ++
    (fieldBytes beyond resource ++ dataBytes beyond resource ++ rest))) = host at back
  obtain ⟨success, name, later⟩ := host
  cases success with
  | false => simp at back
  | true =>
      have whole : name = resource.host := (host_decodeData back).symm.trans same
      rw [whole] at outcome
      exact named_of_decodeName outcome

theorem resourceCodec : Codec (resourceBytes beyond) (decodeResource stack)
    (ResourceRecord.Encodable 191) ResourceRecord.carried where
  back resource before rest encodable := by
    rw [decodeResource_of_host encodable.1, decodeData_back encodable.2, resourceBytes]
    simp only [List.append_assoc]
  only resource before rest after back := by
    have named := named_of_decodeResource back (host_carried resource)
    rw [decodeResource_of_host named] at back
    exact ⟨named, decodeData_only back⟩

/-- Behind its header, the sections of a packet are read. -/
theorem deserialize_header (fresh packet : DnsPacket) (sections : List UInt8) :
    deserialize stack fresh (.ofBytes (headerBytes packet ++ sections)) = (do
      let (questions, data) ← decodeSection decodeQuestion
        (UInt16.ofNat packet.questions.length).toNat (.between (headerBytes packet) sections)
      let (answers, data) ← decodeSection (decodeResource stack)
        (UInt16.ofNat packet.answers.length).toNat data
      let (authorities, data) ← decodeSection (decodeResource stack)
        (UInt16.ofNat packet.authorities.length).toNat data
      let (additionals, data) ← decodeSection (decodeResource stack)
        (UInt16.ofNat packet.additionals.length).toNat data
      some ({ id := packet.id, flags := packet.flags, questions, answers, authorities,
              additionals }, data)) := by
  unfold deserialize
  rw [InStream.ofBytes_eq]
  simp only [headerBytes, List.append_assoc, read16_between, List.nil_append]

/-- An encodable packet comes back as it is carried. -/
theorem deserialize_back {packet : DnsPacket} (encodable : packet.Encodable 191)
    (fresh : DnsPacket) :
    deserialize stack fresh (.ofBytes (packetBytes beyond packet)) =
      some (packet.carried, .between (packetBytes beyond packet) []) := by
  have whole {Record : Type} {proper : Record → Prop} {records : List Record}
      (fits : SectionOf proper records) :
      (UInt16.ofNat records.length).toNat = records.length := by
    rw [UInt16.toNat_ofNat', Nat.mod_eq_of_lt fits.1]
  rw [packetBytes, deserialize_header, sectionBytes, whole encodable.questions,
    whole encodable.answers, whole encodable.authorities, whole encodable.additionals,
    questionCodec.section_back encodable.questions.2]
  simp only [Option.bind_eq_bind, Option.bind_some]
  rw [resourceCodec.section_back encodable.answers.2]
  simp only [Option.bind_some]
  rw [resourceCodec.section_back encodable.authorities.2]
  simp only [Option.bind_some]
  rw [resourceCodec.section_back_end encodable.additionals.2]
  simp [DnsPacket.carried, List.append_assoc]

/-- A packet that comes back as it is carried is encodable. -/
theorem deserialize_only {fresh packet : DnsPacket} {after : InStream}
    (back : deserialize stack fresh (.ofBytes (packetBytes beyond packet)) =
      some (packet.carried, after)) : packet.Encodable 191 := by
  rw [packetBytes, deserialize_header, sectionBytes] at back
  simp only [Option.bind_eq_bind, Option.bind_eq_some_iff] at back
  obtain ⟨⟨questions, _⟩, asked, ⟨answers, _⟩, answered, ⟨authorities, _⟩, named, ⟨additionals, _⟩,
    added, same⟩ := back
  simp only [DnsPacket.carried, Option.some.injEq, Prod.mk.injEq, DnsPacket.mk.injEq, true_and]
    at same
  obtain ⟨⟨rfl, rfl, rfl, rfl⟩, -⟩ := same
  conv at asked =>
    rhs
    rw [← List.map_id packet.questions]
  obtain ⟨first, rfl⟩ := questionCodec.sectionOf_of_decode asked
  obtain ⟨second, rfl⟩ := resourceCodec.sectionOf_of_decode answered
  obtain ⟨third, rfl⟩ := resourceCodec.sectionOf_of_decode named
  rw [← List.append_nil (packet.additionals.flatMap _)] at added
  obtain ⟨fourth, -⟩ := resourceCodec.sectionOf_of_decode added
  exact ⟨first, second, third, fourth⟩

/-- Of a packet with labels up to 63 bytes, with text data below 65536 bytes and with addresses
of the right family, `deserialize` gives back what the types of its records carry. -/
theorem packet_comes_back (beyond stack : ℕ → UInt8) (fresh packet : DnsPacket)
    (encodable : packet.Encodable 63) :
    ∃ bytes, serialize beyond packet .empty = some (.ending bytes) ∧
      deserialize stack fresh (.ofBytes bytes) = some (packet.carried, .between bytes []) :=
  ⟨_, serialize_empty packet, deserialize_back (encodable.mono (by decide)) fresh⟩

/-- A question about `ab.c`, an `MX` and a `TXT` answer, and the `SOA` record of the zone. -/
def samplePacket : DnsPacket :=
  { id := 0x1234
    flags := 0x0100
    questions := [{ host := [0x61, 0x62, 0x2E, 0x63], type := 1, dnsclass := 1 }]
    answers :=
      [{ host := [0x63], type := 15, dnsclass := 1, ttl := 60, mxpref := 10, name := [0x6D, 0x2E, 0x63] },
        { host := [], type := 16, dnsclass := 1, txts := [[0x76, 0x3D, 0x31], []] }]
    authorities :=
      [{ host := [0x63], type := 6, dnsclass := 1, name := [0x6E], mail := [0x72, 0x40, 0x63],
         serial := 2026042001 }] }

theorem packet_comes_back_sample :
    samplePacket.Encodable 63 ∧ samplePacket.carried = samplePacket ∧
      ∃ bytes, serialize (fun _ => 0) samplePacket .empty = some (.ending bytes) ∧
        deserialize (fun _ => 0) {} (.ofBytes bytes) = some (samplePacket.carried, .between bytes []) := by
  have encodable : samplePacket.Encodable 63 := by
    refine ⟨⟨by decide, ?_⟩, ⟨by decide, ?_⟩, ⟨by decide, ?_⟩, ⟨by decide, ?_⟩⟩
    · simp only [samplePacket, List.forall_mem_singleton]
      exact ⟨[[0x61, 0x62], [0x63]], rfl, by decide⟩
    · simp only [samplePacket, List.forall_mem_cons]
      refine ⟨⟨⟨[[0x63]], rfl, by decide⟩, ⟨[[0x6D], [0x63]], rfl, by decide⟩⟩,
        ⟨⟨[], rfl, by decide⟩, by decide, by decide⟩, List.forall_mem_nil _⟩
    · simp only [samplePacket, List.forall_mem_singleton]
      exact ⟨⟨[[0x63]], rfl, by decide⟩, ⟨[[0x6E]], rfl, by decide⟩,
        ⟨[[0x72], [0x63]], rfl, by decide⟩, by decide⟩
    · exact List.forall_mem_nil _
  exact ⟨encodable, rfl, packet_comes_back _ _ {} samplePacket encodable⟩

/-- The link-local address `fe80::1` on the second interface. -/
def linkLocal : IpAddress := .ipv6 ⟨[0xFE, 0x80, 0, 0, 0, 0, 0, 0, 0, 0, 0, 0, 0, 0, 0, 1], rfl⟩ 2

/-- An `AAAA` answer with that address. -/
def scopedPacket : DnsPacket :=
  { answers := [{ host := [0x63], type := 28, dnsclass := 1, addr := linkLocal }] }

/-- The scope identifier of an address is not on the wire. -/
theorem scope_not_carried :
    scopedPacket.Encodable 63 ∧
      ∃ bytes, serialize (fun _ => 0) scopedPacket .empty = some (.ending bytes) ∧
        ¬ ∃ after, deserialize (fun _ => 0) {} (.ofBytes bytes) = some (scopedPacket, after) := by
  have encodable : scopedPacket.Encodable 63 := by
    refine ⟨⟨by decide, List.forall_mem_nil _⟩, ⟨by decide, ?_⟩, ⟨by decide, List.forall_mem_nil _⟩,
      ⟨by decide, List.forall_mem_nil _⟩⟩
    simp only [scopedPacket, List.forall_mem_singleton]
    exact ⟨⟨[[0x63]], rfl, by decide⟩, rfl⟩
  refine ⟨encodable, _, serialize_empty scopedPacket, ?_⟩
  rintro ⟨after, back⟩
  rw [deserialize_back (encodable.mono (by decide)), Option.some.injEq, Prod.mk.injEq] at back
  exact absurd back.1 (by decide)

/-- `serialize` either fails or writes bytes that denote the packet, exactly for the packets
whose labels have 1 to 191 bytes, whose texts, text data and sections have lengths that fit
their fields, whose addresses have the family of the record type and whose mail addresses have
no dot before the `@`. -/
theorem serialize_faithful_iff (beyond stack : ℕ → UInt8) (fresh packet : DnsPacket) :
    (serialize beyond packet .empty = none ∨
      ∃ out after, serialize beyond packet .empty = some out ∧
        deserialize stack fresh (.ofBytes out.bytes) = some (packet.carried, after)) ↔
      packet.Encodable 191 := by
  rw [serialize_empty]
  constructor
  · rintro (failed | ⟨out, after, written, back⟩)
    · exact absurd failed (by simp)
    · rw [Option.some.injEq] at written
      subst written
      exact deserialize_only back
  · intro encodable
    exact .inr ⟨_, _, rfl, deserialize_back encodable fresh⟩

theorem Named.short {name : List UInt8} (named : Named 191 name) : Short name := by
  obtain ⟨labels, rfl, proper⟩ := named
  rw [Short, getlines_intercalate fun label member =>
    ⟨(proper label member).1, List.ne_nil_of_length_pos (proper label member).2.1⟩]
  exact fun label member => (proper label member).2.2

/-- A question about one label of 192 bytes, which begins with a zero byte. -/
def longLabel : DnsPacket := { questions := [{ host := 0 :: List.replicate 191 0x61 }] }

/-- The length of the label is read as a pointer to the start of the packet. -/
theorem long_label_not_faithful :
    ¬ (serialize (fun _ => 0) longLabel .empty = none ∨
      ∃ out after, serialize (fun _ => 0) longLabel .empty = some out ∧
        deserialize (fun _ => 0) {} (.ofBytes out.bytes) = some (longLabel.carried, after)) := by
  rw [serialize_empty]
  rintro (failed | ⟨out, after, written, back⟩)
  · exact absurd failed (by simp)
  · rw [Option.some.injEq] at written
    subst written
    have named := (deserialize_only back).questions.2 _ (List.mem_singleton_self _)
    have plain : dot ∉ 0 :: List.replicate 191 0x61 := by decide
    have tokens := getlines_append plain [] []
    rw [List.append_nil, List.nil_append, getlines, if_neg (by simp)] at tokens
    have bound := named.short (0 :: List.replicate 191 0x61) (by
      rw [tokens]
      exact List.mem_singleton_self _)
    rw [List.length_cons, List.length_replicate] at bound
    exact absurd bound (by decide)

end Join.DnsMessage
