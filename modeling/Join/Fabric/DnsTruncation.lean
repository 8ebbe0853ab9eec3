import Join.Fabric.DnsRoundTrip
import Join.Library.Pieces

/-!
# Packets that end too early

`deserialize` on a strict prefix of what `serialize` wrote. Names and texts are read with a
look at the stream, the other fields are not: a field that the stream no longer holds keeps
the zeros it had, in part or as a whole, and reading goes on. What goes on fails at the next
name. So a cut is noticed unless it falls behind the last name or text that is still to be
read, and `detects` says for every place of a packet which of the two it is.

A type that is cut is read as one that the codec does not know, and a `TXT` record whose
length is cut as one without texts. The result of `decodeMail` is dropped, so that nothing
behind the first name of a `SOA` record is guarded.
-/

set_option autoImplicit false
set_option maxRecDepth 1024

namespace Join.DnsMessage

open Library

variable {before rest : List UInt8} {beyond stack : ℕ → UInt8} {cut : ℕ}

/-! ## Reading from a stream that has ended -/

theorem decodeName_spent {data : InStream} (spent : data.Spent) (name : List UInt8) :
    decodeName 0 name data = (false, name, (data.read 1).2) := by
  rw [decodeName, if_neg (by decide)]
  simp only [show (data.read 1).2.failed = true from spent, if_true]

theorem decodeQuestion_spent {data : InStream} (spent : data.Spent) : decodeQuestion data = none := by
  rw [decodeQuestion, decodeName_spent spent]
  rfl

theorem decodeResource_spent {data : InStream} (spent : data.Spent) :
    decodeResource stack data = none := by
  rw [decodeResource, decodeName_spent spent]
  rfl

theorem decodeOwnName_spent {data : InStream} (spent : data.Spent) : decodeOwnName data = none := by
  rw [decodeOwnName, decodeName_spent spent]
  rfl

theorem read16_stream (old : UInt16) (data : InStream) : (read16 old data).2 = (data.read 2).2 := rfl

theorem read32_stream (data : InStream) : (read32 data).2 = (data.read 4).2 := rfl

/-! ## Names that are cut -/

theorem decodeName_cut_labels {labels : List (List UInt8)}
    (proper : ∀ label ∈ labels, 1 ≤ label.length ∧ label.length ≤ 191) (name : List UInt8)
    (inside : cut < (labels.flatMap counted ++ [0]).length) :
    ∃ text after, decodeName 0 name
      (.between before ((labels.flatMap counted ++ [0]).take cut)) = (false, text, after) ∧
        after.failed = true := by
  induction labels generalizing before cut name with
  | nil =>
      have none : cut = 0 := by simpa using inside
      subst none
      refine ⟨name, _, decodeName_spent (InStream.spent_between before) name, ?_⟩
      exact InStream.failed_read_between (by simp)
  | cons label labels ih =>
      obtain ⟨filled, short⟩ := proper label List.mem_cons_self
      have later := fun other member => proper other (List.mem_cons_of_mem _ member)
      have size : (UInt8.ofNat label.length).toNat = label.length := by
        rw [UInt8.toNat_ofNat', Nat.mod_eq_of_lt (by omega)]
      rw [List.flatMap_cons, List.append_assoc, List.length_append] at inside
      rw [List.flatMap_cons, List.append_assoc]
      by_cases here : cut < (counted label).length
      · rw [List.take_append_of_le_length (Nat.le_of_lt here)]
        rw [counted_of_short (by omega), List.length_cons] at here
        rw [counted_of_short (by omega)]
        cases cut with
        | zero =>
            refine ⟨name, _, decodeName_spent (InStream.spent_between before) name, ?_⟩
            exact InStream.failed_read_between (by simp)
        | succ cut =>
            have literal : ¬ UInt8.ofNat label.length &&& 0xC0 = 0xC0 := by
              rw [pointer_iff, size]
              omega
            have nonzero : ¬ UInt8.ofNat label.length = 0 := by
              intro zero
              rw [zero] at size
              exact absurd size (by simp; omega)
            have missing : (label.take cut).length < label.length := by
              rw [List.length_take]
              omega
            rw [List.take_succ_cons, decodeName, if_neg (by decide)]
            simp only [InStream.read_one, InStream.between_failed, Bool.false_eq_true, if_false,
              List.headD_cons, if_neg literal, if_neg nonzero, size,
              InStream.read_between_short missing, dite_true]
            exact ⟨_, _, rfl, rfl⟩
      · rw [take_beyond (Nat.le_of_not_lt here), decodeName_label (Nat.zero_le _) filled short]
        exact ih later _ (by omega)

/-- A name that is cut cannot be read, and leaves a failed stream. -/
theorem decodeName_cut {name : List UInt8} (named : Named 191 name)
    (inside : cut < (nameBytes name).length) :
    ∃ text after, decodeName 0 [] (.between before ((nameBytes name).take cut)) =
      (false, text, after) ∧ after.failed = true := by
  obtain ⟨labels, rfl, proper⟩ := named
  have sizes := fun label member => (proper label member).2
  rw [nameBytes_intercalate fun label member =>
    ⟨(proper label member).1, List.ne_nil_of_length_pos (proper label member).2.1⟩] at inside ⊢
  exact decodeName_cut_labels sizes [] inside

theorem decodeOwnName_cut {name : List UInt8} (named : Named 191 name)
    (inside : cut < (nameBytes name).length) :
    decodeOwnName (.between before ((nameBytes name).take cut)) = none := by
  obtain ⟨text, after, read, -⟩ := decodeName_cut named inside
  rw [decodeOwnName, read]
  rfl

/-! ## Questions -/

/-- A question in a stream: only its name is guarded. -/
def questionPiece (question : QuestionRecord) : Piece where
  bytes := questionBytes question
  step data := (decodeQuestion data).map Prod.snd
  guarded cut := cut < (nameBytes question.host).length

theorem decodeQuestion_stops {question : QuestionRecord} (named : Named 191 question.host)
    (inside : cut < (nameBytes question.host).length) :
    decodeQuestion (.between before ((questionBytes question).take cut)) = none := by
  obtain ⟨text, after, read, -⟩ : ∃ text after,
    decodeName 0 [] (.between before ((nameBytes question.host).take cut)) = (false, text, after) ∧
      after.failed = true := decodeName_cut named inside
  rw [questionBytes, List.take_append_of_le_length (Nat.le_of_lt inside), decodeQuestion, read]
  rfl

theorem decodeQuestion_slips {question : QuestionRecord} (named : Named 191 question.host)
    (inside : cut < (questionBytes question).length)
    (reached : (nameBytes question.host).length ≤ cut) :
    ∃ found after, decodeQuestion (.between before ((questionBytes question).take cut)) =
      some (found, after) ∧ after.failed = true := by
  rw [questionBytes, List.length_append, List.length_append, length_bytes16, length_bytes16] at inside
  rw [questionBytes, take_beyond reached, decodeQuestion, decodeName_named named]
  refine ⟨_, _, rfl, ?_⟩
  rw [read16_stream, read16_stream, InStream.read_read]
  refine InStream.failed_read_between ?_
  rw [List.length_take]
  omega

theorem questionPiece_sound {question : QuestionRecord} (named : Named 191 question.host) :
    (questionPiece question).Sound where
  passes before rest := by
    simp only [questionPiece, questionCodec.back question before rest named, Option.map_some]
  stops before cut inside watched := by
    simp only [questionPiece, decide_eq_true_eq] at watched
    simp only [questionPiece, decodeQuestion_stops named watched, Option.map_none]
  slips before cut inside unwatched := by
    simp only [questionPiece, decide_eq_false_iff_not, Nat.not_lt] at unwatched
    obtain ⟨found, after, read, failed⟩ : ∃ found after,
      decodeQuestion (.between before ((questionBytes question).take cut)) = some (found, after) ∧
        after.failed = true := decodeQuestion_slips named inside unwatched
    exact ⟨after, by simp only [questionPiece, read, Option.map_some],
      InStream.spent_of_failed failed⟩
  spent data spent := by
    simp only [questionPiece, decodeQuestion_spent spent, Option.map_none]

/-! ## Records -/

/-- The places of a record where a cut is noticed: in its name, and behind its type as far as
the type has a name or a text that is read with a look at the stream. -/
def guardedResource (resource : ResourceRecord) (cut : ℕ) : Bool :=
  let host := (nameBytes resource.host).length
  cut < host || (host + 2 ≤ cut &&
    match RecordType.of resource.type with
    | .a => false
    | .aaaa => false
    | .ns => true
    | .cname => true
    | .ptr => true
    | .mx => true
    | .soa => cut < host + 10 + (nameBytes resource.name).length
    | .txt => host + 10 ≤ cut
    | .srv => true
    | .other => false)

/-- A record in a stream. -/
def resourcePiece (beyond stack : ℕ → UInt8) (resource : ResourceRecord) : Piece where
  bytes := resourceBytes beyond resource
  step data := (decodeResource stack data).map Prod.snd
  guarded := guardedResource resource

theorem decodeResource_stops_host {resource : ResourceRecord} (named : Named 191 resource.host)
    (inside : cut < (nameBytes resource.host).length) :
    decodeResource stack (.between before ((resourceBytes beyond resource).take cut)) = none := by
  obtain ⟨text, after, read, -⟩ : ∃ text after,
    decodeName 0 [] (.between before ((nameBytes resource.host).take cut)) = (false, text, after) ∧
      after.failed = true := decodeName_cut named inside
  rw [resourceBytes, List.take_append_of_le_length (Nat.le_of_lt inside), decodeResource, read]
  rfl

/-- Two bytes of which the second is zero are no type that the codec knows. -/
theorem recordType_of_upper (high : UInt8) :
    RecordType.of (UInt16.ofNat (beValue [high, 0])) = .other := by
  revert high
  decide

/-- A type that is cut is read as one that the codec does not know. -/
theorem recordType_of_cut {type : UInt16} (few : cut < 2) :
    RecordType.of (read16 0 (.between before ((bytes16 type).take cut))).1 = .other := by
  have spelled : bytes16 type = [UInt8.ofNat (type.toNat / 256), UInt8.ofNat type.toNat] := rfl
  rw [spelled, read16, InStream.readNet_between_short (by simp; omega)]
  obtain rfl | rfl : cut = 0 ∨ cut = 1 := by omega
  · rfl
  · exact recordType_of_upper _

/-- The types whose data has a name. -/
def hasName : RecordType → Bool
  | .a => false
  | .aaaa => false
  | .ns => true
  | .cname => true
  | .ptr => true
  | .mx => true
  | .soa => true
  | .txt => false
  | .srv => true
  | .other => false

section Failed

variable {dataLen : UInt16} {resource : ResourceRecord} {data : InStream}

theorem read16_of_failed (failed : data.failed = true) (old : UInt16) :
    (read16 old data).2 = data := by
  rw [read16_stream, InStream.read_of_failed failed]

/-- A name is missed in a failed stream. -/
theorem decodeData_failed_named (failed : data.failed = true)
    (named : hasName (RecordType.of resource.type) = true) :
    decodeData stack dataLen resource data = none := by
  have missed := decodeOwnName_spent (InStream.spent_of_failed failed)
  have stays := read16_of_failed failed 0
  unfold decodeData
  cases type : RecordType.of resource.type <;> rw [type] at named
  case a => exact absurd named Bool.false_ne_true
  case aaaa => exact absurd named Bool.false_ne_true
  case txt => exact absurd named Bool.false_ne_true
  case other => exact absurd named Bool.false_ne_true
  all_goals simp [missed, stays]

/-- Data without a name is not missed in a failed stream. -/
theorem decodeData_failed_plain (failed : data.failed = true)
    (plain : hasName (RecordType.of resource.type) = false) :
    ∃ found after, decodeData stack dataLen resource data = some (found, after) ∧
      after.failed = true := by
  unfold decodeData
  cases type : RecordType.of resource.type <;> rw [type] at plain
  case a =>
      refine ⟨_, _, rfl, ?_⟩
      rw [decodeAddress, InStream.read_of_failed failed]
      exact failed
  case aaaa =>
      refine ⟨_, _, rfl, ?_⟩
      rw [decodeAddress, InStream.read_of_failed failed]
      exact failed
  case txt =>
      refine ⟨{ resource with txts := [] }, data, ?_, failed⟩
      simp only
      rw [decodeTxts, if_neg (by simp [InStream.tellg_of_failed failed])]
      rfl
  case other =>
      refine ⟨_, _, rfl, ?_⟩
      rw [InStream.seekg_of_failed failed]
      exact failed
  all_goals exact absurd plain Bool.false_ne_true.symm

end Failed

/-! ### Data that is cut -/

/-- The places of the data of a record where a cut is noticed. -/
def guardedData (resource : ResourceRecord) (cut : ℕ) : Bool :=
  match RecordType.of resource.type with
  | .a => false
  | .aaaa => false
  | .ns => true
  | .cname => true
  | .ptr => true
  | .mx => true
  | .soa => cut < (nameBytes resource.name).length
  | .txt => true
  | .srv => true
  | .other => false

/-- A name behind some numbers is missed wherever the stream is cut. -/
theorem decodeOwnName_cut_behind {front name : List UInt8} (named : Named 191 name)
    (inside : cut < (front ++ nameBytes name).length) :
    decodeOwnName ((InStream.between before ((front ++ nameBytes name).take cut)).read
      front.length).2 = none := by
  by_cases here : cut < front.length
  · apply decodeOwnName_spent
    apply InStream.spent_of_failed
    apply InStream.failed_read_between
    rw [List.length_take]
    omega
  · rw [List.length_append] at inside
    rw [take_beyond (Nat.le_of_not_lt here), InStream.read_between]
    exact decodeOwnName_cut named (by omega)

/-- Texts that are cut are missed. -/
theorem decodeTxts_cut {txts : List (List UInt8)} (few : ∀ txt ∈ txts, txt.length ≤ 255)
    (found : List (List UInt8)) {dataBegPos dataLen : ℤ}
    (reaches : (before.length : ℤ) + (txts.flatMap counted).length = dataBegPos + dataLen)
    (inside : cut < (txts.flatMap counted).length) :
    decodeTxts dataBegPos dataLen found (.between before ((txts.flatMap counted).take cut)) =
      none := by
  induction txts generalizing before cut found with
  | nil => exact absurd inside (Nat.not_lt_zero _)
  | cons txt txts ih =>
      have short := few txt List.mem_cons_self
      have size : (UInt8.ofNat txt.length).toNat = txt.length := by
        rw [UInt8.toNat_ofNat', Nat.mod_eq_of_lt (by omega)]
      rw [List.flatMap_cons, List.length_append] at reaches inside
      rw [decodeTxts, if_pos (by rw [InStream.tellg_between]; omega), List.flatMap_cons]
      by_cases here : cut < (counted txt).length
      · rw [List.take_append_of_le_length (Nat.le_of_lt here)]
        rw [counted_of_short (by omega), List.length_cons] at here
        rw [counted_of_short (by omega)]
        cases cut with
        | zero => simp [InStream.read_between_short]
        | succ cut =>
            have missing : (txt.take cut).length < txt.length := by
              rw [List.length_take]
              omega
            simp [size, InStream.read_between_short missing]
      · rw [length_counted short] at reaches
        have passed : cut - (counted txt).length < (txts.flatMap counted).length := by omega
        rw [take_beyond (Nat.le_of_not_lt here), counted_of_short (by omega)]
        simp only [List.cons_append, InStream.read_one, InStream.between_failed, Bool.false_eq_true,
          if_false, List.headD_cons, size, InStream.read_between, dite_false]
        rw [counted_of_short (by omega)] at passed
        refine ih (fun other member => few other (List.mem_cons_of_mem _ member)) _ ?_ passed
        simp only [List.length_append, List.length_singleton]
        omega

/-- What stands behind the first name of a `SOA` record is read without a look at the stream,
and a cut leaves a failed stream behind. -/
theorem failed_behind_mail {mail numbers : List UInt8} (named : MailNamed 191 mail)
    (inside : cut < (nameBytes (replaceFirst atSign dot mail) ++ numbers).length) :
    ((decodeMail (.between before ((nameBytes (replaceFirst atSign dot mail) ++ numbers).take
      cut))).2.read numbers.length).2.failed = true := by
  by_cases here : cut < (nameBytes (replaceFirst atSign dot mail)).length
  · obtain ⟨text, after, read, failed⟩ : ∃ text after, decodeName 0 []
      (.between before ((nameBytes (replaceFirst atSign dot mail)).take cut)) =
        (false, text, after) ∧ after.failed = true := decodeName_cut named.1 here
    rw [List.take_append_of_le_length (Nat.le_of_lt here), decodeMail, read]
    simp only [Bool.false_eq_true, if_false, InStream.read_of_failed failed, failed]
  · rw [List.length_append] at inside
    rw [take_beyond (Nat.le_of_not_lt here), decodeMail_named named]
    refine InStream.failed_read_between ?_
    rw [List.length_take]
    omega

theorem decodeData_stops {resource : ResourceRecord} (encodable : resource.DataEncodable 191)
    (inside : cut < (dataBytes beyond resource).length)
    (watched : guardedData resource cut = true) :
    decodeData stack (UInt16.ofNat (dataBytes beyond resource).length) (bare resource)
      (.between before ((dataBytes beyond resource).take cut)) = none := by
  unfold ResourceRecord.DataEncodable at encodable
  unfold guardedData at watched
  unfold dataBytes at inside ⊢
  unfold decodeData
  rw [show RecordType.of (bare resource).type = RecordType.of resource.type from rfl]
  cases type : RecordType.of resource.type <;> rw [type] at encodable watched <;>
    simp only [type] at inside ⊢
  case a => exact absurd watched Bool.false_ne_true
  case aaaa => exact absurd watched Bool.false_ne_true
  case other => exact absurd watched Bool.false_ne_true
  case ns => simp [decodeOwnName_cut encodable inside]
  case cname => simp [decodeOwnName_cut encodable inside]
  case ptr => simp [decodeOwnName_cut encodable inside]
  case mx =>
      have missed : decodeOwnName (read16 0 (.between before
          ((bytes16 resource.mxpref ++ nameBytes resource.name).take cut))).2 = none :=
        decodeOwnName_cut_behind encodable inside
      simp [missed]
  case srv =>
      have numbers : bytes16 resource.priority ++ (bytes16 resource.weight ++
          (bytes16 resource.port ++ nameBytes resource.name)) =
          (bytes16 resource.priority ++ bytes16 resource.weight ++ bytes16 resource.port) ++
            nameBytes resource.name := by
        simp only [List.append_assoc]
      rw [numbers] at inside ⊢
      have missed : decodeOwnName (read16 0 (read16 0 (read16 0 (.between before
          ((bytes16 resource.priority ++ bytes16 resource.weight ++ bytes16 resource.port ++
            nameBytes resource.name).take cut))).2).2).2 = none := by
        rw [read16_stream, read16_stream, read16_stream, InStream.read_read, InStream.read_read]
        exact decodeOwnName_cut_behind encodable inside
      simp only [missed]
      rfl
  case soa =>
      rw [decide_eq_true_eq] at watched
      rw [List.take_append_of_le_length (Nat.le_of_lt watched)]
      simp [decodeOwnName_cut encodable.1 watched]
  case txt =>
      obtain ⟨few, small⟩ := encodable
      have size : (UInt16.ofNat (resource.txts.flatMap counted).length).toNat =
          (resource.txts.flatMap counted).length := by
        rw [length_flatMap_counted few, UInt16.toNat_ofNat', Nat.mod_eq_of_lt small]
      have missed : decodeTxts (before.length : ℤ) ((resource.txts.flatMap counted).length : ℤ) []
          (.between before ((resource.txts.flatMap counted).take cut)) = none :=
        decodeTxts_cut few [] rfl inside
      simp only [size, InStream.tellg_between, missed]
      rfl

theorem decodeData_slips {resource : ResourceRecord} (encodable : resource.DataEncodable 191)
    (inside : cut < (dataBytes beyond resource).length)
    (unwatched : guardedData resource cut = false) :
    ∃ found after, decodeData stack (UInt16.ofNat (dataBytes beyond resource).length) (bare resource)
      (.between before ((dataBytes beyond resource).take cut)) = some (found, after) ∧
        after.failed = true := by
  unfold ResourceRecord.DataEncodable at encodable
  unfold guardedData at unwatched
  unfold dataBytes at inside ⊢
  unfold decodeData
  rw [show RecordType.of (bare resource).type = RecordType.of resource.type from rfl]
  cases type : RecordType.of resource.type <;> rw [type] at encodable unwatched <;>
    simp only [type] at inside ⊢
  case a =>
      rw [IpAddress.length_addrBytes] at inside
      refine ⟨_, _, rfl, InStream.failed_read_between ?_⟩
      rw [List.length_take, IpAddress.length_addrBytes]
      omega
  case aaaa =>
      rw [IpAddress.length_addrBytes] at inside
      refine ⟨_, _, rfl, InStream.failed_read_between ?_⟩
      rw [List.length_take, IpAddress.length_addrBytes]
      omega
  case other => exact absurd inside (Nat.not_lt_zero _)
  case soa =>
      rw [decide_eq_false_iff_not, Nat.not_lt] at unwatched
      rw [List.length_append] at inside
      rw [take_beyond unwatched, decodeOwnName_named encodable.1]
      refine ⟨_, _, rfl, ?_⟩
      simp only [read32_stream, InStream.read_read]
      exact failed_behind_mail encodable.2 (by omega)
  all_goals exact absurd unwatched Bool.false_ne_true.symm

/-! ### Records that are cut -/

/-- Behind its name, the ten bytes of the fields of a record are read, and then its data. -/
theorem decodeResource_fields (stack : ℕ → UInt8) {data after : InStream} {host : List UInt8}
    (read : decodeName 0 [] data = (true, host, after)) :
    ∃ found, decodeResource stack data =
      decodeData stack (read16 0 (after.read 8).2).1 found (after.read 10).2 ∧
        found.type = (read16 0 after).1 := by
  have counted : (read32 (read16 0 (read16 0 after).2).2).2 = (after.read 8).2 := by
    rw [read32_stream, read16_stream, read16_stream, InStream.read_read, InStream.read_read]
  have stands : (read16 0 (after.read 8).2).2 = (after.read 10).2 := by
    rw [read16_stream, InStream.read_read]
  let found : ResourceRecord :=
    { host := host, type := (read16 0 after).1, dnsclass := (read16 0 (read16 0 after).2).1,
      ttl := (read32 (read16 0 (read16 0 after).2).2).1 }
  refine ⟨found, ?_, rfl⟩
  rw [decodeResource, read, ← stands, ← counted]
  rfl

section Cut

variable {resource : ResourceRecord}

/-- A record that is cut in its type is not noticed. -/
theorem decodeResource_slips_type (named : Named 191 resource.host)
    (reached : (nameBytes resource.host).length ≤ cut)
    (here : cut < (nameBytes resource.host).length + 2) :
    ∃ found after, decodeResource stack (.between before
      ((resourceBytes beyond resource).take cut)) = some (found, after) ∧ after.failed = true := by
  have few : cut - (nameBytes resource.host).length < 2 := by omega
  have start : (fieldBytes beyond resource ++ dataBytes beyond resource).take
      (cut - (nameBytes resource.host).length) =
        (bytes16 resource.type).take (cut - (nameBytes resource.host).length) := by
    rw [fieldBytes, List.append_assoc,
      List.take_append_of_le_length (by rw [length_bytes16]; omega)]
  rw [resourceBytes, take_beyond reached, start]
  have passed : decodeName 0 [] (.between before (nameBytes resource.host ++
      (bytes16 resource.type).take (cut - (nameBytes resource.host).length))) = _ :=
    decodeName_named named
  obtain ⟨found, same, type⟩ := decodeResource_fields stack passed
  rw [same]
  refine decodeData_failed_plain (InStream.failed_read_between ?_) ?_
  · rw [List.length_take, length_bytes16]
    omega
  · rw [type, recordType_of_cut few]
    rfl

/-- The type of a record that is cut behind it is read. -/
theorem read16_type_cut {count : ℕ} (reached : 2 ≤ count) :
    (read16 0 (.between before ((fieldBytes beyond resource ++ dataBytes beyond resource).take
      count))).1 = resource.type := by
  rw [fieldBytes, List.append_assoc, take_beyond (by rwa [length_bytes16]), read16_between]

/-- A record that is cut in the fields behind its type is noticed if its data has a name. -/
theorem decodeResource_cut_fields (named : Named 191 resource.host)
    (reached : (nameBytes resource.host).length + 2 ≤ cut)
    (here : cut < (nameBytes resource.host).length + 10) :
    (hasName (RecordType.of resource.type) = true →
      decodeResource stack (.between before ((resourceBytes beyond resource).take cut)) = none) ∧
    (hasName (RecordType.of resource.type) = false →
      ∃ found after, decodeResource stack (.between before
        ((resourceBytes beyond resource).take cut)) = some (found, after) ∧
          after.failed = true) := by
  rw [resourceBytes, take_beyond (by omega)]
  have passed : decodeName 0 [] (.between before (nameBytes resource.host ++
      (fieldBytes beyond resource ++ dataBytes beyond resource).take
        (cut - (nameBytes resource.host).length))) = _ := decodeName_named named
  obtain ⟨found, same, type⟩ := decodeResource_fields stack passed
  rw [read16_type_cut (by omega)] at type
  have failed : ((InStream.between (before ++ nameBytes resource.host)
      ((fieldBytes beyond resource ++ dataBytes beyond resource).take
        (cut - (nameBytes resource.host).length))).read 10).2.failed = true := by
    refine InStream.failed_read_between ?_
    rw [List.length_take]
    omega
  rw [same]
  refine ⟨fun watched => ?_, fun plain => ?_⟩
  · exact decodeData_failed_named failed (by rwa [type])
  · exact decodeData_failed_plain failed (by rwa [type])

/-- Of a record that is cut in its data the fields are read. -/
theorem decodeResource_cut_data (named : Named 191 resource.host)
    (reached : (nameBytes resource.host).length + 10 ≤ cut) :
    decodeResource stack (.between before ((resourceBytes beyond resource).take cut)) =
      decodeData stack (UInt16.ofNat (dataBytes beyond resource).length) (bare resource)
        (.between (before ++ (nameBytes resource.host ++ fieldBytes beyond resource))
          ((dataBytes beyond resource).take (cut - (nameBytes resource.host).length - 10))) := by
  have fields : (fieldBytes beyond resource).length ≤ cut - (nameBytes resource.host).length := by
    rw [length_fieldBytes]
    omega
  rw [resourceBytes, take_beyond (by omega), take_beyond fields, length_fieldBytes, decodeResource,
    decodeName_named named]
  simp only [fieldBytes, List.append_assoc, if_true, read16_between, read32_between]
  rfl

theorem guardedResource_host (here : cut < (nameBytes resource.host).length) :
    guardedResource resource cut = true := by
  simp [guardedResource, here]

theorem guardedResource_type (reached : (nameBytes resource.host).length ≤ cut)
    (here : cut < (nameBytes resource.host).length + 2) : guardedResource resource cut = false := by
  rw [guardedResource, decide_eq_false (by omega), decide_eq_false (by omega)]
  rfl

theorem guardedResource_fields (reached : (nameBytes resource.host).length + 2 ≤ cut)
    (here : cut < (nameBytes resource.host).length + 10) :
    guardedResource resource cut = hasName (RecordType.of resource.type) := by
  rw [guardedResource, decide_eq_false (by omega), decide_eq_true reached, Bool.false_or,
    Bool.true_and]
  cases RecordType.of resource.type with
  | soa => exact decide_eq_true (by omega)
  | txt => exact decide_eq_false (by omega)
  | _ => rfl

theorem guardedResource_data (reached : (nameBytes resource.host).length + 10 ≤ cut) :
    guardedResource resource cut =
      guardedData resource (cut - (nameBytes resource.host).length - 10) := by
  rw [guardedResource, guardedData, decide_eq_false (by omega), decide_eq_true (by omega),
    Bool.false_or, Bool.true_and]
  cases RecordType.of resource.type with
  | soa =>
      rw [decide_eq_decide]
      omega
  | txt => exact decide_eq_true reached
  | _ => rfl

theorem decodeResource_stops (encodable : resource.Encodable 191)
    (inside : cut < (resourceBytes beyond resource).length)
    (watched : guardedResource resource cut = true) :
    decodeResource stack (.between before ((resourceBytes beyond resource).take cut)) = none := by
  obtain ⟨named, data⟩ := encodable
  rw [resourceBytes, List.length_append, List.length_append, length_fieldBytes] at inside
  by_cases host : cut < (nameBytes resource.host).length
  · exact decodeResource_stops_host named host
  by_cases type : cut < (nameBytes resource.host).length + 2
  · rw [guardedResource_type (by omega) type] at watched
    exact absurd watched Bool.false_ne_true
  by_cases fields : cut < (nameBytes resource.host).length + 10
  · rw [guardedResource_fields (by omega) fields] at watched
    exact (decodeResource_cut_fields named (by omega) fields).1 watched
  · rw [guardedResource_data (by omega)] at watched
    rw [decodeResource_cut_data named (by omega)]
    exact decodeData_stops data (by omega) watched

theorem decodeResource_slips (encodable : resource.Encodable 191)
    (inside : cut < (resourceBytes beyond resource).length)
    (unwatched : guardedResource resource cut = false) :
    ∃ found after, decodeResource stack (.between before
      ((resourceBytes beyond resource).take cut)) = some (found, after) ∧ after.failed = true := by
  obtain ⟨named, data⟩ := encodable
  rw [resourceBytes, List.length_append, List.length_append, length_fieldBytes] at inside
  by_cases host : cut < (nameBytes resource.host).length
  · rw [guardedResource_host host] at unwatched
    exact absurd unwatched Bool.false_ne_true.symm
  by_cases type : cut < (nameBytes resource.host).length + 2
  · exact decodeResource_slips_type named (by omega) type
  by_cases fields : cut < (nameBytes resource.host).length + 10
  · rw [guardedResource_fields (by omega) fields] at unwatched
    exact (decodeResource_cut_fields named (by omega) fields).2 unwatched
  · rw [guardedResource_data (by omega)] at unwatched
    rw [decodeResource_cut_data named (by omega)]
    exact decodeData_slips data (by omega) unwatched

theorem resourcePiece_sound (encodable : resource.Encodable 191) :
    (resourcePiece beyond stack resource).Sound where
  passes before rest := by
    simp only [resourcePiece, resourceCodec.back resource before rest encodable, Option.map_some]
  stops before cut inside watched := by
    simp only [resourcePiece] at inside watched
    simp only [resourcePiece, decodeResource_stops encodable inside watched, Option.map_none]
  slips before cut inside unwatched := by
    obtain ⟨found, after, read, failed⟩ : ∃ found after,
      decodeResource stack (.between before ((resourceBytes beyond resource).take cut)) =
        some (found, after) ∧ after.failed = true := decodeResource_slips encodable inside unwatched
    exact ⟨after, by simp only [resourcePiece, read, Option.map_some],
      InStream.spent_of_failed failed⟩
  spent data spent := by
    simp only [resourcePiece, decodeResource_spent spent, Option.map_none]

end Cut

/-! ## Packets -/

/-- The questions and records of a packet in a stream. -/
def packetPieces (beyond stack : ℕ → UInt8) (packet : DnsPacket) : List Piece :=
  packet.questions.map questionPiece ++ (packet.answers.map (resourcePiece beyond stack) ++
    (packet.authorities.map (resourcePiece beyond stack) ++
      packet.additionals.map (resourcePiece beyond stack)))

/-- The places where a packet that ends there is noticed to end. In its header these are the
places behind a byte of the counts that is not zero. -/
def CutDetected (beyond stack : ℕ → UInt8) (packet : DnsPacket) (cut : ℕ) : Prop :=
  if cut < 12 then ∃ byte ∈ ((headerBytes packet).take cut).drop 4, byte ≠ 0
  else detects (packetPieces beyond stack packet) (cut - 12) = true

instance (beyond stack : ℕ → UInt8) (packet : DnsPacket) (cut : ℕ) :
    Decidable (CutDetected beyond stack packet cut) :=
  inferInstanceAs (Decidable (if cut < 12 then ∃ byte ∈ ((headerBytes packet).take cut).drop 4,
    byte ≠ 0 else detects (packetPieces beyond stack packet) (cut - 12) = true))

theorem flatMap_packetPieces (packet : DnsPacket) :
    (packetPieces beyond stack packet).flatMap Piece.bytes = sectionBytes beyond packet := by
  simp only [packetPieces, sectionBytes, List.flatMap_append, List.flatMap_map]
  rfl

theorem packetPieces_sound {packet : DnsPacket} (encodable : packet.Encodable 191) :
    ∀ piece ∈ packetPieces beyond stack packet, piece.Sound := by
  simp only [packetPieces, List.forall_mem_append, List.forall_mem_map]
  exact ⟨fun question member => questionPiece_sound (encodable.questions.2 question member),
    fun record member => resourcePiece_sound (encodable.answers.2 record member),
    fun record member => resourcePiece_sound (encodable.authorities.2 record member),
    fun record member => resourcePiece_sound (encodable.additionals.2 record member)⟩

/-- Decoding a section, but for the records that come out, is a walk over its pieces. -/
theorem walk_section {Record : Type} {decode : InStream → Option (Record × InStream)}
    {piece : Record → Piece}
    (steps : ∀ record data, (piece record).step data = (decode data).map Prod.snd)
    (records : List Record) (more : List Piece) (data : InStream) :
    walk (records.map piece ++ more) data =
      (decodeSection decode records.length data).bind fun found => walk more found.2 := by
  induction records generalizing data with
  | nil => rfl
  | cons record records ih =>
      rw [List.map_cons, List.cons_append, walk_cons, steps, List.length_cons, decodeSection]
      cases decode data with
      | none => rfl
      | some found =>
          simp only [Option.map_some, Option.bind_some, ih, Option.bind_eq_bind, Option.bind_assoc]

/-- Behind its header, a packet that is cut is read as its pieces are. -/
theorem deserialize_cut_sections {packet : DnsPacket} (encodable : packet.Encodable 191)
    (fresh : DnsPacket) (reached : 12 ≤ cut) :
    (deserialize stack fresh (.ofBytes ((packetBytes beyond packet).take cut))).map Prod.snd =
      walk (packetPieces beyond stack packet) (.between (headerBytes packet)
        ((sectionBytes beyond packet).take (cut - 12))) := by
  have whole {Record : Type} {proper : Record → Prop} {records : List Record}
      (fits : SectionOf proper records) :
      (UInt16.ofNat records.length).toNat = records.length := by
    rw [UInt16.toNat_ofNat', Nat.mod_eq_of_lt fits.1]
  have questions : ∀ question data, (questionPiece question).step data =
    (decodeQuestion data).map Prod.snd := fun _ _ => rfl
  have records : ∀ record data, (resourcePiece beyond stack record).step data =
    (decodeResource stack data).map Prod.snd := fun _ _ => rfl
  rw [packetBytes, take_beyond (by rwa [length_headerBytes]), length_headerBytes,
    deserialize_header, whole encodable.questions, whole encodable.answers,
    whole encodable.authorities, whole encodable.additionals, packetPieces, walk_section questions]
  simp only [walk_section records]
  have last (data : InStream) : walk (packet.additionals.map (resourcePiece beyond stack)) data =
      (decodeSection (decodeResource stack) packet.additionals.length data).map Prod.snd := by
    have walked := walk_section records packet.additionals [] data
    rw [List.append_nil] at walked
    rw [walked]
    cases decodeSection (decodeResource stack) packet.additionals.length data <;> rfl
  rcases decodeSection decodeQuestion packet.questions.length _ with _ | ⟨_, answering⟩
  · rfl
  simp only [Option.bind_eq_bind, Option.bind_some]
  rcases decodeSection (decodeResource stack) packet.answers.length answering with
    _ | ⟨_, naming⟩
  · rfl
  simp only [Option.bind_some]
  rcases decodeSection (decodeResource stack) packet.authorities.length naming with
    _ | ⟨_, adding⟩
  · rfl
  simp only [Option.bind_some, last]
  cases decodeSection (decodeResource stack) packet.additionals.length adding <;> rfl

/-! ### Headers that are cut -/

theorem decodeSection_spent {Record : Type} {decode : InStream → Option (Record × InStream)}
    {data : InStream} (fails : decode data = none) (count : ℕ) :
    decodeSection decode count data = if count = 0 then some ([], data) else none := by
  cases count with
  | zero => rfl
  | succ count =>
      rw [decodeSection, fails]
      rfl

/-- A number is read as zero exactly when all bytes of it that are there are zero. -/
theorem read16_eq_zero (data : InStream) :
    (read16 0 data).1.toNat = 0 ↔ ∀ byte ∈ (data.read 2).1, byte = 0 := by
  have few : (data.read 2).1.length ≤ 2 := InStream.read_length_le
  have value : (read16 0 data).1 =
    UInt16.ofNat (beValue (overwrite [0, 0] (data.read 2).1)) := rfl
  rw [value, UInt16.toNat_ofNat']
  generalize (data.read 2).1 = got at few
  match got, few with
  | [], _ => simp [overwrite, beValue, leValue]
  | [high], _ =>
      have upper := high.toNat_lt
      have spelled : beValue (overwrite [0, 0] [high]) = 0 + 256 * (high.toNat + 256 * 0) := rfl
      rw [spelled, List.forall_mem_singleton, ← UInt8.toNat_inj, UInt8.toNat_zero]
      omega
  | [high, low], _ =>
      have upper := high.toNat_lt
      have lower := low.toNat_lt
      have spelled : beValue (overwrite [0, 0] [high, low]) =
        low.toNat + 256 * (high.toNat + 256 * 0) := rfl
      rw [spelled, List.forall_mem_cons, List.forall_mem_singleton, ← UInt8.toNat_inj,
        ← UInt8.toNat_inj, UInt8.toNat_zero]
      omega
  | _ :: _ :: _ :: _, few => exact absurd few (by simp)

/-- What is read behind the first bytes of a short stream. -/
theorem read_drop {bytes : List UInt8} {first second : ℕ} (short : bytes.length ≤ first + second) :
    (((InStream.ofBytes bytes).read first).2.read second).1 = bytes.drop first := by
  have whole : ((InStream.ofBytes bytes).read (first + second)).1 =
      ((InStream.ofBytes bytes).read first).1 ++ (((InStream.ofBytes bytes).read first).2.read second).1 :=
    congrArg Prod.fst (InStream.read_add first second)
  have all : ((InStream.ofBytes bytes).read (first + second)).1 = bytes := by
    simp [InStream.read, InStream.ofBytes, List.take_of_length_le short]
  have front : ((InStream.ofBytes bytes).read first).1 = bytes.take first := by
    simp [InStream.read, InStream.ofBytes]
  rw [all, front] at whole
  exact (List.append_cancel_left ((List.take_append_drop first bytes).trans whole)).symm

/-- The bytes of four numbers that are read in a row. -/
theorem read_four (data : InStream) : (data.read 8).1 =
    (data.read 2).1 ++ (((data.read 2).2.read 2).1 ++ (((data.read 4).2.read 2).1 ++
      ((data.read 6).2.read 2).1)) := by
  rw [show 8 = 2 + (2 + (2 + 2)) from rfl, InStream.read_add, InStream.read_add, InStream.read_add,
    InStream.read_read, InStream.read_read]

/-- A packet that is cut in its header is noticed when a byte of the counts that is left is
not zero. -/
theorem deserialize_cut_header (fresh : DnsPacket) {bytes : List UInt8} (short : bytes.length < 12) :
    deserialize stack fresh (.ofBytes bytes) = none ↔ ∃ byte ∈ bytes.drop 4, byte ≠ 0 := by
  have counts : (((InStream.ofBytes bytes).read 4).2.read 8).1 = bytes.drop 4 := read_drop (by omega)
  have failed : ((InStream.between [] bytes).read 12).2.failed = true :=
    InStream.failed_read_between short
  have spent : ((InStream.ofBytes bytes).read 12).2.Spent := InStream.spent_of_failed failed
  rw [← counts, read_four]
  unfold deserialize
  simp only [read16_stream, InStream.read_read, Nat.reduceAdd,
    decodeSection_spent (decodeQuestion_spent spent), read16_eq_zero]
  rw [show ∀ left right : List UInt8, (∃ byte ∈ left ++ right, byte ≠ 0) ↔
    ¬ ∀ byte ∈ left ++ right, byte = 0 from fun _ _ => by push Not; rfl]
  simp only [List.forall_mem_append]
  have later : ∀ count, decodeSection (decodeResource stack) count
      ((InStream.ofBytes bytes).read 12).2 =
        if count = 0 then some ([], ((InStream.ofBytes bytes).read 12).2) else none :=
    decodeSection_spent (decodeResource_spent spent)
  by_cases questions : ∀ byte ∈ (((InStream.ofBytes bytes).read 4).2.read 2).1, byte = 0
  · rw [if_pos questions]
    simp only [Option.bind_eq_bind, Option.bind_some, read16_eq_zero, later]
    by_cases answers : ∀ byte ∈ (((InStream.ofBytes bytes).read 6).2.read 2).1, byte = 0
    · rw [if_pos answers]
      simp only [Option.bind_some, read16_eq_zero, later]
      by_cases authorities : ∀ byte ∈ (((InStream.ofBytes bytes).read 8).2.read 2).1, byte = 0
      · rw [if_pos authorities]
        simp only [Option.bind_some, read16_eq_zero, later]
        by_cases additionals : ∀ byte ∈ (((InStream.ofBytes bytes).read 10).2.read 2).1, byte = 0
        · rw [if_pos additionals]
          exact iff_of_false (by simp) (not_not_intro ⟨questions, answers, authorities, additionals⟩)
        · rw [if_neg additionals]
          exact iff_of_true rfl fun all => additionals all.2.2.2
      · rw [if_neg authorities]
        exact iff_of_true rfl fun all => authorities all.2.2.1
    · rw [if_neg answers]
      exact iff_of_true rfl fun all => answers all.2.1
  · rw [if_neg questions]
    exact iff_of_true rfl fun all => questions all.1

/-! ### The cuts that are noticed -/

/-- The bytes of a packet are refused when they end too early, exactly at the places where the
cut is noticed. -/
theorem deserialize_cut {packet : DnsPacket} (fresh : DnsPacket)
    (inside : cut < (packetBytes beyond packet).length)
    (readable : cut < 12 ∨ packet.Encodable 191) :
    deserialize stack fresh (.ofBytes ((packetBytes beyond packet).take cut)) = none ↔
      CutDetected beyond stack packet cut := by
  rw [CutDetected]
  split_ifs with header
  · have front : (packetBytes beyond packet).take cut = (headerBytes packet).take cut := by
      rw [packetBytes, List.take_append_of_le_length (by rw [length_headerBytes]; omega)]
    rw [front]
    exact deserialize_cut_header fresh (by rw [List.length_take]; omega)
  · have encodable := readable.resolve_left header
    rw [packetBytes, List.length_append, length_headerBytes] at inside
    have short : cut - 12 <
        ((packetPieces beyond stack packet).flatMap Piece.bytes).length := by
      rw [flatMap_packetPieces]
      omega
    have walked := walk_cut (packetPieces_sound encodable) (headerBytes packet) short
    rw [flatMap_packetPieces, ← deserialize_cut_sections encodable fresh (Nat.le_of_not_lt header),
      Option.map_eq_none_iff] at walked
    exact walked

/-- A question of type `A` about the name `a`. -/
def smallQuestion : DnsPacket := { questions := [{ host := [0x61], type := 1, dnsclass := 1 }] }

theorem smallQuestion_encodable : smallQuestion.Encodable 191 := by
  refine ⟨⟨by decide, ?_⟩, ⟨by decide, List.forall_mem_nil _⟩, ⟨by decide, List.forall_mem_nil _⟩,
    ⟨by decide, List.forall_mem_nil _⟩⟩
  simp only [smallQuestion, List.forall_mem_singleton]
  exact ⟨[[0x61]], rfl, by decide⟩

end Join.DnsMessage
