import Join.Fabric.DhcpTyping

/-!
# Writing a DHCP message and reading it again

`deserialize` gives back the packet that `serialize` wrote. Every payload is read as the
value it was written from, and the options come back in the order of their codes, so that
each of them is put behind the ones before it. The fields `sname` and `file` are written
as zeros: read as options, by a message that says they hold some, they are only padding.
-/

set_option autoImplicit false

namespace Join.DhcpMessage

open Library DhcpOption

variable {parse : Parse} {info : Info}

/-! ## Payloads -/

theorem payloadWords_flatMap (words : List UInt16) :
    payloadWords (words.flatMap fun element => beBytes 2 element.toNat) = words := by
  induction words with
  | nil => rfl
  | cons word words ih =>
      have two : ∃ high low, beBytes 2 word.toNat = [high, low] :=
        List.length_eq_two.mp (length_beBytes 2 word.toNat)
      obtain ⟨high, low, spelled⟩ := two
      have small : word.toNat < 256 ^ 2 := word.toNat_lt
      have value : beValue [high, low] = word.toNat := by
        rw [← spelled, beValue_beBytes, Nat.mod_eq_of_lt small]
      rw [List.flatMap_cons, spelled, List.cons_append, List.cons_append, List.nil_append,
        payloadWords, ih, value, UInt16.ofNat_toNat]

theorem payloadAddresses_flatMap {addresses : List IpAddress}
    (family : ∀ element ∈ addresses, element.isIpv4) :
    payloadAddresses (addresses.flatMap fun element => element.addr.take 4) = addresses := by
  induction addresses with
  | nil => rfl
  | cons address addresses ih =>
      have later := ih fun element member => family element (List.mem_cons_of_mem _ member)
      cases address with
      | ipv6 octets scope => exact absurd (family _ List.mem_cons_self) Bool.false_ne_true
      | ipv4 octets =>
          obtain ⟨bytes, length⟩ := octets
          match bytes, length with
          | [first, second, third, fourth], _ =>
              exact congrArg (List.cons _) later

theorem addr_take {octets : Octets 4} : (IpAddress.ipv4 octets).addr.take 4 = octets.bytes :=
  List.take_of_length_le (Nat.le_of_eq octets.length_eq)

theorem length_flatMap_const {Item : Type} {encode : Item → List UInt8} {items : List Item}
    {count : ℕ} (length : ∀ item ∈ items, (encode item).length = count) :
    (items.flatMap encode).length % count = 0 := by
  have counted : (items.flatMap encode).length = items.length * count := by
    induction items with
    | nil => exact (Nat.zero_mul count).symm
    | cons item items ih =>
        rw [List.flatMap_cons, List.length_append, length item List.mem_cons_self,
          ih fun other member => length other (List.mem_cons_of_mem _ member), List.length_cons,
          Nat.succ_mul, Nat.add_comm]
  rw [counted, Nat.mul_mod_left]

/-- The payload of a prescribed value is read as what `insert` makes that value from. -/
theorem received_payload {value : DhcpOptionValue} {bytes : List UInt8}
    (prescribed : Prescribed info value) (encoded : payload info.type value = .ok bytes) :
    received info.type bytes = some (argument value) := by
  cases prescribed with
  | byte value type =>
      rw [type] at encoded ⊢
      cases encoded
      rfl
  | word value type =>
      rw [type] at encoded ⊢
      cases encoded
      have small : value.toNat < 256 ^ 2 := value.toNat_lt
      rw [received, if_pos (length_beBytes 2 _), beValue_beBytes, Nat.mod_eq_of_lt small]
      rfl
  | long value type =>
      rw [type] at encoded ⊢
      cases encoded
      have small : value.toNat < 256 ^ 4 := value.toNat_lt
      rw [received, if_pos (length_beBytes 4 _), beValue_beBytes, Nat.mod_eq_of_lt small]
      rfl
  | slong value type =>
      rw [type] at encoded ⊢
      cases encoded
      have small : value.toUInt32.toNat < 256 ^ 4 := value.toUInt32.toNat_lt
      rw [received, if_pos (length_beBytes 4 _), beValue_beBytes, Nat.mod_eq_of_lt small,
        UInt32.ofNat_toNat]
      rfl
  | text value type =>
      rw [type] at encoded ⊢
      cases encoded
      rfl
  | ip value type family =>
      rw [type] at encoded ⊢
      cases encoded
      cases value with
      | ipv6 octets scope => exact absurd family Bool.false_ne_true
      | ipv4 octets =>
          rw [addr_take, received, if_pos octets.length_eq, Octets.ofMemory_bytes]
          rfl
  | mac value type =>
      rw [type] at encoded ⊢
      cases encoded
      have length : (ethernet :: value.bytes).length = 7 := congrArg Nat.succ value.length_eq
      rw [received, if_pos ⟨length, rfl⟩, List.tail_cons, Octets.ofMemory_bytes]
      rfl
  | bytes value type =>
      rw [type] at encoded ⊢
      cases encoded
      rfl
  | words value type =>
      rw [type] at encoded ⊢
      cases encoded
      rw [received, if_pos (length_flatMap_const fun _ _ => length_beBytes 2 _),
        payloadWords_flatMap]
      rfl
  | ips value type family =>
      rw [type] at encoded ⊢
      cases encoded
      have length : ∀ element ∈ value, (element.addr.take 4).length = 4 := by
        intro element member
        cases element with
        | ipv6 octets scope => exact absurd (family _ member) Bool.false_ne_true
        | ipv4 octets => rw [addr_take, octets.length_eq]
      rw [received, if_pos (length_flatMap_const length), payloadAddresses_flatMap family]
      rfl

/-! ## Options -/

/-- No description has the code of the padding or of the end. -/
theorem described_code {code : UInt8} (described : describe code = some info) :
    code ≠ pad ∧ code ≠ endOfOptions := by
  constructor
  · rintro rfl
    have undescribed : describe pad = none := by decide
    rw [undescribed] at described
    cases described
  · rintro rfl
    have undescribed : describe endOfOptions = none := by decide
    rw [undescribed] at described
    cases described

/-- What `serialize` writes for an option of a well typed list. -/
theorem serializeOption_eq {code : UInt8} {value : DhcpOptionValue} {written : List UInt8}
    (described : describe code = some info) (prescribed : Prescribed info value)
    (encoded : serializeOption (code, value) = .ok written) :
    ∃ bytes, payload info.type value = .ok bytes ∧ bytes.length ≤ 255 ∧
      written = code :: UInt8.ofNat bytes.length :: bytes := by
  obtain ⟨bytes, done⟩ := payload_ok prescribed
  have step : serializeOption (code, value) =
      (writeHead code bytes.length >>= fun head => pure (head ++ bytes)) := by
    rw [serializeOption, described]
    dsimp only
    rw [done]
    rfl
  rw [step, writeHead] at encoded
  split_ifs at encoded with long
  · cases encoded
  · cases encoded
    exact ⟨bytes, done, Nat.le_of_not_lt long, rfl⟩

/-- An option that was written is read, and put behind the options with smaller codes. -/
theorem deserializeOptions_option (parse : Parse) {code : UInt8} {value : DhcpOptionValue}
    {written : List UInt8} (rest : List UInt8) {options : DhcpOption}
    (described : describe code = some info) (prescribed : Prescribed info value)
    (encoded : serializeOption (code, value) = .ok written)
    (behind : ∀ entry ∈ options.entries, entry.1.toNat < code.toNat) :
    ∃ after : DhcpOption, after.entries = options.entries ++ [(code, value)] ∧
      deserializeOptions parse options (written ++ rest) =
        deserializeOptions parse after rest := by
  obtain ⟨bytes, done, short, rfl⟩ := serializeOption_eq described prescribed encoded
  obtain ⟨notPad, notEnd⟩ := described_code described
  have size : (UInt8.ofNat bytes.length).toNat = bytes.length := by
    rw [UInt8.toNat_ofNat']
    omega
  refine ⟨_, insert_behind described prescribed parse behind, ?_⟩
  rw [List.cons_append, List.cons_append, deserializeOptions, if_neg notPad, if_neg notEnd, size,
    if_neg (by rw [List.length_append]; omega), List.take_left, List.drop_left]
  rw [deserializeOption, described]
  dsimp only
  rw [received_payload prescribed done]

/-- The options of a well typed list come back. -/
theorem deserializeOptions_entries (parse : Parse) (options : DhcpOption)
    {entries : List (UInt8 × DhcpOptionValue)} {written : List (List UInt8)} (rest : List UInt8)
    (typed : ∀ entry ∈ entries, ∃ info, describe entry.1 = some info ∧ Prescribed info entry.2)
    (ordered : (options.entries ++ entries).Pairwise
      fun first second => first.1.toNat < second.1.toNat)
    (encoded : entries.mapM serializeOption = .ok written) :
    ∃ after : DhcpOption, after.entries = options.entries ++ entries ∧
      deserializeOptions parse options (written.flatten ++ endOfOptions :: rest) =
        (true, after) := by
  induction entries generalizing options written with
  | nil =>
      cases encoded
      refine ⟨options, (List.append_nil _).symm, ?_⟩
      change deserializeOptions parse options (endOfOptions :: rest) = (true, options)
      rw [deserializeOptions.eq_def]
      rfl
  | cons entry entries ih =>
      obtain ⟨info, described, prescribed⟩ := typed entry List.mem_cons_self
      have later := fun other member => typed other (List.mem_cons_of_mem _ member)
      rw [List.mapM_cons] at encoded
      cases first : serializeOption entry with
      | error cause => rw [first] at encoded; cases encoded
      | ok head =>
          cases others : entries.mapM serializeOption with
          | error cause => rw [first, others] at encoded; cases encoded
          | ok tail =>
              rw [first, others] at encoded
              cases encoded
              have behind : ∀ old ∈ options.entries, old.1.toNat < entry.1.toNat :=
                fun old member => (List.pairwise_append.mp ordered).2.2 old member entry
                  List.mem_cons_self
              obtain ⟨middle, appended, step⟩ := deserializeOptions_option parse
                (tail.flatten ++ endOfOptions :: rest) described prescribed first behind
              have still : (middle.entries ++ entries).Pairwise
                  fun first second => first.1.toNat < second.1.toNat := by
                rw [appended, List.append_assoc]
                exact ordered
              obtain ⟨after, all, back⟩ := ih middle later still others
              refine ⟨after, ?_, ?_⟩
              · rw [all, appended, List.append_assoc]
                rfl
              · rw [List.flatten_cons, List.append_assoc, step, back]

/-- Padding carries no options. -/
theorem deserializeOptions_padding (options : DhcpOption) (count : ℕ) :
    deserializeOptions parse options (List.replicate count 0) = (true, options) := by
  induction count with
  | zero => rw [List.replicate_zero, deserializeOptions]
  | succ count ih =>
      rw [List.replicate_succ, deserializeOptions.eq_def]
      exact ih

/-- An option list that was written comes back. -/
theorem deserializeOptions_serializeOptions {options : DhcpOption} {written : List UInt8}
    (typed : WellTyped options) (encoded : serializeOptions options = .ok written)
    (rest : List UInt8) :
    deserializeOptions parse SortedMap.empty (written ++ rest) = (true, options) := by
  rw [serializeOptions] at encoded
  cases all : options.entries.mapM serializeOption with
  | error cause => rw [all] at encoded; cases encoded
  | ok parts =>
      rw [all] at encoded
      cases encoded
      obtain ⟨after, same, back⟩ := deserializeOptions_entries parse SortedMap.empty rest typed
        options.ordered all
      have equal : after = options := SortedMap.ext same
      rw [List.append_assoc, List.singleton_append, back, equal]

/-! ## Messages -/

theorem extract_append {taken : List UInt8} {size : ℕ} (length : taken.length = size)
    (rest : List UInt8) : extract size (taken ++ rest) = some (taken, rest) := by
  rw [extract, if_neg (by rw [List.length_append]; omega), List.take_left' length,
    List.drop_left' length]

theorem readAddress_writeAddress {address : IpAddress} (family : address.isIpv4)
    (rest : List UInt8) : readAddress (writeAddress address ++ rest) = some (address, rest) := by
  cases address with
  | ipv6 octets scope => exact absurd family Bool.false_ne_true
  | ipv4 octets =>
      rw [readAddress, writeAddress, if_pos family, addr_take, extract_append octets.length_eq,
        Option.map_some, Octets.ofMemory_bytes]

/-- The fields carry no options, whatever the message says. -/
theorem deserializeOverload_zeros (packet : DhcpPacket) (snameSize fileSize : ℕ) :
    deserializeOverload parse (List.replicate snameSize 0) (List.replicate fileSize 0) packet =
      (true, packet) := by
  unfold deserializeOverload
  split
  · simp only [deserializeOptions_padding, ite_self, if_true]
  · rfl

/-- The fixed part of a message is read back, and the options after it. -/
theorem deserialize_header {packet : DhcpPacket} (fresh : DhcpPacket) {rest : List UInt8}
    (operation : wrongOperation packet.op = false)
    (client : packet.client.isIpv4) (your : packet.your.isIpv4)
    (server : packet.server.isIpv4) (gateway : packet.gateway.isIpv4)
    (options : deserializeOptions parse SortedMap.empty rest = (true, packet.options)) :
    deserialize parse fresh (header packet ++ rest) = (true, packet) := by
  have id : packet.id.toNat < 256 ^ 4 := packet.id.toNat_lt
  have secs : packet.secs.toNat < 256 ^ 2 := packet.secs.toNat_lt
  have flags : packet.flags.toNat < 256 ^ 2 := packet.flags.toNat_lt
  have chaddr : (packet.hardware.bytes ++ List.replicate 10 (0 : UInt8)).length = 16 := by
    rw [List.length_append, packet.hardware.length_eq, List.length_replicate]
  have hardware : Octets.ofMemory 6 (packet.hardware.bytes ++ List.replicate 10 0) =
      packet.hardware := by
    apply Octets.ext_bytes
    change (packet.hardware.bytes ++ List.replicate 10 0 ++ List.replicate 6 0).take 6 = _
    rw [List.append_assoc, List.take_left' packet.hardware.length_eq]
  have cookie : beValue (beBytes 4 magicCookie) = magicCookie := by
    rw [beValue_beBytes]
    rfl
  simp only [header, List.append_assoc, List.replicate_add]
  have head : [packet.op, ethernet, 6, 0].length = 4 := rfl
  rw [deserialize, extract_append head]
  simp only [List.getD_cons_zero, List.getD_cons_succ, operation, ne_eq, not_true, decide_false,
    Bool.or_false, Bool.false_eq_true, if_false]
  rw [extract_append (length_beBytes 4 _)]
  simp only
  rw [extract_append (length_beBytes 2 _)]
  simp only
  rw [extract_append (length_beBytes 2 _)]
  simp only
  rw [deserializeAddresses, readAddress_writeAddress client]
  simp only
  rw [readAddress_writeAddress your]
  simp only
  rw [readAddress_writeAddress server]
  simp only
  rw [readAddress_writeAddress gateway]
  simp only
  rw [← List.append_assoc packet.hardware.bytes, extract_append chaddr]
  simp only
  rw [deserializeFields, extract_append List.length_replicate]
  simp only
  rw [extract_append List.length_replicate]
  simp only
  rw [extract_append (length_beBytes 4 _)]
  simp only [cookie, ne_eq, not_true, if_false, options, if_true]
  rw [deserializeOverload_zeros, hardware]
  simp only [beValue_beBytes, Nat.mod_eq_of_lt id, Nat.mod_eq_of_lt secs, Nat.mod_eq_of_lt flags,
    UInt32.ofNat_toNat, UInt16.ofNat_toNat]

/-- The option list that a sequence of calls of `insert` builds. -/
def inserts (parse : Parse) (calls : List (UInt8 × Argument)) : DhcpOption :=
  calls.foldl (fun options call => (options.insert parse call.1 call.2).1) SortedMap.empty

theorem wellTyped_inserts (parse : Parse) (calls : List (UInt8 × Argument)) :
    WellTyped (inserts parse calls) := by
  have kept : ∀ options : DhcpOption, WellTyped options → WellTyped
      (calls.foldl (fun options call => (options.insert parse call.1 call.2).1) options) := by
    induction calls with
    | nil => exact fun options typed => typed
    | cons call calls ih => exact fun options typed => ih _ (typed.insert parse call.1 call.2)
  exact kept _ wellTyped_empty

/-- A packet with IPv4 addresses, whose options were put there by `insert`, comes back from
the bytes that `serialize` writes for it. -/
theorem message_comes_back (parse reading : Parse) (fresh packet : DhcpPacket)
    (calls : List (UInt8 × Argument)) (written : List UInt8)
    (client : packet.client.isIpv4) (your : packet.your.isIpv4)
    (server : packet.server.isIpv4) (gateway : packet.gateway.isIpv4)
    (built : packet.options = inserts parse calls) (done : serialize packet = .ok written) :
    deserialize reading fresh written = (true, packet) := by
  have typed : WellTyped packet.options := by
    rw [built]
    exact wellTyped_inserts parse calls
  rw [serialize] at done
  split_ifs at done with operation
  rw [Bool.not_eq_true] at operation
  cases encoded : serializeOptions packet.options with
  | error cause => rw [encoded] at done; cases done
  | ok options =>
      rw [encoded] at done
      cases done
      rw [List.append_assoc]
      exact deserialize_header fresh operation client your server gateway
        (deserializeOptions_serializeOptions typed encoded _)

/-- Calls that build an option list with an overload, of which the last one is refused. -/
def sampleCalls : List (UInt8 × Argument) :=
  [(51, .integer 3600), (52, .integer 3), (12, .string [0x68]), (2, .integer (-60)),
    (25, .words [68, 1500]), (6, .ips [.ipv4 (Octets.zero 4)]), (52, .integer 1)]

/-- A request with these options. -/
def samplePacket : DhcpPacket :=
  { op := 1, id := 0xCAFE, options := inserts ⟨fun _ => none, fun _ => none⟩ sampleCalls }

theorem message_comes_back_sample : ∃ written, serialize samplePacket = .ok written ∧
    deserialize ⟨fun _ => none, fun _ => none⟩ {} written = (true, samplePacket) :=
  ⟨_, rfl, message_comes_back _ _ _ _ sampleCalls _ rfl rfl rfl rfl rfl rfl⟩

end Join.DhcpMessage
