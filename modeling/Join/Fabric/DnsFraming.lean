import Join.Fabric.DnsDecoding
import Join.Fabric.DnsTruncation

/-!
# Where a record ends

Behind its name and its fixed fields a record has the number of bytes of its data, and then the
data. `DnsMessage::decodeResource` looks at that number only for `TXT` records, which it reads
string by string until the number is reached, and for types that it does not know, which it
skips. For every other type it reads the fields of the type, however many bytes they take, so
that the next record is decoded from wherever they end. The record is in its frame if and only
if the fields happen to take the number of bytes that it announces.

A `SOA` record has a corner of its own: a mail address that goes through more than ten pointers
is given up, but the record is not, and the numbers behind it are read where the eleventh
pointer leads.
-/

set_option autoImplicit false

namespace Join.DnsMessage

open Library

variable {bytes : List UInt8} {pos stop depth hops target count : ℕ} {name : List UInt8}

/-! ## Names in the way -/

/-- The bytes of the name at a position end at `stop`. -/
def NameEnds (bytes : List UInt8) (pos stop : ℕ) : Prop :=
  ∃ hops labels, hops ≤ 10 ∧ NameAt 191 bytes pos hops labels stop

theorem NameEnds.unique {stop' : ℕ} (ends : NameEnds bytes pos stop)
    (again : NameEnds bytes pos stop') : stop = stop' := by
  obtain ⟨_, _, _, named⟩ := ends
  obtain ⟨_, _, _, named'⟩ := again
  exact (named.unique (by decide) named').2.2

theorem NameEnds.pos_lt (ends : NameEnds bytes pos stop) : pos < bytes.length := by
  obtain ⟨_, _, _, named⟩ := ends
  exact lt_of_lt_of_le named.lt_stop named.stop_le

theorem NameEnds.decoded (ends : NameEnds bytes pos stop) :
    ∃ name, decodeName 0 [] ⟨bytes, pos, false⟩ = (true, name, ⟨bytes, stop, false⟩) := by
  obtain ⟨_, _, few, named⟩ := ends
  exact ⟨_, decodeName_of_nameAt named 0 [] (by omega)⟩

theorem nameEnds_of_decoded (found : (decodeName 0 [] ⟨bytes, pos, false⟩).1 = true) :
    ∃ stop, NameEnds bytes pos stop := by
  obtain ⟨hops, labels, stop, few, named⟩ := nameAt_of_decodeName found
  exact ⟨stop, hops, labels, by omega, named⟩

theorem NameEnds.ownName (ends : NameEnds bytes pos stop) :
    ∃ name, decodeOwnName ⟨bytes, pos, false⟩ = some (name, ⟨bytes, stop, false⟩) := by
  obtain ⟨name, decoded⟩ := ends.decoded
  exact ⟨name, by rw [decodeOwnName, decoded]; rfl⟩

theorem nameEnds_of_ownName {after : InStream}
    (found : decodeOwnName ⟨bytes, pos, false⟩ = some (name, after)) :
    ∃ stop, NameEnds bytes pos stop ∧ after = ⟨bytes, stop, false⟩ := by
  rw [decodeOwnName] at found
  split_ifs at found with decoded
  obtain ⟨stop, ends⟩ := nameEnds_of_decoded decoded
  obtain ⟨name', whole⟩ := ends.decoded
  rw [whole] at found
  cases found
  exact ⟨stop, ends, rfl⟩

/-- A name behind some bytes. -/
theorem nameEnds_behind {after : InStream} (some' : 0 < count)
    (found : decodeOwnName ((InStream.mk bytes pos false).read count).2 = some (name, after)) :
    ∃ stop, NameEnds bytes (pos + count) stop ∧ after = ⟨bytes, stop, false⟩ := by
  by_cases inside : pos + count ≤ bytes.length
  · rw [InStream.read_inside inside] at found
    exact nameEnds_of_ownName found
  · have failed := InStream.read_beyond (Nat.lt_of_not_le inside) some'
    rw [decodeOwnName_spent (InStream.spent_of_failed failed)] at found
    cases found

theorem NameEnds.ownName_behind (ends : NameEnds bytes (pos + count) stop) :
    ∃ name, decodeOwnName ((InStream.mk bytes pos false).read count).2 =
      some (name, ⟨bytes, stop, false⟩) := by
  rw [InStream.read_inside (Nat.le_of_lt ends.pos_lt)]
  exact ends.ownName

/-! ## The mail address that is given up -/

/-- The last of as many pointers leads to the target. -/
inductive Leads (bytes : List UInt8) : ℕ → ℕ → ℕ → Prop
  | last {pos : ℕ} {high low : UInt8} (head : bytes[pos]? = some high)
      (upper : 192 ≤ high.toNat) (tail : bytes[pos + 1]? = some low)
      (inside : (high.toNat - 192) * 256 + low.toNat ≤ bytes.length) :
      Leads bytes pos 1 ((high.toNat - 192) * 256 + low.toNat)
  | label {pos hops target : ℕ} {length : UInt8} (head : bytes[pos]? = some length)
      (filled : length ≠ 0) (short : length.toNat ≤ 191)
      (whole : pos + 1 + length.toNat ≤ bytes.length)
      (rest : Leads bytes (pos + 1 + length.toNat) hops target) : Leads bytes pos hops target
  | pointer {pos hops target : ℕ} {high low : UInt8} (head : bytes[pos]? = some high)
      (upper : 192 ≤ high.toNat) (tail : bytes[pos + 1]? = some low)
      (rest : Leads bytes ((high.toNat - 192) * 256 + low.toNat) hops target) :
      Leads bytes pos (hops + 1) target

theorem Leads.pos_lt (leads : Leads bytes pos hops target) : pos < bytes.length := by
  cases leads with
  | last head => exact (List.getElem?_eq_some_iff.mp head).1
  | label head => exact (List.getElem?_eq_some_iff.mp head).1
  | pointer head => exact (List.getElem?_eq_some_iff.mp head).1

theorem Leads.hops_pos (leads : Leads bytes pos hops target) : 0 < hops := by
  induction leads with
  | last => exact Nat.one_pos
  | label _ _ _ _ _ inductionHypothesis => exact inductionHypothesis
  | pointer => exact Nat.succ_pos _

/-- The eleventh pointer is followed, and the name is given up there. -/
theorem decodeName_of_leads (leads : Leads bytes pos hops target) :
    ∀ (depth : ℕ) (name : List UInt8), depth + hops = 11 →
      ∃ text, decodeName depth name ⟨bytes, pos, false⟩ = (false, text, ⟨bytes, target, false⟩) := by
  induction leads with
  | last head upper tail inside =>
      intro depth name many
      refine ⟨name, ?_⟩
      have given : ∀ data, decodeName (depth + 1) name data = (false, name, data) := by
        intro data
        rw [decodeName, if_pos (by omega)]
      rw [decodeName_pointer (by omega) head upper tail, seekg_inside inside, given]
      rfl
  | label head filled short whole rest inductionHypothesis =>
      intro depth name many
      have some' := rest.hops_pos
      rw [decodeName_literal (by omega) head filled short whole]
      exact inductionHypothesis depth _ many
  | pointer head upper tail rest inductionHypothesis =>
      intro depth name many
      obtain ⟨text, given⟩ := inductionHypothesis (depth + 1) name (by omega)
      refine ⟨text, ?_⟩
      rw [decodeName_pointer (by omega) head upper tail, seekg_inside (Nat.le_of_lt rest.pos_lt),
        given]
      rfl

/-- A name that is not read, in a stream that has not failed, was given up there. -/
theorem leads_of_decodeName {data : InStream} (shallow : depth ≤ 10)
    (lost : (decodeName depth name data).1 = false)
    (sound : (decodeName depth name data).2.2.failed = false) :
    ∃ target, Leads data.bytes data.pos (11 - depth) target := by
  fun_induction decodeName depth name data with
  | case1 depth name data deep => omega
  | case2 depth name data _ head ended => exact absurd ended (ne_true_of_eq_false sound)
  | case3 depth name data _ head more first pointer tail ended =>
      exact absurd ended (ne_true_of_eq_false sound)
  | case4 | case6 => cases lost
  | case5 depth name data _ head more first pointer tail present second ptr inner missed ih =>
      obtain ⟨high, low, here, upper, there, target, stands⟩ := pointer_of_read more pointer present
      have reached : (tail.2.seekg ptr).failed = false := by
        by_contra failed
        have broken := (@decodeName_of_failed (depth + 1) name _ (Bool.of_not_eq_false failed)).2
        exact absurd broken (ne_true_of_eq_false sound)
      rw [show tail.2 = _ from stands, show ptr = _ from target] at reached
      have inside := inside_of_seekg reached
      by_cases last : depth = 10
      · subst last
        exact ⟨_, .last here upper there inside⟩
      · obtain ⟨target', leads⟩ := ih (by omega) lost sound
        rw [show tail.2 = _ from stands, show ptr = _ from target, seekg_inside inside] at leads
        rw [show 11 - depth = 11 - (depth + 1) + 1 by omega]
        exact ⟨target', .pointer here upper there leads⟩
  | case7 depth name data _ head more first literal nonzero label longer short =>
      exact absurd short (ne_true_of_eq_false sound)
  | case8 depth name data _ head more first literal nonzero label longer short ih =>
      obtain ⟨length, here, filled, upTo, whole, stands⟩ :=
        label_of_read more literal nonzero short
      obtain ⟨target, leads⟩ := ih shallow lost sound
      rw [show label.2 = _ from stands] at leads
      exact ⟨target, .label here filled upTo whole leads⟩

/-! ## The fields of a type -/

/-- Sixteen bits at a position, with zeros for what the bytes do not have. -/
def word16 (bytes : List UInt8) (pos : ℕ) : UInt16 :=
  UInt16.ofNat (beValue (overwrite [0, 0] ((bytes.drop pos).take 2)))

/-- Where a stream stands that has been moved to a position. -/
def standsAt (bytes : List UInt8) (pos : ℕ) : ℤ := if pos ≤ bytes.length then pos else -1

/-- The mail address at a position ends or is given up at `stop`. -/
def MailEnds (bytes : List UInt8) (pos stop : ℕ) : Prop :=
  NameEnds bytes pos stop ∨ Leads bytes pos 11 stop

/-- Counted strings in a row, the last of which is the first to reach the limit. -/
inductive StringsEnd (bytes : List UInt8) (limit : ℕ) : ℕ → ℕ → Prop
  | done {pos : ℕ} (reached : limit ≤ pos) : StringsEnd bytes limit pos pos
  | string {pos stop : ℕ} {length : UInt8} (more : pos < limit)
      (head : bytes[pos]? = some length) (whole : pos + 1 + length.toNat ≤ bytes.length)
      (rest : StringsEnd bytes limit (pos + 1 + length.toNat) stop) : StringsEnd bytes limit pos stop

/-- Where the fields of a type end, in data of some length that begins at `start`: a position,
or `-1` when the bytes end before. -/
inductive FieldsEnd (bytes : List UInt8) (start length : ℕ) : RecordType → ℤ → Prop
  | a : FieldsEnd bytes start length .a (standsAt bytes (start + 4))
  | aaaa : FieldsEnd bytes start length .aaaa (standsAt bytes (start + 16))
  | ns {stop : ℕ} (name : NameEnds bytes start stop) : FieldsEnd bytes start length .ns stop
  | cname {stop : ℕ} (name : NameEnds bytes start stop) : FieldsEnd bytes start length .cname stop
  | ptr {stop : ℕ} (name : NameEnds bytes start stop) : FieldsEnd bytes start length .ptr stop
  | mx {stop : ℕ} (name : NameEnds bytes (start + 2) stop) :
      FieldsEnd bytes start length .mx stop
  | soa {middle stop : ℕ} (name : NameEnds bytes start middle)
      (mail : MailEnds bytes middle stop) :
      FieldsEnd bytes start length .soa (standsAt bytes (stop + 20))
  | soaCut {middle : ℕ} (name : NameEnds bytes start middle)
      (cut : ∀ stop, ¬MailEnds bytes middle stop) : FieldsEnd bytes start length .soa (-1)
  | txt {stop : ℕ} (strings : StringsEnd bytes (start + length) start stop) :
      FieldsEnd bytes start length .txt stop
  | srv {stop : ℕ} (name : NameEnds bytes (start + 6) stop) :
      FieldsEnd bytes start length .srv stop
  | other : FieldsEnd bytes start length .other (standsAt bytes (start + length))

/-- A stream that has read some bytes. -/
theorem tellg_read (some' : 0 < count) :
    ((InStream.mk bytes pos false).read count).2.tellg = standsAt bytes (pos + count) := by
  rw [standsAt]
  split_ifs with inside
  · rw [InStream.read_inside inside]
    rfl
  · exact InStream.tellg_of_failed (InStream.read_beyond (Nat.lt_of_not_le inside) some')

theorem tellg_seekg (target : ℕ) :
    (InStream.seekg target ⟨bytes, pos, false⟩).tellg = standsAt bytes target := by
  rw [standsAt]
  split_ifs with inside
  · rw [seekg_inside inside]
    rfl
  · refine InStream.tellg_of_failed ?_
    by_contra sound
    exact inside (inside_of_seekg (Bool.eq_false_of_not_eq_true sound))

/-- The stream behind a mail address is that behind its name. -/
theorem decodeMail_stream (data : InStream) : (decodeMail data).2 = (decodeName 0 [] data).2.2 := by
  rw [decodeMail]
  split_ifs <;> rfl

theorem MailEnds.stream (ends : MailEnds bytes pos stop) :
    (decodeMail ⟨bytes, pos, false⟩).2 = ⟨bytes, stop, false⟩ := by
  rw [decodeMail_stream]
  rcases ends with ends | leads
  · obtain ⟨name, decoded⟩ := ends.decoded
    rw [decoded]
  · obtain ⟨text, given⟩ := decodeName_of_leads leads 0 [] rfl
    rw [given]

/-- Behind a mail address that neither ends nor is given up the stream has failed. -/
theorem failed_of_decodeMail (cut : ∀ stop, ¬MailEnds bytes pos stop) :
    (decodeMail ⟨bytes, pos, false⟩).2.failed = true := by
  rw [decodeMail_stream]
  by_contra sound
  rw [Bool.not_eq_true] at sound
  cases found : (decodeName 0 [] ⟨bytes, pos, false⟩).1 with
  | true =>
      obtain ⟨stop, ends⟩ := nameEnds_of_decoded found
      exact cut stop (.inl ends)
  | false =>
      obtain ⟨target, leads⟩ := leads_of_decodeName (Nat.zero_le _) found sound
      exact cut target (.inr leads)

/-- Strings in a row are read. -/
theorem decodeTxts_of_strings {start length : ℕ}
    (strings : StringsEnd bytes (start + length) pos stop) :
    ∀ txts, ∃ found, decodeTxts start length txts ⟨bytes, pos, false⟩ =
      some (found, ⟨bytes, stop, false⟩) := by
  induction strings with
  | @done pos reached =>
      intro txts
      have reached' : ¬(InStream.tellg ⟨bytes, pos, false⟩ ≠ -1 ∧
          InStream.tellg ⟨bytes, pos, false⟩ - start < length) := by
        simp only [InStream.tellg, Bool.false_eq_true, if_false]
        omega
      exact ⟨txts, by rw [decodeTxts, if_neg reached']⟩
  | @string pos stop size more head whole rest inductionHypothesis =>
      intro txts
      have more' : InStream.tellg ⟨bytes, pos, false⟩ ≠ -1 ∧
          InStream.tellg ⟨bytes, pos, false⟩ - start < length := by
        simp only [InStream.tellg, Bool.false_eq_true, if_false]
        omega
      obtain ⟨found, read⟩ :=
        inductionHypothesis (txts ++ [(bytes.drop (pos + 1)).take size.toNat])
      refine ⟨found, ?_⟩
      rw [decodeTxts, if_pos more']
      simp only [read_byte head, List.headD_cons, Bool.false_eq_true, if_false,
        InStream.read_inside whole, dite_false]
      exact read

/-- What is read are strings in a row. -/
theorem strings_of_decodeTxts {start length : ℕ} {txts found : List (List UInt8)}
    {data after : InStream} (sound : data.failed = false)
    (read : decodeTxts start length txts data = some (found, after)) :
    ∃ stop, StringsEnd data.bytes (start + length) data.pos stop ∧
      after = ⟨data.bytes, stop, false⟩ := by
  fun_induction decodeTxts start length txts data with
  | case1 | case2 => cases read
  | case3 txts data more size present txt short ih =>
      obtain ⟨length', here, stands⟩ := byte_of_read present
      have counted : (size.1.headD 0).toNat = length'.toNat := by
        simp only [size, stands, List.headD_cons]
      have read' : txt = (InStream.mk data.bytes (data.pos + 1) false).read length'.toNat := by
        simp only [txt, counted]
        simp only [size, stands]
      have whole : data.pos + 1 + length'.toNat ≤ data.bytes.length := by
        by_contra beyond
        have filled : 0 < length'.toNat := by
          have reached := (List.getElem?_eq_some_iff.mp here).1
          omega
        rw [read'] at short
        exact short (InStream.read_beyond (Nat.lt_of_not_le beyond) filled)
      rw [InStream.read_inside whole] at read'
      have under : data.pos < start + length := by
        have position := more.2
        rw [InStream.tellg, if_neg (ne_true_of_eq_false sound)] at position
        omega
      rw [read'] at ih read
      obtain ⟨stop, strings, same⟩ := ih rfl read
      exact ⟨stop, .string under here whole strings, same⟩
  | case4 txts data reached =>
      rw [InStream.tellg, if_neg (ne_true_of_eq_false sound)] at reached
      obtain ⟨bytes, pos, failed⟩ := data
      cases sound
      cases read
      exact ⟨pos, .done (by dsimp only at reached ⊢; omega), rfl⟩

/-! ## The data of a record -/

/-- The data of a record is read up to where its fields end. -/
theorem fieldsEnd_of_decodeData {stack : ℕ → UInt8} {start : ℕ} {length : UInt16}
    {resource result : ResourceRecord} {after : InStream}
    (decoded : decodeData stack length resource ⟨bytes, start, false⟩ = some (result, after)) :
    FieldsEnd bytes start length.toNat (RecordType.of resource.type) after.tellg := by
  unfold decodeData at decoded
  cases type : RecordType.of resource.type with
  | a =>
      rw [type] at decoded
      cases decoded
      rw [decodeAddress, tellg_read (by decide)]
      exact .a
  | aaaa =>
      rw [type] at decoded
      cases decoded
      rw [decodeAddress, tellg_read (by decide)]
      exact .aaaa
  | ns =>
      rw [type] at decoded
      obtain ⟨⟨name, rest⟩, own, same⟩ := Option.bind_eq_some_iff.mp decoded
      cases same
      obtain ⟨stop, ends, rfl⟩ := nameEnds_of_ownName own
      exact .ns ends
  | cname =>
      rw [type] at decoded
      obtain ⟨⟨name, rest⟩, own, same⟩ := Option.bind_eq_some_iff.mp decoded
      cases same
      obtain ⟨stop, ends, rfl⟩ := nameEnds_of_ownName own
      exact .cname ends
  | ptr =>
      rw [type] at decoded
      obtain ⟨⟨name, rest⟩, own, same⟩ := Option.bind_eq_some_iff.mp decoded
      cases same
      obtain ⟨stop, ends, rfl⟩ := nameEnds_of_ownName own
      exact .ptr ends
  | mx =>
      rw [type] at decoded
      obtain ⟨⟨name, rest⟩, own, same⟩ := Option.bind_eq_some_iff.mp decoded
      cases same
      obtain ⟨stop, ends, rfl⟩ := nameEnds_behind Nat.two_pos own
      exact .mx ends
  | soa =>
      rw [type] at decoded
      obtain ⟨⟨name, rest⟩, own, same⟩ := Option.bind_eq_some_iff.mp decoded
      obtain ⟨middle, ends, rfl⟩ := nameEnds_of_ownName own
      cases same
      simp only [read32_stream, InStream.read_read]
      by_cases mail : ∃ stop, MailEnds bytes middle stop
      · obtain ⟨stop, mail⟩ := mail
        rw [mail.stream, tellg_read (by decide)]
        exact .soa ends mail
      · have failed := failed_of_decodeMail (not_exists.mp mail)
        rw [InStream.read_of_failed failed, InStream.tellg_of_failed failed]
        exact .soaCut ends (not_exists.mp mail)
  | txt =>
      rw [type] at decoded
      obtain ⟨⟨txts, rest⟩, own, same⟩ := Option.bind_eq_some_iff.mp decoded
      cases same
      obtain ⟨stop, strings, rfl⟩ := strings_of_decodeTxts rfl own
      exact .txt strings
  | srv =>
      rw [type] at decoded
      obtain ⟨⟨name, rest⟩, own, same⟩ := Option.bind_eq_some_iff.mp decoded
      cases same
      simp only [read16_stream, InStream.read_read] at own
      obtain ⟨stop, ends, rfl⟩ := nameEnds_behind (by decide) own
      exact .srv ends
  | other =>
      rw [type] at decoded
      cases decoded
      have position : InStream.tellg ⟨bytes, start, false⟩ + (length.toNat : ℤ) =
          (start + length.toNat : ℕ) := rfl
      rw [position, tellg_seekg]
      exact .other

/-- Where the fields end, the data of the record is read, and the stream stands there. -/
theorem decodeData_of_fieldsEnd (stack : ℕ → UInt8) {start : ℕ} {length : UInt16} {position : ℤ}
    (resource : ResourceRecord)
    (ends : FieldsEnd bytes start length.toNat (RecordType.of resource.type) position) :
    ∃ result after, decodeData stack length resource ⟨bytes, start, false⟩ =
      some (result, after) ∧ after.tellg = position := by
  unfold decodeData
  cases type : RecordType.of resource.type with
  | a =>
      rw [type] at ends
      cases ends
      exact ⟨_, _, rfl, by rw [decodeAddress, tellg_read (by decide)]⟩
  | aaaa =>
      rw [type] at ends
      cases ends
      exact ⟨_, _, rfl, by rw [decodeAddress, tellg_read (by decide)]⟩
  | ns =>
      rw [type] at ends
      cases ends with
      | ns name =>
          obtain ⟨text, own⟩ := name.ownName
          simp only [own]
          exact ⟨_, _, rfl, rfl⟩
  | cname =>
      rw [type] at ends
      cases ends with
      | cname name =>
          obtain ⟨text, own⟩ := name.ownName
          simp only [own]
          exact ⟨_, _, rfl, rfl⟩
  | ptr =>
      rw [type] at ends
      cases ends with
      | ptr name =>
          obtain ⟨text, own⟩ := name.ownName
          simp only [own]
          exact ⟨_, _, rfl, rfl⟩
  | mx =>
      rw [type] at ends
      cases ends with
      | mx name =>
          obtain ⟨text, own⟩ := name.ownName_behind
          simp only [read16_stream, own]
          exact ⟨_, _, rfl, rfl⟩
  | soa =>
      rw [type] at ends
      cases ends with
      | soa name mail =>
          obtain ⟨text, own⟩ := name.ownName
          simp only [own]
          refine ⟨_, _, rfl, ?_⟩
          simp only [read32_stream, InStream.read_read]
          rw [mail.stream, tellg_read (by decide)]
      | soaCut name cut =>
          obtain ⟨text, own⟩ := name.ownName
          have failed := failed_of_decodeMail cut
          simp only [own]
          refine ⟨_, _, rfl, ?_⟩
          simp only [read32_stream, InStream.read_read]
          rw [InStream.read_of_failed failed, InStream.tellg_of_failed failed]
  | txt =>
      rw [type] at ends
      cases ends with
      | txt strings =>
          obtain ⟨found, read⟩ := decodeTxts_of_strings strings []
          have own : decodeTxts (InStream.tellg ⟨bytes, start, false⟩) length.toNat []
              ⟨bytes, start, false⟩ = _ := read
          simp only [own]
          exact ⟨_, _, rfl, rfl⟩
  | srv =>
      rw [type] at ends
      cases ends with
      | srv name =>
          obtain ⟨text, own⟩ := name.ownName_behind
          simp only [read16_stream, InStream.read_read, own]
          exact ⟨_, _, rfl, rfl⟩
  | other =>
      rw [type] at ends
      cases ends
      exact ⟨_, _, rfl, tellg_seekg (start + length.toNat)⟩

/-! ## Records in their frame -/

/-- When `decodeResource` succeeds at a position, a record with its fixed fields stands there,
and the stream is left where its data ends. -/
def Framed (stack : ℕ → UInt8) (bytes : List UInt8) (pos : ℕ) : Prop :=
  ∀ resource after, decodeResource stack ⟨bytes, pos, false⟩ = some (resource, after) →
    ∃ host, NameEnds bytes pos host ∧ host + 10 ≤ bytes.length ∧
      after.tellg = (host + 10 + (word16 bytes (host + 8)).toNat : ℕ)

/-- The record at a position has data of the length that the fields of its type take, or is cut
in its fixed fields and of a type with a name. -/
def FillsFrame (bytes : List UInt8) (pos : ℕ) : Prop :=
  ∀ host, NameEnds bytes pos host →
    (bytes.length < host + 10 → hasName (RecordType.of (word16 bytes host)) = true) ∧
    (host + 10 ≤ bytes.length → ∀ position,
      FieldsEnd bytes (host + 10) (word16 bytes (host + 8)).toNat
        (RecordType.of (word16 bytes host)) position →
      position = (host + 10 + (word16 bytes (host + 8)).toNat : ℕ))

/-- The fixed fields of a record are read behind its name, and then its data. -/
theorem decodeResource_behind (stack : ℕ → UInt8) {host : ℕ} (ends : NameEnds bytes pos host) :
    ∃ found : ResourceRecord, found.type = word16 bytes host ∧
      decodeResource stack ⟨bytes, pos, false⟩ =
        decodeData stack (read16 0 ((InStream.mk bytes host false).read 8).2).1 found
          ((InStream.mk bytes host false).read 10).2 := by
  obtain ⟨name, decoded⟩ := ends.decoded
  obtain ⟨found, same, type⟩ := decodeResource_fields stack decoded
  exact ⟨found, type, same⟩

/-- The number of bytes that a record announces. -/
theorem read16_behind {host : ℕ} (inside : host + 10 ≤ bytes.length) :
    (read16 0 ((InStream.mk bytes host false).read 8).2).1 = word16 bytes (host + 8) := by
  rw [InStream.read_inside (by omega)]
  rfl

theorem Framed.fillsFrame {stack : ℕ → UInt8} (framed : Framed stack bytes pos) :
    FillsFrame bytes pos := by
  intro host ends
  obtain ⟨found, type, whole⟩ := decodeResource_behind stack ends
  refine ⟨fun cut => ?_, fun inside position fields => ?_⟩
  · by_contra plain
    rw [Bool.not_eq_true, ← type] at plain
    have failed := InStream.read_beyond cut (show 0 < 10 by decide)
    obtain ⟨result, after, read, broken⟩ := decodeData_failed_plain failed plain
    obtain ⟨_, -, -, position⟩ := framed _ _ (whole.trans read)
    rw [InStream.tellg_of_failed broken] at position
    omega
  · rw [read16_behind inside, InStream.read_inside inside] at whole
    rw [← type] at fields
    obtain ⟨result, after, read, stands⟩ := decodeData_of_fieldsEnd stack found fields
    obtain ⟨host', ends', -, position⟩ := framed _ _ (whole.trans read)
    cases ends.unique ends'
    rw [← stands, position]

theorem FillsFrame.framed (fills : FillsFrame bytes pos) (stack : ℕ → UInt8) :
    Framed stack bytes pos := by
  intro resource after decoded
  have hosted : (decodeName 0 [] ⟨bytes, pos, false⟩).1 = true := by
    rw [decodeResource] at decoded
    split_ifs at decoded with hosted
    exact hosted
  obtain ⟨host, ends⟩ := nameEnds_of_decoded hosted
  obtain ⟨found, type, whole⟩ := decodeResource_behind stack ends
  obtain ⟨cut, inFrame⟩ := fills host ends
  rw [whole] at decoded
  have inside : host + 10 ≤ bytes.length := by
    by_contra beyond
    have short := Nat.lt_of_not_le beyond
    have failed := InStream.read_beyond short (show 0 < 10 by decide)
    rw [decodeData_failed_named failed (type ▸ cut short)] at decoded
    cases decoded
  rw [read16_behind inside, InStream.read_inside inside] at decoded
  have fields := fieldsEnd_of_decodeData decoded
  rw [type] at fields
  exact ⟨host, ends, inside, inFrame inside _ fields⟩

/-- A record is left where its data ends if and only if its data has the length of its
fields. -/
theorem record_framed_iff (stack : ℕ → UInt8) (bytes : List UInt8) (pos : ℕ) :
    Framed stack bytes pos ↔ FillsFrame bytes pos :=
  ⟨Framed.fillsFrame, fun fills => fills.framed stack⟩

/-- An `A` record of the root with five bytes of data. -/
def longAddress : List UInt8 := [0, 0, 1, 0, 1, 0, 0, 0, 0, 0, 5, 192, 0, 2, 1, 7]

/-- The fifth byte is taken for the beginning of the next record. -/
theorem address_leaves_frame :
    ¬∀ (stack : ℕ → UInt8) (bytes : List UInt8) (pos : ℕ), Framed stack bytes pos := by
  intro framed
  have root : NameEnds longAddress 0 1 := ⟨0, [], by decide, .root rfl⟩
  have fills := ((framed (fun _ => 0) longAddress 0).fillsFrame 1 root).2 (by decide)
  exact absurd (fills _ .a) (by decide +kernel)

end Join.DnsMessage
