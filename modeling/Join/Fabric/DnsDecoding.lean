import Join.Library.DomainName
import Join.Fabric.DnsNames

/-!
# Decoding a name anywhere in a message

`DnsMessage::decodeName` follows pointers by a recursive call and the labels by a loop that has
no bound of its own. The loop is therefore also given with a number of turns that it may take,
those of the recursive calls included, and a number that is always enough.

When it succeeds, `decodeName` has read the name at the position with labels up to 191, through
ten pointers at most: the labels with dots between them are the result, and the stream stands
behind the bytes of the name. The format has labels up to 63 only, since it keeps the length
bytes from 64 to 191 for other purposes, and `decodeName` reads them as lengths.
-/

set_option autoImplicit false
set_option maxRecDepth 1024

namespace Join.DnsMessage

open Library

/-! ## The loop with a bound -/

/-- `DnsMessage::decodeName` with the number of turns that its loop may take. -/
def decodeNameWithin : ℕ → ℕ → List UInt8 → InStream → Option (Bool × List UInt8 × InStream)
  | 0, _, _, _ => none
  | turns + 1, depth, name, data =>
      if depth > 10 then some (false, name, data)
      else
        let head := data.read 1
        if head.2.failed then some (false, name, head.2)
        else
          let first := head.1.headD 0
          if first &&& 0xC0 = 0xC0 then
            let tail := head.2.read 1
            if tail.2.failed then some (false, name, tail.2)
            else
              let second := tail.1.headD 0
              let ptr := ((first &&& 0x3F).toNat <<< 8) ||| second.toNat
              let saved := tail.2.tellg
              (decodeNameWithin turns (depth + 1) name (tail.2.seekg ptr)).map fun inner =>
                if inner.1 then (true, inner.2.1, inner.2.2.seekg saved) else inner
          else if first = 0 then some (true, dropDot name, head.2)
          else
            let label := head.2.read first.toNat
            let name := name ++ overwrite (List.replicate first.toNat 0) label.1
            if label.2.failed then some (false, name, label.2)
            else decodeNameWithin turns depth (name ++ [dot]) label.2

/-- The turns that are enough at a depth, in a stream with some bytes left. -/
def turnsFor (depth : ℕ) (data : InStream) : ℕ :=
  (11 - depth) * (data.bytes.length + 1) + (data.bytes.length - data.pos) + 1

/-- Behind a pointer one turn less is enough, wherever the pointer leads. -/
theorem turnsFor_pointer {depth : ℕ} {data target : InStream} (shallow : ¬depth > 10)
    (bytes : target.bytes = data.bytes) : turnsFor (depth + 1) target < turnsFor depth data := by
  have levels : 11 - depth = 11 - (depth + 1) + 1 := by omega
  rw [turnsFor, turnsFor, bytes, levels, Nat.add_mul, Nat.one_mul]
  omega

/-- Behind a label one turn less is enough. -/
theorem turnsFor_label {depth count : ℕ} {data : InStream}
    (whole : ((data.read 1).2.read count).2.failed = false) :
    turnsFor depth ((data.read 1).2.read count).2 < turnsFor depth data := by
  have closer := InStream.remaining_counted whole
  rw [turnsFor, turnsFor]
  simp only [InStream.read_bytes] at closer ⊢
  omega

/-- The loop ends within its turns, and gives what `decodeName` gives. -/
theorem decodeNameWithin_of_turns (turns depth : ℕ) (name : List UInt8) (data : InStream)
    (enough : turnsFor depth data ≤ turns) :
    decodeNameWithin turns depth name data = some (decodeName depth name data) := by
  induction turns generalizing depth name data with
  | zero => exact absurd enough (Nat.not_succ_le_zero _)
  | succ turns inductionHypothesis =>
      rw [decodeName, decodeNameWithin]
      by_cases deep : depth > 10
      · rw [if_pos deep, if_pos deep]
      · rw [if_neg deep, if_neg deep]
        dsimp only
        split_ifs with ended pointer cut inner zero short
        · rfl
        · rfl
        · rw [inductionHypothesis _ _ _ ?_, Option.map_some, if_pos inner]
          exact Nat.le_of_lt_succ (lt_of_lt_of_le (turnsFor_pointer deep (by simp)) enough)
        · rw [inductionHypothesis _ _ _ ?_, Option.map_some, if_neg inner]
          exact Nat.le_of_lt_succ (lt_of_lt_of_le (turnsFor_pointer deep (by simp)) enough)
        · rfl
        · rfl
        · apply inductionHypothesis
          have whole := Bool.eq_false_of_not_eq_true short
          exact Nat.le_of_lt_succ (lt_of_lt_of_le (turnsFor_label whole) enough)

/-! ## The name at a position -/

variable {depth pos hops stop : ℕ} {name bytes : List UInt8} {labels : List (List UInt8)}

/-- A byte that stands at the position is read. -/
theorem read_byte {byte : UInt8} (here : bytes[pos]? = some byte) :
    (InStream.mk bytes pos false).read 1 = ([byte], ⟨bytes, pos + 1, false⟩) := by
  obtain ⟨inside, same⟩ := List.getElem?_eq_some_iff.mp here
  rw [InStream.read_inside inside, List.drop_eq_getElem_cons inside, same]
  rfl

/-- The position that a pointer gives. -/
theorem pointer_target {high : UInt8} (upper : 192 ≤ high.toNat) (low : UInt8) :
    ((high &&& 0x3F).toNat <<< 8) ||| low.toNat = (high.toNat - 192) * 256 + low.toNat := by
  have lower : (high &&& 0x3F).toNat = high.toNat - 192 := by
    revert high
    decide
  rw [← Nat.shiftLeft_add_eq_or_of_lt low.toNat_lt, lower, Nat.shiftLeft_eq]

/-- A zero byte ends the name. -/
theorem decodeName_root (few : depth ≤ 10) (zero : bytes[pos]? = some 0) :
    decodeName depth name ⟨bytes, pos, false⟩ = (true, dropDot name, ⟨bytes, pos + 1, false⟩) := by
  rw [decodeName, if_neg (Nat.not_lt.mpr few)]
  simp [read_byte zero]

/-- A label is added to the name. -/
theorem decodeName_literal {length : UInt8} (few : depth ≤ 10)
    (head : bytes[pos]? = some length) (filled : length ≠ 0) (short : length.toNat ≤ 191)
    (whole : pos + 1 + length.toNat ≤ bytes.length) :
    decodeName depth name ⟨bytes, pos, false⟩ =
      decodeName depth (name ++ (bytes.drop (pos + 1)).take length.toNat ++ [dot])
        ⟨bytes, pos + 1 + length.toNat, false⟩ := by
  have literal : ¬length &&& 0xC0 = 0xC0 := by
    rw [pointer_iff]
    omega
  have size : ((bytes.drop (pos + 1)).take length.toNat).length = length.toNat := by
    rw [List.length_take, List.length_drop]
    omega
  rw [decodeName, if_neg (Nat.not_lt.mpr few)]
  simp only [read_byte head, List.headD_cons, Bool.false_eq_true, if_false, if_neg literal,
    if_neg filled, InStream.read_inside whole, dite_false]
  rw [overwrite_of_length_le (by rw [List.length_replicate, size])]

/-- A pointer is followed, and the stream comes back behind it. -/
theorem decodeName_pointer {high low : UInt8} (few : depth ≤ 10)
    (head : bytes[pos]? = some high) (upper : 192 ≤ high.toNat)
    (tail : bytes[pos + 1]? = some low) :
    decodeName depth name ⟨bytes, pos, false⟩ =
      if (decodeName (depth + 1) name (InStream.seekg ((high.toNat - 192) * 256 + low.toNat : ℕ)
          ⟨bytes, pos + 2, false⟩)).1 then
        (true, (decodeName (depth + 1) name (InStream.seekg
          ((high.toNat - 192) * 256 + low.toNat : ℕ) ⟨bytes, pos + 2, false⟩)).2.1,
          InStream.seekg (pos + 2 : ℕ) (decodeName (depth + 1) name (InStream.seekg
            ((high.toNat - 192) * 256 + low.toNat : ℕ) ⟨bytes, pos + 2, false⟩)).2.2)
      else decodeName (depth + 1) name (InStream.seekg
        ((high.toNat - 192) * 256 + low.toNat : ℕ) ⟨bytes, pos + 2, false⟩) := by
  have isPointer := (pointer_iff high).mpr upper
  conv_lhs => rw [decodeName, if_neg (Nat.not_lt.mpr few)]
  simp only [read_byte head, read_byte tail, List.headD_cons, Bool.false_eq_true, if_false,
    if_pos isPointer, pointer_target upper low, InStream.tellg]

/-- A position inside of the bytes is reached. -/
theorem seekg_inside {target : ℕ} (inside : target ≤ bytes.length) :
    InStream.seekg target ⟨bytes, pos, false⟩ = ⟨bytes, target, false⟩ := by
  have within : 0 ≤ (target : ℤ) ∧ (target : ℤ) ≤ bytes.length := by omega
  rw [InStream.seekg, if_neg Bool.false_ne_true, if_pos within, Int.toNat_natCast]

/-- A name with labels up to 191 is read through its pointers, if they are few enough. -/
theorem decodeName_of_nameAt (named : NameAt 191 bytes pos hops labels stop) :
    ∀ (depth : ℕ) (name : List UInt8), depth + hops ≤ 10 →
      decodeName depth name ⟨bytes, pos, false⟩ =
        (true, dropDot (name ++ labels.flatMap (· ++ [dot])), ⟨bytes, stop, false⟩) := by
  induction named with
  | root zero =>
      intro depth name few
      rw [decodeName_root (by omega) zero, List.flatMap_nil, List.append_nil]
  | label head filled short whole _ inductionHypothesis =>
      intro depth name few
      rw [decodeName_literal (by omega) head filled short whole, inductionHypothesis depth _ few,
        List.flatMap_cons, List.append_assoc, List.append_assoc, List.append_assoc]
  | @pointer pos hops stop high low labels head upper tail rest inductionHypothesis =>
      intro depth name few
      have inside : (high.toNat - 192) * 256 + low.toNat ≤ bytes.length :=
        (Nat.le_of_lt rest.lt_stop).trans rest.stop_le
      have behind : pos + 2 ≤ bytes.length := (List.getElem?_eq_some_iff.mp tail).1
      rw [decodeName_pointer (by omega) head upper tail, seekg_inside inside,
        inductionHypothesis (depth + 1) name (by omega), if_pos rfl, seekg_inside behind]

/-- A byte that was read stands at the position. -/
theorem byte_of_read {data : InStream} (present : ¬(data.read 1).2.failed = true) :
    ∃ byte, data.bytes[data.pos]? = some byte ∧
      data.read 1 = ([byte], ⟨data.bytes, data.pos + 1, false⟩) := by
  have whole := Bool.eq_false_of_not_eq_true present
  obtain ⟨bytes, pos, failed⟩ := data
  cases InStream.failed_of_read whole
  by_cases inside : pos < bytes.length
  · have here : bytes[pos]? = some bytes[pos] := List.getElem?_eq_getElem inside
    exact ⟨_, here, read_byte here⟩
  · exact absurd (InStream.read_beyond (by omega) Nat.zero_lt_one) present

/-- A pointer that was read stands at the position. -/
theorem pointer_of_read {data : InStream} (more : ¬(data.read 1).2.failed = true)
    (pointer : (data.read 1).1.headD 0 &&& 0xC0 = 0xC0)
    (present : ¬((data.read 1).2.read 1).2.failed = true) :
    ∃ high low, data.bytes[data.pos]? = some high ∧ 192 ≤ high.toNat ∧
      data.bytes[data.pos + 1]? = some low ∧
      ((((data.read 1).1.headD 0 &&& 0x3F).toNat <<< 8) |||
        (((data.read 1).2.read 1).1.headD 0).toNat) = (high.toNat - 192) * 256 + low.toNat ∧
      ((data.read 1).2.read 1).2 = ⟨data.bytes, data.pos + 2, false⟩ := by
  obtain ⟨high, here, read⟩ := byte_of_read more
  obtain ⟨low, there, readLow⟩ := byte_of_read present
  rw [read] at pointer there readLow ⊢
  have upper : 192 ≤ high.toNat := (pointer_iff high).mp pointer
  refine ⟨high, low, here, upper, there, ?_, congrArg Prod.snd readLow⟩
  rw [readLow]
  exact pointer_target upper low

/-- A label that was read stands at the position. -/
theorem label_of_read {data : InStream} (more : ¬(data.read 1).2.failed = true)
    (literal : ¬(data.read 1).1.headD 0 &&& 0xC0 = 0xC0) (nonzero : ¬(data.read 1).1.headD 0 = 0)
    (present : ¬((data.read 1).2.read ((data.read 1).1.headD 0).toNat).2.failed = true) :
    ∃ length, data.bytes[data.pos]? = some length ∧ length ≠ 0 ∧ length.toNat ≤ 191 ∧
      data.pos + 1 + length.toNat ≤ data.bytes.length ∧
      ((data.read 1).2.read ((data.read 1).1.headD 0).toNat).2 =
        ⟨data.bytes, data.pos + 1 + length.toNat, false⟩ := by
  obtain ⟨length, here, read⟩ := byte_of_read more
  rw [read] at literal nonzero present ⊢
  rw [List.headD_cons] at literal nonzero present ⊢
  have short : length.toNat ≤ 191 := by
    rw [pointer_iff] at literal
    omega
  have whole : data.pos + 1 + length.toNat ≤ data.bytes.length := by
    by_contra beyond
    have filled : 0 < length.toNat := Nat.pos_of_ne_zero fun zero =>
      nonzero (UInt8.toNat_inj.mp zero)
    exact present (InStream.read_beyond (Nat.lt_of_not_le beyond) filled)
  refine ⟨length, here, nonzero, short, whole, ?_⟩
  rw [InStream.read_inside whole]

/-- A position that is reached lies inside of the bytes. -/
theorem inside_of_seekg {target : ℕ}
    (reached : (InStream.seekg target ⟨bytes, pos, false⟩).failed = false) :
    target ≤ bytes.length := by
  by_contra beyond
  have outside : ¬(0 ≤ (target : ℤ) ∧ (target : ℤ) ≤ bytes.length) := by omega
  rw [InStream.seekg, if_neg Bool.false_ne_true, if_neg outside] at reached
  cases reached

/-- A failed stream holds no name, and stays failed. -/
theorem decodeName_of_failed {data : InStream} (failed : data.failed = true) :
    (decodeName depth name data).1 = false ∧ (decodeName depth name data).2.2.failed = true := by
  rw [decodeName, InStream.read_of_failed failed]
  by_cases deep : depth > 10
  · rw [if_pos deep]
    exact ⟨rfl, failed⟩
  · rw [if_neg deep]
    dsimp only
    rw [if_pos failed]
    exact ⟨rfl, failed⟩

/-- What `decodeName` reads with success is a name with labels up to 191. -/
theorem nameAt_of_decodeName {data : InStream} (found : (decodeName depth name data).1 = true) :
    ∃ hops labels stop, depth + hops ≤ 10 ∧ NameAt 191 data.bytes data.pos hops labels stop := by
  fun_induction decodeName depth name data with
  | case1 | case2 | case3 | case7 => cases found
  | case4 depth name data shallow head more first pointer tail present second ptr saved inner
      reached ih =>
      obtain ⟨high, low, here, upper, there, target, stands⟩ := pointer_of_read more pointer present
      obtain ⟨hops, labels, stop, few, named⟩ := ih reached
      have sound : (tail.2.seekg ptr).failed = false := by
        by_contra failed
        rw [show inner.1 = false from (decodeName_of_failed (Bool.of_not_eq_false failed)).1] at reached
        cases reached
      rw [show tail.2 = _ from stands, show ptr = _ from target] at named sound
      rw [seekg_inside (inside_of_seekg sound)] at named
      exact ⟨hops + 1, labels, _, by omega, .pointer here upper there named⟩
  | case5 depth name data shallow head more first pointer tail present second ptr inner lost ih =>
      exact absurd found lost
  | case6 depth name data shallow head more first literal zero =>
      obtain ⟨byte, here, read⟩ := byte_of_read more
      have same : first = byte := by simp only [first, head, read, List.headD_cons]
      rw [same.symm.trans zero] at here
      exact ⟨0, [], _, by omega, .root here⟩
  | case8 depth name data shallow head more first literal nonzero label longer short ih =>
      obtain ⟨length, here, filled, upTo, whole, stands⟩ :=
        label_of_read more literal nonzero short
      obtain ⟨hops, labels, stop, few, named⟩ := ih found
      rw [show label.2 = _ from stands] at named
      exact ⟨hops, _, stop, few, .label here filled upTo whole named⟩

/-! ## Exact decoding -/

/-- What `decodeName` reads with success at a position is the name there, with dots between its
labels, and the stream is left behind the bytes of the name. -/
def DecodesExactly (bytes : List UInt8) (pos : ℕ) : Prop :=
  ∀ name after, decodeName 0 [] ⟨bytes, pos, false⟩ = (true, name, after) →
    ∃ hops labels stop, NameAt 63 bytes pos hops labels stop ∧
      name = [dot].intercalate labels ∧ after = ⟨bytes, stop, false⟩

/-- No label that is reached through ten pointers at most has more than 63 bytes. -/
def LabelsInFormat (bytes : List UInt8) (pos : ℕ) : Prop :=
  ∀ hops labels stop, hops ≤ 10 → NameAt 191 bytes pos hops labels stop →
    ∀ label ∈ labels, label.length ≤ 63

theorem decodesExactly_iff (bytes : List UInt8) (pos : ℕ) :
    DecodesExactly bytes pos ↔ LabelsInFormat bytes pos := by
  constructor
  · intro exactly hops labels stop few named
    have decoded := decodeName_of_nameAt named 0 [] (by omega)
    obtain ⟨_, labels', _, inFormat, -, -⟩ := exactly _ _ decoded
    obtain ⟨-, same, -⟩ := named.unique (by decide) (inFormat.mono (by decide))
    rw [same]
    exact inFormat.length_le
  · intro inFormat name after found
    obtain ⟨hops, labels, stop, few, named⟩ :=
      @nameAt_of_decodeName _ _ ⟨bytes, pos, false⟩ (congrArg Prod.fst found)
    rw [Nat.zero_add] at few
    have decoded := decodeName_of_nameAt named 0 [] (by omega)
    rw [found, List.nil_append, dropDot_flatMap] at decoded
    cases decoded
    exact ⟨hops, labels, stop, named.restrict (inFormat hops labels stop few named), rfl, rfl⟩

/-- On every input the loop ends, and what is read is exactly the name if and only if no length
byte from 64 to 191 is taken for the length of a label. -/
theorem name_decoded_exactly_iff (bytes : List UInt8) (pos : ℕ) :
    decodeNameWithin (12 * (bytes.length + 1)) 0 [] ⟨bytes, pos, false⟩ =
        some (decodeName 0 [] ⟨bytes, pos, false⟩) ∧
      (DecodesExactly bytes pos ↔ LabelsInFormat bytes pos) := by
  refine ⟨decodeNameWithin_of_turns _ _ _ _ ?_, decodesExactly_iff bytes pos⟩
  rw [turnsFor]
  dsimp only
  omega

/-- A length byte of 64, which the format does not have, with as many bytes behind it. -/
def reservedLength : List UInt8 := 64 :: List.replicate 64 0x61 ++ [0]

theorem reserved_length_decoded : ¬∀ bytes pos, DecodesExactly bytes pos := by
  intro exactly
  have label : NameAt 191 reservedLength 0 0 [List.replicate 64 0x61] 66 :=
    @NameAt.label 191 reservedLength 0 0 66 64 [] rfl (by decide) (by decide) (by decide)
      (.root rfl)
  have inFormat := (decodesExactly_iff _ 0).mp (exactly _ 0) 0 _ _ (by decide) label
  exact absurd (inFormat _ (List.mem_singleton_self _)) (by decide)

end Join.DnsMessage
