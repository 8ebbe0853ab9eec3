import Join.Library.Base64

/-!
# The coding functions of the crypto library

`EVP_EncodeUpdate`, `EVP_EncodeFinal`, `EVP_DecodeUpdate` and `EVP_DecodeFinal` of the library
that the streams call. An encoding context keeps the bytes of an incomplete line of 48; a decoding
context keeps up to 63 characters of an incomplete line of 64. Blanks are skipped, a minus sign is
the end of the data, and padding may only be followed by padding.

A call reports some bytes as its output, and it may write more than it reports: the terminator of
an encoded line, and the bytes that padding takes away again.
-/

set_option autoImplicit false

namespace Join.Evp

open Library

/-- A call of a coding function: its result, the pending bytes or characters of the context after
it, the bytes that it reports as written, and the number of bytes that it writes into memory. -/
structure Call where
  status : ℤ
  pending : List UInt8
  out : List UInt8
  size : ℕ

/-! ## Encoding -/

/-- `'\\n'` -/
def newline : UInt8 := 10

/-- Lines of 48 bytes, each with a line break behind it. -/
def encodeLines : ℕ → List UInt8 → List UInt8
  | 0, _ => []
  | count + 1, data =>
      Base64.encode (data.take 48) ++ newline :: encodeLines count (data.drop 48)

/-- `EVP_EncodeUpdate`. -/
def encodeUpdate (pending data : List UInt8) : Call :=
  let all := pending ++ data
  let lines := encodeLines (all.length / 48) all
  { status := 1
    pending := all.drop (48 * (all.length / 48))
    out := lines
    size := if lines.isEmpty then 0 else lines.length + 1 }

/-- `EVP_EncodeFinal`. -/
def encodeFinal (pending : List UInt8) : Call :=
  if pending.isEmpty then { status := 1, pending := [], out := [], size := 0 }
  else
    let line := Base64.encode pending ++ [newline]
    { status := 1, pending := [], out := line, size := line.length + 1 }

/-! ## Decoding -/

/-- What a character is for the decoding functions. -/
inductive Kind
  | digit
  | padding
  | blank
  | softEnd
  | invalid
deriving DecidableEq

/-- The kind of a character. -/
def kind (byte : UInt8) : Kind :=
  if (Base64.value byte).isSome then .digit
  else if byte = Base64.pad then .padding
  else if byte = 9 ∨ byte = 10 ∨ byte = 13 ∨ byte = 32 then .blank
  else if byte = 45 then .softEnd
  else .invalid

/-- How a call comes to the end of its characters. -/
inductive Ending
  | complete
  | softEnd
  | invalid
deriving DecidableEq

/-- The characters that a call stores, after the given number of padding characters. -/
def readChars : ℕ → List UInt8 → List UInt8 × Ending
  | _, [] => ([], .complete)
  | eof, byte :: rest =>
      match kind byte with
      | .blank => readChars eof rest
      | .softEnd => ([], .softEnd)
      | .invalid => ([], .invalid)
      | .padding =>
          if 2 < eof + 1 then ([], .invalid)
          else (byte :: (readChars (eof + 1) rest).1, (readChars (eof + 1) rest).2)
      | .digit =>
          if 0 < eof then ([], .invalid)
          else (byte :: (readChars eof rest).1, (readChars eof rest).2)

/-- The padding characters at the end of the pending ones, as far as a call looks back. -/
def trailing (pending : List UInt8) : ℕ :=
  if pending.getLast? = some Base64.pad then
    if pending.dropLast.getLast? = some Base64.pad then 2 else 1
  else 0

/-- `EVP_DecodeUpdate`. -/
def decodeUpdate (pending data : List UInt8) : Call :=
  let chars := (readChars (trailing pending) data).1
  let ending := (readChars (trailing pending) data).2
  let all := pending ++ chars
  let count := all.length / 64
  let lines := Base64.unpadded (all.take (64 * count))
  let rest := all.drop (64 * count)
  if ending = .invalid then
    { status := -1, pending := rest, out := lines, size := 48 * count }
  else if 4 ∣ rest.length then
    { status := if ending = .softEnd ∨ 0 < trailing pending + chars.count Base64.pad then 0 else 1
      pending := []
      out := lines ++ Base64.unpadded rest
      size := 48 * count + 3 * (rest.length / 4) }
  else
    { status := if ending = .softEnd then -1 else 1
      pending := rest
      out := lines
      size := 48 * count }

/-- `EVP_DecodeFinal`. -/
def decodeFinal (pending : List UInt8) : Call :=
  if pending.isEmpty then { status := 1, pending := [], out := [], size := 0 }
  else if 4 ∣ pending.length then
    { status := 1
      pending := []
      out := Base64.decodeBlock pending
      size := 3 * (pending.length / 4) }
  else { status := -1, pending := pending, out := [], size := 0 }

/-! ## Encoded lines -/

/-- An encoded text has no line break. -/
theorem filter_encode (data : List UInt8) :
    (Base64.encode data).filter (· ≠ newline) = Base64.encode data := by
  rw [List.filter_eq_self]
  intro byte member
  apply decide_eq_true
  rintro rfl
  obtain known | padded := Base64.mem_encode member
  · exact absurd known (by decide)
  · exact absurd padded (by decide)

/-- Lines without their line breaks are the encoding of their bytes. -/
theorem filter_encodeLines (count : ℕ) {data : List UInt8} (long : 48 * count ≤ data.length) :
    (encodeLines count data).filter (· ≠ newline) = Base64.encode (data.take (48 * count)) := by
  induction count generalizing data with
  | zero => rfl
  | succ count ih =>
      have rest : 48 * count ≤ (data.drop 48).length := by
        rw [List.length_drop]
        omega
      have first : (data.take 48).length = 48 := by
        rw [List.length_take]
        omega
      have split : data.take (48 * (count + 1)) = data.take 48 ++ (data.drop 48).take (48 * count) := by
        rw [Nat.mul_succ, Nat.add_comm, List.take_add]
      rw [encodeLines, List.filter_append, filter_encode, List.filter_cons_of_neg (by simp),
        ih rest, split, Base64.encode_append (by rw [first]; decide)]

theorem length_encodeLines (count : ℕ) {data : List UInt8} (long : 48 * count ≤ data.length) :
    (encodeLines count data).length = 65 * count := by
  induction count generalizing data with
  | zero => rfl
  | succ count ih =>
      have rest : 48 * count ≤ (data.drop 48).length := by
        rw [List.length_drop]
        omega
      have first : (data.take 48).length = 48 := by
        rw [List.length_take]
        omega
      rw [encodeLines, List.length_append, List.length_cons, Base64.length_encode, first, ih rest]
      omega

/-- An update writes 65 bytes for each complete line, and a terminator. -/
theorem size_encodeUpdate_le (pending data : List UInt8) :
    (encodeUpdate pending data).size ≤ (pending.length + data.length) / 48 * 65 + 1 := by
  have lines := @length_encodeLines ((pending ++ data).length / 48) (pending ++ data)
    (Nat.mul_div_le _ _)
  rw [encodeUpdate]
  dsimp only
  split_ifs
  · exact Nat.zero_le _
  · rw [lines, List.length_append, Nat.mul_comm]

/-- The last line, its line break and the terminator. -/
theorem size_encodeFinal_le {pending : List UInt8} (short : pending.length < 48) :
    (encodeFinal pending).size ≤ 66 := by
  rw [encodeFinal]
  split_ifs
  · exact Nat.zero_le _
  · simp only [List.length_append, Base64.length_encode, List.length_singleton]
    omega

/-! ## Decoding calls -/

/-- A call stores at most the characters that it is given. -/
theorem length_readChars_le (eof : ℕ) (data : List UInt8) :
    (readChars eof data).1.length ≤ data.length := by
  induction data generalizing eof with
  | nil => exact Nat.le_refl 0
  | cons byte rest ih =>
      rw [readChars, List.length_cons]
      cases kind byte with
      | blank => exact Nat.le_succ_of_le (ih eof)
      | softEnd => exact Nat.zero_le _
      | invalid => exact Nat.zero_le _
      | padding =>
          dsimp only
          split_ifs
          · exact Nat.zero_le _
          · exact Nat.succ_le_succ (ih (eof + 1))
      | digit =>
          dsimp only
          split_ifs
          · exact Nat.zero_le _
          · exact Nat.succ_le_succ (ih eof)

/-- A call whose characters are not read to their end. -/
theorem decodeUpdate_invalid {pending data : List UInt8}
    (invalid : (readChars (trailing pending) data).2 = .invalid) :
    ((decodeUpdate pending data).pending.length =
        (pending.length + (readChars (trailing pending) data).1.length) % 64) ∧
      (decodeUpdate pending data).size =
        48 * ((pending.length + (readChars (trailing pending) data).1.length) / 64) := by
  rw [decodeUpdate, if_pos invalid]
  simp only [List.length_drop, List.length_append]
  exact ⟨by omega, trivial⟩

/-- A call after which there are only whole groups. -/
theorem decodeUpdate_whole {pending data : List UInt8}
    (valid : (readChars (trailing pending) data).2 ≠ .invalid)
    (whole : 4 ∣ pending.length + (readChars (trailing pending) data).1.length) :
    (decodeUpdate pending data).pending = [] ∧
      (decodeUpdate pending data).size =
        3 * ((pending.length + (readChars (trailing pending) data).1.length) / 4) := by
  rw [decodeUpdate, if_neg valid, if_pos (by
    rw [List.length_drop, List.length_append]
    omega)]
  simp only [List.length_drop, List.length_append]
  exact ⟨trivial, by omega⟩

/-- A call after which a group is incomplete. -/
theorem decodeUpdate_open {pending data : List UInt8}
    (valid : (readChars (trailing pending) data).2 ≠ .invalid)
    (part : ¬ 4 ∣ pending.length + (readChars (trailing pending) data).1.length) :
    ((decodeUpdate pending data).pending.length =
        (pending.length + (readChars (trailing pending) data).1.length) % 64) ∧
      (decodeUpdate pending data).size =
        48 * ((pending.length + (readChars (trailing pending) data).1.length) / 64) := by
  rw [decodeUpdate, if_neg valid, if_neg (by
    rw [List.length_drop, List.length_append]
    omega)]
  simp only [List.length_drop, List.length_append]
  exact ⟨by omega, trivial⟩

/-- At most 63 characters are pending after a call. -/
theorem length_pending_lt (pending data : List UInt8) :
    (decodeUpdate pending data).pending.length < 64 := by
  by_cases invalid : (readChars (trailing pending) data).2 = .invalid
  · rw [(decodeUpdate_invalid invalid).1]
    exact Nat.mod_lt _ (by decide)
  · by_cases whole : 4 ∣ pending.length + (readChars (trailing pending) data).1.length
    · rw [(decodeUpdate_whole invalid whole).1]
      exact Nat.zero_lt_succ 63
    · rw [(decodeUpdate_open invalid whole).1]
      exact Nat.mod_lt _ (by decide)

/-- The number of bytes that a decoding call writes: three for each group when there are only
whole groups, and 48 for each whole line otherwise. -/
theorem size_decodeUpdate (pending data : List UInt8) :
    (decodeUpdate pending data).size =
      if 4 ∣ pending.length + (readChars (trailing pending) data).1.length ∧
          (readChars (trailing pending) data).2 ≠ .invalid then
        3 * ((pending.length + (readChars (trailing pending) data).1.length) / 4)
      else 48 * ((pending.length + (readChars (trailing pending) data).1.length) / 64) := by
  by_cases invalid : (readChars (trailing pending) data).2 = .invalid
  · rw [if_neg fun both => both.2 invalid, (decodeUpdate_invalid invalid).2]
  · by_cases whole : 4 ∣ pending.length + (readChars (trailing pending) data).1.length
    · rw [if_pos ⟨whole, invalid⟩, (decodeUpdate_whole invalid whole).2]
    · rw [if_neg fun both => whole both.1, (decodeUpdate_open invalid whole).2]

/-! ## Calls within a well-formed text -/

/-- A text without its blanks. -/
def strip (text : List UInt8) : List UInt8 := text.filter fun byte => kind byte ≠ .blank

theorem strip_append (first second : List UInt8) :
    strip (first ++ second) = strip first ++ strip second := List.filter_append ..

theorem kind_of_value {byte : UInt8} (known : (Base64.value byte).isSome = true) :
    kind byte = .digit := if_pos known

/-- Characters of an orderly text are read to their end. -/
theorem readChars_orderly (data : List UInt8) (eof : ℕ)
    (orderly : Base64.Orderly (List.replicate eof Base64.pad ++ strip data)) :
    readChars eof data = (strip data, .complete) := by
  induction data generalizing eof with
  | nil => rfl
  | cons byte rest ih =>
      by_cases blank : kind byte = .blank
      · have same : strip (byte :: rest) = strip rest :=
          List.filter_cons_of_neg (by simp [blank])
        rw [same] at orderly ⊢
        rw [readChars, blank]
        exact ih eof orderly
      · have same : strip (byte :: rest) = byte :: strip rest :=
          List.filter_cons_of_pos (by simp [blank])
        rw [same] at orderly ⊢
        have member : byte ∈ List.replicate eof Base64.pad ++ byte :: strip rest :=
          List.mem_append_right _ List.mem_cons_self
        rw [readChars]
        obtain known | rfl := Base64.mem_orderly orderly member
        · -- A digit can only stand before the padding.
          have first : eof = 0 := by
            cases eof with
            | zero => rfl
            | succ count =>
                rw [List.replicate_succ, List.cons_append,
                  Base64.orderly_cons_other Base64.value_pad] at orderly
                have inside : byte ∈ List.replicate count Base64.pad ++ byte :: strip rest :=
                  List.mem_append_right _ List.mem_cons_self
                obtain ⟨-, empty | one⟩ := orderly
                · rw [empty] at inside
                  exact absurd inside List.not_mem_nil
                · rw [one, List.mem_singleton] at inside
                  rw [inside, Base64.value_pad] at known
                  cases known
          rw [first] at orderly ⊢
          rw [kind_of_value known]
          dsimp only
          rw [if_neg (lt_irrefl 0), ih 0 (@Base64.orderly_back [byte] _ orderly)]
        · have more : List.replicate eof Base64.pad ++ Base64.pad :: strip rest =
              List.replicate (eof + 1) Base64.pad ++ strip rest := by
            rw [List.replicate_succ', List.append_assoc, List.singleton_append]
          rw [more] at orderly
          have few := Base64.count_pad_le orderly
          rw [List.count_append, List.count_replicate_self] at few
          have padding : kind Base64.pad = .padding := by decide
          rw [padding]
          dsimp only
          rw [if_neg (by omega), ih (eof + 1) orderly]

/-- The pending characters end with the padding that a call counts. -/
theorem trailing_split (pending : List UInt8) :
    ∃ front, pending = front ++ List.replicate (trailing pending) Base64.pad := by
  rw [trailing]
  by_cases last : pending.getLast? = some Base64.pad
  · rw [if_pos last]
    have whole := List.dropLast_append_getLast? Base64.pad last
    by_cases second : pending.dropLast.getLast? = some Base64.pad
    · rw [if_pos second]
      refine ⟨pending.dropLast.dropLast, ?_⟩
      have inner := List.dropLast_append_getLast? Base64.pad second
      calc pending = pending.dropLast ++ [Base64.pad] := whole.symm
        _ = pending.dropLast.dropLast ++ [Base64.pad] ++ [Base64.pad] := by rw [inner]
        _ = pending.dropLast.dropLast ++ List.replicate 2 Base64.pad := List.append_assoc ..
    · rw [if_neg second]
      exact ⟨pending.dropLast, whole.symm⟩
  · rw [if_neg last]
    exact ⟨pending, (List.append_nil pending).symm⟩

/-- A call with characters that continue the pending ones in an orderly way takes them all, and
reports the bytes of the whole groups that are no longer pending. -/
theorem decodeUpdate_orderly {pending data : List UInt8}
    (orderly : Base64.Orderly (pending ++ strip data)) :
    (decodeUpdate pending data).status ≠ -1 ∧
      ∃ done, pending ++ strip data = done ++ (decodeUpdate pending data).pending ∧
        4 ∣ done.length ∧ (decodeUpdate pending data).out = Base64.unpadded done := by
  obtain ⟨front, split⟩ := trailing_split pending
  have ends : Base64.Orderly (List.replicate (trailing pending) Base64.pad ++ strip data) := by
    apply @Base64.orderly_back front
    rw [← List.append_assoc, ← split]
    exact orderly
  have read := readChars_orderly data (trailing pending) ends
  have line : 4 ∣ ((pending ++ strip data).take
      (64 * ((pending ++ strip data).length / 64))).length := by
    rw [List.length_take, Nat.min_eq_left (Nat.mul_div_le _ _)]
    omega
  have parts := List.take_append_drop (64 * ((pending ++ strip data).length / 64))
    (pending ++ strip data)
  have zero : (0 : ℤ) ≠ -1 := by decide
  have one : (1 : ℤ) ≠ -1 := by decide
  rw [decodeUpdate, read, if_neg Ending.noConfusion]
  dsimp only
  by_cases whole : 4 ∣ ((pending ++ strip data).drop
      (64 * ((pending ++ strip data).length / 64))).length
  · rw [if_pos whole]
    refine ⟨?_, pending ++ strip data, (List.append_nil _).symm, ?_, ?_⟩
    · by_cases padded : Ending.complete = .softEnd ∨
          0 < trailing pending + (strip data).count Base64.pad
      · rw [if_pos padded]
        exact zero
      · rw [if_neg padded]
        exact one
    · rw [← parts, List.length_append]
      exact Nat.dvd_add line whole
    · rw [← parts] at orderly
      rw [← Base64.unpadded_append orderly line whole, parts]
  · rw [if_neg whole, if_neg Ending.noConfusion]
    exact ⟨one, _, parts.symm, line, rfl⟩

/-- After a call that does not fail, no characters are pending or a group is incomplete. -/
theorem pending_of_status {pending data : List UInt8}
    (accepted : (decodeUpdate pending data).status ≠ -1) :
    (decodeUpdate pending data).pending = [] ∨
      ¬ 4 ∣ (decodeUpdate pending data).pending.length := by
  by_cases invalid : (readChars (trailing pending) data).2 = .invalid
  · rw [decodeUpdate, if_pos invalid] at accepted
    exact absurd rfl accepted
  · by_cases whole : 4 ∣ pending.length + (readChars (trailing pending) data).1.length
    · exact Or.inl (decodeUpdate_whole invalid whole).1
    · right
      rw [(decodeUpdate_open invalid whole).1]
      omega

/-- The final call finds no whole group, and reports no bytes. -/
theorem decodeFinal_nothing {pending : List UInt8} (rest : pending = [] ∨ ¬ 4 ∣ pending.length) :
    (decodeFinal pending).out = [] ∧ (decodeFinal pending).size = 0 := by
  rw [decodeFinal]
  obtain rfl | part := rest
  · exact ⟨rfl, rfl⟩
  · have filled : ¬ pending.isEmpty = true := by
      intro empty
      rw [List.isEmpty_iff.mp empty] at part
      exact part (by decide)
    rw [if_neg filled, if_neg part]
    exact ⟨rfl, rfl⟩

end Join.Evp
