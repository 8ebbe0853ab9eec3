import Join.Crypto.DecoderRoom

/-!
# What a decoder returns

`Base64::decode` gives back what `Base64::encode` was given. A text that is not well-formed is
noticed only when a call to the update function fails: that an incomplete group is left for the
final call, and that padding ended the data of an earlier block, is ignored, and the bytes that
have been collected by then are returned.
-/

set_option autoImplicit false

namespace Join

open Library

namespace Decoder

/-! ## Well-formed texts -/

/-- What a decoder has made of the characters that its buffer has handed over: the bytes of some
whole groups, and characters that are still pending. -/
def Decoded (fed : List UInt8) (coder : Coder) : Prop :=
  ∃ done, Evp.strip fed = done ++ coder.pending ∧ 4 ∣ done.length ∧
    coder.out = Library.Base64.unpadded done ∧ (coder.pending = [] ∨ ¬ 4 ∣ coder.pending.length)

theorem decoded_start : Decoded [] ⟨some [], []⟩ := ⟨[], rfl, ⟨0, rfl⟩, rfl, Or.inl rfl⟩

/-- The ways in which a call with accepted characters can stop. -/
def Stops (outcome : Outcome) : Prop := outcome = .thrown ∨ outcome = .overrun

/-- A block of an orderly text is taken when there is room for it. -/
theorem decode_taken {front block back : List UInt8} {coder : Coder}
    (orderly : Library.Base64.Orderly (Evp.strip (front ++ block ++ back)))
    (decoded : Decoded front coder) (small : ¬ intMax < coder.out.length + block.length)
    (room : ¬ block.length < needed coder.pending block) :
    ∃ after, decodeBlock coder block = (after, .taken) ∧ Decoded (front ++ block) after := by
  obtain ⟨done, parts, whole, collected, -⟩ := decoded
  rw [Evp.strip_append, Evp.strip_append, parts] at orderly
  have shorter := Library.Base64.orderly_front orderly
  rw [List.append_assoc] at shorter
  obtain ⟨accepted, more, split, groups, reported⟩ :=
    Evp.decodeUpdate_orderly (Library.Base64.orderly_back shorter)
  have size : (Evp.decodeUpdate coder.pending block).size = needed coder.pending block :=
    Evp.size_decodeUpdate coder.pending block
  dsimp only [decodeBlock]
  rw [reserve, if_neg small, size, if_neg room]
  dsimp only
  rw [if_neg accepted]
  refine ⟨_, rfl, done ++ more, ?_, ?_, ?_, Evp.pending_of_status accepted⟩
  · rw [Evp.strip_append, parts, List.append_assoc, split, List.append_assoc]
    rfl
  · rw [List.length_append]
    exact Nat.dvd_add whole groups
  · have together : Library.Base64.Orderly (done ++ more) := by
      rw [split, ← List.append_assoc] at shorter
      exact Library.Base64.orderly_front shorter
    rw [Library.Base64.unpadded_append together whole groups, ← collected, ← reported]

/-- A block of an orderly text is taken, unless there is no room. -/
theorem decode_step {front block back : List UInt8} {coder : Coder}
    (orderly : Library.Base64.Orderly (Evp.strip (front ++ block ++ back)))
    (decoded : Decoded front coder) :
    (∃ after, decodeBlock coder block = (after, .taken) ∧ Decoded (front ++ block) after) ∨
      ∃ outcome, Stops outcome ∧ decodeBlock coder block = (coder, outcome) := by
  have size : (Evp.decodeUpdate coder.pending block).size = needed coder.pending block :=
    Evp.size_decodeUpdate coder.pending block
  by_cases large : intMax < coder.out.length + block.length
  · refine Or.inr ⟨.thrown, Or.inl rfl, ?_⟩
    dsimp only [decodeBlock]
    rw [reserve, if_pos large]
  · by_cases beyond : block.length < needed coder.pending block
    · refine Or.inr ⟨.overrun, Or.inr rfl, ?_⟩
      dsimp only [decodeBlock]
      rw [reserve, if_neg large, size, if_pos beyond]
    · exact Or.inl (decode_taken orderly decoded large beyond)

/-- The decoder has collected the bytes that a well-formed text denotes when the last block is
taken. -/
theorem collected_of_wellFormed {text : List UInt8}
    (known : (Library.Base64.denote (Evp.strip text)).isSome = true) {after : Coder}
    (call : decoderbuf.flush (atGet text).1 (atGet text).2 = (after, .taken)) :
    after.pending = [] ∧ Library.Base64.denote (Evp.strip text) = some after.out := by
  obtain ⟨orderly, groups⟩ := Library.Base64.orderly_of_denote known
  have step : ∀ front block back coder, text = front ++ block ++ back → block ≠ [] →
      (back ≠ [] → block.length = decoderbuf.capacity) → Decoded front coder →
        (∃ after, decoderbuf.update coder block = (after, .taken) ∧
            Decoded (front ++ block) after) ∨
          ∃ outcome, Stops outcome ∧ decoderbuf.update coder block = (coder, outcome) := by
    intro front block back coder parts _ _ decoded
    rw [parts] at orderly
    exact decode_step orderly decoded
  have other : ¬ Stops .taken := by
    rintro (same | same)
    · cases same
    · cases same
  obtain ⟨state, outcome, filled, ⟨-, last, taken, decoded⟩ | ⟨stop, stopped, left⟩⟩ :=
    Sink.fill_invariant step other text [] [] _ rfl (Nat.zero_le _) decoded_start
  · rw [atGet, filled, taken] at call
    cases call
    obtain ⟨done, parts, whole, collected, rest⟩ := decoded
    have nothing : after.pending = [] := by
      obtain nothing | part := rest
      · exact nothing
      · rw [parts, List.length_append] at groups
        exact absurd ((Nat.dvd_add_right whole).mp groups) part
    rw [nothing, List.append_nil] at parts
    refine ⟨nothing, ?_⟩
    rw [Library.Base64.denote_of_orderly _ orderly groups, parts, collected]
  · rw [atGet, filled, left] at call
    cases call
    exact absurd stopped other

/-! ## Every text -/

/-- Decoding stays in its memory, and an array that is not empty is what the text denotes. -/
def Faithful (text : List UInt8) : Prop :=
  Base64.decode text ≠ .error .overrun ∧
    ∀ bytes, Base64.decode text = .ok bytes → bytes ≠ [] →
      Library.Base64.denote (Evp.strip text) = some bytes

/-- The call for the last block fails, no bytes have been collected with it, or the sizes do not
fit. -/
def Caught (text : List UInt8) : Prop :=
  let coder := (atGet text).1
  let call := Evp.decodeUpdate coder.pending (atGet text).2
  intMax < coder.out.length + (atGet text).2.length ∨ call.status = -1 ∨
    coder.out ++ call.out = [] ∨ intMax < (coder.out ++ call.out).length + 66

/-- The end of the result, when no whole group is pending. -/
theorem decodeRest_eq {coder : Coder} (rest : coder.pending = [] ∨ ¬ 4 ∣ coder.pending.length) :
    decodeRest coder =
      if intMax < coder.out.length + 66 then (coder, .error .thrown)
      else (⟨none, coder.out⟩, .ok coder.out) := by
  obtain ⟨nothing, silent⟩ := Evp.decodeFinal_nothing rest
  dsimp only [decodeRest]
  rw [reserve, nothing, silent, List.append_nil]
  by_cases large : intMax < coder.out.length + 66
  · rw [if_pos large, if_pos large]
  · rw [if_neg large, if_neg large]
    rfl

/-- What stands before the result of a text that is decoded as a whole. -/
theorem stands_decode (text : List UInt8) :
    decoderbuf.Stands (decoderbuf.emits fresh [.write text]).buf (atGet text) := by
  have stands := stands_atGet [.write text]
  have whole : written [.write text] = text := List.append_nil text
  rwa [whole] at stands

theorem decode_nil : Base64.decode [] = .ok [] := rfl

/-- What is decoded when the last block is taken. -/
theorem decode_of_taken {text : List UInt8} {after : Coder}
    (call : decoderbuf.flush (atGet text).1 (atGet text).2 = (after, .taken))
    (rest : after.pending = [] ∨ ¬ 4 ∣ after.pending.length) :
    Base64.decode text =
      if intMax < after.out.length + 66 then .error .thrown else .ok after.out := by
  rw [Base64.decode, get, Sink.result_snd, Sink.collect_taken _ _ (stands_decode text) call,
    decodeRest_eq rest]
  by_cases large : intMax < after.out.length + 66
  · rw [if_pos large, if_pos large]
  · rw [if_neg large, if_neg large]

/-- What is decoded when it is refused. -/
theorem decode_of_refused {text : List UInt8} {after : Coder}
    (call : decoderbuf.flush (atGet text).1 (atGet text).2 = (after, .refused)) :
    Base64.decode text = .ok [] := by
  rw [Base64.decode, get, Sink.result_snd, Sink.collect_refused _ _ (stands_decode text) call]

/-- What is decoded when the call for it stops. -/
theorem decode_of_stopped {text : List UInt8} {after : Coder} {outcome : Outcome}
    (call : decoderbuf.flush (atGet text).1 (atGet text).2 = (after, outcome))
    (stopped : Stops outcome) : Base64.decode text = .error outcome := by
  rw [Base64.decode, get, Sink.result_snd, Sink.collect_error _ _ (stands_decode text) call stopped]

/-- When the last block is taken, what has been collected is returned, whatever is pending. -/
theorem faithful_of_taken {text : List UInt8}
    (flushed : decoderbuf.flush (atGet text).1 (atGet text).2 =
      (⟨some (Evp.decodeUpdate (atGet text).1.pending (atGet text).2).pending,
        (atGet text).1.out ++ (Evp.decodeUpdate (atGet text).1.pending (atGet text).2).out⟩, .taken))
    (accepted : (Evp.decodeUpdate (atGet text).1.pending (atGet text).2).status ≠ -1)
    (small : ¬ intMax < (atGet text).1.out.length + (atGet text).2.length)
    (room : ¬ (atGet text).2.length < needed (atGet text).1.pending (atGet text).2) :
    Faithful text ↔
      Roomy text ∧ ((Library.Base64.denote (Evp.strip text)).isSome = true ∨ Caught text) := by
  have roomy : Roomy text := Or.inr (not_lt.mp room)
  have given := decode_of_taken flushed (Evp.pending_of_status accepted)
  rw [Faithful, given]
  by_cases long : intMax < ((atGet text).1.out ++
      (Evp.decodeUpdate (atGet text).1.pending (atGet text).2).out).length + 66
  · rw [if_pos long]
    exact iff_of_true ⟨(by intro same; cases same), by intro _ impossible; cases impossible⟩
      ⟨roomy, Or.inr (Or.inr (Or.inr (Or.inr long)))⟩
  · rw [if_neg long]
    by_cases nothing : (atGet text).1.out ++
        (Evp.decodeUpdate (atGet text).1.pending (atGet text).2).out = []
    · refine iff_of_true ⟨(by intro same; cases same), ?_⟩
        ⟨roomy, Or.inr (Or.inr (Or.inr (Or.inl nothing)))⟩
      intro bytes same filled
      cases same
      exact absurd nothing filled
    · by_cases known : (Library.Base64.denote (Evp.strip text)).isSome = true
      · refine iff_of_true ⟨(by intro same; cases same), ?_⟩ ⟨roomy, Or.inl known⟩
        intro bytes same _
        cases same
        exact (collected_of_wellFormed known flushed).2
      · apply iff_of_false
        · rintro ⟨-, all⟩
          rw [all _ rfl nothing] at known
          exact known rfl
        · rintro ⟨-, wellFormed | large | failed | empty | long'⟩
          · exact known wellFormed
          · exact small large
          · exact accepted failed
          · exact nothing empty
          · exact long long'

/-- A text is decoded faithfully exactly when the last call has room, and the text is well-formed
or its defect is caught. -/
theorem faithful_text_iff (text : List UInt8) : Faithful text ↔
    Roomy text ∧ ((Library.Base64.denote (Evp.strip text)).isSome = true ∨ Caught text) := by
  by_cases empty : text = []
  · rw [empty]
    refine iff_of_true ⟨?_, ?_⟩ ⟨Or.inr (Nat.zero_le _), Or.inl rfl⟩
    · rw [decode_nil]
      intro same
      cases same
    · intro bytes given filled
      rw [decode_nil] at given
      cases given
      exact absurd rfl filled
  · have held : (atGet text).2 ≠ [] := Sink.held_ne_nil text [] _ empty
    have flushed : decoderbuf.flush (atGet text).1 (atGet text).2 =
        decodeBlock (atGet text).1 (atGet text).2 := Sink.flush_of_ne_nil held _
    have size := Evp.size_decodeUpdate (atGet text).1.pending (atGet text).2
    change _ = needed (atGet text).1.pending (atGet text).2 at size
    dsimp only [decodeBlock] at flushed
    rw [reserve, size] at flushed
    by_cases large : intMax < (atGet text).1.out.length + (atGet text).2.length
    · -- An exception: nothing is returned.
      rw [if_pos large] at flushed
      rw [Faithful, decode_of_stopped flushed (Or.inl rfl)]
      exact iff_of_true ⟨(by intro same; cases same), by intro _ given; cases given⟩
        ⟨Or.inl large, Or.inr (Or.inl large)⟩
    · rw [if_neg large] at flushed
      by_cases beyond : (atGet text).2.length < needed (atGet text).1.pending (atGet text).2
      · -- The call writes behind the output.
        rw [if_pos beyond] at flushed
        rw [Faithful, decode_of_stopped flushed (Or.inr rfl)]
        apply iff_of_false
        · exact fun faithful => faithful.1 rfl
        · rintro ⟨room | room, -⟩
          · exact large room
          · exact absurd beyond (not_lt.mpr room)
      · rw [if_neg beyond] at flushed
        dsimp only at flushed
        by_cases failed : (Evp.decodeUpdate (atGet text).1.pending (atGet text).2).status = -1
        · -- The failure is noticed: the array is empty.
          rw [if_pos failed] at flushed
          rw [Faithful, decode_of_refused flushed]
          refine iff_of_true ⟨(by intro same; cases same), ?_⟩
            ⟨Or.inr (not_lt.mp beyond), Or.inr (Or.inr (Or.inl failed))⟩
          intro bytes given filled
          cases given
          exact absurd rfl filled
        · rw [if_neg failed] at flushed
          exact faithful_of_taken flushed failed large beyond

/-! ## Encoded texts -/

/-- An encoded text has no blanks. -/
theorem strip_encode (data : List UInt8) :
    Evp.strip (Library.Base64.encode data) = Library.Base64.encode data := by
  rw [Evp.strip, List.filter_eq_self]
  intro byte member
  apply decide_eq_true
  intro blank
  obtain known | rfl := Library.Base64.mem_encode member
  · rw [Evp.kind_of_value known] at blank
    cases blank
  · exact absurd blank (by decide)

/-- A part of an encoded text that consists of whole groups leaves nothing pending. -/
theorem nothing_pending {fed : List UInt8} {coder : Coder} (decoded : Decoded fed coder)
    (plain : Evp.strip fed = fed) (groups : 4 ∣ fed.length) :
    coder.pending = [] ∧ coder.out.length ≤ 3 * (fed.length / 4) := by
  obtain ⟨done, parts, whole, collected, rest⟩ := decoded
  rw [plain] at parts
  have nothing : coder.pending = [] := by
    obtain nothing | part := rest
    · exact nothing
    · rw [parts, List.length_append] at groups
      exact absurd ((Nat.dvd_add_right whole).mp groups) part
  rw [nothing, List.append_nil] at parts
  refine ⟨nothing, ?_⟩
  rw [collected, parts]
  exact Library.Base64.length_unpadded_le done

/-- A block of an encoded text is taken, and leaves nothing pending. -/
theorem encoded_step {data front block back : List UInt8} {coder : Coder}
    (fits : Encoder.Fits data) (parts : Library.Base64.encode data = front ++ block ++ back)
    (full : back ≠ [] → block.length = 256) (decoded : Decoded front coder)
    (groups : 4 ∣ front.length) :
    (∃ after, decodeBlock coder block = (after, .taken) ∧ Decoded (front ++ block) after) ∧
      4 ∣ (front ++ block).length := by
  have length := Library.Base64.length_encode data
  rw [parts, List.length_append, List.length_append] at length
  have plain : Evp.strip front = front := by
    have whole := strip_encode data
    rw [parts, Evp.strip, List.filter_eq_self] at whole
    rw [Evp.strip, List.filter_eq_self]
    intro byte member
    exact whole byte (List.mem_append_left _ (List.mem_append_left _ member))
  have orderly : Library.Base64.Orderly (Evp.strip (front ++ block ++ back)) := by
    rw [← parts, strip_encode]
    have denoted := Library.Base64.denote_encode data
    exact (Library.Base64.orderly_of_denote (by rw [denoted]; rfl)).1
  obtain ⟨nothing, small⟩ := nothing_pending decoded plain groups
  rw [Encoder.Fits] at fits
  constructor
  · apply decode_taken orderly decoded
    · rw [intMax]
      omega
    · have most := needed_le coder.pending block
      rw [nothing, List.length_nil] at most
      rw [nothing]
      omega
  · rw [List.length_append]
    by_cases last : back = []
    · rw [last, List.length_nil] at length
      omega
    · have size := full last
      omega

/-- Every block of an encoded text is taken. -/
theorem encoded_taken {data : List UInt8} (fits : Encoder.Fits data) :
    ∃ after, decoderbuf.flush (atGet (Library.Base64.encode data)).1
        (atGet (Library.Base64.encode data)).2 = (after, .taken) ∧
      after.out.length ≤ data.length + 2 := by
  have step : ∀ front block back coder, Library.Base64.encode data = front ++ block ++ back →
      block ≠ [] → (back ≠ [] → block.length = decoderbuf.capacity) →
        Decoded front coder ∧ 4 ∣ front.length →
          (∃ after, decoderbuf.update coder block = (after, .taken) ∧
              Decoded (front ++ block) after ∧ 4 ∣ (front ++ block).length) ∨
            ∃ outcome, False ∧ decoderbuf.update coder block = (coder, outcome) := by
    rintro front block back coder parts - full ⟨decoded, groups⟩
    obtain ⟨⟨after, call, next⟩, more⟩ := encoded_step fits parts full decoded groups
    exact Or.inl ⟨after, call, next, more⟩
  obtain ⟨state, outcome, filled, ⟨-, after, taken, decoded, groups⟩ | ⟨-, impossible, -⟩⟩ :=
    @Sink.fill_invariant _ decoderbuf (fun fed coder => Decoded fed coder ∧ 4 ∣ fed.length)
      (fun _ => False) _ step id (Library.Base64.encode data) [] [] _ rfl (Nat.zero_le _)
      ⟨decoded_start, ⟨0, rfl⟩⟩
  · refine ⟨after, by rw [atGet, filled]; exact taken, ?_⟩
    have small := (nothing_pending decoded (strip_encode data) groups).2
    rw [Library.Base64.length_encode] at small
    omega
  · exact absurd impossible id

/-- What was encoded is decoded again, as long as the sizes fit. -/
theorem decode_encode {data : List UInt8} (fits : Encoder.Fits data) :
    Base64.decode (Library.Base64.encode data) = .ok data := by
  have denoted := Library.Base64.denote_encode data
  have known : (Library.Base64.denote
      (Evp.strip (Library.Base64.encode data))).isSome = true := by
    rw [strip_encode, denoted]
    rfl
  obtain ⟨after, call, small⟩ := encoded_taken fits
  obtain ⟨nothing, same⟩ := collected_of_wellFormed known call
  rw [strip_encode, denoted, Option.some.injEq] at same
  rw [decode_of_taken call (Or.inl nothing), same, if_neg]
  rw [Encoder.Fits] at fits
  rw [intMax]
  omega

end Decoder

/-- What `Base64::encode` gives for some data. -/
theorem Base64.encode_eq (data : List UInt8) :
    Base64.encode data =
      if Encoder.Fits data then .ok (Library.Base64.encode data) else .error .thrown := by
  have whole : written [.write data] = data := List.append_nil data
  by_cases fits : Encoder.Fits data
  · rw [if_pos fits]
    have given := (Encoder.get_fitting Encoder.ready_fresh (by rwa [whole])).1
    rwa [whole] at given
  · rw [if_neg fits]
    exact Encoder.get_long Encoder.ready_fresh (by rwa [whole])

end Join
