import Join.Crypto.Base64Stream
import Join.Crypto.DigestStream

/-!
# Streams that are used again

What an encoder gives for the data of its uses, however the data are divided into writes: the
encoding without line breaks, as long as the sizes fit an `int`. An encoder that is asked for the
text of no data sets an error bit, and ignores what is written to it from then on. A digest is
never empty, so a digest stream can be used again after any data.
-/

set_option autoImplicit false

namespace Join

open Library

namespace Encoder

/-! ## Whole lines -/

/-- What an encoder keeps of the bytes that its buffer has handed over: the text of the whole
lines, with their line breaks, and the bytes of the last line. -/
structure Encoded (fed : List UInt8) (coder : Coder) : Prop where
  ctx : coder.ctx = some (fed.drop (48 * (fed.length / 48)))
  text : coder.out.filter (· ≠ Evp.newline) = Library.Base64.encode (fed.take (48 * (fed.length / 48)))
  size : coder.out.length = 65 * (fed.length / 48)

/-- The sizes that an encoder computes for some data fit an `int`. -/
def Fits (data : List UInt8) : Prop := data.length / 48 < 33038209

instance (data : List UInt8) : Decidable (Fits data) := inferInstanceAs (Decidable (_ < _))

theorem Encoded.pending {fed : List UInt8} {coder : Coder} (encoded : Encoded fed coder) :
    coder.pending = fed.drop (48 * (fed.length / 48)) := by
  rw [Coder.pending, encoded.ctx, Option.getD_some]

theorem Encoded.length_pending {fed : List UInt8} {coder : Coder} (encoded : Encoded fed coder) :
    coder.pending.length = fed.length % 48 := by
  rw [encoded.pending, List.length_drop]
  omega

theorem encoded_start : Encoded [] ⟨some [], []⟩ := ⟨rfl, rfl, rfl⟩

/-- The bytes of a block join those of the last line. -/
theorem encoded_update {fed block : List UInt8} {coder : Coder} (encoded : Encoded fed coder) :
    Encoded (fed ++ block)
      ⟨some (Evp.encodeUpdate coder.pending block).pending,
        coder.out ++ (Evp.encodeUpdate coder.pending block).out⟩ := by
  have before : 48 * (fed.length / 48) ≤ fed.length := Nat.mul_div_le _ _
  have joined : (fed ++ block).drop (48 * (fed.length / 48)) = coder.pending ++ block := by
    rw [encoded.pending, List.drop_append_of_le_length before]
  have first : (fed ++ block).take (48 * (fed.length / 48)) = fed.take (48 * (fed.length / 48)) :=
    List.take_append_of_le_length before
  have length : (coder.pending ++ block).length = fed.length % 48 + block.length := by
    rw [List.length_append, encoded.length_pending]
  have lines : (fed ++ block).length / 48 =
      fed.length / 48 + (coder.pending ++ block).length / 48 := by
    rw [length, List.length_append]
    omega
  have long : 48 * ((coder.pending ++ block).length / 48) ≤ (coder.pending ++ block).length :=
    Nat.mul_div_le _ _
  have whole : 3 ∣ (fed.take (48 * (fed.length / 48))).length := by
    rw [List.length_take, Nat.min_eq_left before]
    omega
  refine ⟨?_, ?_, ?_⟩
  · rw [lines, Nat.mul_add, ← List.drop_drop, joined]
    rfl
  · rw [lines, Nat.mul_add, List.take_add, joined, first, Library.Base64.encode_append whole,
      List.filter_append, encoded.text]
    exact congrArg _ (Evp.filter_encodeLines _ long)
  · rw [lines, List.length_append, encoded.size, Nat.mul_add]
    exact congrArg _ (Evp.length_encodeLines _ long)

/-- A block is taken, unless its size does not fit. -/
theorem encode_step {text front block back : List UInt8} {coder : Coder}
    (parts : text = front ++ block ++ back) (encoded : Encoded front coder) :
    (∃ after, encodeBlock coder block = (after, .taken) ∧ Encoded (front ++ block) after) ∨
      ¬ Fits text ∧ encodeBlock coder block = (coder, .thrown) := by
  have inside : (Evp.encodeUpdate coder.pending block).size ≤ encoderRoom coder.pending block :=
    Evp.size_encodeUpdate_le coder.pending block
  have total : text.length = front.length + block.length + back.length := by
    rw [parts, List.length_append, List.length_append]
  dsimp only [encodeBlock]
  by_cases large : intMax < coder.out.length + encoderRoom coder.pending block
  · right
    rw [reserve, if_pos large]
    refine ⟨?_, rfl⟩
    intro fits
    rw [encoderRoom, encoded.size, encoded.length_pending, intMax] at large
    rw [Fits, total] at fits
    omega
  · left
    rw [reserve, if_neg large, if_neg (not_lt.mpr inside)]
    exact ⟨_, rfl, encoded_update encoded⟩

/-- The last line joins the others, unless its size does not fit. -/
theorem encodeRest_eq {text : List UInt8} {coder : Coder} (encoded : Encoded text coder) :
    encodeRest coder =
      if Fits text then
        (⟨none, Library.Base64.encode text⟩, .ok (Library.Base64.encode text))
      else (coder, .error .thrown) := by
  have short : coder.pending.length < 48 := by
    rw [encoded.length_pending]
    exact Nat.mod_lt _ (by decide)
  dsimp only [encodeRest]
  by_cases fits : Fits text
  · have small : ¬ intMax < coder.out.length + 66 := by
      rw [encoded.size, intMax]
      rw [Fits] at fits
      omega
    have joined : (coder.out ++ (Evp.encodeFinal coder.pending).out).filter (· ≠ Evp.newline) =
        Library.Base64.encode text := by
      have before : 48 * (text.length / 48) ≤ text.length := Nat.mul_div_le _ _
      have whole : 3 ∣ (text.take (48 * (text.length / 48))).length := by
        rw [List.length_take, Nat.min_eq_left before]
        omega
      have last : (Evp.encodeFinal coder.pending).out.filter (· ≠ Evp.newline) =
          Library.Base64.encode coder.pending := by
        rw [Evp.encodeFinal]
        by_cases empty : coder.pending = []
        · rw [empty]
          rfl
        · rw [if_neg fun isEmpty => empty (List.isEmpty_iff.mp isEmpty), List.filter_append,
            Evp.filter_encode, List.filter_cons_of_neg (by simp), List.filter_nil,
            List.append_nil]
      rw [List.filter_append, encoded.text, last, encoded.pending,
        ← Library.Base64.encode_append whole, List.take_append_drop]
    rw [reserve, if_neg small, if_neg (not_lt.mpr (Evp.size_encodeFinal_le short)), if_pos fits]
    dsimp only
    rw [joined]
  · have large : intMax < coder.out.length + 66 := by
      rw [encoded.size, intMax]
      rw [Fits] at fits
      omega
    rw [reserve, if_pos large, if_neg fits]

/-! ## One use -/

/-- An encoder before its first use, and after each use that it can be used again after. -/
structure Ready (encoder : Encoder) : Prop where
  good : encoder.good = true
  ctx : encoder.buf.sink.ctx = none
  area : encoder.buf.area.getD [] = []

/-- An encoder that was asked for the text of no data. -/
structure Failed (encoder : Encoder) : Prop where
  good : ¬ encoder.good = true
  ctx : encoder.buf.sink.ctx = none
  area : encoder.buf.area.getD [] = []

theorem ready_fresh : Ready fresh := ⟨rfl, rfl, rfl⟩

/-- Both stand before an empty text. -/
theorem stands_of_ctx {encoder : Encoder} (ctx : encoder.buf.sink.ctx = none)
    (area : encoder.buf.area.getD [] = []) : encoderbuf.Stands encoder.buf (⟨some [], []⟩, []) := by
  refine ⟨?_, area⟩
  change encoder.buf.sink.start = _
  rw [Coder.start, ctx]
  rfl

/-- What the last block makes of the writes of one use. -/
theorem last_block {encoder : Encoder} (ready : Ready encoder) (writes : List Write) :
    ∃ state, encoderbuf.Stands (encoderbuf.emits encoder writes).buf state ∧
      ((((encoderbuf.emits encoder writes).good = true) ∧
          ∃ after, encoderbuf.flush state.1 state.2 = (after, .taken) ∧
            Encoded (written writes) after) ∨
        ¬ Fits (written writes) ∧ encoderbuf.flush state.1 state.2 = (state.1, .thrown)) := by
  have step : ∀ front block back coder, written writes = front ++ block ++ back → block ≠ [] →
      (back ≠ [] → block.length = encoderbuf.capacity) → Encoded front coder →
        (∃ after, encoderbuf.update coder block = (after, .taken) ∧
            Encoded (front ++ block) after) ∨
          ∃ outcome, (¬ Fits (written writes) ∧ outcome = .thrown) ∧
            encoderbuf.update coder block = (coder, outcome) := by
    intro front block back coder parts _ _ encoded
    obtain taken | ⟨long, call⟩ := encode_step parts encoded
    · exact Or.inl taken
    · exact Or.inr ⟨.thrown, ⟨long, rfl⟩, call⟩
  obtain ⟨stands, kept⟩ :=
    Sink.emits_stands writes ready.good (stands_of_ctx ready.ctx ready.area)
  obtain ⟨state, outcome, filled, ends⟩ :=
    Sink.fill_invariant step (by intro stops; cases stops.2) (written writes) [] [] _ rfl
      (Nat.zero_le _) encoded_start
  rw [filled] at stands kept
  refine ⟨state, stands, ?_⟩
  obtain ⟨rfl, taken⟩ | ⟨outcome, ⟨long, rfl⟩, call⟩ := ends
  · exact Or.inl ⟨kept.mpr rfl, taken⟩
  · exact Or.inr ⟨long, call⟩

/-- One use of an encoder that is ready, with data that are too long. -/
theorem get_long {encoder : Encoder} (ready : Ready encoder) {writes : List Write}
    (long : ¬ Fits (written writes)) :
    (get (encoderbuf.emits encoder writes)).2 = .error .thrown := by
  obtain ⟨state, stands, ⟨-, after, call, encoded⟩ | ⟨-, call⟩⟩ := last_block ready writes
  · rw [get, Sink.result_snd, Sink.collect_taken _ _ stands call, encodeRest_eq encoded,
      if_neg long]
  · rw [get, Sink.result_snd, Sink.collect_error _ _ stands call (Or.inl rfl)]

/-- One use of an encoder that is ready: the text of the data, and an encoder that can be used
again when there were any. -/
theorem get_fitting {encoder : Encoder} (ready : Ready encoder) {writes : List Write}
    (fits : Fits (written writes)) :
    (get (encoderbuf.emits encoder writes)).2 = .ok (Library.Base64.encode (written writes)) ∧
      (if written writes = [] then Failed (get (encoderbuf.emits encoder writes)).1
        else Ready (get (encoderbuf.emits encoder writes)).1) := by
  obtain ⟨state, stands, ⟨good, after, call, encoded⟩ | ⟨long, -⟩⟩ := last_block ready writes
  · have given := Sink.collect_taken Coder.reset encodeRest stands call
    rw [encodeRest_eq encoded, if_pos fits] at given
    by_cases empty : written writes = []
    · rw [if_pos empty]
      rw [empty] at given ⊢
      rw [get, Sink.result_empty given]
      exact ⟨rfl, Bool.false_ne_true, rfl, rfl⟩
    · rw [if_neg empty, get, Sink.result_filled given (mt Library.Base64.encode_eq_nil.mp empty)]
      exact ⟨rfl, good, rfl, rfl⟩
  · exact absurd fits long

/-- No call of an encoder leaves its memory. -/
theorem get_ne_overrun {encoder : Encoder} (ready : Ready encoder) (writes : List Write) :
    (get (encoderbuf.emits encoder writes)).2 ≠ .error .overrun := by
  by_cases fits : Fits (written writes)
  · rw [(get_fitting ready fits).1]
    intro same
    cases same
  · rw [get_long ready fits]
    intro same
    cases same

/-- After an error bit is set, the result is empty whatever is written. -/
theorem get_of_failed {encoder : Encoder} (failed : Failed encoder) (writes : List Write) :
    (get (encoderbuf.emits encoder writes)).2 = .ok [] ∧
      Failed (get (encoderbuf.emits encoder writes)).1 := by
  have call : encoderbuf.flush (⟨some [], []⟩ : Coder) [] = (⟨some [], []⟩, .taken) := rfl
  have given := Sink.collect_taken Coder.reset encodeRest (stands_of_ctx failed.ctx failed.area)
    call
  rw [encodeRest_eq encoded_start, if_pos (by decide : Fits [])] at given
  rw [Sink.emits_of_bad writes failed.good, get, Sink.result_empty given]
  exact ⟨rfl, Bool.false_ne_true, rfl, rfl⟩

/-! ## Several uses -/

/-- The results that uses of the given data are to have. -/
def expected (uses : List (List Write)) : List (Except Outcome (List UInt8)) :=
  uses.map fun writes => .ok (Library.Base64.encode (written writes))

/-- An encoder with an error bit gives the right results for no data only. -/
theorem results_of_failed (uses : List (List Write)) {encoder : Encoder}
    (failed : Failed encoder) :
    results encoder uses = expected uses ↔ ∀ writes ∈ uses, written writes = [] := by
  induction uses generalizing encoder with
  | nil => exact iff_of_true rfl fun _ member => absurd member List.not_mem_nil
  | cons writes rest ih =>
      obtain ⟨given, again⟩ := get_of_failed failed writes
      have first : results encoder (writes :: rest) =
          .ok [] :: results (get (encoderbuf.emits encoder writes)).1 rest := by
        rw [← given]
        rfl
      rw [first, expected, List.map_cons, List.cons.injEq, Except.ok.injEq,
        eq_comm (a := ([] : List UInt8)), Library.Base64.encode_eq_nil, ← expected, ih again,
        List.forall_mem_cons]

/-- An encoder that is ready gives the right results exactly when the data of each use fit, and
no use without data comes before one with data. -/
theorem results_of_ready (uses : List (List Write)) {encoder : Encoder} (ready : Ready encoder) :
    results encoder uses = expected uses ↔
      (∀ writes ∈ uses, Fits (written writes)) ∧
        uses.Pairwise fun earlier later => written earlier = [] → written later = [] := by
  induction uses generalizing encoder with
  | nil => exact iff_of_true rfl ⟨fun _ member => absurd member List.not_mem_nil, List.Pairwise.nil⟩
  | cons writes rest ih =>
      have first : results encoder (writes :: rest) =
          (get (encoderbuf.emits encoder writes)).2 ::
            results (get (encoderbuf.emits encoder writes)).1 rest := rfl
      rw [first, expected, List.map_cons, List.cons.injEq, ← expected, List.forall_mem_cons,
        List.pairwise_cons]
      by_cases fits : Fits (written writes)
      · obtain ⟨given, next⟩ := get_fitting ready fits
        by_cases empty : written writes = []
        · rw [if_pos empty] at next
          rw [given, results_of_failed rest next]
          constructor
          · rintro ⟨-, all⟩
            refine ⟨⟨fits, fun other member => ?_⟩, fun other member _ => all other member, ?_⟩
            · rw [all other member]
              decide
            · exact List.pairwise_of_forall_mem_list fun _ _ later member _ => all later member
          · rintro ⟨-, all, -⟩
            exact ⟨rfl, fun other member => all other member empty⟩
        · rw [if_neg empty] at next
          rw [given, ih next]
          constructor
          · rintro ⟨-, others, ordered⟩
            exact ⟨⟨fits, others⟩, fun _ _ absent => absurd absent empty, ordered⟩
          · rintro ⟨⟨-, others⟩, -, ordered⟩
            exact ⟨rfl, others, ordered⟩
      · rw [get_long ready fits]
        constructor
        · rintro ⟨impossible, -⟩
          cases impossible
        · rintro ⟨⟨impossible, -⟩, -⟩
          exact absurd impossible fits

end Encoder

/-! ## Digests and encoders -/

/-- Streams that are used several times give the digest and the text of the data of each use,
exactly when the data fit and no use of the encoder without data comes before one with data. -/
theorem streams_reusable_iff {Ctx : Type} (md : MessageDigest Ctx) (uses : List (List Write)) :
    (md.results MessageDigest.fresh uses =
          uses.map (fun writes => .ok (md.digest (written writes))) ∧
        Encoder.results Encoder.fresh uses =
          uses.map fun writes => .ok (Library.Base64.encode (written writes))) ↔
      (∀ writes ∈ uses, (written writes).length / 48 < 33038209) ∧
        uses.Pairwise fun earlier later => written earlier = [] → written later = [] := by
  rw [md.results_eq uses]
  constructor
  · rintro ⟨-, same⟩
    exact (Encoder.results_of_ready uses Encoder.ready_fresh).mp same
  · intro holds
    exact ⟨rfl, (Encoder.results_of_ready uses Encoder.ready_fresh).mpr holds⟩

/-- An encoder that is used for no data and then for one byte gives two empty texts. -/
theorem encoder_not_reusable : ¬ ∀ uses : List (List Write),
    Encoder.results Encoder.fresh uses =
      uses.map fun writes => .ok (Library.Base64.encode (written writes)) := by
  intro all
  have second : (Encoder.results Encoder.fresh [[], [.put 65]])[1]? = some (.ok []) := by decide
  rw [all] at second
  exact absurd second (by decide)

end Join
