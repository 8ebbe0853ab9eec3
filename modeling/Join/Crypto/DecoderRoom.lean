import Join.Crypto.StreamReuse

/-!
# The room of the coding buffers

A decoder extends its output by the size of the block before each call, while the call also writes
what earlier blocks left pending. Blocks of 256 characters are always large enough for that, since
at most 63 characters are pending. The block that is left when the decoder is asked for its result
may be short, and then the call writes behind the output.

An encoder counts the pending bytes when it extends its output.
-/

set_option autoImplicit false

namespace Join

open Library

namespace Decoder

/-- The state of the decoder and the characters in its put area when it is asked for its result
after the given text. -/
def atGet (text : List UInt8) : Coder × List UInt8 := (decoderbuf.fill ⟨some [], []⟩ [] text).1

/-- The number of bytes that the call for a block writes, from the number of pending characters
and of those that it stores: three for each group when there are only whole groups, or 48 for
each whole line. -/
def needed (pending block : List UInt8) : ℕ :=
  let read := Evp.readChars (Evp.trailing pending) block
  let count := pending.length + read.1.length
  if 4 ∣ count ∧ read.2 ≠ .invalid then 3 * (count / 4) else 48 * (count / 64)

/-- The last block is large enough for what the call for it writes, or there is no call since the
size does not fit. -/
def Roomy (text : List UInt8) : Prop :=
  intMax < (atGet text).1.out.length + (atGet text).2.length ∨
    needed (atGet text).1.pending (atGet text).2 ≤ (atGet text).2.length

/-! ## The calls -/

theorem needed_le (pending block : List UInt8) :
    needed pending block ≤ 3 * (pending.length + block.length) / 4 := by
  have stored := Evp.length_readChars_le (Evp.trailing pending) block
  rw [needed]
  split_ifs
  · omega
  · omega

/-- When a call for a block leaves its memory. -/
theorem decodeBlock_overrun_iff (coder : Coder) (block : List UInt8) :
    (decodeBlock coder block).2 = .overrun ↔
      ¬ intMax < coder.out.length + block.length ∧ block.length < needed coder.pending block := by
  have size : (Evp.decodeUpdate coder.pending block).size = needed coder.pending block :=
    Evp.size_decodeUpdate coder.pending block
  dsimp only [decodeBlock]
  rw [reserve, size]
  by_cases large : intMax < coder.out.length + block.length
  · rw [if_pos large]
    exact iff_of_false Outcome.noConfusion fun both => both.1 large
  · rw [if_neg large]
    by_cases beyond : block.length < needed coder.pending block
    · rw [if_pos beyond]
      exact iff_of_true rfl ⟨large, beyond⟩
    · rw [if_neg beyond]
      refine iff_of_false ?_ fun both => beyond both.2
      dsimp only
      by_cases refused : (Evp.decodeUpdate coder.pending block).status = -1
      · rw [if_pos refused]
        exact Outcome.noConfusion
      · rw [if_neg refused]
        exact Outcome.noConfusion

/-- At most 63 characters are pending after a block, if that was so before. -/
theorem length_pending_decodeBlock {coder : Coder} (few : coder.pending.length < 64)
    (block : List UInt8) : (decodeBlock coder block).1.pending.length < 64 := by
  have after := Evp.length_pending_lt coder.pending block
  dsimp only [decodeBlock]
  split
  · split_ifs
    · exact after
    · exact after
  · exact few

theorem length_pending_flush {coder : Coder} (few : coder.pending.length < 64)
    (held : List UInt8) : (decoderbuf.flush coder held).1.pending.length < 64 := by
  by_cases empty : held = []
  · rw [empty]
    exact few
  · rw [Sink.flush_of_ne_nil empty]
    exact length_pending_decodeBlock few held

/-- A full block is always large enough. -/
theorem full_block_fits {coder : Coder} (few : coder.pending.length < 64) {block : List UInt8}
    (full : decoderbuf.capacity ≤ block.length) : (decodeBlock coder block).2 ≠ .overrun := by
  intro beyond
  have most := needed_le coder.pending block
  have less := ((decodeBlock_overrun_iff coder block).mp beyond).2
  have size : 256 ≤ block.length := full
  omega

/-- No call during the writes leaves its memory. -/
theorem writes_contained (text : List UInt8) :
    (atGet text).1.pending.length < 64 ∧
      (decoderbuf.fill ⟨some [], []⟩ [] text).2 ≠ .overrun := by
  apply @Sink.fill_full _ decoderbuf (fun coder => coder.pending.length < 64)
  · exact Outcome.noConfusion
  · intro coder block few full
    exact ⟨length_pending_decodeBlock few block, full_block_fits few full⟩
  · exact Nat.zero_lt_succ 63

/-- The last call finds at most 63 characters, so it writes less than it is given. -/
theorem decodeRest_ne_overrun {coder : Coder} (few : coder.pending.length < 64) :
    (decodeRest coder).2 ≠ .error .overrun := by
  have size : (Evp.decodeFinal coder.pending).size ≤ 66 := by
    rw [Evp.decodeFinal]
    split_ifs
    · exact Nat.zero_le _
    · dsimp only
      omega
    · exact Nat.zero_le _
  dsimp only [decodeRest]
  rw [reserve, if_neg (not_lt.mpr size)]
  split_ifs
  · intro same
    cases same
  · intro same
    cases same

/-! ## The result -/

/-- What stands before the result, however the text was divided into writes. -/
theorem stands_atGet (writes : List Write) :
    decoderbuf.Stands (decoderbuf.emits fresh writes).buf (atGet (written writes)) :=
  (@Sink.emits_stands _ decoderbuf writes fresh rfl _ _ ⟨rfl, rfl⟩).1

/-- Asking for the result leaves the memory exactly when the call for the last block does. -/
theorem get_overrun_iff (writes : List Write) :
    (get (decoderbuf.emits fresh writes)).2 = .error .overrun ↔
      (decoderbuf.flush (atGet (written writes)).1 (atGet (written writes)).2).2 = .overrun := by
  have stands := stands_atGet writes
  have few := (writes_contained (written writes)).1
  rw [get, Sink.result_snd]
  cases call : decoderbuf.flush (atGet (written writes)).1 (atGet (written writes)).2 with
  | mk after outcome =>
      cases outcome with
      | taken =>
          rw [Sink.collect_taken _ _ stands call]
          have kept : after.pending.length < 64 := by
            have next := length_pending_flush few (atGet (written writes)).2
            rwa [call] at next
          exact iff_of_false (decodeRest_ne_overrun kept) Outcome.noConfusion
      | refused =>
          rw [Sink.collect_refused _ _ stands call]
          exact iff_of_false (by intro same; cases same) Outcome.noConfusion
      | thrown =>
          rw [Sink.collect_error _ _ stands call (Or.inl rfl)]
          exact iff_of_false (by intro same; cases same) Outcome.noConfusion
      | overrun =>
          rw [Sink.collect_error _ _ stands call (Or.inr rfl)]
          exact iff_of_true rfl rfl

/-- Without a block there is no call, and with no characters nothing is written. -/
theorem flush_overrun_iff (text : List UInt8) :
    (decoderbuf.flush (atGet text).1 (atGet text).2).2 = .overrun ↔ ¬ Roomy text := by
  by_cases empty : text = []
  · rw [empty]
    exact iff_of_false Outcome.noConfusion (not_not.mpr (Or.inr (Nat.zero_le _)))
  · have filled : (atGet text).2 ≠ [] := Sink.held_ne_nil text [] _ empty
    rw [Sink.flush_of_ne_nil filled, Roomy, not_or, not_le]
    exact decodeBlock_overrun_iff _ _

/-- The calls of a decoder and of an encoder stay in their memory. -/
def Contained (writes : List Write) : Prop :=
  (get (decoderbuf.emits fresh writes)).2 ≠ .error .overrun ∧
    (Encoder.get (encoderbuf.emits Encoder.fresh writes)).2 ≠ .error .overrun

/-- Every call stays in its memory exactly when the last block of the decoder is large enough,
however the text is divided into writes. -/
theorem contained_iff (writes : List Write) : Contained writes ↔ Roomy (written writes) := by
  rw [Contained, ne_eq, get_overrun_iff, flush_overrun_iff, not_not]
  exact and_iff_left (Encoder.get_ne_overrun Encoder.ready_fresh writes)

/-- The text of 63 characters, 193 blanks and one more character. -/
def spacedText : List UInt8 := List.replicate 63 65 ++ List.replicate 193 32 ++ [65]

/-- The call for the last character of that text writes 48 bytes where there is room for one. -/
theorem spaced_text_overruns : ¬ ∀ writes : List Write, Contained writes := by
  intro all
  have contained := (all [.write spacedText]).1
  exact contained (by decide +kernel)

end Decoder

end Join
