import Join.Data.Value
import Join.Library.Compressor
import Join.Library.ByteOrder

/-!
# Zstream

The writing side of `Zstreambuf`. The bytes that are written gather in a put area of
a fixed size. Each time a byte comes that has no room the area goes through `deflate`,
and a flush sends what is left, finishes the compressed stream and resets the
compressor.

The functions that `std::streambuf` supplies are given by what they are specified to
do: `sputn` calls `sputc` for each byte, and `sputc` calls `overflow` when there is no
room. The inner stream takes the bytes it has room for.
-/

set_option autoImplicit false

namespace Join

open Library

/-- The inner stream: the bytes put on it, how many more it takes if it is bounded,
and what its `pubsync` returns. -/
structure InnerStream where
  content : Bytes
  room : Option ℕ
  synced : ℤ
deriving DecidableEq, Repr

/-- `std::streambuf::sputn` of the inner stream, with the number of bytes it took. -/
def InnerStream.sputn (inner : InnerStream) (data : Bytes) : ℕ × InnerStream :=
  match inner.room with
  | none => (data.length, { inner with content := inner.content ++ data })
  | some room =>
      ((data.take room).length,
        { inner with
          content := inner.content ++ data.take room
          room := some (room - (data.take room).length) })

/-- `Zstreambuf`, as far as writing goes. The put area is `none` until it has been
set. -/
structure Zstreambuf (z : Compressor) where
  deflater : z.State
  putArea : Option Bytes
  inner : InnerStream

namespace Zstreambuf

variable {z : Compressor}

/-- `_bufsize`. -/
def bufsize : ℕ := 16384

/-- A stream buffer that has just been constructed over an inner stream. -/
def fresh (z : Compressor) (inner : InnerStream) : Zstreambuf z := ⟨z.reset, none, inner⟩

/-- The bytes between `pbase` and `pptr`. -/
def pending (buffer : Zstreambuf z) : Bytes := buffer.putArea.getD []

/-! ## Writing -/

/-- The loop of `overflow`, which runs while there is input: whether it has gone
through, with the compressor and the inner stream it leaves. -/
def deflateLoop (flush : Flush) (deflater : z.State) (inner : InnerStream) (input : Bytes) :
    Bool × z.State × InnerStream :=
  if _more : input ≠ [] then
    let called := z.call flush deflater input bufsize
    if called.code = .error then (false, called.next, inner)
    else
      let (nwrite, inner) := inner.sputn called.produced
      if nwrite ≠ called.produced.length then (false, called.next, inner)
      else deflateLoop flush called.next inner (input.drop called.consumed)
  else (true, deflater, inner)
termination_by input.length + (z.rest deflater input).length
decreasing_by exact z.call_shrinks flush deflater _more (by decide)

/-- `Zstreambuf::overflow`, with whether it returned something other than EOF. -/
def overflow (c : Option UInt8) (buffer : Zstreambuf z) : Bool × Zstreambuf z :=
  let buffer := { buffer with putArea := some buffer.pending }
  if buffer.pending.length = bufsize ∨ c = none then
    let flush := if c = none then .finish else .noFlush
    match deflateLoop flush buffer.deflater buffer.inner buffer.pending with
    | (false, deflater, inner) => (false, { buffer with deflater := deflater, inner := inner })
    | (true, deflater, inner) => (true, ⟨deflater, some c.toList, inner⟩)
  else (true, { buffer with putArea := some (buffer.pending ++ c.toList) })

/-- `std::streambuf::sputc`. -/
def sputc (byte : UInt8) (buffer : Zstreambuf z) : Bool × Zstreambuf z :=
  match buffer.putArea with
  | some data =>
      if data.length < bufsize then (true, { buffer with putArea := some (data ++ [byte]) })
      else overflow (some byte) buffer
  | none => overflow (some byte) buffer

/-- `std::streambuf::sputn`, with whether all bytes have been taken. -/
def sputn : Bytes → Zstreambuf z → Bool × Zstreambuf z
  | [], buffer => (true, buffer)
  | byte :: bytes, buffer =>
      match sputc byte buffer with
      | (true, buffer) => sputn bytes buffer
      | (false, buffer) => (false, buffer)

/-- A sequence of writes to the stream, which writes no more once it has failed. -/
def writeAll : List Bytes → Zstreambuf z → Bool × Zstreambuf z
  | [], buffer => (true, buffer)
  | data :: writes, buffer =>
      match sputn data buffer with
      | (true, buffer) => writeAll writes buffer
      | (false, buffer) => (false, buffer)

/-- `Zstreambuf::sync`. -/
def sync (buffer : Zstreambuf z) : ℤ × Zstreambuf z :=
  match overflow none buffer with
  | (false, buffer) => (-1, buffer)
  | (true, buffer) => (buffer.inner.synced, { buffer with deflater := z.reset })

/-! ## What the inner stream receives -/

section Received

variable {inner : InnerStream} {buffer : Zstreambuf z}

theorem sputn_unbounded (unbounded : inner.room = none) (data : Bytes) :
    inner.sputn data = (data.length, { inner with content := inner.content ++ data }) := by
  rw [InnerStream.sputn, unbounded]

/-- One round of the loop over an inner stream that takes everything. -/
theorem deflateLoop_step (unbounded : inner.room = none) (flush : Flush) (deflater : z.State)
    {input : Bytes} (some : input ≠ []) : deflateLoop flush deflater inner input =
      deflateLoop flush (z.call flush deflater input bufsize).next
        { inner with content := inner.content ++ (z.call flush deflater input bufsize).produced }
        (input.drop (z.call flush deflater input bufsize).consumed) := by
  have accepted := z.accepted flush deflater input bufsize some (by decide)
  rw [deflateLoop, dif_pos some]
  simp only [if_neg accepted, sputn_unbounded unbounded, ne_eq, not_true_eq_false, if_false]

theorem deflateLoop_nil (flush : Flush) (deflater : z.State) (inner : InnerStream) :
    deflateLoop flush deflater inner [] = (true, deflater, inner) := by
  rw [deflateLoop, dif_neg (by simp)]

/-- A loop that is followed by more input takes its output off the front of what is
due. -/
theorem deflateLoop_noFlush (deflater : z.State) (inner : InnerStream) (input : Bytes)
    (unbounded : inner.room = none) : ∃ deflater' content',
    deflateLoop .noFlush deflater inner input =
        (true, deflater', { inner with content := content' }) ∧
      ∀ more, content' ++ z.rest deflater' more =
        inner.content ++ z.rest deflater (input ++ more) := by
  induction size : input.length + (z.rest deflater input).length using Nat.strong_induction_on
    generalizing deflater inner input with
  | _ size ih =>
      by_cases some : input = []
      · subst some
        exact ⟨deflater, inner.content, deflateLoop_nil _ _ _, fun more => rfl⟩
      · have shrinks := z.call_shrinks .noFlush deflater some (show 0 < bufsize by decide)
        have law := z.rest_noFlush deflater input
        rw [deflateLoop_step unbounded _ _ some]
        obtain ⟨deflater', content', loop, due⟩ := ih _ (size ▸ shrinks) _
          { inner with
            content := inner.content ++ (z.call .noFlush deflater input bufsize).produced }
          _ unbounded rfl
        refine ⟨deflater', content', loop, fun more => ?_⟩
        rw [due more, law more bufsize, List.append_assoc]

/-- The finishing loop puts on the inner stream what is due except for what is left
once the input has been taken. -/
theorem deflateLoop_finish (deflater : z.State) (inner : InnerStream) (input : Bytes)
    (unbounded : inner.room = none) : ∃ deflater' content',
    deflateLoop .finish deflater inner input =
        (true, deflater', { inner with content := content' }) ∧
      content' ++ z.left bufsize deflater input = inner.content ++ z.rest deflater input := by
  induction size : input.length + (z.rest deflater input).length using Nat.strong_induction_on
    generalizing deflater inner input with
  | _ size ih =>
      by_cases some : input = []
      · subst some
        refine ⟨deflater, inner.content, deflateLoop_nil _ _ _, ?_⟩
        rw [Compressor.left, dif_neg (by simp)]
      · have shrinks := z.call_shrinks .finish deflater some (show 0 < bufsize by decide)
        rw [deflateLoop_step unbounded _ _ some]
        obtain ⟨deflater', content', loop, due⟩ := ih _ (size ▸ shrinks) _
          { inner with
            content := inner.content ++ (z.call .finish deflater input bufsize).produced }
          _ unbounded rfl
        refine ⟨deflater', content', loop, ?_⟩
        rw [Compressor.left, dif_pos ⟨some, by decide⟩, due, z.rest_finish deflater input bufsize,
          List.append_assoc]

/-- What the inner stream has received and what the compressor and the put area
still hold make up the stream of the data written, whatever follows it. -/
structure Holds (buffer : Zstreambuf z) (data : Bytes) : Prop where
  unbounded : buffer.inner.room = none
  short : buffer.pending.length ≤ bufsize
  due (more : Bytes) : buffer.inner.content ++ z.rest buffer.deflater (buffer.pending ++ more) =
    z.stream (data ++ more)

theorem holds_fresh (synced : ℤ) : Holds (fresh z ⟨[], none, synced⟩) [] :=
  ⟨rfl, Nat.zero_le _, fun _ => rfl⟩

/-- A byte that has room is stored. -/
theorem sputc_room (room : buffer.pending.length < bufsize) (byte : UInt8) :
    sputc byte buffer = (true, { buffer with putArea := some (buffer.pending ++ [byte]) }) := by
  obtain ⟨deflater, putArea, inner⟩ := buffer
  cases putArea with
  | none => rfl
  | some area =>
      change area.length < bufsize at room
      rw [sputc]
      simp only [if_pos room]
      rfl

/-- A byte that has no room sends the put area through the compressor first. -/
theorem sputc_full (full : buffer.pending.length = bufsize)
    (unbounded : buffer.inner.room = none) (byte : UInt8) : ∃ deflater' content',
    sputc byte buffer =
        (true, ⟨deflater', some [byte], { buffer.inner with content := content' }⟩) ∧
      ∀ more, content' ++ z.rest deflater' more =
        buffer.inner.content ++ z.rest buffer.deflater (buffer.pending ++ more) := by
  obtain ⟨deflater, putArea, inner⟩ := buffer
  cases putArea with
  | none => cases full
  | some area =>
      change area.length = bufsize at full
      obtain ⟨deflater', content', loop, due⟩ := deflateLoop_noFlush deflater inner area unbounded
      refine ⟨deflater', content', ?_, due⟩
      rw [sputc]
      simp only [if_neg (show ¬area.length < bufsize by omega)]
      rw [overflow]
      simp only [pending, Option.getD_some, full, true_or, if_true, reduceCtorEq, if_false, loop,
        Option.toList_some]

/-- Writing a byte keeps the invariant. -/
theorem holds_sputc {data : Bytes} (holds : Holds buffer data) (byte : UInt8) :
    (sputc byte buffer).1 = true ∧ Holds (sputc byte buffer).2 (data ++ [byte]) := by
  obtain ⟨unbounded, short, due⟩ := holds
  rcases short.lt_or_eq with room | full
  · rw [sputc_room room]
    refine ⟨rfl, unbounded, ?_, fun more => ?_⟩
    · change (buffer.pending ++ [byte]).length ≤ bufsize
      rw [List.length_append, List.length_singleton]
      omega
    · change buffer.inner.content ++
        z.rest buffer.deflater ((buffer.pending ++ [byte]) ++ more) = _
      rw [List.append_assoc, due, List.append_assoc]
  · obtain ⟨deflater', content', write, law⟩ := sputc_full full unbounded byte
    rw [write]
    refine ⟨rfl, unbounded, show 1 ≤ bufsize by decide, fun more => ?_⟩
    change content' ++ z.rest deflater' ([byte] ++ more) = _
    rw [law, due, List.append_assoc]

/-- Writing bytes keeps the invariant. -/
theorem holds_sputn (bytes : Bytes) {buffer : Zstreambuf z} {data : Bytes}
    (holds : Holds buffer data) :
    (sputn bytes buffer).1 = true ∧ Holds (sputn bytes buffer).2 (data ++ bytes) := by
  induction bytes generalizing buffer data with
  | nil => exact ⟨rfl, by rwa [List.append_nil]⟩
  | cons byte bytes ih =>
      obtain ⟨taken, kept⟩ := holds_sputc holds byte
      rw [sputn]
      revert taken kept
      rcases sputc byte buffer with ⟨_ | _, after⟩
      · rintro ⟨⟩
      · intro _ kept
        rw [List.append_cons]
        exact ih kept

/-- After any sequence of writes the inner stream, the compressor and the put area
hold the stream of all that has been written. -/
theorem holds_writeAll (writes : List Bytes) {buffer : Zstreambuf z} {data : Bytes}
    (holds : Holds buffer data) : (writeAll writes buffer).1 = true ∧
      Holds (writeAll writes buffer).2 (data ++ writes.flatten) := by
  induction writes generalizing buffer data with
  | nil => exact ⟨rfl, by rwa [List.flatten_nil, List.append_nil]⟩
  | cons first writes ih =>
      obtain ⟨taken, kept⟩ := holds_sputn first holds
      rw [writeAll]
      revert taken kept
      rcases sputn first buffer with ⟨_ | _, after⟩
      · rintro ⟨⟩
      · intro _ kept
        rw [List.flatten_cons, ← List.append_assoc]
        exact ih kept

/-- A flush puts everything on the inner stream but what the last call of `deflate`
has left in the compressor. -/
theorem sync_content {data : Bytes} (holds : Holds buffer data) :
    (sync buffer).1 = buffer.inner.synced ∧
      (sync buffer).2.inner.content ++ z.left bufsize buffer.deflater buffer.pending =
        z.stream data := by
  obtain ⟨deflater', content', loop, due⟩ :=
    deflateLoop_finish buffer.deflater buffer.inner buffer.pending holds.unbounded
  have done : overflow none buffer =
      (true, ⟨deflater', some [], { buffer.inner with content := content' }⟩) := by
    rw [overflow]
    simp only [pending, Option.getD_some, or_true, if_true]
    rw [pending] at loop
    simp only [loop, Option.toList_none]
  have whole := holds.due []
  rw [List.append_nil, List.append_nil] at whole
  rw [sync, done]
  exact ⟨rfl, due.trans whole⟩

/-- Bytes that fit into the put area stay there. -/
theorem sputn_fits (bytes : Bytes) {buffer : Zstreambuf z}
    (fits : buffer.pending.length + bytes.length ≤ bufsize) :
    (sputn bytes buffer).2.pending = buffer.pending ++ bytes ∧
      (sputn bytes buffer).2.deflater = buffer.deflater := by
  induction bytes generalizing buffer with
  | nil => exact ⟨(List.append_nil _).symm, rfl⟩
  | cons byte bytes ih =>
      rw [List.length_cons] at fits
      have longer : (buffer.pending ++ [byte]).length + bytes.length ≤ bufsize := by
        rw [List.length_append, List.length_singleton]
        omega
      have same : buffer.pending ++ byte :: bytes = (buffer.pending ++ [byte]) ++ bytes :=
        List.append_cons _ _ _
      rw [sputn, sputc_room (by omega), same]
      exact ih longer

/-- One write that fits into the put area does not reach the compressor. -/
theorem writeAll_fits {data : Bytes} (fits : data.length ≤ bufsize) (synced : ℤ) :
    (writeAll [data] (fresh z ⟨[], none, synced⟩)).2.pending = data ∧
      (writeAll [data] (fresh z ⟨[], none, synced⟩)).2.deflater = z.reset := by
  have kept := sputn_fits data (show (fresh z ⟨[], none, synced⟩).pending.length + data.length ≤ bufsize
    by rw [fresh, pending, Option.getD_none, List.length_nil, Nat.zero_add]; exact fits)
  have same : (writeAll [data] (fresh z ⟨[], none, synced⟩)).2 =
      (sputn data (fresh z ⟨[], none, synced⟩)).2 := by
    rw [writeAll]
    rcases sputn data (fresh z ⟨[], none, synced⟩) with ⟨_ | _, after⟩ <;> rfl
  rw [same]
  exact kept

/-- A sequence of writes followed by one flush puts the whole finished stream of what
has been written on the inner stream if and only if the call of `deflate` that takes
the last of the put area leaves nothing pending. -/
theorem compressed_complete_iff (z : Compressor) (synced : ℤ) (writes : List Bytes) :
    (sync (writeAll writes (fresh z ⟨[], none, synced⟩)).2).2.inner.content =
        z.stream writes.flatten ↔
      z.Drains bufsize (writeAll writes (fresh z ⟨[], none, synced⟩)).2.deflater
        (writeAll writes (fresh z ⟨[], none, synced⟩)).2.pending := by
  have holds := (holds_writeAll writes (holds_fresh (z := z) synced)).2
  have whole := (sync_content holds).2
  rw [List.nil_append] at whole
  rw [← whole, List.self_eq_append_right]
  exact Iff.rfl

/-! ## Bytes that cannot be compressed -/

/-- The checksum at the end of a zlib stream. -/
def adler32 (data : Bytes) : ℕ :=
  let sums := data.foldl (fun (low, high) byte =>
    ((low + byte.toNat) % 65521, (high + (low + byte.toNat) % 65521) % 65521)) (1, 0)
  sums.2 * 2 ^ 16 + sums.1

/-- The zlib stream that `deflate` makes of less than `2 ^ 16` bytes that it cannot
compress: a header, one stored block and the checksum. -/
def storedStream (data : Bytes) : Bytes :=
  [0x78, 0x9C, 0x01, UInt8.ofNat data.length, UInt8.ofNat (data.length / 2 ^ 8),
      UInt8.ofNat (65535 - data.length), UInt8.ofNat ((65535 - data.length) / 2 ^ 8)] ++ data ++
    [UInt8.ofNat (adler32 data / 2 ^ 24), UInt8.ofNat (adler32 data / 2 ^ 16),
      UInt8.ofNat (adler32 data / 2 ^ 8), UInt8.ofNat (adler32 data)]

theorem length_storedStream (data : Bytes) : (storedStream data).length = data.length + 11 := by
  simp only [storedStream, List.length_append, List.length_cons, List.length_nil]
  omega

/-- The bytes from 0 to 255 in order. -/
def allBytes : Bytes := (List.range 256).map UInt8.ofNat

theorem length_allBytes : allBytes.length = 256 := by
  rw [allBytes, List.length_map, List.length_range]

theorem compressed_complete_all_bytes :
    (sync (writeAll [allBytes] (fresh (.deferring storedStream) ⟨[], none, 0⟩)).2).2.inner.content =
      (Compressor.deferring storedStream).stream [allBytes].flatten := by
  obtain ⟨pending, deflater⟩ := writeAll_fits (z := .deferring storedStream)
    (length_allBytes.trans_le (show 256 ≤ bufsize by decide)) 0
  refine (compressed_complete_iff (.deferring storedStream) 0 [allBytes]).mpr ?_
  rw [pending, deflater]
  apply Compressor.drains_of_short
  · rw [← List.length_pos_iff, length_allBytes]
    decide
  · change (Compressor.stream (.deferring storedStream) allBytes).length < bufsize
    rw [Compressor.stream_deferring, length_storedStream, length_allBytes]
    decide

/-- As many bytes as the put area holds, which `deflate` cannot compress. -/
def incompressible : Bytes :=
  (List.range bufsize).map fun i => UInt8.ofNat ((i * i + i) / 2 * (i / 128 + 1) + i / 7)

theorem length_incompressible : incompressible.length = bufsize := by
  rw [incompressible, List.length_map, List.length_range]

/-- The last bytes of the stream of a full put area do not fit into the output buffer
and are lost. -/
theorem compressed_truncated : ¬∀ (z : Compressor) (synced : ℤ) (writes : List Bytes),
    (sync (writeAll writes (fresh z ⟨[], none, synced⟩)).2).2.inner.content =
      z.stream writes.flatten := by
  intro complete
  have whole := complete (.deferring storedStream) 0 [incompressible]
  have holds := (holds_writeAll [incompressible]
    (holds_fresh (z := .deferring storedStream) 0)).2
  obtain ⟨pending, deflater⟩ := writeAll_fits (z := .deferring storedStream)
    length_incompressible.le 0
  have split := (sync_content holds).2
  rw [pending, deflater, whole, List.nil_append, List.append_right_eq_self] at split
  have some : incompressible ≠ [] := by
    rw [← List.length_pos_iff, length_incompressible]
    decide
  -- one call takes the whole input and fills its output buffer
  rw [Compressor.left_deferring storedStream some (by decide)] at split
  have lost := congrArg List.length split
  rw [List.length_drop, length_storedStream, length_incompressible, List.length_nil] at lost
  omega

end Received

end Zstreambuf

end Join
