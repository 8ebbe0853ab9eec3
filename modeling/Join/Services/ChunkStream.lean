import Join.Core.Utils
import Join.Library.Numerals

/-!
# Chunked transfer coding

`Chunkstreambuf` between a stream and the inner stream that carries the chunks. The bytes
that are written gather in a put area of the size of a chunk. Each time the area is full it
goes to the inner stream as one chunk, and a flush sends what is left and the empty chunk
that ends the coding. The reader fetches one chunk at a time into its get area.

The functions that `std::streambuf` supplies are given by what they are specified to do:
`sputn` calls `sputc` for each byte and `sgetn` calls `sbumpc`. A read of `std::istream`
takes bytes from the buffer until it has what it was asked for, and a stream that has met
the end of the file delivers nothing more.
-/

set_option autoImplicit false

namespace Join.ChunkStream

open Library

/-! ## Writing -/

/-- A writer: the bytes on the inner stream and those in the put area. -/
structure Writer where
  inner : List UInt8
  pending : List UInt8
deriving DecidableEq, Repr

/-- A chunk on the wire. -/
def chunk (data : List UInt8) : List UInt8 := toHex data.length ++ crlf ++ data ++ crlf

/-- The empty chunk that ends the coding. -/
def lastChunk : List UInt8 := [48] ++ crlf ++ crlf

/-- The part of `Chunkstreambuf::overflow` that sends the put area. -/
def sendPending (writer : Writer) : Writer :=
  if writer.pending.isEmpty then writer
  else ⟨writer.inner ++ chunk writer.pending, []⟩

/-- `Chunkstreambuf::overflow`. Without a byte it ends the coding. With one, the put area is
sent if it is full, and has room for the byte then, since a chunk holds at least one. -/
def overflow (chunksize : ℕ) (c : Option UInt8) (writer : Writer) : Writer :=
  match c with
  | none =>
      let sent := sendPending writer
      { sent with inner := sent.inner ++ lastChunk }
  | some byte =>
      let sent := if writer.pending.length = chunksize then sendPending writer else writer
      { sent with pending := sent.pending ++ [byte] }

/-- `std::streambuf::sputc`. -/
def sputc (chunksize : ℕ) (writer : Writer) (byte : UInt8) : Writer :=
  if writer.pending.length < chunksize then { writer with pending := writer.pending ++ [byte] }
  else overflow chunksize (some byte) writer

/-- `std::streambuf::sputn`. -/
def sputn (chunksize : ℕ) (writer : Writer) (data : List UInt8) : Writer :=
  data.foldl (sputc chunksize) writer

/-- `Chunkstreambuf::sync`. -/
def sync (chunksize : ℕ) (writer : Writer) : Writer := overflow chunksize none writer

/-- The bytes on the inner stream after some writes and a flush. -/
def encoded (chunksize : ℕ) (writes : List (List UInt8)) : List UInt8 :=
  (sync chunksize (writes.foldl (sputn chunksize) ⟨[], []⟩)).inner

/-! ## Reading -/

/-- A reader: what is left of the inner stream and of the get area. -/
structure Reader where
  inner : List UInt8
  area : List UInt8
deriving DecidableEq, Repr

/-- The end of `Chunkstreambuf::underflow`, behind the line with the size of the chunk. -/
def fetch (limit : ℕ) (chunksize : ℤ) (inner : List UInt8) : Option UInt8 × Reader :=
  if limit < chunksize then (none, ⟨inner, []⟩)
  else
    let got := inner.take chunksize.toNat
    let inner := inner.drop chunksize.toNat
    if got.length ≠ chunksize then (none, ⟨inner, []⟩)
    else
      match getline 1024 inner with
      | (none, inner) => (none, ⟨inner, got⟩)
      | (some line, inner) =>
          if line ≠ [] then (none, ⟨inner, got⟩) else (got.head?, ⟨inner, got⟩)

/-- `Chunkstreambuf::underflow`: the next byte of the get area, which is filled with a chunk
when it is empty. -/
def underflow (limit : ℕ) (reader : Reader) : Option UInt8 × Reader :=
  match reader.area with
  | byte :: _ => (some byte, reader)
  | [] =>
      match getline 1024 reader.inner with
      | (none, inner) => (none, ⟨inner, []⟩)
      | (some line, inner) =>
          match extractHex (-2 ^ 63) (2 ^ 63 - 1) (line.takeWhile fun ch => ch != 59) with
          | none => (none, ⟨inner, []⟩)
          | some chunksize => fetch limit chunksize inner

/-- `std::streambuf::sbumpc`. -/
def sbumpc (limit : ℕ) (reader : Reader) : Option UInt8 × Reader :=
  match underflow limit reader with
  | (none, reader) => (none, reader)
  | (some byte, reader) => (some byte, { reader with area := reader.area.tail })

/-- `std::streambuf::sgetn`. -/
def sgetn (limit : ℕ) : ℕ → Reader → List UInt8 × Reader
  | 0, reader => ([], reader)
  | count + 1, reader =>
      match sbumpc limit reader with
      | (none, reader) => ([], reader)
      | (some byte, reader) =>
          let rest := sgetn limit count reader
          (byte :: rest.1, rest.2)

/-- An input stream over a reader, and whether it has met the end of the file. -/
structure Input where
  reader : Reader
  eof : Bool
deriving DecidableEq, Repr

/-- `std::istream::read`. -/
def read (limit count : ℕ) (input : Input) : List UInt8 × Input :=
  if input.eof then ([], input)
  else
    let got := sgetn limit count input.reader
    (got.1, ⟨got.2, decide (got.1.length < count)⟩)

/-- The bytes that a sequence of reads delivers, and the stream after them. -/
def reads (limit : ℕ) : List ℕ → Input → List UInt8 × Input
  | [], input => ([], input)
  | count :: counts, input =>
      let first := read limit count input
      let later := reads limit counts first.2
      (first.1 ++ later.1, later.2)

/-- A chunked stream over the bytes of an inner stream. -/
def opened (inner : List UInt8) : Input := ⟨⟨inner, []⟩, false⟩

/-! ## What a writer has written -/

/-- The writer has sent full chunks, and these with the put area are what was written. -/
structure Writer.Holds (chunksize : ℕ) (data : List UInt8) (writer : Writer) : Prop where
  sent : ∃ chunks : List (List UInt8), writer.inner = chunks.flatMap chunk ∧
    data = chunks.flatten ++ writer.pending ∧
    ∀ part ∈ chunks, part ≠ [] ∧ part.length ≤ chunksize
  room : writer.pending.length ≤ chunksize

variable {chunksize limit : ℕ} {data : List UInt8} {writer : Writer}

/-- Sending the put area keeps what was written. -/
theorem Writer.Holds.sendPending (holds : writer.Holds chunksize data) :
    (sendPending writer).Holds chunksize data ∧ (ChunkStream.sendPending writer).pending = [] := by
  unfold ChunkStream.sendPending
  split_ifs with empty
  · exact ⟨holds, List.isEmpty_iff.mp empty⟩
  · obtain ⟨chunks, inner, all, short⟩ := holds.sent
    have filled : writer.pending ≠ [] := fun none => empty (List.isEmpty_iff.mpr none)
    refine ⟨⟨⟨chunks ++ [writer.pending], ?_, ?_, ?_⟩, Nat.zero_le _⟩, rfl⟩
    · rw [inner, List.flatMap_append, List.flatMap_singleton]
    · rw [all, List.flatten_append, List.flatten_singleton, List.append_nil]
    · intro part member
      rcases List.mem_append.mp member with old | new
      · exact short part old
      · rw [List.mem_singleton.mp new]
        exact ⟨filled, holds.room⟩

/-- Storing a byte in a put area with room. -/
theorem Writer.Holds.store (holds : writer.Holds chunksize data)
    (room : writer.pending.length < chunksize) (byte : UInt8) :
    Writer.Holds chunksize (data ++ [byte]) { writer with pending := writer.pending ++ [byte] } := by
  obtain ⟨chunks, inner, all, short⟩ := holds.sent
  refine ⟨⟨chunks, inner, ?_, short⟩, ?_⟩
  · rw [all, List.append_assoc]
  · rw [List.length_append]
    exact room

theorem Writer.Holds.sputc (holds : writer.Holds chunksize data) (positive : 1 ≤ chunksize)
    (byte : UInt8) : (sputc chunksize writer byte).Holds chunksize (data ++ [byte]) := by
  unfold ChunkStream.sputc
  split_ifs with room
  · exact holds.store room byte
  · have full : writer.pending.length = chunksize := le_antisymm holds.room (not_lt.mp room)
    obtain ⟨still, empty⟩ := holds.sendPending
    rw [overflow]
    simp only [if_pos full]
    exact still.store (by rw [empty]; exact positive) byte

theorem Writer.Holds.sputn (holds : writer.Holds chunksize data) (positive : 1 ≤ chunksize)
    (more : List UInt8) : (sputn chunksize writer more).Holds chunksize (data ++ more) := by
  induction more generalizing writer data with
  | nil =>
      rw [List.append_nil]
      exact holds
  | cons byte more ih =>
      have rest := ih (holds.sputc positive byte)
      rw [List.append_assoc, List.singleton_append] at rest
      exact rest

theorem Writer.Holds.writes (holds : writer.Holds chunksize data) (positive : 1 ≤ chunksize)
    (writes : List (List UInt8)) :
    (writes.foldl (ChunkStream.sputn chunksize) writer).Holds chunksize
      (data ++ writes.flatten) := by
  induction writes generalizing writer data with
  | nil =>
      rw [List.flatten_nil, List.append_nil]
      exact holds
  | cons more writes ih =>
      have rest := ih (holds.sputn positive more)
      rw [List.append_assoc] at rest
      exact rest

/-- The bytes after a flush are chunks of what was written, and the last chunk. -/
theorem encoded_eq (positive : 1 ≤ chunksize) (writes : List (List UInt8)) :
    ∃ chunks : List (List UInt8),
      encoded chunksize writes = chunks.flatMap chunk ++ lastChunk ∧
        chunks.flatten = writes.flatten ∧ ∀ part ∈ chunks, part ≠ [] ∧ part.length ≤ chunksize := by
  have fresh : (⟨[], []⟩ : Writer).Holds chunksize [] :=
    ⟨⟨[], rfl, rfl, fun _ member => absurd member List.not_mem_nil⟩, Nat.zero_le _⟩
  obtain ⟨still, empty⟩ := (fresh.writes positive writes).sendPending
  obtain ⟨chunks, inner, all, short⟩ := still.sent
  refine ⟨chunks, ?_, ?_, short⟩
  · rw [encoded, sync, overflow, inner]
  · rw [empty, List.append_nil, List.nil_append] at all
    exact all.symm

/-! ## What a reader has before it -/

/-- The get area and the chunks before the last one hold the data, and `after` follows them. -/
structure Reader.Ahead (limit : ℕ) (data after : List UInt8) (reader : Reader) : Prop where
  chunks : ∃ chunks : List (List UInt8),
    reader.inner = chunks.flatMap chunk ++ lastChunk ++ after ∧
      data = reader.area ++ chunks.flatten ∧ ∀ part ∈ chunks, part ≠ [] ∧ part.length ≤ limit

variable {after : List UInt8} {reader : Reader}

theorem onOneLine_toHex (number : ℕ) : OnOneLine (toHex number) :=
  forall_toHex (by decide) number

/-- The line with the size of a chunk, and what follows it. -/
theorem underflow_size (limit size : ℕ) (range : size < 2 ^ 63) (rest : List UInt8) :
    underflow limit ⟨toHex size ++ crlf ++ rest, []⟩ = fetch limit size rest := by
  have short : (toHex size).length + 2 ≤ 1024 := by
    have digits := length_toHex_le 16 (by decide) (range.trans (by decide))
    omega
  have plain : (toHex size).takeWhile (fun ch => ch != 59) = toHex size :=
    List.takeWhile_eq_self_iff.mpr (forall_toHex (by decide) size)
  have parsed : extractHex (-2 ^ 63) (2 ^ 63 - 1) (toHex size) = some (size : ℤ) :=
    extractHex_toHex (by omega) (by omega)
  rw [underflow]
  simp only
  rw [getline_crlf (onOneLine_toHex size) short]
  simp only [plain, parsed]

/-- A chunk that stands next is fetched. -/
theorem fetch_chunk {part : List UInt8} (small : part.length ≤ limit) (rest : List UInt8) :
    fetch limit part.length (part ++ crlf ++ rest) = (part.head?, ⟨rest, part⟩) := by
  have line : getline 1024 (crlf ++ rest) = (some [], rest) :=
    getline_crlf (fun _ member => absurd member List.not_mem_nil) (by decide) rest
  rw [fetch, if_neg (by omega)]
  simp only [Int.toNat_natCast, List.append_assoc, List.take_left, List.drop_left]
  rw [if_neg (fun different => different rfl)]
  rw [line]
  simp

/-- A reader with data before it delivers the first byte. -/
theorem Reader.Ahead.next {byte : UInt8} (ahead : reader.Ahead limit (byte :: data) after)
    (range : limit < 2 ^ 63) :
    ∃ moved : Reader, sbumpc limit reader = (some byte, moved) ∧ moved.Ahead limit data after := by
  obtain ⟨chunks, inner, all, short⟩ := ahead.chunks
  obtain ⟨bytes, area⟩ := reader
  subst inner
  cases area with
  | cons first area =>
      rw [List.cons_append, List.cons.injEq] at all
      refine ⟨⟨_, area⟩, ?_, ⟨chunks, rfl, all.2, short⟩⟩
      rw [all.1]
      rfl
  | nil =>
      cases chunks with
      | nil => cases all
      | cons part chunks =>
          obtain ⟨filled, small⟩ := short part List.mem_cons_self
          cases part with
          | nil => exact absurd rfl filled
          | cons first part =>
              rw [List.nil_append, List.flatten_cons, List.cons_append, List.cons.injEq] at all
              have fetched := (underflow_size limit (first :: part).length
                (lt_of_le_of_lt small range)
                ((first :: part) ++ crlf ++ (chunks.flatMap chunk ++ lastChunk ++ after))).trans
                (fetch_chunk small _)
              have spelled : (((first :: part) :: chunks).flatMap chunk) ++ lastChunk ++ after =
                  toHex (first :: part).length ++ crlf ++ ((first :: part) ++ crlf ++
                    (chunks.flatMap chunk ++ lastChunk ++ after)) := by
                simp only [List.flatMap_cons, chunk, List.append_assoc]
              refine ⟨⟨_, part⟩, ?_, ⟨chunks, rfl, all.2,
                fun other member => short other (List.mem_cons_of_mem _ member)⟩⟩
              rw [sbumpc]
              simp only [spelled, fetched, List.head?_cons, List.tail_cons, all.1]

/-- A reader with no data before it meets the last chunk, and stops right behind it. -/
theorem Reader.Ahead.finish (ahead : reader.Ahead limit [] after) :
    sbumpc limit reader = (none, ⟨after, []⟩) := by
  obtain ⟨chunks, inner, all, short⟩ := ahead.chunks
  obtain ⟨area, parts⟩ := List.append_eq_nil_iff.mp all.symm
  have none : chunks = [] := by
    apply List.eq_nil_iff_forall_not_mem.mpr
    intro part member
    exact (short part member).1 (List.flatten_eq_nil_iff.mp parts part member)
  obtain ⟨bytes, parts⟩ := reader
  subst inner none area
  have last : fetch limit ([] : List UInt8).length ([] ++ crlf ++ after) = (none, ⟨after, []⟩) :=
    fetch_chunk (Nat.zero_le limit) after
  have fetched := (underflow_size limit 0 (by decide) ([] ++ crlf ++ after)).trans last
  have spelled : (([] : List (List UInt8)).flatMap chunk) ++ lastChunk ++ after =
      toHex 0 ++ crlf ++ (([] : List UInt8) ++ crlf ++ after) := by
    simp [lastChunk, toHex, hexDigit]
  rw [sbumpc]
  simp only [spelled, fetched]

/-! ## Reading what was written -/

/-- Taking bytes from a reader delivers the data in order, and fewer bytes only at its end. -/
theorem sgetn_eq (range : limit < 2 ^ 63) (count : ℕ) (ahead : reader.Ahead limit data after) :
    (sgetn limit count reader).1 = data.take count ∧
      (if data.length < count then (sgetn limit count reader).2 = ⟨after, []⟩
        else (sgetn limit count reader).2.Ahead limit (data.drop count) after) := by
  induction count generalizing reader data with
  | zero => exact ⟨List.take_zero.symm, by rw [if_neg (Nat.not_lt_zero _)]; exact ahead⟩
  | succ count ih =>
      cases data with
      | nil =>
          rw [sgetn, ahead.finish]
          refine ⟨rfl, ?_⟩
          rw [List.length_nil, if_pos (Nat.succ_pos count)]
      | cons byte data =>
          obtain ⟨moved, step, still⟩ := ahead.next range
          obtain ⟨got, rest⟩ := ih still
          rw [sgetn, step]
          refine ⟨congrArg (List.cons byte) got, ?_⟩
          simp only [List.length_cons, Nat.succ_lt_succ_iff, List.drop_succ_cons]
          exact rest

/-- A stream that has met the end delivers nothing more and stays as it is. -/
theorem reads_of_eof (counts : List ℕ) {input : Input} (ended : input.eof = true) :
    reads limit counts input = ([], input) := by
  induction counts with
  | nil => rfl
  | cons count counts ih =>
      rw [reads, read, if_pos ended]
      simp only [ih, List.append_nil]

/-- Any sequence of reads delivers the data in order. Once a read was asked for more, the
stream has met the end and the inner stream stands right behind the coding. -/
theorem reads_eq (range : limit < 2 ^ 63) (counts : List ℕ) {input : Input}
    (good : input.eof = false) (ahead : input.reader.Ahead limit data after) :
    (reads limit counts input).1 = data.take counts.sum ∧
      ((reads limit counts input).2.eof = true ↔ data.length < counts.sum) ∧
      ((reads limit counts input).2.eof = true →
        (reads limit counts input).2.reader = ⟨after, []⟩) := by
  induction counts generalizing input data with
  | nil =>
      rw [reads, List.sum_nil, List.take_zero, good]
      exact ⟨rfl, iff_of_false Bool.false_ne_true (Nat.not_lt_zero _),
        fun ended => absurd ended Bool.false_ne_true⟩
  | cons count counts ih =>
      obtain ⟨got, rest⟩ := sgetn_eq range count ahead
      have step : read limit count input = ((sgetn limit count input.reader).1,
          ⟨(sgetn limit count input.reader).2, decide (data.length < count)⟩) := by
        have fewer : (sgetn limit count input.reader).1.length < count ↔ data.length < count := by
          rw [got, List.length_take]
          omega
        rw [read, good, if_neg Bool.false_ne_true]
        simp only [fewer]
      rw [reads, step, List.sum_cons]
      by_cases short : data.length < count
      · rw [if_pos short] at rest
        have ended : reads limit counts
            ⟨(sgetn limit count input.reader).2, decide (data.length < count)⟩ =
              ([], ⟨(sgetn limit count input.reader).2, decide (data.length < count)⟩) :=
          reads_of_eof counts (decide_eq_true short)
        simp only [ended, List.append_nil]
        refine ⟨?_, ⟨fun _ => by omega, fun _ => decide_eq_true short⟩, fun _ => rest⟩
        rw [got, List.take_of_length_le (by omega), List.take_of_length_le (by omega)]
      · rw [if_neg short] at rest
        have still : (⟨(sgetn limit count input.reader).2, decide (data.length < count)⟩ :
            Input).eof = false := decide_eq_false short
        obtain ⟨delivered, ended, behind⟩ := ih still rest
        refine ⟨?_, ?_, behind⟩
        · rw [delivered, got, List.take_add]
        · rw [ended, List.length_drop]
          omega

/-- What was written to a chunked stream and flushed is delivered by a chunked stream over the
same bytes, however it is asked for. The first read that asks for more meets the end of the
file, and the inner stream then stands right behind the end of the last chunk. -/
theorem chunked_comes_back (chunksize limit : ℕ) (positive : 1 ≤ chunksize)
    (fits : chunksize ≤ limit) (range : limit < 2 ^ 63) (writes : List (List UInt8))
    (after : List UInt8) (counts : List ℕ) :
    (reads limit counts (opened (encoded chunksize writes ++ after))).1 =
        writes.flatten.take counts.sum ∧
      ((reads limit counts (opened (encoded chunksize writes ++ after))).2.eof = true ↔
        writes.flatten.length < counts.sum) ∧
      ((reads limit counts (opened (encoded chunksize writes ++ after))).2.eof = true →
        (reads limit counts (opened (encoded chunksize writes ++ after))).2.reader.inner =
          after) := by
  obtain ⟨chunks, bytes, all, short⟩ := encoded_eq positive writes
  have ahead : (opened (encoded chunksize writes ++ after)).reader.Ahead limit writes.flatten
      after := by
    refine ⟨chunks, ?_, all.symm, fun part member =>
      ⟨(short part member).1, (short part member).2.trans fits⟩⟩
    rw [bytes]
    rfl
  obtain ⟨got, ended, behind⟩ := reads_eq range counts rfl ahead
  exact ⟨got, ended, fun eof => congrArg Reader.inner (behind eof)⟩

/-- Three writes through chunks of two bytes, read in two pieces, with a request behind them. -/
theorem chunked_comes_back_pieces :
    (reads 16384 [2, 9] (opened (encoded 2 [[1], [], [13, 10]] ++ [71, 69, 84]))).1 = [1, 13, 10] ∧
      (reads 16384 [2, 9] (opened (encoded 2 [[1], [], [13, 10]] ++ [71, 69, 84]))).2.reader.inner =
        [71, 69, 84] := by
  have back := chunked_comes_back 2 16384 (by decide) (by decide) (by decide) [[1], [], [13, 10]]
    [71, 69, 84] [2, 9]
  exact ⟨back.1, back.2.2 (back.2.1.mpr (by decide))⟩

/-! ## Chunks that are refused -/

/-- The chunk that stands next is all there, and no empty line follows it. -/
def Unclosed (limit : ℕ) (reader : Reader) : Prop :=
  reader.area = [] ∧ ∃ (line rest : List UInt8) (size : ℕ),
    getline 1024 reader.inner = (some line, rest) ∧
    extractHex (-2 ^ 63) (2 ^ 63 - 1) (line.takeWhile fun ch => ch != 59) = some (size : ℤ) ∧
    0 < size ∧ size ≤ limit ∧ size ≤ rest.length ∧
    (getline 1024 (rest.drop size)).1 ≠ some []

/-- A chunk that is all there stays in the get area, whatever follows it. -/
theorem fetch_whole {size : ℕ} {rest : List UInt8} (small : size ≤ limit)
    (present : size ≤ rest.length) :
    (fetch limit size rest).2.area = rest.take size ∧
      ((fetch limit size rest).1 = none ↔
        size = 0 ∨ (getline 1024 (rest.drop size)).1 ≠ some []) := by
  have whole : ((rest.take size).length : ℤ) = size := by
    rw [List.length_take, Nat.min_eq_left present]
  have first : (rest.take size).head? = none ↔ size = 0 := by
    rw [List.head?_eq_none_iff, List.take_eq_nil_iff, ← List.length_eq_zero_iff]
    omega
  rw [fetch, if_neg (by omega)]
  simp only [Int.toNat_natCast]
  rw [if_neg (fun different => different whole)]
  rcases closing : getline 1024 (rest.drop size) with ⟨_ | line, behind⟩
  · simp
  · by_cases empty : line = []
    · simp [empty, first]
    · simp [empty]

/-- A chunk that is too large, negative or not all there leaves the get area empty. -/
theorem fetch_refused {chunksize : ℤ} {rest : List UInt8}
    (refused : limit < chunksize ∨ chunksize < 0 ∨ rest.length < chunksize) :
    (fetch limit chunksize rest).2.area = [] := by
  rw [fetch]
  split_ifs with large
  · rfl
  · have short : ((rest.take chunksize.toNat).length : ℤ) ≠ chunksize := by
      rw [List.length_take]
      omega
    simp only [if_pos short]

/-- The end of the file leaves the get area empty exactly when no whole chunk stands next
that lacks the empty line behind it. -/
theorem area_empty_at_eof_iff (limit : ℕ) (reader : Reader) :
    ((underflow limit reader).1 = none → (underflow limit reader).2.area = []) ↔
      ¬ Unclosed limit reader := by
  obtain ⟨inner, area⟩ := reader
  cases area with
  | cons byte area =>
    refine iff_of_true (fun absurd => by cases absurd) ?_
    rintro ⟨empty, -⟩
    cases empty
  | nil =>
    rw [Unclosed, underflow]
    simp only [true_and]
    rcases first : getline 1024 inner with ⟨_ | line, rest⟩
    · refine iff_of_true (fun _ => rfl) ?_
      rintro ⟨line, rest, size, absurd, -⟩
      cases absurd
    · cases parsed : extractHex (-2 ^ 63) (2 ^ 63 - 1) (line.takeWhile fun ch => ch != 59) with
      | none =>
        refine iff_of_true (fun _ => by simp only [parsed]) ?_
        rintro ⟨other, behind, size, same, spelled, -⟩
        injection same with same
        rw [← Option.some.inj same, parsed] at spelled
        cases spelled
      | some chunksize =>
        simp only [parsed]
        by_cases refused : limit < chunksize ∨ chunksize < 0 ∨ rest.length < chunksize
        · refine iff_of_true (fun _ => fetch_refused refused) ?_
          rintro ⟨other, behind, size, same, spelled, positive, small, present, -⟩
          injection same with same left
          rw [← Option.some.inj same, parsed] at spelled
          injection spelled with spelled
          rw [← left] at present
          omega
        · obtain ⟨size, rfl⟩ : ∃ size : ℕ, chunksize = size :=
            ⟨chunksize.toNat, by omega⟩
          obtain ⟨area, ended⟩ := @fetch_whole limit size rest (by omega) (by omega)
          rw [area, ended, List.take_eq_nil_iff, ← List.length_eq_zero_iff]
          constructor
          · rintro empty ⟨other, behind, size', same, spelled, positive, small, present, unclosed⟩
            injection same with same left
            rw [← Option.some.inj same, parsed] at spelled
            injection spelled with spelled
            rw [← left] at present unclosed
            obtain rfl : size = size' := by omega
            have := empty (.inr unclosed)
            omega
          · rintro closed (zero | unclosed)
            · exact .inl zero
            · by_contra filled
              exact closed ⟨line, rest, size, rfl, parsed, by omega, by omega, by omega, unclosed⟩

/-- Bytes where the line behind a chunk has to be: the chunk can be read all the same. -/
theorem unclosed_chunk_stays :
    ¬ ∀ (limit : ℕ) (reader : Reader),
      (underflow limit reader).1 = none → (underflow limit reader).2.area = [] := by
  intro empty
  have stays := empty 16384 ⟨[50, 13, 10, 97, 98, 99, 13, 10], []⟩ (by decide)
  exact absurd stays (by decide)

end Join.ChunkStream
