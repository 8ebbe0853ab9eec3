import Join.Library.ByteOrder

/-!
# Byte streams with a position

A stream of bytes as a stream library gives it: an input stream has a read position
and remembers that a read has failed, an output stream has a write position and
overwrites what stands there.

A read that asks for more than there is delivers what is left and fails, and a failed
stream delivers nothing more and no longer moves. What a failed read leaves in the
variable it should have filled is therefore a mixture of old and new bytes, which
`overwrite` describes.

Most reads take place in a stream of the form `InStream.at before rest`, with `before`
read already and `rest` still to come: there a read just moves bytes from one to the
other.
-/

set_option autoImplicit false

namespace Join.Library

/-- The bytes of a variable after the first few of them have been replaced. -/
def overwrite (old new : List UInt8) : List UInt8 := new ++ old.drop new.length

theorem overwrite_of_length_le {old new : List UInt8} (enough : old.length ≤ new.length) :
    overwrite old new = new := by
  rw [overwrite, List.drop_eq_nil_of_le enough, List.append_nil]

@[simp] theorem overwrite_nil (old : List UInt8) : overwrite old [] = old := rfl

/-- The first bytes of a text that reach beyond its front. -/
theorem take_beyond {front : List UInt8} {count : ℕ} (reached : front.length ≤ count)
    (back : List UInt8) :
    (front ++ back).take count = front ++ back.take (count - front.length) := by
  rw [List.take_append, List.take_of_length_le reached]

/-! ## Input -/

/-- An input stream: its bytes, the read position and whether a read has failed. -/
structure InStream where
  bytes : List UInt8
  pos : ℕ
  failed : Bool
deriving Repr, DecidableEq

namespace InStream

/-- The stream over some bytes, before the first read. -/
def ofBytes (bytes : List UInt8) : InStream := ⟨bytes, 0, false⟩

/-- A stream whose bytes have been read up to `rest`. -/
def between (before rest : List UInt8) : InStream := ⟨before ++ rest, before.length, false⟩

/-- Read `count` bytes. The bytes delivered are fewer when the stream ends before, and
the stream has then failed. -/
def read (count : ℕ) (stream : InStream) : List UInt8 × InStream :=
  if stream.failed then ([], stream)
  else
    let got := (stream.bytes.drop stream.pos).take count
    (got, { stream with pos := stream.pos + got.length, failed := decide (got.length < count) })

/-- The read position, `-1` in a failed stream. -/
def tellg (stream : InStream) : ℤ := if stream.failed then -1 else stream.pos

/-- Move the read position. A position outside of the bytes makes the stream fail, and a
failed stream stays where it is. -/
def seekg (target : ℤ) (stream : InStream) : InStream :=
  if stream.failed then stream
  else if 0 ≤ target ∧ target ≤ stream.bytes.length then { stream with pos := target.toNat }
  else { stream with failed := true }

/-- Read a number into a variable that holds `old`, most significant byte first. -/
def readNet (width old : ℕ) (stream : InStream) : ℕ × InStream :=
  (beValue (overwrite (leBytes width old) (stream.read width).1), (stream.read width).2)

variable {stream : InStream} {count : ℕ} {before rest taken : List UInt8}

theorem ofBytes_eq (bytes : List UInt8) : ofBytes bytes = between [] bytes := rfl

@[simp] theorem between_failed : (between before rest).failed = false := rfl

@[simp] theorem between_pos : (between before rest).pos = before.length := rfl

@[simp] theorem between_bytes : (between before rest).bytes = before ++ rest := rfl

/-! ### Reading -/

@[simp] theorem read_bytes : (stream.read count).2.bytes = stream.bytes := by
  unfold read
  split_ifs <;> rfl

theorem read_length_le : (stream.read count).1.length ≤ count := by
  unfold read
  split_ifs
  · exact Nat.zero_le _
  · rw [List.length_take]
    exact Nat.min_le_left _ _

/-- A failed stream delivers nothing and stays as it is. -/
theorem read_of_failed (failed : stream.failed = true) : stream.read count = ([], stream) := by
  rw [read, if_pos failed]

theorem failed_of_read (ok : (stream.read count).2.failed = false) : stream.failed = false := by
  by_contra broken
  rw [Bool.not_eq_false] at broken
  rw [read_of_failed broken, broken] at ok
  exact Bool.noConfusion ok

/-- A read that does not fail delivers all it was asked for. -/
theorem read_length (ok : (stream.read count).2.failed = false) :
    (stream.read count).1.length = count := by
  refine le_antisymm read_length_le ?_
  have sound := failed_of_read ok
  rw [read, if_neg (by rw [sound]; exact Bool.false_ne_true)] at ok ⊢
  exact Nat.le_of_not_lt (of_decide_eq_false ok)

/-- A read that does not fail moves the position by what it was asked for, and stays
inside the bytes. -/
theorem read_pos (ok : (stream.read count).2.failed = false) :
    (stream.read count).2.pos = stream.pos + count ∧
      stream.pos + count ≤ max stream.pos stream.bytes.length := by
  have length := read_length ok
  have sound := failed_of_read ok
  rw [read, if_neg (by rw [sound]; exact Bool.false_ne_true)] at length ⊢
  dsimp only at length ⊢
  refine ⟨by rw [length], ?_⟩
  rw [List.length_take, List.length_drop] at length
  omega

/-- A read that stays inside the bytes. -/
theorem read_inside {bytes : List UInt8} {pos : ℕ} (enough : pos + count ≤ bytes.length) :
    (InStream.mk bytes pos false).read count =
      ((bytes.drop pos).take count, ⟨bytes, pos + count, false⟩) := by
  have length : ((bytes.drop pos).take count).length = count := by
    rw [List.length_take, List.length_drop]
    omega
  simp only [read, Bool.false_eq_true, if_false, length, lt_irrefl, decide_false]

/-- A read that reaches beyond the bytes fails. -/
theorem read_beyond {bytes : List UInt8} {pos : ℕ} (beyond : bytes.length < pos + count)
    (some' : 0 < count) : ((InStream.mk bytes pos false).read count).2.failed = true := by
  have short : ((bytes.drop pos).take count).length < count := by
    rw [List.length_take, List.length_drop]
    omega
  simp only [read, Bool.false_eq_true, if_false, short, decide_true]

/-- A length byte and what it announces bring the stream closer to its end. -/
theorem remaining_counted (ok : ((stream.read 1).2.read count).2.failed = false) :
    ((stream.read 1).2.read count).2.bytes.length - ((stream.read 1).2.read count).2.pos <
      stream.bytes.length - stream.pos := by
  have first := read_pos (failed_of_read ok)
  have second := read_pos ok
  rw [read_bytes] at second
  rw [read_bytes, read_bytes]
  omega

/-- Two reads in a row deliver what one longer read delivers. -/
theorem read_add (first second : ℕ) : stream.read (first + second) =
    ((stream.read first).1 ++ ((stream.read first).2.read second).1,
      ((stream.read first).2.read second).2) := by
  by_cases broken : stream.failed = true
  · simp [read_of_failed broken]
  · rw [Bool.not_eq_true] at broken
    have split : ((stream.bytes.drop stream.pos).take (first + second)) =
        (stream.bytes.drop stream.pos).take first ++
          ((stream.bytes.drop stream.pos).drop first).take second := List.take_add
    by_cases short : (stream.bytes.drop stream.pos).length < first
    · have head : (stream.bytes.drop stream.pos).take first = stream.bytes.drop stream.pos :=
        List.take_of_length_le (by omega)
      have all : (stream.bytes.drop stream.pos).take (first + second) =
          stream.bytes.drop stream.pos := List.take_of_length_le (by omega)
      simp only [read, broken, Bool.false_eq_true, if_false, head, all, short, decide_true, if_true,
        List.append_nil]
      rw [decide_eq_true (by omega)]
    · have length : ((stream.bytes.drop stream.pos).take first).length = first := by
        rw [List.length_take]
        omega
      simp only [read, broken, Bool.false_eq_true, if_false, length, lt_irrefl, decide_false, split,
        List.length_append, List.drop_drop, Nat.add_assoc, add_lt_add_iff_left]

/-- The stream after two reads in a row. -/
theorem read_read (first second : ℕ) :
    ((stream.read first).2.read second).2 = (stream.read (first + second)).2 :=
  (congrArg Prod.snd (read_add first second)).symm

/-- Bytes that stand next in the stream are delivered. -/
@[simp] theorem read_between : (between before (taken ++ rest)).read taken.length =
    (taken, between (before ++ taken) rest) := by
  unfold read between
  simp

theorem read_between_of_length (length : taken.length = count) :
    (between before (taken ++ rest)).read count = (taken, between (before ++ taken) rest) := by
  subst length
  exact read_between

@[simp] theorem read_one (byte : UInt8) : (between before (byte :: rest)).read 1 =
    ([byte], between (before ++ [byte]) rest) :=
  read_between_of_length (show [byte].length = 1 from rfl)

/-- A read past the end delivers the rest and fails. -/
theorem read_between_short (short : rest.length < count) :
    (between before rest).read count = (rest, ⟨before ++ rest, (before ++ rest).length, true⟩) := by
  unfold read between
  simp [List.take_of_length_le (le_of_lt short), short]

/-- A read that asks for more than there is leaves a failed stream. -/
theorem failed_read_between (short : rest.length < count) :
    ((between before rest).read count).2.failed = true := by
  rw [read_between_short short]

/-! ### Moving -/

@[simp] theorem seekg_bytes (target : ℤ) : (stream.seekg target).bytes = stream.bytes := by
  unfold seekg
  split_ifs <;> rfl

theorem seekg_of_failed (failed : stream.failed = true) (target : ℤ) :
    stream.seekg target = stream := by
  rw [seekg, if_pos failed]

theorem tellg_of_failed (failed : stream.failed = true) : stream.tellg = -1 := by
  rw [tellg, if_pos failed]

@[simp] theorem tellg_between : (between before rest).tellg = before.length := rfl

@[simp] theorem seekg_between : (between before rest).seekg before.length = between before rest := by
  unfold seekg between
  simp

/-! ### Numbers -/

@[simp] theorem readNet_bytes (width old : ℕ) :
    (stream.readNet width old).2.bytes = stream.bytes := read_bytes

/-- A number that was written is read back, cut to its width. -/
theorem readNet_between (width old value : ℕ) :
    (between before (beBytes width value ++ rest)).readNet width old =
      (value % 256 ^ width, between (before ++ beBytes width value) rest) := by
  have got : (between before (beBytes width value ++ rest)).read width =
      (beBytes width value, between (before ++ beBytes width value) rest) :=
    read_between_of_length (length_beBytes width value)
  rw [readNet, got, overwrite_of_length_le (by rw [length_leBytes, length_beBytes]),
    beValue_beBytes]

theorem readNet_between_short {width : ℕ} (short : rest.length < width) (old : ℕ) :
    (between before rest).readNet width old =
      (beValue (overwrite (leBytes width old) rest),
        ⟨before ++ rest, (before ++ rest).length, true⟩) := by
  rw [readNet, read_between_short short]

end InStream

/-! ## Output -/

/-- An output stream: its bytes and the write position. -/
structure OutStream where
  bytes : List UInt8
  pos : ℕ
deriving Repr, DecidableEq

namespace OutStream

/-- The empty stream. -/
def empty : OutStream := ⟨[], 0⟩

/-- A stream that is written at its end. -/
def ending (bytes : List UInt8) : OutStream := ⟨bytes, bytes.length⟩

/-- Write bytes over what stands at the write position, and beyond the end if needed. -/
def write (new : List UInt8) (stream : OutStream) : OutStream :=
  ⟨stream.bytes.take stream.pos ++ overwrite (stream.bytes.drop stream.pos) new,
    stream.pos + new.length⟩

/-- The write position. -/
def tellp (stream : OutStream) : ℕ := stream.pos

/-- Move the write position. -/
def seekp (target : ℕ) (stream : OutStream) : OutStream := { stream with pos := target }

variable {bytes middle last new : List UInt8}

theorem empty_eq : empty = ending [] := rfl

@[simp] theorem tellp_ending : (ending bytes).tellp = bytes.length := rfl

/-- Writing at the end appends. -/
@[simp] theorem write_ending : (ending bytes).write new = ending (bytes ++ new) := by
  unfold write ending overwrite
  simp

/-- Going back to replace as many bytes as were left there, and to the end again. -/
theorem seekp_write_seekp (same : new.length = middle.length) :
    (((ending (bytes ++ middle ++ last)).seekp bytes.length).write new).seekp
      (bytes ++ middle ++ last).length = ending (bytes ++ new ++ last) := by
  unfold seekp write ending overwrite
  simp [List.append_assoc, same]

end OutStream

end Join.Library
