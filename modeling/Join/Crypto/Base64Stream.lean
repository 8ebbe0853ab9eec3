import Join.Crypto.Evp
import Join.Library.PutArea

/-!
# Base64 streams

`Encoder` and `Decoder`: output streams whose buffer hands blocks of 256 characters to the coding
functions and collects what they report. The output is extended before each call, by what the
buffer takes to be enough for it, and cut to the reported size after it.

The sizes are kept in an `int`. A sum that does not fit makes `resize` throw, and a call that
writes more than the output has been extended by has left its memory; nothing is known after
that.
-/

set_option autoImplicit false

namespace Join

open Library

/-- The greatest `int`. -/
def intMax : ℕ := 2147483647

/-- A coding function is called with the output extended by the given number of bytes, unless
the size does not fit. -/
def reserve (out : List UInt8) (room : ℕ) (call : Evp.Call) : Outcome :=
  if intMax < out.length + room then .thrown
  else if room < call.size then .overrun
  else .taken

/-- The state of a coding buffer: the pending bytes or characters of its context, if there is
one, and its output. -/
structure Coder where
  ctx : Option (List UInt8)
  out : List UInt8

namespace Coder

/-- The state of a new buffer. -/
def fresh : Coder := ⟨none, []⟩

/-- What the pending bytes or characters are. -/
def pending (coder : Coder) : List UInt8 := coder.ctx.getD []

/-- A context is created, and the output cleared, when there is no context. -/
def start (coder : Coder) : Coder := if coder.ctx.isNone then ⟨some [], []⟩ else coder

/-- The context is given up. -/
def reset (coder : Coder) : Coder := { coder with ctx := none }

theorem start_start (coder : Coder) : coder.start.start = coder.start := by
  rw [start, start]
  split_ifs <;> simp_all

end Coder

/-! ## Encoding -/

/-- The number of bytes that `Encoderbuf::overflow` extends the output by. -/
def encoderRoom (pending block : List UInt8) : ℕ := (pending.length + block.length) / 48 * 65 + 1

/-- A block of `Encoderbuf::overflow`. -/
def encodeBlock (coder : Coder) (block : List UInt8) : Coder × Outcome :=
  let call := Evp.encodeUpdate coder.pending block
  match reserve coder.out (encoderRoom coder.pending block) call with
  | .taken => (⟨some call.pending, coder.out ++ call.out⟩, .taken)
  | outcome => (coder, outcome)

/-- A put area holds something. -/
theorem area_pos : 0 < 256 := Nat.zero_lt_succ 255

/-- `Encoderbuf`. -/
def encoderbuf : Sink Coder where
  capacity := 256
  capacity_pos := area_pos
  prepare := Coder.start
  update := encodeBlock
  prepare_prepare := Coder.start_start
  prepare_update := by
    intro coder block prepared
    dsimp only [encodeBlock]
    split
    · rfl
    · exact prepared

/-- The end of `Encoderbuf::get`. -/
def encodeRest (coder : Coder) : Coder × Except Outcome (List UInt8) :=
  let call := Evp.encodeFinal coder.pending
  match reserve coder.out 66 call with
  | .taken =>
      let text := (coder.out ++ call.out).filter (· ≠ Evp.newline)
      (⟨none, text⟩, .ok text)
  | outcome => (coder, .error outcome)

/-- `Encoder`. -/
abbrev Encoder : Type := Ostream Coder

namespace Encoder

/-- A new encoder. -/
def fresh : Encoder := ⟨⟨none, Coder.fresh⟩, true⟩

/-- `Encoder::get`. -/
def get (encoder : Encoder) : Encoder × Except Outcome (List UInt8) :=
  encoderbuf.result Coder.reset encodeRest encoder

/-- The results of an encoder that is used several times. -/
def results (encoder : Encoder) (uses : List (List Write)) : List (Except Outcome (List UInt8)) :=
  encoderbuf.results Coder.reset encodeRest encoder uses

end Encoder

/-! ## Decoding -/

/-- A block of `Decoderbuf::overflow`. -/
def decodeBlock (coder : Coder) (block : List UInt8) : Coder × Outcome :=
  let call := Evp.decodeUpdate coder.pending block
  match reserve coder.out block.length call with
  | .taken =>
      if call.status = -1 then
        -- The output keeps the size that it was extended to.
        (⟨some call.pending, coder.out ++ call.out ++
          List.replicate (block.length - call.out.length) 0⟩, .refused)
      else (⟨some call.pending, coder.out ++ call.out⟩, .taken)
  | outcome => (coder, outcome)

/-- `Decoderbuf`. -/
def decoderbuf : Sink Coder where
  capacity := 256
  capacity_pos := area_pos
  prepare := Coder.start
  update := decodeBlock
  prepare_prepare := Coder.start_start
  prepare_update := by
    intro coder block prepared
    dsimp only [decodeBlock]
    split
    · split
      · rfl
      · rfl
    · exact prepared

/-- The end of `Decoderbuf::get`, which ignores the result of the last call. -/
def decodeRest (coder : Coder) : Coder × Except Outcome (List UInt8) :=
  let call := Evp.decodeFinal coder.pending
  match reserve coder.out 66 call with
  | .taken => (⟨none, coder.out ++ call.out⟩, .ok (coder.out ++ call.out))
  | outcome => (coder, .error outcome)

/-- `Decoder`. -/
abbrev Decoder : Type := Ostream Coder

namespace Decoder

/-- A new decoder. -/
def fresh : Decoder := ⟨⟨none, Coder.fresh⟩, true⟩

/-- `Decoder::get`. -/
def get (decoder : Decoder) : Decoder × Except Outcome (List UInt8) :=
  decoderbuf.result Coder.reset decodeRest decoder

end Decoder

/-! ## Whole texts -/

namespace Base64

/-- `Base64::encode`. -/
def encode (data : List UInt8) : Except Outcome (List UInt8) :=
  (Encoder.get (encoderbuf.emits Encoder.fresh [.write data])).2

/-- `Base64::decode`. -/
def decode (data : List UInt8) : Except Outcome (List UInt8) :=
  (Decoder.get (decoderbuf.emits Decoder.fresh [.write data])).2

end Base64

end Join
