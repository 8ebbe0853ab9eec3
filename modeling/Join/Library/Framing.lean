import Mathlib.Data.List.Basic
import Join.Library.ByteOrder

/-!
# Frames with a length in front

A frame is a payload behind its length, in a fixed number of bytes, the most significant
first. A stream of frames is read piece by piece into a buffer: a piece that is written behind
what the buffer holds makes that longer.
-/

set_option autoImplicit false

namespace Join.Library

variable {width : ℕ}

/-- The frame of a payload. -/
def frame (width : ℕ) (payload : List UInt8) : List UInt8 :=
  beBytes width payload.length ++ payload

/-- The frames of some payloads, one behind the other. -/
def frames (width : ℕ) (payloads : List (List UInt8)) : List UInt8 :=
  payloads.flatMap (frame width)

@[simp]
theorem length_frame (payload : List UInt8) :
    (frame width payload).length = width + payload.length := by
  rw [frame, List.length_append, length_beBytes]

theorem frames_cons (payload : List UInt8) (rest : List (List UInt8)) :
    frames width (payload :: rest) = frame width payload ++ frames width rest := rfl

theorem frames_append (left right : List (List UInt8)) :
    frames width (left ++ right) = frames width left ++ frames width right :=
  List.flatMap_append

/-- The length that is in front of a payload is its length. -/
theorem beValue_header {payload : List UInt8} (small : payload.length < 256 ^ width) :
    beValue (beBytes width payload.length) = payload.length := by
  rw [beValue_beBytes, Nat.mod_eq_of_lt small]

/-! ## A buffer -/

/-- The first bytes of a buffer. -/
def contents (buffer : ℕ → UInt8) (count : ℕ) : List UInt8 := (List.range count).map buffer

/-- The buffer after bytes were written at a position. -/
def fill (buffer : ℕ → UInt8) (position : ℕ) (bytes : List UInt8) : ℕ → UInt8 := fun i =>
  if position ≤ i then bytes.getD (i - position) (buffer i) else buffer i

@[simp]
theorem length_contents (buffer : ℕ → UInt8) (count : ℕ) :
    (contents buffer count).length = count := by
  rw [contents, List.length_map, List.length_range]

/-- Bytes that are written behind the first ones stand there. -/
theorem contents_fill (buffer : ℕ → UInt8) (position : ℕ) (bytes : List UInt8) :
    contents (fill buffer position bytes) (position + bytes.length) =
      contents buffer position ++ bytes := by
  refine List.ext_getElem (by simp) fun i first second => ?_
  simp only [contents, List.getElem_map, List.getElem_range, fill]
  by_cases before : i < position
  · rw [if_neg (Nat.not_le.mpr before), List.getElem_append_left (by simpa using before)]
    simp
  · have behind := Nat.not_lt.mp before
    have inside : i - position < bytes.length := by
      simp only [length_contents] at first
      omega
    rw [if_pos behind, List.getElem_append_right (by simpa using behind),
      List.getD_eq_getElem _ _ inside]
    simp

/-- A piece of a list that continues what the buffer holds of it. -/
theorem contents_fill_take {buffer : ℕ → UInt8} {list : List UInt8} {position count : ℕ}
    (held : contents buffer position = list.take position)
    (inside : position + count ≤ list.length) :
    contents (fill buffer position ((list.drop position).take count)) (position + count) =
      list.take (position + count) := by
  have length : ((list.drop position).take count).length = count := by
    rw [List.length_take, List.length_drop]
    omega
  have filled := contents_fill buffer position ((list.drop position).take count)
  rw [length] at filled
  rw [filled, held, List.take_add]

end Join.Library
