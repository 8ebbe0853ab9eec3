import Join.Library.Stream

/-!
# Pieces of a stream that ends too early

A reader that goes through a stream piece by piece notices a missing end only where it
looks. Each piece says for every place inside of it whether a stream that ends there makes
its step fail; where it does not, the step succeeds on bytes that were not there and leaves
a stream that has nothing more to give. The next step then fails in any case.

So a cut goes unnoticed only inside the last piece, at a place that the piece does not guard.
-/

set_option autoImplicit false

namespace Join.Library

/-- The stream has no byte left to read. -/
def InStream.Spent (stream : InStream) : Prop := (stream.read 1).2.failed = true

theorem InStream.spent_of_failed {stream : InStream} (failed : stream.failed = true) :
    stream.Spent := by
  rw [Spent, read_of_failed failed, failed]

theorem InStream.spent_between (before : List UInt8) : (InStream.between before []).Spent := by
  rw [Spent, read_between_short (by simp)]

/-- A piece of a stream: its bytes, the step that reads it, and the places inside of it where
the step notices that the stream ends. -/
structure Piece where
  bytes : List UInt8
  step : InStream → Option InStream
  guarded : ℕ → Bool

/-- A piece whose step does what the piece says. -/
structure Piece.Sound (piece : Piece) : Prop where
  passes : ∀ before rest, piece.step (.between before (piece.bytes ++ rest)) =
    some (.between (before ++ piece.bytes) rest)
  stops : ∀ before cut, cut < piece.bytes.length → piece.guarded cut = true →
    piece.step (.between before (piece.bytes.take cut)) = none
  slips : ∀ before cut, cut < piece.bytes.length → piece.guarded cut = false →
    ∃ after, piece.step (.between before (piece.bytes.take cut)) = some after ∧ after.Spent
  spent : ∀ stream, stream.Spent → piece.step stream = none

/-- Read pieces one after the other. -/
def walk (pieces : List Piece) (stream : InStream) : Option InStream :=
  pieces.foldlM (fun stream piece => piece.step stream) stream

/-- Whether a stream of these pieces that ends after `cut` bytes is noticed to end there. -/
def detects : List Piece → ℕ → Bool
  | [], _ => false
  | piece :: pieces, cut =>
      if cut < piece.bytes.length then piece.guarded cut || !pieces.isEmpty
      else detects pieces (cut - piece.bytes.length)

theorem walk_cons (piece : Piece) (pieces : List Piece) (stream : InStream) :
    walk (piece :: pieces) stream = (piece.step stream).bind (walk pieces) := by
  rw [walk, List.foldlM_cons]
  rfl

/-- A stream of pieces that is cut off makes the walk fail exactly where the cut is noticed. -/
theorem walk_cut {pieces : List Piece} (sound : ∀ piece ∈ pieces, piece.Sound)
    (before : List UInt8) {cut : ℕ} (inside : cut < (pieces.flatMap Piece.bytes).length) :
    walk pieces (.between before ((pieces.flatMap Piece.bytes).take cut)) = none ↔
      detects pieces cut = true := by
  induction pieces generalizing before cut with
  | nil => exact absurd inside (Nat.not_lt_zero _)
  | cons piece pieces ih =>
      have first := sound piece List.mem_cons_self
      have later := fun other member => sound other (List.mem_cons_of_mem _ member)
      rw [List.flatMap_cons, List.length_append] at inside
      rw [walk_cons, List.flatMap_cons, detects]
      split_ifs with here
      · rw [List.take_append_of_le_length (Nat.le_of_lt here)]
        cases watched : piece.guarded cut with
        | true => simp [first.stops before cut here watched]
        | false =>
            obtain ⟨after, read, spent⟩ := first.slips before cut here watched
            rw [read, Option.bind_some, Bool.false_or]
            cases pieces with
            | nil => simp [walk]
            | cons next pieces =>
                rw [walk_cons, (later next List.mem_cons_self).spent after spent]
                simp
      · have reached : piece.bytes.length ≤ cut := Nat.le_of_not_lt here
        rw [take_beyond reached, first.passes, Option.bind_some]
        exact ih later _ (by omega)

end Join.Library
