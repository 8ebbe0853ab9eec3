import Mathlib.Tactic.Common

/-!
# Compressors with pending output

A compressor is called with the input that is left and with the room there is for
output. A call takes some of the input and gives at most as much output as there is
room; what it has produced beyond that stays pending inside it. Called to finish, it
has to be called again until it reports the end of the stream.

`rest` is what a compressor still emits when it is given some last input and then
finished. It depends on the bytes of the input and not on how they are cut into
calls, so a call takes its output off the front of what was due.
-/

set_option autoImplicit false

namespace Join.Library

/-- Whether more input follows. -/
inductive Flush where
  | noFlush
  | finish
deriving DecidableEq, Repr

/-- How a call ends. -/
inductive CallCode where
  | ok
  | streamEnd
  | error
deriving DecidableEq, Repr

/-- What a call does. -/
structure Called (State : Type) where
  next : State
  consumed : ℕ
  produced : List UInt8
  code : CallCode

/-- A compressor. -/
structure Compressor where
  State : Type
  reset : State
  call : Flush → State → List UInt8 → ℕ → Called State
  rest : State → List UInt8 → List UInt8
  consumed_le (flush : Flush) (state : State) (input : List UInt8) (room : ℕ) :
    (call flush state input room).consumed ≤ input.length
  produced_le (flush : Flush) (state : State) (input : List UInt8) (room : ℕ) :
    (call flush state input room).produced.length ≤ room
  /-- A call gives the front of the output that is due, whatever input follows. -/
  rest_noFlush (state : State) (input more : List UInt8) (room : ℕ) :
    rest state (input ++ more) = (call .noFlush state input room).produced ++
      rest (call .noFlush state input room).next
        (input.drop (call .noFlush state input room).consumed ++ more)
  rest_finish (state : State) (input : List UInt8) (room : ℕ) :
    rest state input = (call .finish state input room).produced ++
      rest (call .finish state input room).next
        (input.drop (call .finish state input room).consumed)
  /-- A call that has input and room makes progress. -/
  progress (flush : Flush) (state : State) (input : List UInt8) (room : ℕ) (some : input ≠ [])
    (space : 0 < room) : 0 < (call flush state input room).consumed ∨
      (call flush state input room).produced ≠ []
  accepted (flush : Flush) (state : State) (input : List UInt8) (room : ℕ) (some : input ≠ [])
    (space : 0 < room) : (call flush state input room).code ≠ .error
  /-- A finishing call has filled its room or it has ended the stream. -/
  filled (state : State) (input : List UInt8) (room : ℕ)
    (unfinished : (call .finish state input room).code = .ok) :
    (call .finish state input room).produced.length = room
  ended (state : State) (input : List UInt8) (room : ℕ)
    (finished : (call .finish state input room).code = .streamEnd) :
    (call .finish state input room).consumed = input.length ∧
      rest (call .finish state input room).next [] = []

namespace Compressor

variable (z : Compressor)

/-- The whole finished output for some data. -/
def stream (data : List UInt8) : List UInt8 := z.rest z.reset data

theorem rest_call (flush : Flush) (state : z.State) (input : List UInt8) (room : ℕ) :
    z.rest state input = (z.call flush state input room).produced ++
      z.rest (z.call flush state input room).next
        (input.drop (z.call flush state input room).consumed) := by
  cases flush with
  | noFlush =>
      have taken := z.rest_noFlush state input [] room
      rwa [List.append_nil, List.append_nil] at taken
  | finish => exact z.rest_finish state input room

/-- A call leaves less input and due output together. -/
theorem call_shrinks (flush : Flush) (state : z.State) {input : List UInt8} {room : ℕ}
    (some : input ≠ []) (space : 0 < room) :
    (input.drop (z.call flush state input room).consumed).length +
        (z.rest (z.call flush state input room).next
          (input.drop (z.call flush state input room).consumed)).length <
      input.length + (z.rest state input).length := by
  have due := congrArg List.length (z.rest_call flush state input room)
  have taken := z.consumed_le flush state input room
  have nonempty := List.length_pos_iff.mpr some
  rw [List.length_append] at due
  rw [List.length_drop]
  rcases z.progress flush state input room some space with consumed | produced
  · omega
  · have := List.length_pos_iff.mpr produced
    omega

/-- What is still due when finishing calls with some room have taken the whole input. -/
def left (room : ℕ) (state : z.State) (input : List UInt8) : List UInt8 :=
  if _more : input ≠ [] ∧ 0 < room then
    left room (z.call .finish state input room).next
      (input.drop (z.call .finish state input room).consumed)
  else z.rest state input
termination_by input.length + (z.rest state input).length
decreasing_by exact z.call_shrinks .finish state _more.1 _more.2

/-- The call that takes the last of the input leaves nothing pending. -/
def Drains (room : ℕ) (state : z.State) (input : List UInt8) : Prop := z.left room state input = []

variable {z} {room : ℕ} {state : z.State} {input : List UInt8}

/-- When less is due than there is room, one call finishes the stream. -/
theorem drains_of_short (some : input ≠ []) (short : (z.rest state input).length < room) :
    z.Drains room state input := by
  have space : 0 < room := Nat.zero_lt_of_lt short
  have due := congrArg List.length (z.rest_finish state input room)
  rw [List.length_append] at due
  have code : (z.call .finish state input room).code = .streamEnd := by
    cases code : (z.call .finish state input room).code with
    | ok =>
        have full := z.filled state input room code
        omega
    | streamEnd => rfl
    | error => exact absurd code (z.accepted .finish state input room some space)
  obtain ⟨taken, nothing⟩ := z.ended state input room code
  rw [Drains, left, dif_pos ⟨some, space⟩, taken, List.drop_length, left, dif_neg (by simp)]
  exact nothing

/-! ## A compressor that keeps everything until it is finished -/

theorem drop_length_take (due : List UInt8) (room : ℕ) :
    due.drop (due.take room).length = due.drop room := by
  rcases Nat.le_total due.length room with short | long
  · rw [List.take_of_length_le short, List.drop_length, List.drop_eq_nil_of_le short]
  · rw [List.length_take, Nat.min_eq_left long]

/-- Take the data in, and give the stream once the data is complete. The state is the
data and how much of the stream has been given. -/
def deferring (stream : List UInt8 → List UInt8) : Compressor where
  State := List UInt8 × ℕ
  reset := ([], 0)
  call flush state input room :=
    match flush with
    | .noFlush => ⟨(state.1 ++ input, state.2), input.length, [], .ok⟩
    | .finish =>
        let due := (stream (state.1 ++ input)).drop state.2
        ⟨(state.1 ++ input, state.2 + (due.take room).length), input.length, due.take room,
          if due.length ≤ room then .streamEnd else .ok⟩
  rest state input := (stream (state.1 ++ input)).drop state.2
  consumed_le flush state input room := by cases flush <;> exact Nat.le_refl _
  produced_le flush state input room := by
    cases flush with
    | noFlush => exact Nat.zero_le _
    | finish => exact List.length_take_le _ _
  rest_noFlush state input more room := by simp
  rest_finish state input room := by
    dsimp only
    rw [List.drop_length, List.append_nil, ← List.drop_drop, drop_length_take,
      List.take_append_drop]
  progress flush state input room some space := by
    left
    cases flush <;> exact List.length_pos_iff.mpr some
  accepted flush state input room some space := by
    cases flush with
    | noFlush => simp
    | finish =>
        dsimp only
        split <;> simp
  filled state input room unfinished := by
    dsimp only at unfinished ⊢
    split at unfinished
    case isTrue => cases unfinished
    case isFalse long => rw [List.length_take]; omega
  ended state input room finished := by
    dsimp only at finished ⊢
    split at finished
    case isTrue short =>
      refine ⟨rfl, ?_⟩
      rw [List.append_nil, List.take_of_length_le short, List.length_drop]
      exact List.drop_eq_nil_of_le (by omega)
    case isFalse => cases finished

theorem stream_deferring (stream : List UInt8 → List UInt8) (data : List UInt8) :
    (deferring stream).stream data = stream data := rfl

/-- One call takes all the input and leaves what its room does not hold. -/
theorem left_deferring (stream : List UInt8 → List UInt8) (some : input ≠ []) (space : 0 < room) :
    (deferring stream).left room (deferring stream).reset input = (stream input).drop room := by
  rw [left, dif_pos ⟨some, space⟩]
  simp only [deferring, List.nil_append, List.drop_zero, Nat.zero_add, List.drop_length]
  rw [left.eq_def, dif_neg (by simp)]
  simp only [List.append_nil]
  exact drop_length_take _ _

end Compressor

end Join.Library
