import Mathlib.Data.List.Basic
import Mathlib.Tactic.Common

/-!
# Programs on a buffer

A program of `Buffered` works in place on a buffer of characters and names its places by
their index. It has no result when it reads or writes past the end of the buffer, so a
program with a result has stayed inside.

A buffer is described as what stands before a place and what stands from there on. A
write replaces as many characters as it has.
-/

set_option autoImplicit false

namespace Join.Library

/-- A program on a buffer of characters. -/
abbrev Buffered := StateT (List UInt8) Option

namespace Buffered

/-- Write characters from a place on. -/
def write (place : ℕ) (text : List UInt8) : Buffered Unit := fun buffer =>
  if place + text.length ≤ buffer.length then
    some ((), buffer.take place ++ text ++ buffer.drop (place + text.length))
  else none

/-- Assign one character. -/
def put (place : ℕ) (character : UInt8) : Buffered Unit := write place [character]

def memset (place : ℕ) (character : UInt8) (count : ℕ) : Buffered Unit :=
  write place (List.replicate count character)

/-- Copy characters as if through memory of their own. -/
def memmove (target source count : ℕ) : Buffered Unit := fun buffer =>
  if source + count ≤ buffer.length then write target ((buffer.drop source).take count) buffer
  else none

variable {α β : Type} {front back old text : List UInt8}

theorem write_append {place : ℕ} (here : place = front.length) (same : old.length = text.length) :
    write place text (front ++ (old ++ back)) = some ((), front ++ (text ++ back)) := by
  subst here
  rw [write, if_pos (by simp [same]), List.take_left, ← List.drop_drop, List.drop_left,
    List.drop_left' same, List.append_assoc]

theorem put_append {place : ℕ} (here : place = front.length) (former character : UInt8) :
    put place character (front ++ former :: back) = some ((), front ++ character :: back) :=
  @write_append front back [former] [character] place here rfl

theorem memset_append {place count : ℕ} (here : place = front.length)
    (same : old.length = count) (character : UInt8) :
    memset place character count (front ++ (old ++ back)) =
      some ((), front ++ (List.replicate count character ++ back)) :=
  write_append here (by rw [List.length_replicate, same])

theorem memmove_append {target source count : ℕ} {buffer : List UInt8}
    (inside : source + count ≤ buffer.length)
    (moved : (buffer.drop source).take count = text)
    (split : buffer = front ++ (old ++ back)) (here : target = front.length)
    (same : old.length = text.length) :
    memmove target source count buffer = some ((), front ++ (text ++ back)) := by
  rw [memmove, if_pos inside, moved, split, write_append here same]

/-- A program goes on from the buffer its first part leaves. -/
theorem bind_of_run {program : Buffered α} {next : α → Buffered β} {buffer after : List UInt8}
    {result : α} (run : program buffer = some (result, after)) :
    (program >>= next) buffer = next result after := by
  show (program buffer).bind (fun pair => next pair.1 pair.2) = _
  rw [run]
  rfl

theorem pure_apply (result : α) (buffer : List UInt8) :
    (pure result : Buffered α) buffer = some (result, buffer) := rfl

/-- A program that begins with one character. -/
theorem put_then {place : ℕ} (here : place = front.length) (former character : UInt8)
    (next : Unit → Buffered α) :
    (put place character >>= next) (front ++ former :: back) =
      next () ((front ++ [character]) ++ back) := by
  rw [bind_of_run (put_append here former character), List.append_assoc]
  rfl

end Buffered

end Join.Library
