import Join.Library.Word

/-!
# Computations on words that remember overflow

A computation of `Machine` works on words of 64 bits as a machine does, and carries a
flag that goes up when the exact result of an operation is not a word. It may also have
no result, when a loop was cut short.

An operation whose exact result is a word is that result and leaves the flag alone. A
computation all of whose operations are such is `pure`, so it never raises the flag.
-/

set_option autoImplicit false

namespace Join.Library

/-- The state tells whether an operation so far has overflowed. -/
abbrev Machine := StateT Bool Option

namespace Machine

/-- A word that an operation leaves, and whether it is the exact result. -/
def checked (fits : Bool) (word : ℕ) : Machine ℕ := do
  modify fun overflowed => overflowed || !fits
  pure word

def add (a b : ℕ) : Machine ℕ := checked (a + b < 2 ^ 64) (add64 a b)

def sub (a b : ℕ) : Machine ℕ := checked (b ≤ a) (sub64 a b)

def mul (a b : ℕ) : Machine ℕ := checked (a * b < 2 ^ 64) (a * b % 2 ^ 64)

/-- A shift to the left, which overflows when it drops a bit. -/
def shiftLeft (a places : ℕ) : Machine ℕ := checked (a * 2 ^ places < 2 ^ 64) (a * 2 ^ places % 2 ^ 64)

/-- The computation ends with this result and no operation in it overflows. -/
def Exactly {α : Type} (computation : Machine α) (result : α) : Prop :=
  computation false = some (result, false)

variable {a b places : ℕ}

theorem checked_true (word : ℕ) : checked true word = pure word := by
  funext overflowed
  show some (word, overflowed || false) = some (word, overflowed)
  rw [Bool.or_false]

theorem add_exact (fits : a + b < 2 ^ 64) : add a b = pure (a + b) := by
  rw [add, decide_eq_true fits, checked_true, add64_of_lt fits]

theorem sub_exact (order : b ≤ a) (word : a < 2 ^ 64) : sub a b = pure (a - b) := by
  rw [sub, decide_eq_true order, checked_true, sub64_of_le order word]

theorem mul_exact (fits : a * b < 2 ^ 64) : mul a b = pure (a * b) := by
  rw [mul, decide_eq_true fits, checked_true, Nat.mod_eq_of_lt fits]

theorem shiftLeft_exact (fits : a * 2 ^ places < 2 ^ 64) :
    shiftLeft a places = pure (a * 2 ^ places) := by
  rw [shiftLeft, decide_eq_true fits, checked_true, Nat.mod_eq_of_lt fits]

end Machine

end Join.Library
