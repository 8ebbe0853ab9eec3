import Mathlib.Algebra.Group.Nat.Defs
import Mathlib.Data.Nat.Size
import Mathlib.Tactic.Common

/-!
# Words of 64 bits

A word is a natural number below `2 ^ 64`, and sums and differences of words wrap
around. A counter that has passed the wrap is read off its unbounded value: the
word of a difference is the difference of the unbounded values as long as that is
itself a word.
-/

set_option autoImplicit false

namespace Join.Library

/-- The sum of two words. -/
def add64 (a b : ℕ) : ℕ := (a + b) % 2 ^ 64

/-- The difference of two words. -/
def sub64 (a b : ℕ) : ℕ := (a + (2 ^ 64 - b % 2 ^ 64)) % 2 ^ 64

/-- A sum that is a word does not wrap. -/
theorem add64_of_lt {a b : ℕ} (small : a + b < 2 ^ 64) : add64 a b = a + b :=
  Nat.mod_eq_of_lt small

/-- A difference of words in order does not wrap. -/
theorem sub64_of_le {a b : ℕ} (order : b ≤ a) (small : a < 2 ^ 64) : sub64 a b = a - b := by
  unfold sub64
  omega

/-- The word of a sum is the sum of the words. -/
theorem add64_mod (a b : ℕ) : add64 (a % 2 ^ 64) b = (a + b) % 2 ^ 64 := by
  unfold add64
  omega

/-- The difference of the words of two counters that are less than a wrap apart. -/
theorem sub64_mod {a b : ℕ} (order : b ≤ a) (near : a - b < 2 ^ 64) :
    sub64 (a % 2 ^ 64) (b % 2 ^ 64) = a - b := by
  unfold sub64
  omega

/-- The slot of a counter is the slot of its word when the slots divide the words. -/
theorem mod_word_mod {k : ℕ} (fits : k ≤ 64) (a : ℕ) : a % 2 ^ 64 % 2 ^ k = a % 2 ^ k :=
  Nat.mod_mod_of_dvd a (Nat.pow_dvd_pow 2 fits)

/-! ## Filling the bits below the top one -/

/-- Each of the bits of `x` is on when one of the `m` bits of `u` from there on is. -/
def Spreads (u m x : ℕ) : Prop := ∀ i, x.testBit i = true ↔ ∃ j < m, u.testBit (i + j) = true

/-- Joining a number with its shift doubles the reach of its bits. -/
theorem Spreads.double {u m x : ℕ} (spreads : Spreads u m x) :
    Spreads u (m + m) (x ||| x >>> m) := by
  intro i
  rw [Nat.testBit_or, Nat.testBit_shiftRight, Bool.or_eq_true, spreads i, spreads (m + i)]
  constructor
  · rintro (⟨j, near, on⟩ | ⟨j, near, on⟩)
    · exact ⟨j, by omega, on⟩
    · exact ⟨m + j, by omega, by rwa [← Nat.add_assoc, Nat.add_comm i m]⟩
  · rintro ⟨j, near, on⟩
    by_cases first : j < m
    · exact .inl ⟨j, first, on⟩
    · refine .inr ⟨j - m, by omega, ?_⟩
      rwa [show m + i + (j - m) = i + j by omega]

/-- A number below `2 ^ m` whose bits reach `m` places has all the bits below its
size. -/
theorem Spreads.eq_two_pow_sub_one {u m x : ℕ} (spreads : Spreads u m x) (small : u < 2 ^ m) :
    x = 2 ^ u.size - 1 := by
  apply Nat.eq_of_testBit_eq
  intro i
  rw [Nat.testBit_two_pow_sub_one, Bool.eq_iff_iff, spreads i, decide_eq_true_iff]
  constructor
  · rintro ⟨j, _, on⟩
    have bound := Nat.lt_size.mpr (Nat.ge_two_pow_of_testBit on)
    omega
  · intro below
    have size := Nat.size_le.mpr small
    refine ⟨u.size - 1 - i, by omega, ?_⟩
    rw [show i + (u.size - 1 - i) = u.size - 1 by omega]
    have low := Nat.lt_size.mp (show u.size - 1 < u.size by omega)
    have high := Nat.lt_size_self u
    rw [Nat.testBit_eq_decide_div_mod_eq, decide_eq_true_iff]
    have one : u / 2 ^ (u.size - 1) = 1 := by
      apply Nat.div_eq_of_lt_le
      · omega
      · rwa [show (1 + 1) * 2 ^ (u.size - 1) = 2 ^ u.size by
          rw [← Nat.pow_succ', Nat.succ_eq_add_one, Nat.sub_add_cancel (by omega)]]
    rw [one]

end Join.Library
