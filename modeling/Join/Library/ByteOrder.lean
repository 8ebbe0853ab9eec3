import Mathlib.Data.Nat.Bitwise
import Mathlib.Tactic.Common
import Mathlib.Tactic.Ring

/-!
# Byte order

The bytes of a number, least significant first (`leBytes`) and most significant
first (`beBytes`), and the numbers that byte strings spell. A number is cut to
the width it is written in, so reading back what was written gives the number
modulo a power of 256, and every byte string of that width is the writing of the
number it spells.

Bytes are described by their bits too: two numbers agree in a byte when they agree
in eight bits.
-/

set_option autoImplicit false

namespace Join.Library

/-- The low `width` bytes of a number, least significant first. -/
def leBytes : ℕ → ℕ → List UInt8
  | 0, _ => []
  | width + 1, value => UInt8.ofNat value :: leBytes width (value / 256)

/-- The number that bytes spell, least significant first. -/
def leValue : List UInt8 → ℕ
  | [] => 0
  | byte :: bytes => byte.toNat + 256 * leValue bytes

/-- The low `width` bytes of a number, most significant first. -/
def beBytes (width value : ℕ) : List UInt8 := (leBytes width value).reverse

/-- The number that bytes spell, most significant first. -/
def beValue (bytes : List UInt8) : ℕ := leValue bytes.reverse

@[simp] theorem length_leBytes (width value : ℕ) : (leBytes width value).length = width := by
  induction width generalizing value with
  | zero => rfl
  | succ width ih => rw [leBytes, List.length_cons, ih]

@[simp] theorem length_beBytes (width value : ℕ) : (beBytes width value).length = width := by
  rw [beBytes, List.length_reverse, length_leBytes]

theorem leValue_leBytes (width value : ℕ) : leValue (leBytes width value) = value % 256 ^ width := by
  induction width generalizing value with
  | zero => rw [pow_zero, Nat.mod_one]; rfl
  | succ width ih =>
      have low : (UInt8.ofNat value).toNat = value % 256 := UInt8.toNat_ofNat'
      rw [leBytes, leValue, ih, low, pow_succ', Nat.mod_mul]

theorem leBytes_leValue (bytes : List UInt8) : leBytes bytes.length (leValue bytes) = bytes := by
  induction bytes with
  | nil => rfl
  | cons byte bytes ih =>
      have small := byte.toNat_lt
      have low : UInt8.ofNat (leValue (byte :: bytes)) = byte := by
        apply UInt8.toNat_inj.mp
        rw [leValue, UInt8.toNat_ofNat']
        omega
      have high : leValue (byte :: bytes) / 256 = leValue bytes := by
        rw [leValue]
        omega
      rw [List.length_cons, leBytes, low, high, ih]

/-- Bytes of one length that spell one number are the same. -/
theorem eq_of_leValue {left right : List UInt8} (length : left.length = right.length)
    (same : leValue left = leValue right) : left = right := by
  rw [← leBytes_leValue left, length, same, leBytes_leValue]

theorem leValue_lt (bytes : List UInt8) : leValue bytes < 256 ^ bytes.length := by
  have spelled := leValue_leBytes bytes.length (leValue bytes)
  rw [leBytes_leValue] at spelled
  rw [spelled]
  exact Nat.mod_lt _ (Nat.pow_pos (by decide))

theorem leBytes_mod (width value : ℕ) : leBytes width (value % 256 ^ width) = leBytes width value := by
  have spelled := leBytes_leValue (leBytes width value)
  rwa [length_leBytes, leValue_leBytes] at spelled

/-- Reading what was written gives the number back, cut to its width. -/
theorem beValue_beBytes (width value : ℕ) : beValue (beBytes width value) = value % 256 ^ width := by
  rw [beValue, beBytes, List.reverse_reverse, leValue_leBytes]

theorem beValue_lt (bytes : List UInt8) : beValue bytes < 256 ^ bytes.length := by
  have bound := leValue_lt bytes.reverse
  rwa [List.length_reverse] at bound

/-! ## Bytes by their bits -/

/-- Two numbers with the same eight bits at two places have the same byte there. -/
theorem byte_congr {left right i j : ℕ}
    (bits : ∀ bit < 8, left.testBit (8 * i + bit) = right.testBit (8 * j + bit)) :
    UInt8.ofNat (left / 256 ^ i) = UInt8.ofNat (right / 256 ^ j) := by
  have power (k : ℕ) : 256 ^ k = 2 ^ (8 * k) := by rw [pow_mul]; rfl
  apply UInt8.toNat_inj.mp
  rw [UInt8.toNat_ofNat', UInt8.toNat_ofNat', power, power]
  apply Nat.eq_of_testBit_eq
  intro bit
  rw [Nat.testBit_mod_two_pow, Nat.testBit_mod_two_pow, Nat.testBit_div_two_pow,
    Nat.testBit_div_two_pow]
  by_cases inside : bit < 8
  · rw [Nat.add_comm bit, Nat.add_comm bit, bits bit inside]
  · rw [decide_eq_false inside, Bool.false_and, Bool.false_and]

theorem getElem?_leBytes (width value i : ℕ) :
    (leBytes width value)[i]? = if i < width then some (UInt8.ofNat (value / 256 ^ i)) else none := by
  induction width generalizing value i with
  | zero => rfl
  | succ width ih =>
      cases i with
      | zero => simp [leBytes]
      | succ i => simp [leBytes, ih, pow_succ', Nat.div_div_eq_div_mul]

/-- A number whose bits are those of another one with the bytes in reverse. -/
theorem leBytes_eq_beBytes {width left right : ℕ}
    (bits : ∀ i < width, ∀ bit < 8,
      left.testBit (8 * i + bit) = right.testBit (8 * (width - 1 - i) + bit)) :
    leBytes width left = beBytes width right := by
  apply List.ext_getElem?
  intro i
  rw [beBytes]
  by_cases inside : i < width
  · rw [List.getElem?_reverse (by rwa [length_leBytes]), length_leBytes, getElem?_leBytes,
      getElem?_leBytes, if_pos inside, if_pos (by omega), byte_congr (bits i inside)]
  · rw [List.getElem?_eq_none (by rw [length_leBytes]; omega),
      List.getElem?_eq_none (by rw [List.length_reverse, length_leBytes]; omega)]

end Join.Library
