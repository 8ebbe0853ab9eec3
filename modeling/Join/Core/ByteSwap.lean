import Join.Library.ByteOrder
import Mathlib.Tactic.IntervalCases

/-!
# Swapping the byte order

`join::swap` on a little-endian target. A value is given by its bits, and the
template parameter by its size and by whether it is signed. The shifts of the
source work on promoted operands: two bytes become an `int`, whose sign is that of
a signed operand, while the masks of four and eight bytes leave operands that are
not negative.

The bytes come in reverse for every type but the signed one of two bytes: there a
negative operand fills the upper byte of the result with its sign.
-/

set_option autoImplicit false

namespace Join

open Library

/-- `details::_byteswap<Type, 2>`: both shifts are made on an `int`. -/
def byteswap2 (signed : Bool) (val : BitVec 16) : BitVec 16 :=
  let promoted : BitVec 32 := if signed then val.signExtend 32 else val.zeroExtend 32
  (promoted.sshiftRight 8 ||| promoted <<< 8).truncate 16

/-- `details::_byteswap<Type, 4>`. -/
def byteswap4 (val : BitVec 32) : BitVec 32 :=
  ((val &&& 0xff000000) >>> 24) ||| ((val &&& 0x00ff0000) >>> 8) |||
    ((val &&& 0x0000ff00) <<< 8) ||| ((val &&& 0x000000ff) <<< 24)

/-- `details::_byteswap<Type, 8>`. -/
def byteswap8 (val : BitVec 64) : BitVec 64 :=
  ((val &&& 0xff00000000000000) >>> 56) ||| ((val &&& 0x00ff000000000000) >>> 40) |||
    ((val &&& 0x0000ff0000000000) >>> 24) ||| ((val &&& 0x000000ff00000000) >>> 8) |||
    ((val &&& 0x00000000ff000000) <<< 8) ||| ((val &&& 0x0000000000ff0000) <<< 24) |||
    ((val &&& 0x000000000000ff00) <<< 40) ||| ((val &&& 0x00000000000000ff) <<< 56)

/-! ## The bytes of a swapped value -/

/-- The sign of a signed value spoils the upper byte of the result. -/
theorem getLsbD_byteswap2 (signed : Bool) (val : BitVec 16) (i : ℕ) (inside : i < 16) :
    (byteswap2 signed val).getLsbD i =
      (val.getLsbD (8 * (1 - i / 8) + i % 8) || (decide (8 ≤ i) && signed && val.msb)) := by
  unfold byteswap2
  cases signed <;> interval_cases i <;>
    simp [BitVec.getElem_sshiftRight, BitVec.getElem_signExtend, Bool.or_comm]

theorem getLsbD_byteswap4 (val : BitVec 32) (i : ℕ) (inside : i < 32) :
    (byteswap4 val).getLsbD i = val.getLsbD (8 * (3 - i / 8) + i % 8) := by
  unfold byteswap4
  interval_cases i <;> simp

theorem getLsbD_byteswap8 (val : BitVec 64) (i : ℕ) (inside : i < 64) :
    (byteswap8 val).getLsbD i = val.getLsbD (8 * (7 - i / 8) + i % 8) := by
  unfold byteswap8
  interval_cases i <;> simp

/-- A value whose bits are those of another one with the bytes in reverse. -/
theorem leBytes_of_getLsbD {width n : ℕ} {left right : BitVec n}
    (bits : ∀ i < 8 * width, left.getLsbD i = right.getLsbD (8 * (width - 1 - i / 8) + i % 8)) :
    leBytes width left.toNat = beBytes width right.toNat := by
  refine leBytes_eq_beBytes fun i inside bit few => ?_
  have place := bits (8 * i + bit) (by omega)
  rwa [show (8 * i + bit) / 8 = i by omega, show (8 * i + bit) % 8 = bit by omega,
    ← BitVec.testBit_toNat, ← BitVec.testBit_toNat] at place

theorem leBytes_byteswap4 (val : BitVec 32) :
    leBytes 4 (byteswap4 val).toNat = beBytes 4 val.toNat :=
  leBytes_of_getLsbD (getLsbD_byteswap4 val)

theorem leBytes_byteswap8 (val : BitVec 64) :
    leBytes 8 (byteswap8 val).toNat = beBytes 8 val.toNat :=
  leBytes_of_getLsbD (getLsbD_byteswap8 val)

/-- Two bytes are reversed unless the value is signed and negative. -/
theorem leBytes_byteswap2 {signed : Bool} {val : BitVec 16} (plain : (signed && val.msb) = false) :
    leBytes 2 (byteswap2 signed val).toNat = beBytes 2 val.toNat := by
  refine leBytes_of_getLsbD fun i inside => ?_
  rw [getLsbD_byteswap2 signed val i inside, Bool.and_assoc, plain, Bool.and_false, Bool.or_false]

/-- A negative signed value of two bytes keeps only its upper byte, and the result is
filled with ones. -/
theorem leBytes_byteswap2_negative {val : BitVec 16} (negative : val.msb = true) :
    leBytes 2 (byteswap2 true val).toNat = [UInt8.ofNat (val.toNat / 256), 0xFF] := by
  have low : UInt8.ofNat ((byteswap2 true val).toNat / 256 ^ 0) =
      UInt8.ofNat (val.toNat / 256 ^ 1) := by
    refine byte_congr fun bit few => ?_
    rw [BitVec.testBit_toNat, BitVec.testBit_toNat, getLsbD_byteswap2 true val _ (by omega),
      decide_eq_false (by omega), Bool.false_and, Bool.false_and, Bool.or_false]
    congr 1
    omega
  have high : UInt8.ofNat ((byteswap2 true val).toNat / 256 ^ 1) =
      UInt8.ofNat (0xFF00 / 256 ^ 1) := by
    refine byte_congr fun bit few => ?_
    rw [BitVec.testBit_toNat, getLsbD_byteswap2 true val _ (by omega), negative,
      decide_eq_true (by omega), Bool.and_self, Bool.and_self, Bool.or_true]
    interval_cases bit <;> rfl
  simp only [leBytes]
  rw [pow_zero, Nat.div_one, pow_one] at low
  rw [pow_one] at high
  rw [low, high]
  rfl

/-! ## Values in memory -/

section Memory

/-- The value of `width` bytes that a number below `256 ^ width` is written as, in the
order that swapping gives. -/
theorem eq_beValue {width left right : ℕ} (small : left < 256 ^ width)
    (reversed : leBytes width left = beBytes width right) :
    left = beValue (leBytes width right) := by
  rw [beValue, ← beBytes, ← reversed, leValue_leBytes, Nat.mod_eq_of_lt small]

variable {bytes : List UInt8}

theorem toNat_leValue {n : ℕ} (fits : 256 ^ bytes.length = 2 ^ n) :
    (BitVec.ofNat n (leValue bytes)).toNat = leValue bytes := by
  rw [BitVec.toNat_ofNat, Nat.mod_eq_of_lt (fits ▸ leValue_lt bytes)]

/-- Four bytes taken from memory and swapped are the number they spell most
significant byte first. -/
theorem toNat_byteswap4 (length : bytes.length = 4) :
    (byteswap4 (BitVec.ofNat 32 (leValue bytes))).toNat = beValue bytes := by
  have spelled := eq_beValue (byteswap4 _).isLt (leBytes_byteswap4 (.ofNat 32 (leValue bytes)))
  rwa [toNat_leValue (by rw [length]; rfl), ← length, leBytes_leValue] at spelled

theorem toNat_byteswap8 (length : bytes.length = 8) :
    (byteswap8 (BitVec.ofNat 64 (leValue bytes))).toNat = beValue bytes := by
  have spelled := eq_beValue (byteswap8 _).isLt (leBytes_byteswap8 (.ofNat 64 (leValue bytes)))
  rwa [toNat_leValue (by rw [length]; rfl), ← length, leBytes_leValue] at spelled

theorem toNat_byteswap2 (length : bytes.length = 2) {signed : Bool}
    (plain : (signed && (BitVec.ofNat 16 (leValue bytes)).msb) = false) :
    (byteswap2 signed (BitVec.ofNat 16 (leValue bytes))).toNat = beValue bytes := by
  have spelled := eq_beValue (byteswap2 signed _).isLt (leBytes_byteswap2 plain)
  rwa [toNat_leValue (by rw [length]; rfl), ← length, leBytes_leValue] at spelled

/-- The sign of two bytes in memory is the upper bit of the second one. -/
theorem msb_leValue (high low : UInt8) :
    (BitVec.ofNat 16 (leValue [high, low])).msb = decide (0x80 ≤ low.toNat) := by
  have first := high.toNat_lt
  rw [BitVec.msb_eq_decide, toNat_leValue (by simp), leValue, leValue, leValue]
  apply decide_eq_decide.mpr
  omega

theorem toNat_byteswap2_negative {high low : UInt8} (negative : 0x80 ≤ low.toNat) :
    (byteswap2 true (BitVec.ofNat 16 (leValue [high, low]))).toNat = 0xFF00 + low.toNat := by
  have first := high.toNat_lt
  have sign : (BitVec.ofNat 16 (leValue [high, low])).msb = true := by
    rw [msb_leValue, decide_eq_true negative]
  have spelled := congrArg leValue (leBytes_byteswap2_negative sign)
  have small : (byteswap2 true (BitVec.ofNat 16 (leValue [high, low]))).toNat < 256 ^ 2 :=
    (byteswap2 true _).isLt
  rw [leValue_leBytes, Nat.mod_eq_of_lt small, toNat_leValue (by simp)] at spelled
  have upper : UInt8.ofNat (leValue [high, low] / 256) = low := by
    apply UInt8.toNat_inj.mp
    have second := low.toNat_lt
    simp only [leValue, UInt8.toNat_ofNat']
    omega
  rw [spelled, upper]
  simp [leValue, Nat.add_comm]

end Memory

/-! ## The integer types -/

/-- The sizes of the integer types. -/
inductive IntegerSize where
  | one
  | two
  | four
  | eight
deriving DecidableEq, Repr

/-- `sizeof`. -/
def IntegerSize.bytes : IntegerSize → ℕ
  | one => 1
  | two => 2
  | four => 4
  | eight => 8

abbrev IntegerSize.bits : IntegerSize → ℕ
  | one => 8
  | two => 16
  | four => 32
  | eight => 64

/-- `details::_byteswap<Type, 4>` of a signed type: the first mask does not fit in an
`int` and makes its operand unsigned, the others leave an `int`, which is shifted with
its sign. -/
def byteswap4Int (val : BitVec 32) : BitVec 32 :=
  ((val &&& 0xff000000) >>> 24) ||| (val &&& 0x00ff0000).sshiftRight 8 |||
    ((val &&& 0x0000ff00) <<< 8) ||| ((val &&& 0x000000ff) <<< 24)

/-- `swap` of a value of an integer type. The masks of eight bytes are unsigned and make
every operand unsigned. -/
def swap (size : IntegerSize) (signed : Bool) (val : BitVec size.bits) : BitVec size.bits :=
  match size with
  | .one => val
  | .two => byteswap2 signed val
  | .four => if signed then byteswap4Int val else byteswap4 val
  | .eight => byteswap8 val

/-- What the masks leave has no sign to extend. -/
theorem byteswap4Int_eq (val : BitVec 32) : byteswap4Int val = byteswap4 val := by
  have positive : (val &&& 0x00ff0000).msb = false := by
    rw [BitVec.msb_and, show (0x00ff0000 : BitVec 32).msb = false from rfl, Bool.and_false]
  rw [byteswap4Int, BitVec.sshiftRight_eq_of_msb_false positive]
  rfl

theorem IntegerSize.pow_bytes (size : IntegerSize) : 256 ^ size.bytes = 2 ^ size.bits := by
  cases size <;> rfl

/-- Values of one type with the same bytes are the same. -/
theorem eq_of_leBytes {size : IntegerSize} {left right : BitVec size.bits}
    (same : leBytes size.bytes left.toNat = leBytes size.bytes right.toNat) : left = right := by
  have spelled := congrArg leValue same
  rw [leValue_leBytes, leValue_leBytes, size.pow_bytes, Nat.mod_eq_of_lt left.isLt,
    Nat.mod_eq_of_lt right.isLt] at spelled
  exact BitVec.eq_of_toNat_eq spelled

/-- The bytes of a swapped value are those of the value in reverse, unless the value is
of two bytes, signed and negative. -/
theorem leBytes_swap {size : IntegerSize} {signed : Bool} {val : BitVec size.bits}
    (plain : size = .two → signed = true → val.toNat < 0x8000) :
    leBytes size.bytes (swap size signed val).toNat = (leBytes size.bytes val.toNat).reverse := by
  cases size with
  | one => rfl
  | two =>
      apply leBytes_byteswap2
      cases signed with
      | false => rfl
      | true =>
          have small := plain rfl rfl
          rw [Bool.true_and, BitVec.msb_eq_decide]
          exact decide_eq_false (by omega)
  | four =>
      have same : swap .four signed val = byteswap4 val := by
        cases signed with
        | false => rfl
        | true => exact byteswap4Int_eq val
      rw [same]
      exact leBytes_byteswap4 val
  | eight => exact leBytes_byteswap8 val

/-- Swapping twice gives a value back when neither swap meets a negative signed value of
two bytes. -/
theorem swap_swap {size : IntegerSize} {first second : Bool} {val : BitVec size.bits}
    (plain : size = .two → first = true → val.toNat < 0x8000)
    (again : size = .two → second = true → (swap size first val).toNat < 0x8000) :
    swap size second (swap size first val) = val := by
  apply eq_of_leBytes
  rw [leBytes_swap again, leBytes_swap plain, List.reverse_reverse]

/-! ### Signed values of two bytes -/

/-- A value of two bytes, low byte first. -/
theorem leBytes_two (value : ℕ) :
    leBytes 2 value = [UInt8.ofNat value, UInt8.ofNat (value / 256)] := rfl

theorem toNat_swap_two (val : BitVec 16) :
    (swap .two false val).toNat = val.toNat % 256 * 256 + val.toNat / 256 := by
  have spelled := congrArg leValue (@leBytes_byteswap2 false val rfl)
  have small := val.isLt
  have bound : (byteswap2 false val).toNat < 256 ^ 2 := (byteswap2 false val).isLt
  rw [leValue_leBytes, Nat.mod_eq_of_lt bound, beBytes, leBytes_two] at spelled
  simp only [List.reverse_cons, List.reverse_nil, List.nil_append, List.cons_append, leValue,
    UInt8.toNat_ofNat'] at spelled
  show (byteswap2 false val).toNat = _
  omega

/-- A positive value keeps its bytes, a negative one only its upper byte. -/
theorem toNat_swap_signed (val : BitVec 16) :
    (swap .two true val).toNat =
      if val.toNat < 0x8000 then val.toNat % 256 * 256 + val.toNat / 256
      else 0xFF00 + val.toNat / 256 := by
  have small := val.isLt
  have bound : (byteswap2 true val).toNat < 256 ^ 2 := (byteswap2 true val).isLt
  show (byteswap2 true val).toNat = _
  split
  case isTrue positive =>
      have sign : (true && val.msb) = false := by
        rw [Bool.true_and, BitVec.msb_eq_decide]
        exact decide_eq_false (by omega)
      have spelled := congrArg leValue (leBytes_byteswap2 sign)
      rw [leValue_leBytes, Nat.mod_eq_of_lt bound, beBytes, leBytes_two] at spelled
      simp only [List.reverse_cons, List.reverse_nil, List.nil_append, List.cons_append, leValue,
        UInt8.toNat_ofNat'] at spelled
      omega
  case isFalse negative =>
      have sign : val.msb = true := by
        rw [BitVec.msb_eq_decide]
        exact decide_eq_true (by omega)
      have spelled := congrArg leValue (leBytes_byteswap2_negative sign)
      rw [leValue_leBytes, Nat.mod_eq_of_lt bound] at spelled
      simp only [leValue, UInt8.toNat_ofNat', UInt8.toNat_ofNat] at spelled
      omega

/-- The bytes of a negative value come in reverse only when its low byte is that of its
sign. -/
theorem reversed_two_iff (val : BitVec 16) :
    leBytes 2 (swap .two true val).toNat = (leBytes 2 val.toNat).reverse ↔
      val.toNat < 0x8000 ∨ val.toNat % 256 = 0xFF := by
  have small := val.isLt
  have bound : (swap .two true val).toNat < 256 ^ 2 := (byteswap2 true val).isLt
  have swapped := toNat_swap_signed val
  have spelled : leBytes 2 (swap .two true val).toNat = (leBytes 2 val.toNat).reverse ↔
      (swap .two true val).toNat = val.toNat % 256 * 256 + val.toNat / 256 := by
    constructor
    · intro same
      have values := congrArg leValue same
      rw [leValue_leBytes, Nat.mod_eq_of_lt bound, leBytes_two] at values
      simp only [List.reverse_cons, List.reverse_nil, List.nil_append, List.cons_append, leValue,
        UInt8.toNat_ofNat'] at values
      omega
    · intro same
      apply eq_of_leValue (by simp)
      rw [leValue_leBytes, Nat.mod_eq_of_lt bound, leBytes_two, same]
      simp only [List.reverse_cons, List.reverse_nil, List.nil_append, List.cons_append, leValue,
        UInt8.toNat_ofNat']
      omega
  rw [spelled, swapped]
  split <;> omega

/-- Swapping twice meets a sign when either byte has its upper bit. -/
theorem swap_swap_two_iff (val : BitVec 16) :
    swap .two true (swap .two true val) = val ↔
      val.toNat < 0x8000 ∧ val.toNat % 256 < 0x80 ∨ val.toNat = 0xFFFF := by
  have small := val.isLt
  rw [← BitVec.toNat_inj, toNat_swap_signed (swap .two true val), toNat_swap_signed val]
  by_cases positive : val.toNat < 0x8000
  · rw [if_pos positive]
    split <;> omega
  · rw [if_neg positive, if_neg (by omega)]
    omega

/-- An unsigned value that is swapped back as a signed one. -/
theorem swap_swap_unsigned_iff (val : BitVec 16) :
    swap .two true (swap .two false val) = val ↔
      val.toNat % 256 < 0x80 ∨ 0xFF00 ≤ val.toNat := by
  have small := val.isLt
  rw [← BitVec.toNat_inj, toNat_swap_signed, toNat_swap_two]
  split <;> omega

end Join
