import Join.Core.Address
import Join.Library.ByteOrder
import Mathlib.Algebra.Order.Ring.Int
import Mathlib.Data.Int.ModEq

/-!
# Arithmetic of MAC addresses

`MacAddress::operator+=` adds an `int` to the bytes of an address, from the last one on: what
does not fit into a byte is carried to the byte before it. The carry is computed by the division
of C++, which rounds towards zero. A carry that is not negative is exact, and so is a negative
one that divides without a remainder; every other negative carry is one too large, since the
borrow is lost.

The first sum may lie beyond the largest `int`. The later ones cannot: a carry is no more than
the 256th part of an `int`.
-/

set_option autoImplicit false

namespace Join

open Join.Library

/-! ## The loop -/

/-- The values of an `int`. -/
def FitsInt (value : ℤ) : Prop := -2 ^ 31 ≤ value ∧ value < 2 ^ 31

instance (value : ℤ) : Decidable (FitsInt value) := inferInstanceAs (Decidable (_ ∧ _))

/-- The loop of `operator+=`, over the bytes from the last to the first. There is no result
when a sum is no `int`. -/
def addBytes : List UInt8 → ℤ → Option (List UInt8)
  | [], _ => some []
  | byte :: bytes, value =>
      if value = 0 then some (byte :: bytes)
      else
        let val := byte.toNat + value
        if FitsInt val then
          (addBytes bytes (val.tdiv 256)).map fun rest => UInt8.ofInt (val.tmod 256) :: rest
        else none

/-- What the loop does with a byte. -/
theorem addBytes_cons_eq_some {byte : UInt8} {bytes sum : List UInt8} {value : ℤ} :
    addBytes (byte :: bytes) value = some sum ↔
      value = 0 ∧ byte :: bytes = sum ∨
        value ≠ 0 ∧ FitsInt (byte.toNat + value) ∧
          ∃ rest, addBytes bytes ((byte.toNat + value).tdiv 256) = some rest ∧
            UInt8.ofInt ((byte.toNat + value).tmod 256) :: rest = sum := by
  by_cases zero : value = 0
  · simp [addBytes, zero]
  · by_cases fits : FitsInt (byte.toNat + value)
    · simp [addBytes, zero, fits]
    · simp [addBytes, zero, fits]

theorem length_addBytes {bytes sum : List UInt8} {value : ℤ}
    (added : addBytes bytes value = some sum) : sum.length = bytes.length := by
  induction bytes generalizing value sum with
  | nil =>
      cases added
      rfl
  | cons byte bytes ih =>
      rcases addBytes_cons_eq_some.mp added with ⟨_, rfl⟩ | ⟨_, _, rest, below, rfl⟩
      · rfl
      · rw [List.length_cons, List.length_cons, ih below]

/-! ## One byte -/

/-- Where the division of C++ rounds down. -/
def Even (val : ℤ) : Prop := 0 ≤ val ∨ 256 ∣ val

theorem tdiv_of_even {val : ℤ} (even : Even val) : val.tdiv 256 = val / 256 := by
  rcases even with positive | whole
  · exact Int.tdiv_eq_ediv_of_nonneg positive
  · exact Int.tdiv_eq_ediv_of_dvd whole

theorem tdiv_of_not_even {val : ℤ} (uneven : ¬Even val) : val.tdiv 256 = val / 256 + 1 := by
  obtain ⟨negative, broken⟩ := not_or.mp uneven
  rw [Int.tdiv_eq_ediv]
  simp only [negative, broken, or_self, if_false]
  rfl

theorem toNat_ofInt_tmod (val : ℤ) : ((UInt8.ofInt (val.tmod 256)).toNat : ℤ) = val % 256 := by
  have remainder : val.tmod 256 % 256 = val % 256 := by
    have split := Int.mul_tdiv_add_tmod val 256
    omega
  have byte : (UInt8.ofInt (val.tmod 256)).toNat = (val.tmod 256 % 256).toNat % 256 :=
    UInt8.toNat_ofNat'
  rw [byte, remainder]
  omega

/-- The sum of a number and the next ones, of which a byte has been split off. -/
theorem emod_split (count : ℕ) (val rest : ℤ) :
    (val + 256 * rest) % 256 ^ (count + 1) =
      val % 256 + 256 * ((val / 256 + rest) % 256 ^ count) := by
  have whole : val + 256 * rest = val % 256 + 256 * (val / 256 + rest) := by omega
  have small : 0 ≤ val % 256 ∧ val % 256 < 256 := by omega
  have power : (256 : ℤ) ^ (count + 1) = 256 * 256 ^ count := pow_succ' 256 count
  have bounds := Int.emod_nonneg (val / 256 + rest) (pow_ne_zero count (by decide : (256 : ℤ) ≠ 0))
  have below := Int.emod_lt_of_pos (val / 256 + rest) (pow_pos (by decide : (0 : ℤ) < 256) count)
  have split := Int.emod_add_mul_ediv (val / 256 + rest) (256 ^ count)
  rw [power]
  generalize hpow : (256 : ℤ) ^ count = weight at *
  generalize hq : (val / 256 + rest) / weight = quotient at *
  generalize hr : (val / 256 + rest) % weight = remainder at *
  have shape : val + 256 * rest = (val % 256 + 256 * remainder) + 256 * weight * quotient := by
    rw [whole, ← split]
    ring
  rw [shape, Int.add_mul_emod_self_left]
  exact Int.emod_eq_of_lt (by omega) (by omega)

/-! ## The whole loop -/

/-- Every borrow of the low bytes is whole: their value with the amount is not negative, or a
multiple of their weight. -/
def Borrows (count value : ℕ) (amount : ℤ) : Prop :=
  ∀ low < count, 0 < low →
    0 ≤ (value % 256 ^ low : ℕ) + amount ∨ ((256 ^ low : ℕ) : ℤ) ∣ value + amount

instance (count value : ℕ) (amount : ℤ) : Decidable (Borrows count value amount) :=
  inferInstanceAs (Decidable (∀ low < count, 0 < low → _))

/-- The sum is the sum of the values, to the width of the bytes. -/
def Adds (bytes : List UInt8) (amount : ℤ) : Prop :=
  ∃ sum, addBytes bytes amount = some sum ∧
    (leValue sum : ℤ) = (leValue bytes + amount) % 256 ^ bytes.length

/-- Nothing but the sum with the last byte can be no `int`. -/
theorem fits_carry {val : ℤ} (fits : FitsInt val) (byte : UInt8) :
    FitsInt (byte.toNat + val.tdiv 256) := by
  have small := byte.toNat_lt
  have split := Int.mul_tdiv_add_tmod val 256
  have high := Int.tmod_lt_of_pos val (by decide : (0 : ℤ) < 256)
  have low := Int.lt_tmod_of_pos val (by decide : (0 : ℤ) < 256)
  unfold FitsInt at *
  omega

/-- The last byte of a sum is right in any case. -/
theorem leValue_addBytes_mod {byte : UInt8} {bytes sum : List UInt8} {amount : ℤ}
    (added : addBytes (byte :: bytes) amount = some sum) :
    (leValue sum : ℤ) % 256 = (byte.toNat + amount) % 256 := by
  rcases addBytes_cons_eq_some.mp added with ⟨zero, rfl⟩ | ⟨_, _, rest, _, rfl⟩
  · rw [leValue, zero]
    omega
  · have low := toNat_ofInt_tmod (byte.toNat + amount)
    rw [leValue]
    omega

/-- The low bytes with one more below them. -/
theorem borrow_succ (low value : ℕ) (byte : UInt8) (amount : ℤ) :
    (((byte.toNat + 256 * value) % 256 ^ (low + 1) : ℕ) : ℤ) + amount =
      (byte.toNat + amount) + 256 * ((value % 256 ^ low : ℕ) : ℤ) := by
  have small := byte.toNat_lt
  have digit : (byte.toNat + 256 * value) % 256 = byte.toNat := by omega
  have digits : (byte.toNat + 256 * value) / 256 = value := by omega
  rw [pow_succ', Nat.mod_mul, digit, digits]
  push_cast
  ring

theorem borrows_succ_of_even {count value : ℕ} {byte : UInt8} {amount : ℤ}
    (even : Even (byte.toNat + amount)) :
    Borrows (count + 1) (byte.toNat + 256 * value) amount ↔
      Borrows count value ((byte.toNat + amount) / 256) := by
  have place (low : ℕ) :
      (0 ≤ (((byte.toNat + 256 * value) % 256 ^ (low + 1) : ℕ) : ℤ) + amount ∨
        ((256 ^ (low + 1) : ℕ) : ℤ) ∣ ((byte.toNat + 256 * value : ℕ) : ℤ) + amount) ↔
      (0 ≤ ((value % 256 ^ low : ℕ) : ℤ) + (byte.toNat + amount) / 256 ∨
        ((256 ^ low : ℕ) : ℤ) ∣ (value : ℤ) + (byte.toNat + amount) / 256) := by
    rw [borrow_succ]
    have parts := Int.natCast_nonneg (value % 256 ^ low)
    rcases even with positive | ⟨whole, exact⟩
    · exact iff_of_true (.inl (by omega)) (.inl (by omega))
    · have quotient : ((byte.toNat : ℤ) + amount) / 256 = whole := by omega
      have power : ((256 ^ (low + 1) : ℕ) : ℤ) = 256 * ((256 ^ low : ℕ) : ℤ) := by
        rw [pow_succ', Nat.cast_mul]
        rfl
      have sum : ((byte.toNat + 256 * value : ℕ) : ℤ) + amount = 256 * (value + whole) := by
        push_cast
        omega
      rw [quotient, power, sum, Int.mul_dvd_mul_iff_left (by decide)]
      exact or_congr (by omega) Iff.rfl
  constructor
  · intro borrows low below positive
    exact (place low).mp (borrows (low + 1) (Nat.succ_lt_succ below) (Nat.succ_pos low))
  · intro borrows low below positive
    obtain ⟨low, rfl⟩ := Nat.exists_eq_succ_of_ne_zero positive.ne'
    rcases Nat.eq_zero_or_pos low with rfl | positive
    · rw [Nat.succ_eq_add_one, zero_add, pow_one]
      have digit : (byte.toNat + 256 * value) % 256 = byte.toNat := by
        have small := byte.toNat_lt
        omega
      rw [digit]
      refine even.imp_right fun whole => ?_
      push_cast
      omega
    · exact (place low).mpr (borrows low (Nat.lt_of_succ_lt_succ below) positive)

theorem adds_zero (bytes : List UInt8) : Adds bytes 0 := by
  refine ⟨bytes, ?_, ?_⟩
  · cases bytes with
    | nil => rfl
    | cons byte bytes => exact addBytes_cons_eq_some.mpr (.inl ⟨rfl, rfl⟩)
  · have below := leValue_lt bytes
    rw [add_zero]
    exact (Int.emod_eq_of_lt (Int.natCast_nonneg _) (by exact_mod_cast below)).symm

/-- The value of a sum, digit by digit. -/
theorem sum_split (byte : UInt8) (bytes : List UInt8) (amount : ℤ) :
    ((leValue (byte :: bytes) : ℤ) + amount) % 256 ^ (byte :: bytes).length =
      (byte.toNat + amount) % 256 +
        256 * ((leValue bytes + (byte.toNat + amount) / 256) % 256 ^ bytes.length) := by
  rw [List.length_cons, add_comm (leValue bytes : ℤ), ← emod_split, leValue]
  push_cast
  ring_nf

/-- The loop over one byte more, when its carry is exact. -/
theorem adds_cons_of_even {byte : UInt8} {bytes : List UInt8} {amount : ℤ}
    (fits : FitsInt (byte.toNat + amount)) (even : Even (byte.toNat + amount)) :
    Adds (byte :: bytes) amount ↔ Adds bytes ((byte.toNat + amount) / 256) := by
  by_cases zero : amount = 0
  · have none : ((byte.toNat : ℤ) + amount) / 256 = 0 := by
      have small := byte.toNat_lt
      omega
    rw [none, zero]
    exact iff_of_true (adds_zero _) (adds_zero _)
  · have low := toNat_ofInt_tmod (byte.toNat + amount)
    unfold Adds
    rw [sum_split, ← tdiv_of_even even]
    constructor
    · rintro ⟨sum, added, value⟩
      rcases addBytes_cons_eq_some.mp added with ⟨same, _⟩ | ⟨_, _, rest, below, rfl⟩
      · exact absurd same zero
      · refine ⟨rest, below, ?_⟩
        rw [leValue] at value
        omega
    · rintro ⟨rest, below, value⟩
      refine ⟨_, addBytes_cons_eq_some.mpr (.inr ⟨zero, fits, rest, below, rfl⟩), ?_⟩
      rw [leValue]
      omega

/-- A borrow that is lost is missed in the next byte. -/
theorem not_adds_of_not_even {byte next : UInt8} {bytes : List UInt8} {amount : ℤ}
    (uneven : ¬Even (byte.toNat + amount)) : ¬Adds (byte :: next :: bytes) amount := by
  rintro ⟨sum, added, value⟩
  rcases addBytes_cons_eq_some.mp added with ⟨rfl, rfl⟩ | ⟨_, _, rest, below, rfl⟩
  · exact uneven (.inl (by omega))
  · have last := leValue_addBytes_mod below
    have low := toNat_ofInt_tmod (byte.toNat + amount)
    rw [sum_split, leValue] at value
    rw [tdiv_of_not_even uneven] at last
    have digit := sum_split next bytes ((byte.toNat + amount) / 256)
    have carried : ((leValue rest : ℕ) : ℤ) = (leValue (next :: bytes) +
        (byte.toNat + amount) / 256) % 256 ^ (next :: bytes).length := by omega
    omega

/-- The last carry is dropped. -/
theorem adds_single {byte : UInt8} {amount : ℤ} (fits : FitsInt (byte.toNat + amount)) :
    Adds [byte] amount := by
  by_cases zero : amount = 0
  · rw [zero]
    exact adds_zero [byte]
  · have low := toNat_ofInt_tmod (byte.toNat + amount)
    refine ⟨_, addBytes_cons_eq_some.mpr (.inr ⟨zero, fits, [], rfl, rfl⟩), ?_⟩
    rw [leValue, leValue, leValue, List.length_singleton, pow_one]
    omega

theorem even_of_borrows {byte : UInt8} {value : ℕ} {amount : ℤ}
    (borrow : 0 ≤ (((byte.toNat + 256 * value) % 256 ^ 1 : ℕ) : ℤ) + amount ∨
      ((256 ^ 1 : ℕ) : ℤ) ∣ ((byte.toNat + 256 * value : ℕ) : ℤ) + amount) :
    Even (byte.toNat + amount) := by
  have small := byte.toNat_lt
  exact borrow.imp (fun positive => by omega) fun whole => by omega

theorem adds_iff {bytes : List UInt8} {amount : ℤ}
    (fits : ∀ byte ∈ bytes.head?, FitsInt (byte.toNat + amount)) :
    Adds bytes amount ↔ Borrows bytes.length (leValue bytes) amount := by
  induction bytes generalizing amount with
  | nil =>
      refine iff_of_true ⟨[], rfl, ?_⟩ fun low below _ => absurd below (Nat.not_lt_zero low)
      rw [List.length_nil, pow_zero, Int.emod_one]
      rfl
  | cons byte bytes ih =>
      have here := fits byte rfl
      by_cases even : Even (byte.toNat + amount)
      · have next : ∀ other ∈ bytes.head?, FitsInt (other.toNat + (byte.toNat + amount) / 256) := by
          intro other _
          rw [← tdiv_of_even even]
          exact fits_carry here other
        rw [adds_cons_of_even here even, ih next, List.length_cons, leValue,
          borrows_succ_of_even even]
      · cases bytes with
        | nil =>
            refine iff_of_true (adds_single here) fun low below positive => ?_
            exact absurd below (Nat.not_lt.mpr positive)
        | cons next bytes =>
            refine iff_of_false (not_adds_of_not_even even) fun borrows => even ?_
            exact even_of_borrows (borrows 1 (by simp) Nat.one_pos)

/-! ## MAC addresses -/

namespace MacAddress

/-- The 48 bits of an address, the first byte on top. -/
def value (address : MacAddress) : ℕ := beValue address.bytes

/-- `MacAddress::operator+=`. There is no result when an `int` overflows. -/
def addAssign (address : MacAddress) (amount : Int32) : Option MacAddress :=
  (addBytes address.bytes.reverse amount.toInt).map fun sum => Octets.ofMemory 6 sum.reverse

/-- `operator+` of an address and an amount, in either order. -/
def add (address : MacAddress) (amount : Int32) : Option MacAddress := address.addAssign amount

/-- `MacAddress::operator++ ()`. -/
def increment (address : MacAddress) : Option MacAddress := address.addAssign 1

/-- `MacAddress::operator++ (int)`: what it returns and what the address is then. -/
def postIncrement (address : MacAddress) : Option (MacAddress × MacAddress) :=
  (address.addAssign 1).map fun after => (address, after)

/-- The sum of an address and an amount, modulo `2 ^ 48` and without an overflow. -/
def Sums (address : MacAddress) (amount : Int32) : Prop :=
  ∃ sum, address.add amount = some sum ∧
    (sum.value : ℤ) = (address.value + amount.toInt) % 2 ^ 48

variable {address sum : MacAddress} {amount : Int32}

theorem value_lt (address : MacAddress) : address.value < 2 ^ 48 := by
  have bound := beValue_lt address.bytes
  rw [address.length_eq] at bound
  exact bound

theorem eq_of_value {left right : MacAddress} (same : left.value = right.value) :
    left = right := by
  apply Octets.ext_bytes
  apply List.reverse_inj.mp
  refine eq_of_leValue ?_ same
  rw [List.length_reverse, List.length_reverse, left.length_eq, right.length_eq]

theorem length_sum {result : List UInt8}
    (added : addBytes address.bytes.reverse amount.toInt = some result) :
    result.reverse.length = 6 := by
  rw [List.length_reverse, length_addBytes added, List.length_reverse, address.length_eq]

theorem add_eq_some_iff : address.add amount = some sum ↔
    addBytes address.bytes.reverse amount.toInt = some sum.bytes.reverse := by
  rw [add, addAssign, Option.map_eq_some_iff]
  constructor
  · rintro ⟨result, added, rfl⟩
    rw [Octets.bytes_ofMemory (length_sum added), List.reverse_reverse]
    exact added
  · intro added
    refine ⟨_, added, Octets.ext_bytes ?_⟩
    rw [Octets.bytes_ofMemory (length_sum added), List.reverse_reverse]

theorem sums_iff_adds : address.Sums amount ↔ Adds address.bytes.reverse amount.toInt := by
  have width : (256 : ℤ) ^ address.bytes.reverse.length = 2 ^ 48 := by
    rw [List.length_reverse, address.length_eq]
    rfl
  unfold Sums Adds
  rw [width]
  constructor
  · rintro ⟨sum, added, exact⟩
    exact ⟨_, add_eq_some_iff.mp added, exact⟩
  · rintro ⟨result, added, exact⟩
    have bytes := Octets.bytes_ofMemory (length_sum added)
    refine ⟨Octets.ofMemory 6 result.reverse, ?_, ?_⟩
    · rw [add_eq_some_iff, bytes, List.reverse_reverse]
      exact added
    · rw [value, beValue, bytes, List.reverse_reverse]
      exact exact

/-- A sum is right when the first sum is an `int` and no borrow is lost. -/
theorem sums_iff : address.Sums amount ↔
    ((address.value % 256 : ℕ) : ℤ) + amount.toInt < 2 ^ 31 ∧
      Borrows 6 address.value amount.toInt := by
  have length : address.bytes.reverse.length = 6 := by
    rw [List.length_reverse, address.length_eq]
  rw [sums_iff_adds]
  cases shape : address.bytes.reverse with
  | nil =>
      rw [shape] at length
      cases length
  | cons last bytes =>
      have small := last.toNat_lt
      have lower := amount.le_toInt
      have digit : address.value % 256 = last.toNat := by
        rw [value, beValue, shape, leValue]
        omega
      rw [digit]
      by_cases fits : FitsInt (last.toNat + amount.toInt)
      · have head : ∀ byte ∈ (last :: bytes).head?, FitsInt (byte.toNat + amount.toInt) := by
          rintro byte ⟨⟩
          exact fits
        rw [adds_iff head, ← shape, length]
        exact (and_iff_right fits.2).symm
      · refine iff_of_false ?_ fun condition => fits ⟨by omega, condition.1⟩
        rintro ⟨result, added, _⟩
        rcases addBytes_cons_eq_some.mp added with ⟨zero, _⟩ | ⟨_, sum, _⟩
        · exact fits ⟨by omega, by omega⟩
        · exact fits sum

theorem sums_one (address : MacAddress) : address.Sums 1 := by
  have one : (1 : Int32).toInt = 1 := by decide
  rw [sums_iff, one]
  refine ⟨by omega, fun low _ _ => .inl ?_⟩
  exact Int.add_nonneg (Int.natCast_nonneg _) (by decide)

/-- Taking away again what was added. -/
theorem add_neg (here : address.Sums amount) (added : address.add amount = some sum)
    (there : sum.Sums (-amount)) (proper : amount ≠ Int32.minValue) :
    sum.add (-amount) = some address := by
  obtain ⟨other, added', forth⟩ := here
  obtain ⟨result, back, value⟩ := there
  obtain rfl : other = sum := Option.some.inj (added'.symm.trans added)
  have negated : (-amount).toInt = -amount.toInt := by
    have low := amount.le_toInt
    have high := amount.toInt_lt
    have other : amount.toInt ≠ -2 ^ 31 := fun same => proper (Int32.toInt_inj.mp same)
    rw [Int32.toInt_neg]
    exact Int.bmod_eq_of_le (by omega) (by omega)
  have small := address.value_lt
  have bound := result.value_lt
  rw [back]
  apply congrArg some
  apply eq_of_value
  rw [negated] at value
  omega

/-- Adding to an address is addition modulo `2 ^ 48` exactly when the first sum is an `int` and
no borrow is lost on the way. Adding one always is. -/
theorem mac_sums_iff (address : MacAddress) (amount : Int32) :
    (address.Sums amount ↔
      ((address.value % 256 : ℕ) : ℤ) + amount.toInt < 2 ^ 31 ∧
        Borrows 6 address.value amount.toInt) ∧
    (∀ sum, address.Sums amount → address.add amount = some sum → sum.Sums (-amount) →
      amount ≠ Int32.minValue → sum.add (-amount) = some address) ∧
    address.Sums 1 ∧ address.increment = address.add 1 ∧
    address.postIncrement = (address.add 1).map fun after => (address, after) :=
  ⟨sums_iff, fun _ here added there proper => add_neg here added there proper, sums_one address,
    rfl, rfl⟩

/-- `00:00:00:00:01:00`. -/
def lowZero : MacAddress := ⟨[0, 0, 0, 0, 1, 0], rfl⟩

/-- One less than `00:00:00:00:01:00` is computed as `00:00:00:00:01:ff`, and the largest `int`
overflows on an address that ends in one. -/
theorem borrow_lost :
    lowZero.add (-1) = some ⟨[0, 0, 0, 0, 1, 255], rfl⟩ ∧
      MacAddress.add ⟨[0, 0, 0, 0, 0, 1], rfl⟩ Int32.maxValue = none ∧
      ¬∀ (address : MacAddress) (amount : Int32), address.Sums amount := by
  refine ⟨by decide, by decide, fun all => ?_⟩
  exact absurd (sums_iff.mp (all lowZero (-1))) (by decide)

end MacAddress

end Join
