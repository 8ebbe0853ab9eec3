import Mathlib.Data.List.TakeWhile
import Mathlib.Data.Nat.Digits.Lemmas
import Mathlib.Tactic.Common
import Join.Library.Byte

/-!
# Numerals

How a stream writes a number with the hexadecimal flag, and how it extracts one: blanks are
skipped, a sign and a prefix `0x` may stand before the digits, the number ends at the first
character that is no digit, and the extraction fails when there is no digit or the number
does not fit the type that is read. Decimal numerals have no prefix, and only the digits of
one are read here.
-/

set_option autoImplicit false

namespace Join.Library

/-- The character of a hexadecimal digit, in lower case. -/
def hexDigit (digit : ℕ) : UInt8 := UInt8.ofNat (if digit < 10 then 48 + digit else 87 + digit)

/-- The digit that a character stands for, in either case. -/
def hexValue (byte : UInt8) : Option ℕ :=
  if 48 ≤ byte ∧ byte ≤ 57 then some (byte.toNat - 48)
  else if 97 ≤ byte ∧ byte ≤ 102 then some (byte.toNat - 87)
  else if 65 ≤ byte ∧ byte ≤ 70 then some (byte.toNat - 55)
  else none

/-- A character is a hexadecimal digit. -/
def isHexDigit (byte : UInt8) : Bool := (hexValue byte).isSome

/-- The number that digits spell. -/
def hexNumber (digits : List UInt8) : ℕ :=
  digits.foldl (fun number byte => (hexValue byte).getD 0 + 16 * number) 0

/-- A number as a stream writes it with the hexadecimal flag. -/
def toHex (number : ℕ) : List UInt8 :=
  if number = 0 then [hexDigit 0] else ((Nat.digits 16 number).map hexDigit).reverse

/-- The characters that a stream skips before it extracts. -/
def isSpace (byte : UInt8) : Bool := byte == 32 || (9 ≤ byte && byte ≤ 13)

/-- The sign before a number, and what follows it. -/
def splitSign : List UInt8 → Bool × List UInt8
  | [] => (false, [])
  | byte :: text =>
      if byte = 45 then (true, text) else if byte = 43 then (false, text) else (false, byte :: text)

/-- A text without the prefix of a hexadecimal number. -/
def dropHexMark : List UInt8 → List UInt8
  | zero :: mark :: text =>
      if zero = 48 ∧ (mark = 120 ∨ mark = 88) then text else zero :: mark :: text
  | text => text

/-- Extract a number with the hexadecimal flag, for a type with the given limits. -/
def extractHex (lowest highest : ℤ) (text : List UInt8) : Option ℤ :=
  let (negative, text) := splitSign (text.dropWhile isSpace)
  let digits := (dropHexMark text).takeWhile isHexDigit
  let number : ℤ := if negative then -hexNumber digits else hexNumber digits
  if digits.isEmpty ∨ number < lowest ∨ highest < number then none else some number

/-- The character of a decimal digit. -/
def decimalDigit (digit : ℕ) : UInt8 := UInt8.ofNat (48 + digit)

/-- A character is a decimal digit. -/
def isDecimalDigit (byte : UInt8) : Bool := 48 ≤ byte && byte ≤ 57

/-- The number that decimal digits spell. -/
def decimalNumber (digits : List UInt8) : ℕ :=
  digits.foldl (fun number byte => (byte.toNat - 48) + 10 * number) 0

/-- A number in decimal digits. -/
def toDecimal (number : ℕ) : List UInt8 :=
  if number = 0 then [decimalDigit 0] else ((Nat.digits 10 number).map decimalDigit).reverse

/-! ## Digits -/

/-- Digits that are written with the greatest first spell the number again, whatever the
characters are. -/
theorem foldl_digits {base : ℕ} (many : 1 < base) {digit : ℕ → UInt8} {value : UInt8 → ℕ}
    (read : ∀ place < base, value (digit place) = place) (number : ℕ) :
    ((Nat.digits base number).map digit).reverse.foldl
      (fun rest byte => value byte + base * rest) 0 = number := by
  rw [List.foldl_reverse, List.foldr_map]
  have digits : ∀ place ∈ Nat.digits base number, place < base :=
    fun place member => Nat.digits_lt_base many member
  have spelled : (Nat.digits base number).foldr
      (fun place rest => value (digit place) + base * rest) 0 =
        (Nat.digits base number).foldr (fun place rest => place + base * rest) 0 := by
    revert digits
    induction Nat.digits base number with
    | nil => intro; rfl
    | cons place rest ih =>
        intro small
        rw [List.foldr_cons, List.foldr_cons, read place (small place List.mem_cons_self),
          ih fun other member => small other (List.mem_cons_of_mem _ member)]
  have whole := Nat.ofDigits_eq_foldr base (Nat.digits base number)
  rw [Nat.ofDigits_digits] at whole
  exact spelled.trans whole.symm

theorem hexValue_hexDigit {digit : ℕ} (small : digit < 16) :
    hexValue (hexDigit digit) = some digit := by
  have all : ∀ digit : Fin 16, hexValue (hexDigit digit) = some digit.val := by decide
  exact all ⟨digit, small⟩

theorem hexNumber_toHex (number : ℕ) : hexNumber (toHex number) = number := by
  rw [toHex]
  split_ifs with zero
  · rw [zero]
    rfl
  · rw [hexNumber]
    refine @foldl_digits 16 (by decide) hexDigit (fun byte => (hexValue byte).getD 0) ?_ number
    intro place small
    rw [hexValue_hexDigit small, Option.getD_some]

/-- Every character of a written number is a digit. -/
theorem mem_toHex {number : ℕ} {byte : UInt8} (member : byte ∈ toHex number) :
    ∃ digit < 16, byte = hexDigit digit := by
  rw [toHex] at member
  split_ifs at member
  · exact ⟨0, by decide, List.mem_singleton.mp member⟩
  · obtain ⟨digit, inside, rfl⟩ := List.mem_map.mp (List.mem_reverse.mp member)
    exact ⟨digit, Nat.digits_lt_base (by decide) inside, rfl⟩

theorem toHex_ne_nil (number : ℕ) : toHex number ≠ [] := by
  rw [toHex]
  split_ifs with zero
  · exact List.cons_ne_nil _ _
  · rw [ne_eq, List.reverse_eq_nil_iff, List.map_eq_nil_iff]
    exact Nat.digits_ne_nil_iff_ne_zero.mpr zero

theorem length_toHex_le {number : ℕ} (count : ℕ) (positive : 0 < count) (small : number < 16 ^ count) :
    (toHex number).length ≤ count := by
  rw [toHex]
  split_ifs
  · exact positive
  · rw [List.length_reverse, List.length_map]
    exact (Nat.digits_length_le_iff (by decide) number).mpr small

/-- What is true of the sixteen digits is true of the characters of a written number. -/
theorem forall_toHex {property : UInt8 → Prop} (digits : ∀ digit < 16, property (hexDigit digit))
    (number : ℕ) : ∀ byte ∈ toHex number, property byte := by
  intro byte member
  obtain ⟨digit, small, rfl⟩ := mem_toHex member
  exact digits digit small

/-! ## Decimal digits -/

/-- A written decimal digit is one and has its value. -/
theorem decimalDigit_spec {digit : ℕ} (small : digit < 10) :
    (decimalDigit digit).toNat - 48 = digit ∧ isDecimalDigit (decimalDigit digit) = true := by
  have all : ∀ digit : Fin 10, (decimalDigit digit.val).toNat - 48 = digit.val ∧
      isDecimalDigit (decimalDigit digit.val) = true := by decide
  exact all ⟨digit, small⟩

theorem decimalNumber_toDecimal (number : ℕ) : decimalNumber (toDecimal number) = number := by
  rw [toDecimal]
  split_ifs with zero
  · rw [zero]
    rfl
  · exact foldl_digits (by decide) (fun _ small => (decimalDigit_spec small).1) number

/-- A number is written in digits only. -/
theorem isDecimalDigit_of_mem {number : ℕ} {byte : UInt8} (member : byte ∈ toDecimal number) :
    isDecimalDigit byte = true := by
  rw [toDecimal] at member
  split_ifs at member
  · rw [List.mem_singleton.mp member]
    rfl
  · obtain ⟨digit, inside, rfl⟩ := List.mem_map.mp (List.mem_reverse.mp member)
    exact (decimalDigit_spec (Nat.digits_lt_base (by decide) inside)).2

theorem toDecimal_ne_nil (number : ℕ) : toDecimal number ≠ [] := by
  rw [toDecimal]
  split_ifs with zero
  · exact List.cons_ne_nil _ _
  · rw [ne_eq, List.reverse_eq_nil_iff, List.map_eq_nil_iff]
    exact Nat.digits_ne_nil_iff_ne_zero.mpr zero

/-! ## Extraction -/

/-- A number that was written is extracted again, if it fits. -/
theorem extractHex_toHex {lowest highest : ℤ} {number : ℕ} (low : lowest ≤ number)
    (high : (number : ℤ) ≤ highest) :
    extractHex lowest highest (toHex number) = some (number : ℤ) := by
  have digits : ∀ byte ∈ toHex number, isHexDigit byte = true ∧ isSpace byte = false ∧
      byte ≠ 45 ∧ byte ≠ 43 ∧ byte ≠ 120 ∧ byte ≠ 88 :=
    forall_toHex (by decide) number
  have all : (toHex number).takeWhile isHexDigit = toHex number :=
    List.takeWhile_eq_self_iff.mpr fun byte member => (digits byte member).1
  have unmarked : dropHexMark (toHex number) = toHex number := by
    unfold dropHexMark
    split
    case h_1 zero mark text spelled =>
      have second := digits mark (by rw [spelled]; exact List.mem_cons_of_mem _ List.mem_cons_self)
      rw [if_neg fun marked => marked.2.elim second.2.2.2.2.1 second.2.2.2.2.2, spelled]
    case h_2 => rfl
  have unsigned : splitSign ((toHex number).dropWhile isSpace) = (false, toHex number) := by
    cases spelled : toHex number with
    | nil => exact absurd spelled (toHex_ne_nil number)
    | cons byte rest =>
        have first := digits byte (by rw [spelled]; exact List.mem_cons_self)
        rw [List.dropWhile_cons_of_neg (by rw [first.2.1]; exact Bool.false_ne_true), splitSign,
          if_neg first.2.2.1, if_neg first.2.2.2.1]
  rw [extractHex, unsigned]
  simp only [unmarked, all, Bool.false_eq_true, if_false, hexNumber_toHex]
  rw [if_neg]
  rintro (empty | below | above)
  · exact toHex_ne_nil number (List.isEmpty_iff.mp empty)
  · exact absurd low (not_le.mpr below)
  · exact absurd high (not_le.mpr above)

end Join.Library
