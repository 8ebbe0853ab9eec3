import Mathlib.Data.List.TakeWhile
import Mathlib.Tactic.Common

/-!
# Strings of bytes

A text of ASCII characters is the string of its bytes. A function that takes a terminated string
sees the bytes before the first zero byte. A string without a zero byte is seen whole.
-/

set_option autoImplicit false

namespace Join

/-- The bytes of a text of ASCII characters. -/
def ascii (text : String) : List UInt8 := text.toList.map fun ch => UInt8.ofNat ch.toNat

namespace Library

/-- The bytes before the first zero byte. -/
def cString (text : List UInt8) : List UInt8 := text.takeWhile (· ≠ 0)

/-- A string without a zero byte is seen whole. -/
theorem cString_of_notMem {text : List UInt8} (absent : 0 ∉ text) : cString text = text := by
  rw [cString, List.takeWhile_eq_self_iff]
  intro byte member
  exact decide_eq_true fun zero => absent (zero ▸ member)

/-- What stands behind a zero byte is not seen. -/
theorem cString_append_zero {front : List UInt8} (absent : 0 ∉ front) (back : List UInt8) :
    cString (front ++ 0 :: back) = front := by
  rw [cString, List.takeWhile_append_of_pos, List.takeWhile_cons_of_neg (by decide),
    List.append_nil]
  intro byte member
  exact decide_eq_true fun zero => absent (zero ▸ member)

end Library

end Join
