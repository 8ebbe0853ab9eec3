import Mathlib.Data.List.Basic
import Mathlib.Tactic.Common

/-!
# Domain names in messages

A message refers to a name by a position. A name is a sequence of labels, each of them counted
by a byte, and ends with a zero byte or with a pointer, two bytes whose upper two bits are set:
the labels then go on at the position that the other fourteen bits give. The bytes of the name
itself end there, wherever the pointer leads.

`limit` is the largest length of a label. The format has 63 of them, since both upper bits of a
length byte are zero; up to 191 a length byte can still be told from a pointer. A name is
determined by its position, and a name with one limit is a name with every larger one.
-/

set_option autoImplicit false

namespace Join.Library

/-- The name at a position: how many pointers it goes through, its labels, and the position
behind its own bytes. -/
inductive NameAt (limit : ℕ) (bytes : List UInt8) : ℕ → ℕ → List (List UInt8) → ℕ → Prop
  | root {pos : ℕ} (zero : bytes[pos]? = some 0) : NameAt limit bytes pos 0 [] (pos + 1)
  | label {pos hops stop : ℕ} {length : UInt8} {labels : List (List UInt8)}
      (head : bytes[pos]? = some length) (filled : length ≠ 0) (short : length.toNat ≤ limit)
      (whole : pos + 1 + length.toNat ≤ bytes.length)
      (rest : NameAt limit bytes (pos + 1 + length.toNat) hops labels stop) :
      NameAt limit bytes pos hops ((bytes.drop (pos + 1)).take length.toNat :: labels) stop
  | pointer {pos hops stop : ℕ} {high low : UInt8} {labels : List (List UInt8)}
      (head : bytes[pos]? = some high) (upper : 192 ≤ high.toNat)
      (tail : bytes[pos + 1]? = some low)
      (rest : NameAt limit bytes ((high.toNat - 192) * 256 + low.toNat) hops labels stop) :
      NameAt limit bytes pos (hops + 1) labels (pos + 2)

namespace NameAt

variable {limit larger pos hops hops' stop stop' : ℕ} {bytes : List UInt8}
  {labels labels' : List (List UInt8)}

/-- A position has at most one name. -/
theorem unique (few : limit < 192) (named : NameAt limit bytes pos hops labels stop)
    (again : NameAt limit bytes pos hops' labels' stop') :
    hops = hops' ∧ labels = labels' ∧ stop = stop' := by
  induction named generalizing hops' labels' stop' with
  | root zero =>
      cases again with
      | root => exact ⟨rfl, rfl, rfl⟩
      | label head filled =>
          cases zero.symm.trans head
          exact absurd rfl filled
      | pointer head upper =>
          cases zero.symm.trans head
          cases upper
  | label head filled short _ _ inductionHypothesis =>
      cases again with
      | root zero =>
          cases zero.symm.trans head
          exact absurd rfl filled
      | label head' _ _ _ rest' =>
          cases head.symm.trans head'
          obtain ⟨sameHops, sameLabels, sameStop⟩ := inductionHypothesis rest'
          exact ⟨sameHops, by rw [sameLabels], sameStop⟩
      | pointer head' upper =>
          cases head.symm.trans head'
          omega
  | pointer head upper tail _ inductionHypothesis =>
      cases again with
      | root zero =>
          cases zero.symm.trans head
          cases upper
      | label head' _ short =>
          cases head.symm.trans head'
          omega
      | pointer head' _ tail' rest' =>
          cases head.symm.trans head'
          cases tail.symm.trans tail'
          obtain ⟨sameHops, sameLabels, -⟩ := inductionHypothesis rest'
          exact ⟨congrArg (· + 1) sameHops, sameLabels, rfl⟩

/-- The bytes of a name lie in the message. -/
theorem stop_le (named : NameAt limit bytes pos hops labels stop) : stop ≤ bytes.length := by
  induction named with
  | root zero => exact (List.getElem?_eq_some_iff.mp zero).1
  | label _ _ _ _ _ inductionHypothesis => exact inductionHypothesis
  | pointer _ _ tail _ _ => exact (List.getElem?_eq_some_iff.mp tail).1

/-- A name has a byte of its own. -/
theorem lt_stop (named : NameAt limit bytes pos hops labels stop) : pos < stop := by
  induction named with
  | root => exact Nat.lt_succ_self _
  | label _ _ _ _ _ inductionHypothesis => omega
  | pointer => exact Nat.lt_add_of_pos_right (by decide)

theorem mono (le : limit ≤ larger) (named : NameAt limit bytes pos hops labels stop) :
    NameAt larger bytes pos hops labels stop := by
  induction named with
  | root zero => exact .root zero
  | label head filled short whole _ inductionHypothesis =>
      exact .label head filled (Nat.le_trans short le) whole inductionHypothesis
  | pointer head upper tail _ inductionHypothesis =>
      exact .pointer head upper tail inductionHypothesis

/-- A name whose labels keep to a smaller limit. -/
theorem restrict (named : NameAt larger bytes pos hops labels stop)
    (short : ∀ label ∈ labels, label.length ≤ limit) :
    NameAt limit bytes pos hops labels stop := by
  induction named with
  | root zero => exact .root zero
  | @label pos hops stop length labels head filled _ whole _ inductionHypothesis =>
      have size : ((bytes.drop (pos + 1)).take length.toNat).length = length.toNat := by
        rw [List.length_take, List.length_drop]
        omega
      refine .label head filled ?_ whole ?_
      · rw [← size]
        exact short _ (List.mem_cons_self ..)
      · exact inductionHypothesis fun label member => short label (List.mem_cons_of_mem _ member)
  | pointer head upper tail _ inductionHypothesis =>
      exact .pointer head upper tail (inductionHypothesis short)

/-- The labels keep to the limit. -/
theorem length_le (named : NameAt limit bytes pos hops labels stop) :
    ∀ label ∈ labels, label.length ≤ limit := by
  induction named with
  | root => exact fun _ member => absurd member List.not_mem_nil
  | label _ _ short _ _ inductionHypothesis =>
      intro label member
      rcases List.mem_cons.mp member with rfl | later
      · exact Nat.le_trans (List.length_take_le ..) short
      · exact inductionHypothesis label later
  | pointer _ _ _ _ inductionHypothesis => exact inductionHypothesis

end NameAt

end Join.Library
