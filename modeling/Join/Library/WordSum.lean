import Mathlib.Algebra.GroupWithZero.Nat
import Mathlib.Data.List.Basic
import Mathlib.Tactic.Common

/-!
# Sums of words, end around

A list of bytes is a list of words of sixteen bits, in the byte order of a machine, with a zero
behind a last byte that is alone. The sum of the words is folded to sixteen bits by adding
what does not fit, twice, which keeps its remainder by `2 ^ 16 - 1`. Another byte in one place
changes the sum by less than that, so the folded sum changes.

In the sum of words in one's complement every carry is added to the sum at once. It is not zero
unless all words are, and has the same remainder, which leaves one number: so it is the folded
sum, as long as the sum that is folded has thirty-two bits. A word that completes the sum of the
others to `2 ^ 16 - 1` makes the sum of all of them that number.
-/

set_option autoImplicit false

namespace Join.Library

/-- The word that two bytes are in memory. -/
def hostWord (little : Bool) (first second : UInt8) : ℕ :=
  if little then first.toNat + 256 * second.toNat else 256 * first.toNat + second.toNat

/-- The sum of the words. -/
def wordSum (little : Bool) : List UInt8 → ℕ
  | [] => 0
  | [last] => hostWord little last 0
  | first :: second :: rest => hostWord little first second + wordSum little rest

/-- What a byte counts in a word, by its place. -/
def weight (little : Bool) (place : ℕ) : ℕ :=
  if (decide (place % 2 = 0)) = little then 1 else 256

/-- What does not fit in sixteen bits is added, twice. -/
def foldSum (sum : ℕ) : ℕ :=
  let once := sum / 2 ^ 16 + sum % 2 ^ 16
  (once + once / 2 ^ 16) % 2 ^ 16

variable {little : Bool}

theorem weight_add_two (place : ℕ) : weight little (place + 2) = weight little place := by
  rw [weight, weight, Nat.add_mod_right]

theorem hostWord_lt (first second : UInt8) : hostWord little first second < 2 ^ 16 := by
  have low := first.toNat_lt
  have high := second.toNat_lt
  unfold hostWord
  split_ifs <;> omega

theorem hostWord_eq (first second : UInt8) :
    hostWord little first second =
      weight little 0 * first.toNat + weight little 1 * second.toNat := by
  cases little <;> simp [hostWord, weight]

/-- Another byte in one place. -/
theorem wordSum_set {bytes : List UInt8} {place : ℕ} {old : UInt8} (new : UInt8)
    (there : bytes[place]? = some old) :
    wordSum little (bytes.set place new) + weight little place * old.toNat =
      wordSum little bytes + weight little place * new.toNat := by
  induction bytes using wordSum.induct generalizing place with
  | case1 => cases there
  | case2 last =>
      cases place with
      | zero =>
          cases there
          simp only [List.set_cons_zero, wordSum, hostWord_eq]
          omega
      | succ place => cases there
  | case3 first second rest inductionHypothesis =>
      match place with
      | 0 =>
          cases there
          simp only [List.set_cons_zero, wordSum, hostWord_eq]
          omega
      | 1 =>
          cases there
          simp only [List.set_cons_succ, List.set_cons_zero, wordSum, hostWord_eq]
          omega
      | place + 2 =>
          have later := @inductionHypothesis place there
          rw [weight_add_two]
          simp only [List.set_cons_succ, wordSum]
          omega

/-- The sum of the words of a list that is not too long fits in 32 bits. -/
theorem wordSum_le (bytes : List UInt8) :
    wordSum little bytes ≤ (2 ^ 16 - 1) * bytes.length := by
  induction bytes using wordSum.induct with
  | case1 => exact Nat.le_refl _
  | case2 last =>
      have bound := @hostWord_lt little last 0
      simp only [wordSum, List.length_singleton]
      omega
  | case3 first second rest inductionHypothesis =>
      have bound := @hostWord_lt little first second
      simp only [wordSum, List.length_cons]
      omega

/-- Adding once what does not fit keeps the remainder. -/
theorem foldOnce_mod (sum : ℕ) :
    (sum / 2 ^ 16 + sum % 2 ^ 16) % (2 ^ 16 - 1) = sum % (2 ^ 16 - 1) := by
  have split : sum = sum / 2 ^ 16 + sum % 2 ^ 16 + (2 ^ 16 - 1) * (sum / 2 ^ 16) := by omega
  conv_rhs => rw [split]
  rw [Nat.add_mul_mod_self_left]

/-- Folding keeps the remainder. -/
theorem foldSum_mod {sum : ℕ} (small : sum < 2 ^ 32) :
    foldSum sum % (2 ^ 16 - 1) = sum % (2 ^ 16 - 1) := by
  have bound : sum / 2 ^ 16 + sum % 2 ^ 16 < 2 * 2 ^ 16 - 1 := by omega
  rw [← foldOnce_mod sum, foldSum]
  generalize sum / 2 ^ 16 + sum % 2 ^ 16 = once at bound ⊢
  rcases Nat.lt_or_ge once (2 ^ 16) with fits | beyond
  · rw [Nat.div_eq_of_lt fits, Nat.add_zero, Nat.mod_eq_of_lt fits]
  · have carry : once / 2 ^ 16 = 1 := by omega
    have folded : (once + 1) % 2 ^ 16 = once - (2 ^ 16 - 1) := by omega
    rw [carry, folded]
    omega

theorem foldSum_lt (sum : ℕ) : foldSum sum < 2 ^ 16 := Nat.mod_lt _ (by decide)

/-! ## Sums in one's complement -/

/-- The words that bytes are in memory. -/
def hostWords (little : Bool) : List UInt8 → List ℕ
  | [] => []
  | [last] => [hostWord little last 0]
  | first :: second :: rest => hostWord little first second :: hostWords little rest

/-- The sum of two words, with the carry added. -/
def addEndAround (left right : ℕ) : ℕ :=
  if left + right < 2 ^ 16 then left + right else left + right - (2 ^ 16 - 1)

/-- The sum of words in one's complement. -/
def onesSum (list : List ℕ) : ℕ := list.foldl addEndAround 0

/-- The word that stands for a sum: zero for zero, and else the number from one on with the same
remainder. -/
def endAround (sum : ℕ) : ℕ := if sum = 0 then 0 else (sum - 1) % (2 ^ 16 - 1) + 1

/-- The bytes that a word is in memory. -/
def hostBytes (little : Bool) (word : ℕ) : List UInt8 :=
  if little then [UInt8.ofNat word, UInt8.ofNat (word / 256)]
  else [UInt8.ofNat (word / 256), UInt8.ofNat word]

theorem addEndAround_endAround {sum word : ℕ} (small : word < 2 ^ 16) :
    addEndAround (endAround sum) word = endAround (sum + word) := by
  rw [addEndAround, endAround, endAround]
  split_ifs <;> omega

theorem onesSum_foldl (list : List ℕ) (small : ∀ word ∈ list, word < 2 ^ 16) (sum : ℕ) :
    list.foldl addEndAround (endAround sum) = endAround (sum + list.sum) := by
  induction list generalizing sum with
  | nil => rfl
  | cons word list inductionHypothesis =>
      rw [List.foldl_cons, addEndAround_endAround (small word (List.mem_cons_self ..)),
        inductionHypothesis (fun other member => small other (List.mem_cons_of_mem _ member)),
        List.sum_cons, Nat.add_assoc]

theorem hostWords_small (bytes : List UInt8) : ∀ word ∈ hostWords little bytes, word < 2 ^ 16 := by
  induction bytes using hostWords.induct with
  | case1 =>
      intro word member
      cases member
  | case2 last =>
      intro word member
      rw [List.mem_singleton.mp member]
      exact hostWord_lt _ _
  | case3 first second rest inductionHypothesis =>
      intro word member
      rcases List.mem_cons.mp member with rfl | later
      · exact hostWord_lt _ _
      · exact inductionHypothesis word later

theorem sum_hostWords (bytes : List UInt8) : (hostWords little bytes).sum = wordSum little bytes := by
  induction bytes using hostWords.induct with
  | case1 => rfl
  | case2 last => rw [hostWords, wordSum, List.sum_singleton]
  | case3 first second rest inductionHypothesis =>
      rw [hostWords, wordSum, List.sum_cons, inductionHypothesis]

/-- The sum in one's complement stands for the sum of the words. -/
theorem onesSum_hostWords (bytes : List UInt8) :
    onesSum (hostWords little bytes) = endAround (wordSum little bytes) := by
  have summed := onesSum_foldl (hostWords little bytes) (hostWords_small bytes) 0
  rwa [Nat.zero_add, sum_hostWords] at summed

/-- Two folds are enough for a sum of thirty-two bits. -/
theorem foldSum_eq {sum : ℕ} (small : sum < 2 ^ 32) : foldSum sum = endAround sum := by
  have split : sum = sum / 2 ^ 16 + sum % 2 ^ 16 + (2 ^ 16 - 1) * (sum / 2 ^ 16) := by omega
  have bound : sum / 2 ^ 16 + sum % 2 ^ 16 < 2 * 2 ^ 16 - 1 := by omega
  have inside : sum / 2 ^ 16 ≤ sum / 2 ^ 16 + sum % 2 ^ 16 := Nat.le_add_right _ _
  rw [foldSum, endAround]
  generalize sum / 2 ^ 16 + sum % 2 ^ 16 = once at split bound inside ⊢
  generalize sum / 2 ^ 16 = quotient at split inside
  by_cases zero : sum = 0
  · have none : once = 0 := by omega
    rw [if_pos zero, none]
    rfl
  · rw [if_neg zero]
    rcases Nat.lt_or_ge once (2 ^ 16) with fits | beyond
    · have before : sum - 1 = once - 1 + (2 ^ 16 - 1) * quotient := by omega
      rw [Nat.div_eq_of_lt fits, Nat.add_zero, Nat.mod_eq_of_lt fits, before,
        Nat.add_mul_mod_self_left, Nat.mod_eq_of_lt (by omega)]
      omega
    · have carry : once / 2 ^ 16 = 1 := by omega
      have before : sum - 1 = once - 2 ^ 16 + (2 ^ 16 - 1) * (quotient + 1) := by omega
      have folded : (once + 1) % 2 ^ 16 = once - 2 ^ 16 + 1 := by omega
      have left : (once - 2 ^ 16) % (2 ^ 16 - 1) = once - 2 ^ 16 :=
        Nat.mod_eq_of_lt (by omega)
      rw [carry, before, Nat.add_mul_mod_self_left, folded, left]

/-- A word is not more than its two bytes can say. -/
theorem wordSum_le_hostWords (bytes : List UInt8) :
    wordSum little bytes ≤ (2 ^ 16 - 1) * ((bytes.length + 1) / 2) := by
  induction bytes using wordSum.induct with
  | case1 => exact Nat.zero_le _
  | case2 last =>
      have bound := @hostWord_lt little last 0
      rw [wordSum, List.length_singleton]
      omega
  | case3 first second rest inductionHypothesis =>
      have bound := @hostWord_lt little first second
      rw [wordSum, List.length_cons, List.length_cons]
      omega

/-- The sum over two pieces, the first of which ends between two words. -/
theorem wordSum_append {front : List UInt8} (even : front.length % 2 = 0) (back : List UInt8) :
    wordSum little (front ++ back) = wordSum little front + wordSum little back := by
  induction front using wordSum.induct with
  | case1 => exact (Nat.zero_add _).symm
  | case2 last => cases even
  | case3 first second rest inductionHypothesis =>
      have shorter : rest.length % 2 = 0 := by
        rw [List.length_cons, List.length_cons] at even
        omega
      rw [List.cons_append, List.cons_append, wordSum, inductionHypothesis shorter, wordSum,
        Nat.add_assoc]

theorem length_hostBytes (little : Bool) (word : ℕ) : (hostBytes little word).length = 2 := by
  cases little with
  | true => rfl
  | false => rfl

/-- The word that was written. -/
theorem wordSum_hostBytes {word : ℕ} (small : word < 2 ^ 16) :
    wordSum little (hostBytes little word) = word := by
  have low : (UInt8.ofNat word).toNat = word % 256 := UInt8.toNat_ofNat'
  have high : (UInt8.ofNat (word / 256)).toNat = word / 256 % 256 := UInt8.toNat_ofNat'
  cases little with
  | true =>
      change (UInt8.ofNat word).toNat + 256 * (UInt8.ofNat (word / 256)).toNat + 0 = word
      omega
  | false =>
      change 256 * (UInt8.ofNat (word / 256)).toNat + (UInt8.ofNat word).toNat + 0 = word
      omega

/-- A multiple of the greatest word stands for it. -/
theorem endAround_multiple (times : ℕ) : endAround ((2 ^ 16 - 1) * (times + 1)) = 2 ^ 16 - 1 := by
  have before : (2 ^ 16 - 1) * (times + 1) - 1 = 2 ^ 16 - 2 + (2 ^ 16 - 1) * times := by omega
  rw [endAround, if_neg (Nat.mul_ne_zero (by decide) (Nat.succ_ne_zero _)), before,
    Nat.add_mul_mod_self_left]
  rfl

/-- A word that completes a sum. -/
theorem endAround_complete (sum : ℕ) :
    endAround (sum + (2 ^ 16 - 1 - endAround sum)) = 2 ^ 16 - 1 := by
  by_cases zero : sum = 0
  · rw [zero]
    exact endAround_multiple 0
  · have division := Nat.div_add_mod (sum - 1) (2 ^ 16 - 1)
    have small : (sum - 1) % (2 ^ 16 - 1) < 2 ^ 16 - 1 := Nat.mod_lt _ (by decide)
    have whole : sum + (2 ^ 16 - 1 - ((sum - 1) % (2 ^ 16 - 1) + 1)) =
        (2 ^ 16 - 1) * ((sum - 1) / (2 ^ 16 - 1) + 1) := by
      rw [Nat.mul_add_one]
      omega
    have word : endAround sum = (sum - 1) % (2 ^ 16 - 1) + 1 := if_neg zero
    rw [word, whole]
    exact endAround_multiple _

/-! ## Changes -/

/-- Another byte in one place changes the remainder of the sum. -/
theorem wordSum_set_mod_ne {bytes : List UInt8} {place : ℕ} {old new : UInt8}
    (there : bytes[place]? = some old) (other : new ≠ old) :
    wordSum little (bytes.set place new) % (2 ^ 16 - 1) ≠
      wordSum little bytes % (2 ^ 16 - 1) := by
  have changed := @wordSum_set little _ _ _ new there
  have differs : new.toNat ≠ old.toNat := fun same => other (UInt8.toNat_inj.mp same)
  have left := new.toNat_lt
  have right := old.toNat_lt
  unfold weight at changed
  split_ifs at changed <;> omega

end Join.Library
