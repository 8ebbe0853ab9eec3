import Mathlib.Data.List.Lex
import Mathlib.Data.List.TakeWhile
import Mathlib.Data.Nat.Basic

/-!
# Unicode text

A text is a list of Unicode scalar values. `utf8` and `utf16` are its two
encodings, in bytes and in code units. Both are injective, and neither uses zero
for anything but U+0000, so cutting a text at its first U+0000 and cutting an
encoding at its first zero are the same.
-/

set_option autoImplicit false

namespace Join.Library

/-- The UTF-8 encoding of a text. -/
def utf8 (text : List Char) : List UInt8 := text.flatMap String.utf8EncodeChar

/-- The code units of a scalar value: one, or a pair of surrogates. -/
def codeUnits (scalar : Char) : List ℕ :=
  if scalar.toNat < 0x10000 then [scalar.toNat]
  else
    [0xD800 + (scalar.toNat - 0x10000) / 0x400, 0xDC00 + (scalar.toNat - 0x10000) % 0x400]

/-- The UTF-16 encoding of a text. -/
def utf16 (text : List Char) : List ℕ := text.flatMap codeUnits

/-- A text up to its first U+0000. -/
def untilNul (text : List Char) : List Char := text.takeWhile (· ≠ '\x00')

/-! ## UTF-8 -/

theorem utf8_cons (scalar : Char) (text : List Char) :
    utf8 (scalar :: text) = String.utf8EncodeChar scalar ++ utf8 text := rfl

/-- Only U+0000 is encoded with a zero byte. -/
theorem zero_mem_utf8EncodeChar {scalar : Char} (zero : 0 ∈ String.utf8EncodeChar scalar) :
    scalar = '\x00' := by
  have small (number : ℕ) (same : 0 = UInt8.ofNat number) : number % 256 = 0 := by
    have numbers := congrArg UInt8.toNat same
    rw [UInt8.toNat_ofNat'] at numbers
    exact numbers.symm
  unfold String.utf8EncodeChar at zero
  dsimp only at zero
  split at zero
  case isTrue ascii =>
    have vanishes := small _ (List.mem_singleton.mp zero)
    have value : scalar.toNat = 0 := by
      change scalar.val.toNat = 0
      omega
    exact Char.toNat_inj.mp value
  case isFalse =>
    -- the other bytes have their high bit set
    split at zero
    · simp only [List.mem_cons, List.not_mem_nil, or_false] at zero
      rcases zero with same | same
      all_goals have := small _ same; omega
    · split at zero
      all_goals
        simp only [List.mem_cons, List.not_mem_nil, or_false] at zero
      · rcases zero with same | same | same
        all_goals have := small _ same; omega
      · rcases zero with same | same | same | same
        all_goals have := small _ same; omega

theorem utf8_injective {one other : List Char} (same : utf8 one = utf8 other) : one = other := by
  have bytes : one.utf8Encode = other.utf8Encode := congrArg List.toByteArray same
  have decoded := congrArg ByteArray.utf8Decode? bytes
  rw [List.utf8Decode?_utf8Encode, List.utf8Decode?_utf8Encode] at decoded
  simpa using decoded

/-- Cutting the encoding at its first zero byte cuts the text at its first U+0000. -/
theorem takeWhile_utf8 (text : List Char) :
    (utf8 text).takeWhile (· ≠ 0) = utf8 (untilNul text) := by
  induction text with
  | nil => rfl
  | cons scalar text ih =>
      rw [utf8_cons, untilNul]
      by_cases nul : scalar = '\x00'
      · subst nul
        rfl
      · have nonzero : ∀ byte ∈ String.utf8EncodeChar scalar, decide (byte ≠ 0) = true := by
          intro byte member
          rw [decide_eq_true_eq]
          rintro rfl
          exact nul (zero_mem_utf8EncodeChar member)
        rw [List.takeWhile_append_of_pos nonzero, ih, List.takeWhile_cons_of_pos (by simpa using nul)]
        rfl

/-! ## UTF-16 -/

theorem utf16_cons (scalar : Char) (text : List Char) :
    utf16 (scalar :: text) = codeUnits scalar ++ utf16 text := rfl

theorem codeUnits_ne_nil (scalar : Char) : codeUnits scalar ≠ [] := by
  unfold codeUnits
  split <;> simp

/-- A scalar value is not a surrogate. -/
theorem scalar_range (scalar : Char) :
    scalar.toNat < 0xD800 ∨ 0xDFFF < scalar.toNat ∧ scalar.toNat < 0x110000 :=
  scalar.valid

/-- The first scalar value of a text can be read off its encoding. -/
theorem codeUnits_append {one other : Char} {rest more : List ℕ}
    (same : codeUnits one ++ rest = codeUnits other ++ more) : one = other ∧ rest = more := by
  have first := scalar_range one
  have second := scalar_range other
  unfold codeUnits at same
  split at same <;> split at same <;> simp only [List.cons_append, List.nil_append,
    List.cons.injEq] at same
  · exact ⟨Char.toNat_inj.mp same.1, same.2⟩
  · omega
  · omega
  · exact ⟨Char.toNat_inj.mp (by omega), same.2.2⟩

theorem utf16_injective {one other : List Char} (same : utf16 one = utf16 other) :
    one = other := by
  induction one generalizing other with
  | nil =>
      cases other with
      | nil => rfl
      | cons scalar other =>
          rw [utf16_cons] at same
          exact absurd (List.append_eq_nil_iff.mp same.symm).1 (codeUnits_ne_nil scalar)
  | cons scalar one ih =>
      cases other with
      | nil =>
          rw [utf16_cons] at same
          exact absurd (List.append_eq_nil_iff.mp same).1 (codeUnits_ne_nil scalar)
      | cons scalar' other =>
          obtain ⟨rfl, rest⟩ := codeUnits_append same
          rw [ih rest]

theorem ne_zero_of_mem_utf16 {text : List Char} (nonzero : ∀ scalar ∈ text, scalar ≠ '\x00') :
    ∀ unit ∈ utf16 text, unit ≠ 0 := by
  rintro unit member rfl
  obtain ⟨scalar, held, inside⟩ := List.mem_flatMap.mp member
  unfold codeUnits at inside
  split at inside
  · exact nonzero scalar held (Char.toNat_inj.mp (List.mem_singleton.mp inside).symm)
  · simp only [List.mem_cons, List.not_mem_nil, or_false] at inside
    omega

/-! ## Texts cut at U+0000 -/

theorem mem_untilNul {text : List Char} : ∀ scalar ∈ untilNul text, scalar ≠ '\x00' := by
  intro scalar member
  simpa using List.mem_takeWhile_imp member

/-- A text behind its first U+0000 starts with a zero code unit. -/
theorem utf16_untilNul (text : List Char) : ∃ rest, utf16 text = utf16 (untilNul text) ++ rest ∧
    (rest = [] ∨ rest.head? = some 0) := by
  induction text with
  | nil => exact ⟨[], rfl, .inl rfl⟩
  | cons scalar text ih =>
      rw [utf16_cons, untilNul]
      by_cases nul : scalar = '\x00'
      · subst nul
        exact ⟨codeUnits '\x00' ++ utf16 text, rfl, .inr rfl⟩
      · obtain ⟨rest, split, head⟩ := ih
        rw [List.takeWhile_cons_of_pos (by simpa using nul), utf16_cons]
        exact ⟨rest, by rw [split, List.append_assoc]; rfl, head⟩

/-- The order of two lists of code units is decided before the first zero when they
differ before it. -/
theorem append_lt_append_iff {one other rest more : List ℕ} (differ : one ≠ other)
    (oneNonzero : ∀ unit ∈ one, unit ≠ 0) (otherNonzero : ∀ unit ∈ other, unit ≠ 0)
    (restHead : rest = [] ∨ rest.head? = some 0) (moreHead : more = [] ∨ more.head? = some 0) :
    one ++ rest < other ++ more ↔ one < other := by
  induction one generalizing other with
  | nil =>
      cases other with
      | nil => exact absurd rfl differ
      | cons unit other =>
          have positive : 0 < unit := Nat.pos_of_ne_zero (otherNonzero unit List.mem_cons_self)
          refine iff_of_true ?_ (List.nil_lt_cons _ _)
          rcases restHead with rfl | head
          · exact List.nil_lt_cons _ _
          · obtain ⟨tail, rfl⟩ := List.head?_eq_some_iff.mp head
            exact List.cons_lt_cons_iff.mpr (.inl positive)
  | cons unit one ih =>
      have positive : 0 < unit := Nat.pos_of_ne_zero (oneNonzero unit List.mem_cons_self)
      cases other with
      | nil =>
          refine iff_of_false ?_ (List.not_lt_nil _)
          rcases moreHead with rfl | head
          · exact List.not_lt_nil _
          · obtain ⟨tail, rfl⟩ := List.head?_eq_some_iff.mp head
            rw [List.nil_append, List.cons_append, List.cons_lt_cons_iff]
            omega
      | cons unit' other =>
          rw [List.cons_append, List.cons_append, List.cons_lt_cons_iff, List.cons_lt_cons_iff]
          refine or_congr Iff.rfl (and_congr_right fun same => ?_)
          subst same
          exact ih (fun equal => differ (by rw [equal]))
            (fun unit member => oneNonzero unit (List.mem_cons_of_mem _ member))
            (fun unit member => otherNonzero unit (List.mem_cons_of_mem _ member))

/-- Texts that differ before their first U+0000 are ordered as what stands before
it. -/
theorem utf16_lt_iff {one other : List Char} (differ : untilNul one ≠ untilNul other) :
    utf16 one < utf16 other ↔ utf16 (untilNul one) < utf16 (untilNul other) := by
  obtain ⟨rest, split, head⟩ := utf16_untilNul one
  obtain ⟨more, split', head'⟩ := utf16_untilNul other
  rw [split, split']
  exact append_lt_append_iff (fun same => differ (utf16_injective same))
    (ne_zero_of_mem_utf16 mem_untilNul) (ne_zero_of_mem_utf16 mem_untilNul) head head'

end Join.Library
