import Mathlib.Data.List.Infix
import Mathlib.Tactic.Common

/-!
# Shell patterns

Matching of a string against a pattern in which a star stands for any string, a question mark for
any character, a bracket expression for one of some characters, and a backslash takes the meaning
of the next character away. A pattern that ends with such a backslash matches nothing. No character
of the string is special.

What a bracket expression stands for depends on the locale, and is given from outside.
-/

set_option autoImplicit false

namespace Join.Library.ShellPattern

/-- `'*'` -/
def star : UInt8 := 42

/-- `'?'` -/
def question : UInt8 := 63

/-- `'['` -/
def bracket : UInt8 := 91

/-- `'\\'` -/
def backslash : UInt8 := 92

/-- The bracket expressions of a locale: from what follows an opening bracket, the number of
characters up to and with the closing one, and whether a character is one of those that the
expression stands for. A bracket that starts no expression is an ordinary character. -/
abbrev Brackets : Type := List UInt8 → Option (ℕ × (UInt8 → Bool))

variable (brackets : Brackets)

/-- The characters that the start of a pattern stands for, when it is no star, and the rest of
the pattern. -/
def element (byte : UInt8) (pattern : List UInt8) : Option ((UInt8 → Bool) × List UInt8) :=
  if byte = question then some (fun _ => true, pattern)
  else if byte = backslash then pattern.head?.map fun escaped => ((· == escaped), pattern.tail)
  else if byte = bracket then
    match brackets pattern with
    | some (count, among) => some (among, pattern.drop count)
    | none => some ((· == byte), pattern)
  else some ((· == byte), pattern)

/-- A string matches a pattern, in as many steps as the pattern has characters. -/
def matchWith : ℕ → List UInt8 → List UInt8 → Bool
  | _, [], text => text.isEmpty
  | 0, _ :: _, _ => false
  | fuel + 1, byte :: pattern, text =>
      if byte = star then text.tails.any (matchWith fuel pattern)
      else
        match element brackets byte pattern, text.head? with
        | some (among, rest), some head => among head && matchWith fuel rest text.tail
        | _, _ => false

/-- `fnmatch` without flags, on the characters of two strings. -/
def fnmatch (pattern text : List UInt8) : Bool := matchWith brackets pattern.length pattern text

/-- A character that stands for itself. -/
def Ordinary (byte : UInt8) : Prop :=
  byte ≠ star ∧ byte ≠ question ∧ byte ≠ bracket ∧ byte ≠ backslash

instance (byte : UInt8) : Decidable (Ordinary byte) := inferInstanceAs (Decidable (_ ∧ _))

variable {brackets}

/-- A pattern of ordinary characters matches itself only. -/
theorem matchWith_ordinary {pattern : List UInt8} (ordinary : ∀ byte ∈ pattern, Ordinary byte)
    {fuel : ℕ} (enough : pattern.length ≤ fuel) (text : List UInt8) :
    matchWith brackets fuel pattern text = true ↔ text = pattern := by
  induction pattern generalizing fuel text with
  | nil => rw [matchWith, List.isEmpty_iff]
  | cons byte pattern ih =>
      obtain ⟨noStar, noQuestion, noBracket, noBackslash⟩ := ordinary byte List.mem_cons_self
      cases fuel with
      | zero => exact absurd enough (by simp)
      | succ fuel =>
          have rest := ih (fun other member => ordinary other (List.mem_cons_of_mem _ member))
            (Nat.le_of_succ_le_succ enough)
          rw [matchWith, if_neg noStar, element, if_neg noQuestion, if_neg noBackslash,
            if_neg noBracket]
          cases text with
          | nil => exact iff_of_false Bool.false_ne_true (fun same => nomatch same)
          | cons head text =>
              rw [List.head?_cons, List.tail_cons, List.cons.injEq, ← rest text,
                Bool.and_eq_true, beq_iff_eq]

theorem fnmatch_ordinary {pattern : List UInt8} (ordinary : ∀ byte ∈ pattern, Ordinary byte)
    (text : List UInt8) : fnmatch brackets pattern text = true ↔ text = pattern :=
  matchWith_ordinary ordinary (Nat.le_refl _) text

/-- A star before ordinary characters matches every string that ends with them. -/
theorem fnmatch_star {pattern : List UInt8} (ordinary : ∀ byte ∈ pattern, Ordinary byte)
    (text : List UInt8) : fnmatch brackets (star :: pattern) text = true ↔ pattern <:+ text := by
  rw [fnmatch, List.length_cons, matchWith, if_pos rfl, List.any_eq_true]
  constructor
  · rintro ⟨rest, tail, same⟩
    rw [(matchWith_ordinary ordinary (Nat.le_refl _) rest).mp same] at tail
    exact (List.mem_tails _ _).mp tail
  · intro ends
    exact ⟨pattern, (List.mem_tails _ _).mpr ends,
      (matchWith_ordinary ordinary (Nat.le_refl _) pattern).mpr rfl⟩

end Join.Library.ShellPattern
