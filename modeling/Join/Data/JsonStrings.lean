import Join.Data.JsonReader
import Join.Library.Byte
import Join.Library.JsonText

/-!
# Literals and strings

What the reader does in front of a literal and in front of a string. A string is
read as the grammar decodes it: the runs of plain bytes that a round of the loop
takes at once are taken byte by byte here, and a surrogate stands only in a pair.

For every input the reader either finds such a text at its front or refuses it.
-/

set_option autoImplicit false
set_option maxRecDepth 1024

namespace Join.JsonReader

open Library Library.Json

/-! ## Literals -/

theorem expect_advances (bytes rest : Bytes) :
    Advances (bytes ++ rest) rest (expect bytes) () := by
  induction bytes with
  | nil => exact Advances.pure rest ()
  | cons byte bytes ih => exact (Advances.get _).bind (.ifPos rfl ih)

theorem expect_cases (bytes input : Bytes) :
    (∃ rest, input = bytes ++ rest) ∨ Refuses input (expect bytes) (.sax .invalidValue) := by
  induction bytes generalizing input with
  | nil => exact .inl ⟨input, rfl⟩
  | cons byte bytes ih =>
      by_cases same : input.head? = some byte
      · obtain ⟨tail, rfl⟩ := List.head?_eq_some_iff.mp same
        rcases ih tail with ⟨rest, rfl⟩ | refuses
        · exact .inl ⟨rest, rfl⟩
        · exact .inr ((Advances.get _).refuses (.ifPos same refuses))
      · exact .inr ((Advances.get _).refuses (.ifNeg same (Refuses.fail _ _)))

theorem getIfNoCase_true {byte expected : UInt8} (same : byte ||| 32 = expected ||| 32)
    (rest : Bytes) : Advances (byte :: rest) rest (Reader.getIfNoCase expected) true := by
  intro handler
  simp only [Reader.getIfNoCase, Reader.doc, Program.act_apply, View.getIfNoCase,
    PlainView.getIfNoCase, if_pos same]

theorem getIfNoCase_false {input : Bytes} {expected : UInt8}
    (other : ∀ byte, input.head? = some byte → byte ||| 32 ≠ expected ||| 32) :
    Advances input input (Reader.getIfNoCase expected) false := by
  intro handler
  simp only [Reader.getIfNoCase, Reader.doc, Program.act_apply, View.getIfNoCase,
    PlainView.getIfNoCase]
  cases input with
  | nil => rfl
  | cons byte rest => simp only [if_neg (other byte rfl)]

/-- Two words that differ only in the case of their letters. -/
def SameLetters (name word : Bytes) : Prop := name.map (· ||| 32) = word.map (· ||| 32)

instance (name word : Bytes) : Decidable (SameLetters name word) :=
  inferInstanceAs (Decidable (_ = _))

theorem expectNoCase_advances {name word : Bytes} (same : SameLetters name word) (rest : Bytes) :
    Advances (name ++ rest) rest (expectNoCase word) true := by
  induction word generalizing name with
  | nil =>
      obtain rfl : name = [] := List.map_eq_nil_iff.mp same
      exact Advances.pure rest true
  | cons byte word ih =>
      cases name with
      | nil => cases same
      | cons letter name =>
          obtain ⟨first, others⟩ := List.cons.inj same
          exact (getIfNoCase_true first _).bind (.ifPos rfl (ih others))

theorem expectNoCase_cases (word input : Bytes) :
    (∃ name rest, input = name ++ rest ∧ SameLetters name word) ∨
      ∃ middle, Advances input middle (expectNoCase word) false := by
  induction word generalizing input with
  | nil => exact .inl ⟨[], input, rfl, rfl⟩
  | cons byte word ih =>
      by_cases matched : ∃ letter, input.head? = some letter ∧ letter ||| 32 = byte ||| 32
      · obtain ⟨letter, found, same⟩ := matched
        obtain ⟨tail, rfl⟩ := List.head?_eq_some_iff.mp found
        rcases ih tail with ⟨name, rest, rfl, others⟩ | ⟨middle, advances⟩
        · exact .inl ⟨letter :: name, rest, rfl, congrArg₂ List.cons same others⟩
        · exact .inr ⟨middle, (getIfNoCase_true same tail).bind (.ifPos rfl advances)⟩
      · have other : ∀ letter, input.head? = some letter → letter ||| 32 ≠ byte ||| 32 :=
          fun letter found same => matched ⟨letter, found, same⟩
        exact .inr ⟨input, (getIfNoCase_false other).bind
          (.ifNeg Bool.false_ne_true (Advances.pure input false))⟩

/-! ### Words for numbers -/

/-- The number a word stands for. -/
def wordValue (name : Bytes) : Option Double :=
  if SameLetters name [0x6E, 0x61, 0x6E] then some .quietNaN
  else if SameLetters name [0x69, 0x6E, 0x66] then some .infinity
  else if SameLetters name [0x69, 0x6E, 0x66, 0x69, 0x6E, 0x69, 0x74, 0x79] then some .infinity
  else none

/-- The event a word is delivered by. -/
def wordEvents (negative : Bool) (name : Bytes) : Program StreamReader Failure Unit :=
  match wordValue name with
  | some value => StreamReader.setValue (signed negative value)
  | none => Program.fail (.sax .invalidValue)

theorem wordValue_congr {name word : Bytes} (same : SameLetters name word) :
    wordValue name = wordValue word := by
  have letters (target : Bytes) : SameLetters name target ↔ SameLetters word target := by
    simp only [SameLetters, show name.map (· ||| 32) = word.map (· ||| 32) from same]
  simp only [wordValue, letters]

theorem wordEvents_congr {name word : Bytes} (same : SameLetters name word) (negative : Bool) :
    wordEvents negative name = wordEvents negative word := by
  simp only [wordEvents, wordValue_congr same]

/-- The three words. -/
theorem wordValue_cases {name : Bytes} (isWord : (wordValue name).isSome = true) :
    SameLetters name [0x6E, 0x61, 0x6E] ∨ SameLetters name [0x69, 0x6E, 0x66] ∨
      SameLetters name [0x69, 0x6E, 0x66, 0x69, 0x6E, 0x69, 0x74, 0x79] := by
  by_contra none
  simp only [not_or] at none
  simp only [wordValue, if_neg none.1, if_neg none.2.1, if_neg none.2.2, Option.isSome_none,
    Bool.false_eq_true] at isWord

theorem SameLetters.cons {name word : Bytes} {byte : UInt8}
    (same : SameLetters name (byte :: word)) :
    ∃ letter tail, name = letter :: tail ∧ letter ||| 32 = byte ||| 32 ∧ SameLetters tail word := by
  cases name with
  | nil => cases same
  | cons letter tail =>
      obtain ⟨first, others⟩ := List.cons.inj same
      exact ⟨letter, tail, rfl, first, others⟩

theorem SameLetters.append {name front back : Bytes} (same : SameLetters name (front ++ back)) :
    ∃ first second, name = first ++ second ∧ SameLetters first front ∧ SameLetters second back := by
  rw [SameLetters, List.map_append] at same
  obtain ⟨first, second, split, sameFirst, sameSecond⟩ := List.map_eq_append_iff.mp same
  exact ⟨first, second, split, sameFirst, sameSecond⟩

theorem readNan_follows (negative : Bool) {name : Bytes} (same : SameLetters name [0x61, 0x6E])
    (rest : Bytes) :
    Follows (name ++ rest) rest (readNan negative)
      (StreamReader.setValue (signed negative .quietNaN)) :=
  (expectNoCase_advances same rest).follows (.ifPos rfl (Follows.event rest _))

theorem readInf_short (negative : Bool) {name : Bytes} (same : SameLetters name [0x6E, 0x66])
    {rest : Bytes} (ends : ∀ byte, rest.head? = some byte → byte ||| 32 ≠ 0x69 ||| 32) :
    Follows (name ++ rest) rest (readInf negative)
      (StreamReader.setValue (signed negative .infinity)) :=
  (expectNoCase_advances same rest).follows (.ifPos rfl
    ((getIfNoCase_false ends).follows (.ifNeg Bool.false_ne_true (Follows.event rest _))))

theorem readInf_long (negative : Bool) {short long : Bytes} {letter : UInt8}
    (same : SameLetters short [0x6E, 0x66]) (again : letter ||| 32 = 0x69 ||| 32)
    (sameLong : SameLetters long [0x6E, 0x69, 0x74, 0x79]) (rest : Bytes) :
    Follows (short ++ letter :: (long ++ rest)) rest (readInf negative)
      (StreamReader.setValue (signed negative .infinity)) :=
  (expectNoCase_advances same _).follows (.ifPos rfl
    ((getIfNoCase_true again _).follows (.ifPos rfl
      ((expectNoCase_advances sameLong rest).follows (.ifPos rfl (Follows.event rest _))))))

/-- In front of a word the reader delivers what the word stands for. -/
theorem readWord_follows (negative : Bool) {name : Bytes} (isWord : (wordValue name).isSome = true)
    {rest : Bytes} (ends : ∀ byte, rest.head? = some byte → byte ||| 32 ≠ 0x69 ||| 32) :
    Follows (name ++ rest) rest (readWord negative) (wordEvents negative name) := by
  rcases wordValue_cases isWord with nan | short | long
  · rw [wordEvents_congr nan]
    obtain ⟨letter, tail, rfl, first, others⟩ := nan.cons
    have notInf : ∀ byte, (letter :: tail ++ rest).head? = some byte → byte ||| 32 ≠ 0x69 ||| 32 := by
      rintro byte ⟨⟩
      rw [first]
      decide
    exact (getIfNoCase_false notInf).follows (.ifNeg Bool.false_ne_true
      ((getIfNoCase_true first _).follows (.ifPos rfl (readNan_follows negative others rest))))
  · rw [wordEvents_congr short]
    obtain ⟨letter, tail, rfl, first, others⟩ := short.cons
    exact (getIfNoCase_true first _).follows (.ifPos rfl (readInf_short negative others ends))
  · rw [wordEvents_congr long]
    obtain ⟨letter, tail, rfl, first, others⟩ := long.cons
    have parts : SameLetters tail ([0x6E, 0x66] ++ [0x69, 0x6E, 0x69, 0x74, 0x79]) := others
    obtain ⟨front, back, rfl, sameFront, sameBack⟩ := parts.append
    obtain ⟨again, tail, rfl, sameAgain, sameTail⟩ := sameBack.cons
    rw [List.cons_append, List.append_assoc, List.cons_append]
    exact (getIfNoCase_true first _).follows (.ifPos rfl
      (readInf_long negative sameFront sameAgain sameTail rest))

/-- `readInf` after its first letter. -/
theorem readInf_cases (negative : Bool) (input : Bytes) :
    (∃ name rest, input = name ++ rest ∧
      (SameLetters name [0x6E, 0x66] ∨ SameLetters name [0x6E, 0x66, 0x69, 0x6E, 0x69, 0x74, 0x79]) ∧
      Follows input rest (readInf negative) (StreamReader.setValue (signed negative .infinity))) ∨
    Refuses input (readInf negative) (.sax .invalidValue) := by
  rcases expectNoCase_cases [0x6E, 0x66] input with ⟨front, tail, rfl, sameFront⟩ | ⟨middle, no⟩
  · by_cases more : ∃ letter, tail.head? = some letter ∧ letter ||| 32 = 0x69 ||| 32
    · obtain ⟨letter, found, again⟩ := more
      obtain ⟨tail, rfl⟩ := List.head?_eq_some_iff.mp found
      rcases expectNoCase_cases [0x6E, 0x69, 0x74, 0x79] tail with
        ⟨back, rest, rfl, sameBack⟩ | ⟨middle, no⟩
      · refine .inl ⟨front ++ letter :: back, rest, by simp, .inr ?_,
          readInf_long negative sameFront again sameBack rest⟩
        rw [SameLetters, List.map_append, List.map_cons, again,
          show front.map (· ||| 32) = _ from sameFront, show back.map (· ||| 32) = _ from sameBack]
        rfl
      · exact .inr ((expectNoCase_advances sameFront _).refuses (.ifPos rfl
          ((getIfNoCase_true again _).refuses (.ifPos rfl
            (no.refuses (.ifNeg Bool.false_ne_true (Refuses.fail _ _)))))))
    · have ends : ∀ byte, tail.head? = some byte → byte ||| 32 ≠ 0x69 ||| 32 :=
        fun byte found same => more ⟨byte, found, same⟩
      exact .inl ⟨front, tail, rfl, .inl sameFront, readInf_short negative sameFront ends⟩
  · exact .inr (no.refuses (.ifNeg Bool.false_ne_true (Refuses.fail _ _)))

/-- The reader finds a word or refuses the input. -/
theorem readWord_cases (negative : Bool) (input : Bytes) :
    (∃ name rest, input = name ++ rest ∧ (wordValue name).isSome = true ∧
      Follows input rest (readWord negative) (wordEvents negative name)) ∨
    Refuses input (readWord negative) (.sax .invalidValue) := by
  by_cases inf : ∃ letter, input.head? = some letter ∧ letter ||| 32 = 0x69 ||| 32
  · obtain ⟨letter, found, first⟩ := inf
    obtain ⟨tail, rfl⟩ := List.head?_eq_some_iff.mp found
    rcases readInf_cases negative tail with ⟨name, rest, rfl, same, follows⟩ | refuses
    · refine .inl ⟨letter :: name, rest, rfl, ?_⟩
      rcases same with short | long
      · have whole : SameLetters (letter :: name) [0x69, 0x6E, 0x66] :=
          congrArg₂ List.cons first short
        rw [wordValue_congr whole, wordEvents_congr whole]
        exact ⟨rfl, (getIfNoCase_true first _).follows (.ifPos rfl follows)⟩
      · have whole : SameLetters (letter :: name)
            [0x69, 0x6E, 0x66, 0x69, 0x6E, 0x69, 0x74, 0x79] := congrArg₂ List.cons first long
        rw [wordValue_congr whole, wordEvents_congr whole]
        exact ⟨rfl, (getIfNoCase_true first _).follows (.ifPos rfl follows)⟩
    · exact .inr ((getIfNoCase_true first _).refuses (.ifPos rfl refuses))
  · have notInf : Advances input input (Reader.getIfNoCase 0x69) false :=
      getIfNoCase_false fun letter found same => inf ⟨letter, found, same⟩
    by_cases nan : ∃ letter, input.head? = some letter ∧ letter ||| 32 = 0x6E ||| 32
    · obtain ⟨letter, found, first⟩ := nan
      obtain ⟨tail, rfl⟩ := List.head?_eq_some_iff.mp found
      rcases expectNoCase_cases [0x61, 0x6E] tail with ⟨name, rest, rfl, same⟩ | ⟨middle, no⟩
      · have whole : SameLetters (letter :: name) [0x6E, 0x61, 0x6E] :=
          congrArg₂ List.cons first same
        refine .inl ⟨letter :: name, rest, rfl, ?_⟩
        rw [wordValue_congr whole, wordEvents_congr whole]
        exact ⟨rfl, notInf.follows (.ifNeg Bool.false_ne_true
          ((getIfNoCase_true first _).follows (.ifPos rfl (readNan_follows negative same rest))))⟩
      · exact .inr (notInf.refuses (.ifNeg Bool.false_ne_true
          ((getIfNoCase_true first _).refuses (.ifPos rfl
            (no.refuses (.ifNeg Bool.false_ne_true (Refuses.fail _ _)))))))
    · have notNan : Advances input input (Reader.getIfNoCase 0x6E) false :=
        getIfNoCase_false fun letter found same => nan ⟨letter, found, same⟩
      exact .inr (notInf.refuses (.ifNeg Bool.false_ne_true
        (notNan.refuses (.ifNeg Bool.false_ne_true (Refuses.fail _ _)))))

/-! ## Escapes -/

theorem hexValue_eq : ∀ byte : UInt8, hexValue byte = hexDigit? byte := by decide

theorem simpleEscape_eq : ∀ letter : UInt8, simpleEscape letter = escape? letter := by
  decide

/-- Four hexadecimal digits. -/
def HexQuad (first second third fourth : UInt8) : Prop :=
  (Piece.unicode first second third fourth).Valid

theorem hexDigits_step {first : UInt8} {digit : ℕ} (isHex : hexDigit? first = some digit)
    {rest output : Bytes} {count u value : ℕ}
    (next : Advances rest output (hexDigits count (u * 16 + digit)) value) :
    Advances (first :: rest) output (hexDigits (count + 1) u) value := by
  refine (Advances.get _).bind ?_
  simp only [List.head?_cons, Character.toByte, Option.getD_some, hexValue_eq, isHex]
  exact next

theorem hexDigits_refuse {input : Bytes} (other : hexDigit? (Character.toByte input.head?) = none)
    (count u : ℕ) : Refuses input (hexDigits (count + 1) u) (.json .invalidEncoding) := by
  refine (Advances.get _).refuses ?_
  simp only [hexValue_eq, other]
  exact Refuses.fail _ _

theorem readHex_advances {first second third fourth : UInt8}
    (quad : HexQuad first second third fourth) (rest : Bytes) :
    Advances (first :: second :: third :: fourth :: rest) rest readHex
      (codeUnit first second third fourth) := by
  obtain ⟨hex₁, hex₂, hex₃, hex₄⟩ := quad
  obtain ⟨digit₁, hex₁⟩ := Option.isSome_iff_exists.mp hex₁
  obtain ⟨digit₂, hex₂⟩ := Option.isSome_iff_exists.mp hex₂
  obtain ⟨digit₃, hex₃⟩ := Option.isSome_iff_exists.mp hex₃
  obtain ⟨digit₄, hex₄⟩ := Option.isSome_iff_exists.mp hex₄
  have value : codeUnit first second third fourth =
      (((0 * 16 + digit₁) * 16 + digit₂) * 16 + digit₃) * 16 + digit₄ := by
    simp only [codeUnit, hex₁, hex₂, hex₃, hex₄, Option.getD_some, zero_mul, zero_add]
  rw [value]
  exact hexDigits_step hex₁ (hexDigits_step hex₂ (hexDigits_step hex₃ (hexDigits_step hex₄
    (Advances.pure rest _))))

theorem hexDigits_cases (count : ℕ) (input : Bytes) (u : ℕ) :
    (∃ digits rest, input = digits ++ rest ∧ digits.length = count ∧
      ∀ digit ∈ digits, (hexDigit? digit).isSome = true) ∨
    Refuses input (hexDigits count u) (.json .invalidEncoding) := by
  induction count generalizing input u with
  | zero => exact .inl ⟨[], input, rfl, rfl, fun _ absurd => by cases absurd⟩
  | succ count ih =>
      cases hex : hexDigit? (Character.toByte input.head?) with
      | none => exact .inr (hexDigits_refuse hex count u)
      | some digit =>
          cases input with
          | nil => cases hex
          | cons first tail =>
              have isHex : hexDigit? first = some digit := hex
              rcases ih tail (u * 16 + digit) with ⟨digits, rest, rfl, length, all⟩ | refuses
              · refine .inl ⟨first :: digits, rest, rfl, congrArg Nat.succ length, ?_⟩
                exact List.forall_mem_cons.mpr ⟨by rw [isHex]; rfl, all⟩
              · refine .inr ((Advances.get _).refuses ?_)
                simp only [List.head?_cons, Character.toByte, Option.getD_some, hexValue_eq, isHex]
                exact refuses

theorem readHex_cases (input : Bytes) :
    (∃ first second third fourth rest, input = first :: second :: third :: fourth :: rest ∧
      HexQuad first second third fourth) ∨
    Refuses input readHex (.json .invalidEncoding) := by
  rcases hexDigits_cases 4 input 0 with ⟨digits, rest, rfl, length, all⟩ | refuses
  · obtain ⟨first, second, third, fourth, rfl⟩ : ∃ first second third fourth,
        digits = [first, second, third, fourth] := by
      match digits, length with
      | [first, second, third, fourth], _ => exact ⟨first, second, third, fourth, rfl⟩
    refine .inl ⟨first, second, third, fourth, rest, rfl, ?_⟩
    exact ⟨all _ (by simp), all _ (by simp), all _ (by simp), all _ (by simp)⟩
  · exact .inr refuses

/-! ### UTF-8 -/

theorem codeUnit_lt {first second third fourth : UInt8} :
    codeUnit first second third fourth < 0x10000 := by
  have bound : ∀ byte : UInt8, (hexDigit? byte).getD 0 < 16 := by decide
  have bound₁ := bound first
  have bound₂ := bound second
  have bound₃ := bound third
  have bound₄ := bound fourth
  simp only [codeUnit]
  omega

theorem mul_or_eq_add {high low : ℕ} (small : low < 2 ^ 10) :
    high * 2 ^ 10 ||| low = high * 0x400 + low := by
  have disjoint := Nat.two_pow_add_eq_or_of_lt small high
  rw [Nat.mul_comm high (2 ^ 10), ← disjoint, Nat.mul_comm]

theorem surrogatePair_eq {high low : ℕ} (isLow : IsLowSurrogate low) :
    surrogatePair high low = pairValue high low := by
  have small : low - 0xDC00 < 2 ^ 10 := by
    have := isLow.2
    omega
  unfold surrogatePair pairValue
  rw [mul_or_eq_add small]
  exact (Nat.add_assoc _ _ _).symm

theorem pairValue_valid {high low : ℕ} (isHigh : IsHighSurrogate high)
    (isLow : IsLowSurrogate low) : (pairValue high low).isValidChar := by
  obtain ⟨_, highest⟩ := isHigh
  obtain ⟨_, lowest⟩ := isLow
  unfold pairValue Nat.isValidChar
  right
  constructor
  · omega
  · omega

theorem toNat_charOfNat {codepoint : ℕ} (scalar : codepoint.isValidChar) :
    (Char.ofNat codepoint).val.toNat = codepoint := by
  rw [Char.ofNat, dif_pos scalar]
  rfl

/-- The markers of UTF-8 do not overlap the bits they are set over. -/
theorem marker_or {bits : ℕ} :
    (bits < 2 ^ 6 → 0x80 ||| bits = bits + 0x80) ∧ (bits < 2 ^ 6 → 0xC0 ||| bits = bits + 0xC0) ∧
      (bits < 2 ^ 5 → 0xE0 ||| bits = bits + 0xE0) ∧
      (bits < 2 ^ 4 → 0xF0 ||| bits = bits + 0xF0) := by
  refine ⟨fun small => ?_, fun small => ?_, fun small => ?_, fun small => ?_⟩
  · exact (Nat.two_pow_add_eq_or_of_lt small 2).symm.trans (Nat.add_comm _ _)
  · exact (Nat.two_pow_add_eq_or_of_lt small 3).symm.trans (Nat.add_comm _ _)
  · exact (Nat.two_pow_add_eq_or_of_lt small 7).symm.trans (Nat.add_comm _ _)
  · exact (Nat.two_pow_add_eq_or_of_lt small 15).symm.trans (Nat.add_comm _ _)

theorem encodeUtf8_eq {codepoint : ℕ} (scalar : codepoint.isValidChar) :
    encodeUtf8 codepoint = utf8 codepoint := by
  have bound : codepoint < 0x110000 := by
    rcases scalar with low | high
    · omega
    · exact high.2
  have low {shift : ℕ} : codepoint / shift % 2 ^ 6 < 2 ^ 6 := Nat.mod_lt _ (by norm_num)
  have lowest : codepoint % 2 ^ 6 < 2 ^ 6 := Nat.mod_lt _ (by norm_num)
  simp only [encodeUtf8, utf8, String.utf8EncodeChar, toNat_charOfNat scalar]
  by_cases one : codepoint < 0x80
  · rw [if_pos one, if_pos (show codepoint ≤ 0x7F by omega)]
  · rw [if_neg one, if_neg (show ¬ codepoint ≤ 0x7F by omega)]
    by_cases two : codepoint < 0x800
    · rw [if_pos two, if_pos (show codepoint ≤ 0x7FF by omega), marker_or.2.1 (by omega),
        marker_or.1 lowest, show codepoint / 2 ^ 6 = codepoint / 64 % 32 by omega]
      rfl
    · rw [if_neg two, if_neg (show ¬ codepoint ≤ 0x7FF by omega)]
      by_cases three : codepoint < 0x10000
      · rw [if_pos three, if_pos (show codepoint ≤ 0xFFFF by omega), marker_or.2.2.1 (by omega),
          marker_or.1 low, marker_or.1 lowest, show codepoint / 2 ^ 12 = codepoint / 4096 % 16 by omega]
        rfl
      · rw [if_neg three, if_neg (show ¬ codepoint ≤ 0xFFFF by omega), marker_or.2.2.2 (by omega),
          marker_or.1 low, marker_or.1 low, marker_or.1 lowest, show codepoint / 2 ^ 18 = codepoint / 262144 % 8 by omega]
        rfl

theorem appendCodepoint_advances {codepoint : ℕ} (scalar : codepoint.isValidChar) (input : Bytes) :
    Advances input input (appendCodepoint codepoint) (utf8 codepoint) := by
  have bound : ¬ codepoint > 0x10FFFF := by
    rcases scalar with low | high
    · omega
    · have := high.2
      omega
  rw [← encodeUtf8_eq scalar]
  exact .ifNeg bound (Advances.pure input _)

/-! ### One escape -/

/-- A code unit that is no surrogate. -/
theorem readUnicode_single {first second third fourth : UInt8}
    (quad : HexQuad first second third fourth)
    (notLow : ¬ IsLowSurrogate (codeUnit first second third fourth))
    (notHigh : ¬ IsHighSurrogate (codeUnit first second third fourth)) (rest : Bytes) :
    Advances (first :: second :: third :: fourth :: rest) rest readUnicode
      (utf8 (codeUnit first second third fourth)) := by
  have scalar : (codeUnit first second third fourth).isValidChar := by
    have bound := @codeUnit_lt first second third fourth
    simp only [IsLowSurrogate, IsHighSurrogate, Nat.isValidChar] at *
    omega
  exact (readHex_advances quad rest).bind (.ifNeg notLow (.ifNeg notHigh
    (appendCodepoint_advances scalar rest)))

/-- A pair of surrogates. -/
theorem readUnicode_pair {first second third fourth first' second' third' fourth' : UInt8}
    (quad : HexQuad first second third fourth)
    (isHigh : IsHighSurrogate (codeUnit first second third fourth))
    (quad' : HexQuad first' second' third' fourth')
    (isLow : IsLowSurrogate (codeUnit first' second' third' fourth')) (rest : Bytes) :
    Advances
      (first :: second :: third :: fourth :: 0x5C :: 0x75 ::
        first' :: second' :: third' :: fourth' :: rest) rest readUnicode
      (utf8 (pairValue (codeUnit first second third fourth)
        (codeUnit first' second' third' fourth'))) := by
  have notLow : ¬ (0xDC00 ≤ codeUnit first second third fourth ∧
      codeUnit first second third fourth ≤ 0xDFFF) := by
    have := isHigh.2
    omega
  have paired : ¬ (codeUnit first' second' third' fourth' < 0xDC00 ∨
      codeUnit first' second' third' fourth' > 0xDFFF) := by
    have := isLow.1
    have := isLow.2
    omega
  refine (readHex_advances quad _).bind (.ifNeg notLow (.ifPos isHigh ?_))
  refine (Advances.get _).bind (.ifNeg (not_not.mpr rfl) ?_)
  refine (Advances.get _).bind (.ifNeg (not_not.mpr rfl) ?_)
  refine (readHex_advances quad' rest).bind (.ifNeg paired ?_)
  rw [surrogatePair_eq isLow]
  exact appendCodepoint_advances (pairValue_valid isHigh isLow) rest

theorem readUnicode_low {first second third fourth : UInt8}
    (quad : HexQuad first second third fourth)
    (isLow : IsLowSurrogate (codeUnit first second third fourth)) (rest : Bytes) :
    Refuses (first :: second :: third :: fourth :: rest) readUnicode (.json .invalidEncoding) :=
  (readHex_advances quad rest).refuses (.ifPos isLow (Refuses.fail _ _))

/-- What stands behind a high surrogate is the escape of a low one. -/
def FollowsHigh (input : Bytes) : Prop :=
  ∃ first second third fourth rest,
    input = 0x5C :: 0x75 :: first :: second :: third :: fourth :: rest ∧
      HexQuad first second third fourth ∧ IsLowSurrogate (codeUnit first second third fourth)

theorem readUnicode_unpaired {first second third fourth : UInt8}
    (quad : HexQuad first second third fourth)
    (isHigh : IsHighSurrogate (codeUnit first second third fourth)) {rest : Bytes}
    (unpaired : ¬ FollowsHigh rest) :
    Refuses (first :: second :: third :: fourth :: rest) readUnicode (.json .invalidEncoding) := by
  have notLow : ¬ (0xDC00 ≤ codeUnit first second third fourth ∧
      codeUnit first second third fourth ≤ 0xDFFF) := by
    have := isHigh.2
    omega
  refine (readHex_advances quad _).refuses (.ifNeg notLow (.ifPos isHigh ?_))
  refine (Advances.get _).refuses ?_
  by_cases backslash : rest.head? = some 0x5C
  · refine .ifNeg (not_not.mpr backslash) ((Advances.get _).refuses ?_)
    obtain ⟨tail, rfl⟩ := List.head?_eq_some_iff.mp backslash
    by_cases letter : tail.head? = some 0x75
    · refine .ifNeg (not_not.mpr letter) ?_
      obtain ⟨tail, rfl⟩ := List.head?_eq_some_iff.mp letter
      rcases readHex_cases tail with ⟨first', second', third', fourth', after, rfl, quad'⟩ | refuses
      · refine (readHex_advances quad' after).refuses (.ifPos ?_ (Refuses.fail _ _))
        by_contra low
        have isLow : IsLowSurrogate (codeUnit first' second' third' fourth') := by
          simp only [IsLowSurrogate]
          omega
        exact unpaired ⟨first', second', third', fourth', after, rfl, quad', isLow⟩
      · exact refuses.bind _
    · exact .ifPos letter (Refuses.fail _ _)
  · exact .ifPos backslash (Refuses.fail _ _)

theorem readEscaped_simple {letter byte : UInt8} (simple : escape? letter = some byte)
    (rest : Bytes) : Advances (letter :: rest) rest readEscaped [byte] := by
  refine (Advances.get _).bind ?_
  simp only [List.head?_cons, simpleEscape_eq, simple]
  exact Advances.pure rest _

theorem readEscaped_unicode {input output : Bytes} {bytes : Bytes}
    (unicode : Advances input output readUnicode bytes) :
    Advances (0x75 :: input) output readEscaped bytes := by
  refine (Advances.get _).bind ?_
  simp only [List.head?_cons, show simpleEscape 0x75 = none from rfl, if_true]
  exact unicode

theorem readEscaped_refuses {input : Bytes} {failure : Failure}
    (unicode : Refuses input readUnicode failure) :
    Refuses (0x75 :: input) readEscaped failure := by
  refine (Advances.get _).refuses ?_
  simp only [List.head?_cons, show simpleEscape 0x75 = none from rfl, if_true]
  exact unicode

/-! ## Strings -/

/-- A plain byte at the front joins the run that the next round takes. -/
theorem stringLoop_plain {byte : UInt8} (plain : escapedLookup byte = false) (rest : Bytes)
    (fuel : ℕ) (output : Bytes) (handler : StreamReader) :
    stringLoop fuel output ⟨⟨byte :: rest⟩, handler⟩ =
      stringLoop fuel (output ++ [byte]) (⟨⟨rest⟩, handler⟩ : Reading PlainView) := by
  cases fuel with
  | zero => rfl
  | succ fuel =>
      have run : Advances (byte :: rest) (rest.dropWhile fun byte => !escapedLookup byte)
          (Reader.doc View.readUntilEscaped)
          (byte :: rest.takeWhile fun byte => !escapedLookup byte) := by
        intro handler
        simp only [Reader.doc, Program.act_apply, View.readUntilEscaped, List.takeWhile_cons,
          List.dropWhile_cons, plain, Bool.not_false, if_true]
      have run' : Advances rest (rest.dropWhile fun byte => !escapedLookup byte)
          (Reader.doc View.readUntilEscaped)
          (rest.takeWhile fun byte => !escapedLookup byte) := fun _ => rfl
      simp only [stringLoop, Program.bind_apply, run handler, run' handler, List.append_assoc,
        List.singleton_append]

theorem readUntilEscaped_stops {input : Bytes}
    (stops : ∀ byte, input.head? = some byte → escapedLookup byte = true) :
    Advances input input (Reader.doc View.readUntilEscaped) [] := by
  intro handler
  cases input with
  | nil => rfl
  | cons byte rest =>
      simp only [Reader.doc, Program.act_apply, View.readUntilEscaped, List.takeWhile_cons,
        List.dropWhile_cons, stops byte rfl, Bool.not_true, Bool.false_eq_true, if_false]

/-- The end of a string. -/
theorem stringLoop_quote (fuel : ℕ) (output rest : Bytes) :
    Advances (0x22 :: rest) rest (stringLoop (fuel + 1) output) output := by
  have run : Advances (0x22 :: rest) (0x22 :: rest) (Reader.doc View.readUntilEscaped) [] :=
    readUntilEscaped_stops (by rintro byte ⟨⟩; rfl)
  refine run.bind ((Advances.peek _).bind (.ifPos rfl ((Advances.get _).bind ?_)))
  rw [List.append_nil]
  exact Advances.pure rest _

/-- One escape and what follows it. -/
theorem stringLoop_escape {input middle output escaped bytes : Bytes} {fuel : ℕ} {sofar : Bytes}
    (escape : Advances input middle readEscaped escaped)
    (next : Advances middle output (stringLoop fuel (sofar ++ escaped)) bytes) :
    Advances (0x5C :: input) output (stringLoop (fuel + 1) sofar) bytes := by
  have run : Advances (0x5C :: input) (0x5C :: input) (Reader.doc View.readUntilEscaped) [] :=
    readUntilEscaped_stops (by rintro byte ⟨⟩; rfl)
  refine run.bind ((Advances.peek _).bind (.ifNeg (by simp) (.ifPos rfl ?_)))
  refine (Advances.get _).bind (escape.bind ?_)
  rw [List.append_nil]
  exact next

theorem stringLoop_escape_refuses {input middle escaped : Bytes} {fuel : ℕ} {sofar : Bytes}
    {failure : Failure} (escape : Advances input middle readEscaped escaped)
    (next : Refuses middle (stringLoop fuel (sofar ++ escaped)) failure) :
    Refuses (0x5C :: input) (stringLoop (fuel + 1) sofar) failure := by
  have run : Advances (0x5C :: input) (0x5C :: input) (Reader.doc View.readUntilEscaped) [] :=
    readUntilEscaped_stops (by rintro byte ⟨⟩; rfl)
  refine run.refuses ((Advances.peek _).refuses (.ifNeg (by simp) (.ifPos rfl ?_)))
  refine (Advances.get _).refuses (escape.refuses ?_)
  rw [List.append_nil]
  exact next

theorem stringLoop_refuses {input : Bytes} {fuel : ℕ} {sofar : Bytes} {failure : Failure}
    (escape : Refuses input readEscaped failure) :
    Refuses (0x5C :: input) (stringLoop (fuel + 1) sofar) failure := by
  have run : Advances (0x5C :: input) (0x5C :: input) (Reader.doc View.readUntilEscaped) [] :=
    readUntilEscaped_stops (by rintro byte ⟨⟩; rfl)
  refine run.refuses ((Advances.peek _).refuses (.ifNeg (by simp) (.ifPos rfl ?_)))
  exact (Advances.get _).refuses (escape.bind _)

theorem escapedLookup_plain {byte : UInt8} (valid : (Piece.plain byte).Valid) :
    escapedLookup byte = false := by
  revert byte
  decide

/-- The program reads what decodes to `result`, or refuses it. -/
def Decodes (input rest : Bytes) (program : Reader PlainView Bytes) (sofar : Bytes) :
    Option Bytes → Prop
  | some bytes => Advances input rest program (sofar ++ bytes)
  | none => Refuses input program (.json .invalidEncoding)

theorem Decodes.escape {input middle rest escaped sofar : Bytes} {fuel : ℕ}
    {result : Option Bytes} (escape : Advances input middle readEscaped escaped)
    (next : Decodes middle rest (stringLoop fuel (sofar ++ escaped)) (sofar ++ escaped) result) :
    Decodes (0x5C :: input) rest (stringLoop (fuel + 1) sofar) sofar
      (result.map (escaped ++ ·)) := by
  cases result with
  | none => exact stringLoop_escape_refuses escape next
  | some bytes =>
      refine stringLoop_escape escape ?_
      have next : Advances middle rest (stringLoop fuel (sofar ++ escaped))
        (sofar ++ escaped ++ bytes) := next
      rwa [List.append_assoc] at next

theorem Decodes.plain {byte : UInt8} {input rest sofar : Bytes} {fuel : ℕ}
    {result : Option Bytes} (plain : escapedLookup byte = false)
    (next : Decodes input rest (stringLoop fuel (sofar ++ [byte])) (sofar ++ [byte]) result) :
    Decodes (byte :: input) rest (stringLoop fuel sofar) sofar (result.map ([byte] ++ ·)) := by
  cases result with
  | none =>
      intro handler
      rw [stringLoop_plain plain]
      exact next handler
  | some bytes =>
      intro handler
      rw [stringLoop_plain plain, ← List.append_assoc]
      exact next handler

theorem not_followsHigh {pieces : List Piece} (valid : ValidPieces pieces)
    (other : ∀ first second third fourth more,
      pieces = .unicode first second third fourth :: more →
        ¬ IsLowSurrogate (codeUnit first second third fourth)) (rest : Bytes) :
    ¬ FollowsHigh (renderPieces pieces ++ 0x22 :: rest) := by
  rintro ⟨first, second, third, fourth, after, same, _, isLow⟩
  cases pieces with
  | nil => simp at same
  | cons piece more =>
      have validPiece := valid piece List.mem_cons_self
      cases piece with
      | plain byte =>
          simp only [renderPieces_cons, Piece.render, List.cons_append, List.cons.injEq] at same
          exact validPiece.2.2 same.1
      | escape letter =>
          simp only [renderPieces_cons, Piece.render, List.cons_append, List.cons.injEq] at same
          rw [same.2.1] at validPiece
          exact Bool.false_ne_true validPiece
      | unicode first' second' third' fourth' =>
          simp only [renderPieces_cons, Piece.render, List.cons_append, List.cons.injEq] at same
          obtain ⟨-, -, rfl, rfl, rfl, rfl, -⟩ := same
          exact other _ _ _ _ more rfl isLow

/-- The loop decodes a string as the grammar does. -/
theorem stringLoop_decodes (pieces : List Piece) (valid : ValidPieces pieces) (fuel : ℕ)
    (enough : pieces.length < fuel) (sofar rest : Bytes) :
    Decodes (renderPieces pieces ++ 0x22 :: rest) rest (stringLoop fuel sofar) sofar
      (decode pieces) := by
  induction length : pieces.length using Nat.strong_induction_on generalizing pieces fuel sofar with
  | _ count ih =>
  cases pieces with
  | nil =>
      obtain ⟨fuel, rfl⟩ := Nat.exists_eq_add_one.mpr enough
      simp only [decode, Decodes, List.append_nil]
      exact stringLoop_quote fuel sofar rest
  | cons piece more =>
      have validPiece := valid piece List.mem_cons_self
      have validMore : ValidPieces more := fun other member =>
        valid other (List.mem_cons_of_mem _ member)
      obtain ⟨fuel, rfl⟩ := Nat.exists_eq_add_one.mpr (Nat.zero_lt_of_lt enough)
      have enoughMore : more.length < fuel := Nat.lt_of_succ_lt_succ enough
      have shorter : more.length < count := by
        rw [← length]
        exact Nat.lt_succ_self _
      cases piece with
      | plain byte =>
          simp only [decode, renderPieces_cons, Piece.render, List.cons_append]
          refine Decodes.plain (escapedLookup_plain validPiece) ?_
          exact ih more.length shorter more validMore (fuel + 1) (Nat.lt_succ_of_lt enoughMore) _ rfl
      | escape letter =>
          obtain ⟨byte, simple⟩ := Option.isSome_iff_exists.mp validPiece
          simp only [decode, simple, Option.toList_some, renderPieces_cons, Piece.render,
            List.cons_append, List.nil_append]
          refine Decodes.escape (readEscaped_simple simple _) ?_
          exact ih more.length shorter more validMore fuel enoughMore _ rfl
      | unicode first second third fourth =>
          simp only [decode, renderPieces_cons, Piece.render, List.cons_append, List.nil_append]
          by_cases isLow : IsLowSurrogate (codeUnit first second third fourth)
          · rw [if_pos isLow]
            exact stringLoop_refuses (readEscaped_refuses (readUnicode_low validPiece isLow _))
          · rw [if_neg isLow]
            by_cases isHigh : IsHighSurrogate (codeUnit first second third fourth)
            · rw [if_pos isHigh]
              by_cases paired : ∃ first' second' third' fourth' others,
                  more = .unicode first' second' third' fourth' :: others ∧
                    IsLowSurrogate (codeUnit first' second' third' fourth')
              · obtain ⟨first', second', third', fourth', others, rfl, isLow'⟩ := paired
                have quad' := validMore _ List.mem_cons_self
                simp only [decodeLow, if_pos isLow', renderPieces_cons, Piece.render,
                  List.cons_append, List.nil_append]
                refine Decodes.escape (readEscaped_unicode
                  (readUnicode_pair validPiece isHigh quad' isLow' _)) ?_
                rw [List.length_cons] at shorter enoughMore
                exact ih others.length (Nat.lt_of_succ_lt shorter) others
                  (fun other member => validMore other (List.mem_cons_of_mem _ member)) fuel
                  (Nat.lt_of_succ_lt enoughMore) _ rfl
              · have none : decodeLow (codeUnit first second third fourth) more = none := by
                  cases more with
                  | nil => rfl
                  | cons next others =>
                      cases next with
                      | plain byte => rfl
                      | escape letter => rfl
                      | unicode first' second' third' fourth' =>
                          simp only [decodeLow]
                          rw [if_neg]
                          exact fun isLow' => paired ⟨_, _, _, _, _, rfl, isLow'⟩
                rw [none]
                refine stringLoop_refuses (readEscaped_refuses
                  (readUnicode_unpaired validPiece isHigh (not_followsHigh validMore ?_ rest)))
                exact fun first' second' third' fourth' others same isLow' =>
                  paired ⟨first', second', third', fourth', others, same, isLow'⟩
            · rw [if_neg isHigh]
              refine Decodes.escape (readEscaped_unicode
                (readUnicode_single validPiece isLow isHigh _)) ?_
              exact ih more.length shorter more validMore fuel enoughMore _ rfl

/-- Some string stands at the front of the input. -/
def HasString (input : Bytes) : Prop :=
  ∃ pieces rest, ValidPieces pieces ∧ input = renderPieces pieces ++ 0x22 :: rest

theorem HasString.cons {piece : Piece} {input : Bytes} (valid : piece.Valid)
    (has : HasString input) : HasString (piece.render ++ input) := by
  obtain ⟨pieces, rest, validPieces, rfl⟩ := has
  refine ⟨piece :: pieces, rest, ?_, by rw [renderPieces_cons, List.append_assoc]⟩
  exact List.forall_mem_cons.mpr ⟨valid, validPieces⟩

theorem plain_of_escapedLookup : ∀ byte : UInt8, escapedLookup byte = false →
    (Piece.plain byte).Valid := by
  decide

theorem escapedLookup_cases : ∀ byte : UInt8, escapedLookup byte = true →
    byte = 0x22 ∨ byte = 0x5C ∨ (byte ≠ 0x22 ∧ byte ≠ 0x5C ∧ byte < 0x20) := by
  decide

/-- An escape of a code unit, when what follows it has been dealt with. -/
theorem stringLoop_unicode_cases {tail : Bytes} {fuel : ℕ} {sofar : Bytes}
    (next : ∀ rest : Bytes, rest.length ≤ tail.length → ∀ sofar : Bytes,
      HasString rest ∨ ∃ failure, Refuses rest (stringLoop fuel sofar) failure) :
    HasString (0x5C :: 0x75 :: tail) ∨
      ∃ failure, Refuses (0x5C :: 0x75 :: tail) (stringLoop (fuel + 1) sofar) failure := by
  rcases readHex_cases tail with ⟨first, second, third, fourth, rest, rfl, quad⟩ | refuses
  · simp only [List.length_cons] at next
    by_cases isLow : IsLowSurrogate (codeUnit first second third fourth)
    · exact .inr ⟨_, stringLoop_refuses (readEscaped_refuses (readUnicode_low quad isLow rest))⟩
    by_cases isHigh : IsHighSurrogate (codeUnit first second third fourth)
    · by_cases paired : FollowsHigh rest
      · obtain ⟨first', second', third', fourth', after, rfl, quad', isLow'⟩ := paired
        have escape := readEscaped_unicode (readUnicode_pair quad isHigh quad' isLow' after)
        rcases next after (by simp only [List.length_cons]; omega) (sofar ++ _) with
          has | ⟨failure, refuses⟩
        · exact .inl ((has.cons quad').cons quad)
        · exact .inr ⟨failure, stringLoop_escape_refuses escape refuses⟩
      · exact .inr ⟨_, stringLoop_refuses (readEscaped_refuses
          (readUnicode_unpaired quad isHigh paired))⟩
    · have escape := readEscaped_unicode (readUnicode_single quad isLow isHigh rest)
      rcases next rest (by omega) (sofar ++ _) with has | ⟨failure, refuses⟩
      · exact .inl (has.cons quad)
      · exact .inr ⟨failure, stringLoop_escape_refuses escape refuses⟩
  · have unicode : Refuses tail readUnicode (.json .invalidEncoding) := refuses.bind _
    exact .inr ⟨_, stringLoop_refuses (readEscaped_refuses unicode)⟩

/-- The reader finds a string or refuses the input. -/
theorem stringLoop_cases (input : Bytes) (fuel : ℕ) (enough : input.length < fuel)
    (sofar : Bytes) :
    HasString input ∨ ∃ failure, Refuses input (stringLoop fuel sofar) failure := by
  induction length : input.length using Nat.strong_induction_on generalizing input fuel sofar with
  | _ count ih =>
  obtain ⟨fuel, rfl⟩ := Nat.exists_eq_add_one.mpr (Nat.zero_lt_of_lt enough)
  cases input with
  | nil =>
      have run : Advances [] [] (Reader.doc View.readUntilEscaped) [] := fun _ => rfl
      exact .inr ⟨_, run.refuses ((Advances.peek []).refuses
        (.ifNeg (by simp) (.ifNeg (by simp) (Refuses.fail _ _))))⟩
  | cons byte tail =>
      rw [List.length_cons] at enough length
      have next (rest : Bytes) (short : rest.length ≤ tail.length) (fuel' : ℕ)
          (fuelBound : fuel ≤ fuel') (sofar : Bytes) :
          HasString rest ∨ ∃ failure, Refuses rest (stringLoop fuel' sofar) failure :=
        ih rest.length (by omega) rest fuel' (by omega) sofar rfl
      by_cases plain : escapedLookup byte = false
      · rcases next tail le_rfl (fuel + 1) (Nat.le_succ _) (sofar ++ [byte]) with
          has | ⟨failure, refuses⟩
        · exact .inl (has.cons (plain_of_escapedLookup byte plain))
        · refine .inr ⟨failure, fun handler => ?_⟩
          rw [stringLoop_plain plain]
          exact refuses handler
      · rw [Bool.not_eq_false] at plain
        rcases escapedLookup_cases byte plain with rfl | rfl | ⟨notQuote, notEscape, control⟩
        · exact .inl ⟨[], tail, List.forall_mem_nil _, rfl⟩
        · -- an escape: the letter decides
          cases tail with
          | nil =>
              exact .inr ⟨_, stringLoop_refuses ((Advances.get []).refuses (Refuses.fail _ _))⟩
          | cons letter tail =>
              rw [List.length_cons] at next
              cases simple : escape? letter with
              | some decoded =>
                  rcases next tail (Nat.le_succ _) fuel le_rfl (sofar ++ [decoded]) with
                    has | ⟨failure, refuses⟩
                  · have valid : (Piece.escape letter).Valid :=
                      Option.isSome_iff_exists.mpr ⟨decoded, simple⟩
                    exact .inl (has.cons valid)
                  · exact .inr ⟨failure,
                      stringLoop_escape_refuses (readEscaped_simple simple tail) refuses⟩
              | none =>
                  by_cases unicode : letter = 0x75
                  · subst unicode
                    exact stringLoop_unicode_cases fun rest short =>
                      next rest (short.trans (Nat.le_succ _)) fuel le_rfl
                  · refine .inr ⟨.json .invalidEscaping,
                      stringLoop_refuses ((Advances.get _).refuses ?_)⟩
                    simp only [List.head?_cons, simpleEscape_eq, simple]
                    exact .ifNeg unicode (Refuses.fail _ _)
        · have run : Advances (byte :: tail) (byte :: tail) (Reader.doc View.readUntilEscaped) [] :=
            readUntilEscaped_stops (by rintro other ⟨⟩; exact plain)
          exact .inr ⟨_, run.refuses ((Advances.peek _).refuses
            (.ifNeg (by simpa using notQuote) (.ifNeg (by simpa using notEscape)
              (.ifPos control (Refuses.fail _ _)))))⟩

end Join.JsonReader
