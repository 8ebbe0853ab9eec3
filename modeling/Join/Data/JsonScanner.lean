import Join.Data.JsonReader
import Join.Library.Byte
import Join.Library.JsonText
import Mathlib.Data.List.TakeWhile

/-!
# The number scanner

`takeNumber` is the lexer that the loops of `readNumber` unroll: it takes the
longest number off the front of the input. The reader does on every input what
the lexer says, and then delivers what `numberValue` computes from the digits.

The lexer is more liberal than RFC 8259: a fraction may have no digits, and the
test for the sign of an exponent also lets `)` and `/` pass.
-/

set_option autoImplicit false
set_option maxRecDepth 1024

namespace Join.JsonReader

open Library Library.Json

/-! ## What a number is worth -/

/-- One more digit of the integer part. -/
def Scan.push (scan : Scan) (digit : UInt8) : Scan :=
  { scan with u := pushDigit scan.u (some digit), digits := scan.digits + 1 }

/-- One more digit of the fraction. -/
def Scan.pushFraction (scan : Scan) (digit : UInt8) : Scan :=
  let u := pushDigit scan.u (some digit)
  { scan with u := u, digits := if u ≠ 0 ∨ scan.digits ≠ 0 then scan.digits + 1 else scan.digits }

/-- The accumulator after the integer part. -/
def wholeScan (negative : Bool) (whole : Bytes) : Scan :=
  if whole = [0x30] then ⟨0, 0, false⟩
  else ⟨digitsValue 0 whole % 2 ^ 64, whole.length, decide (max64 negative < digitsValue 0 whole)⟩

/-- The accumulator after the fraction. -/
def fractionScan (scan : Scan) : Option Bytes → Scan
  | none => scan
  | some digits => digits.foldl Scan.pushFraction { scan with isDouble := true }

/-- The value of the exponent; it stops growing before it exceeds an `int`. -/
def exponentValue : Option Exponent → ℤ
  | none => 0
  | some ⟨_, sign, digits⟩ =>
      let size := digits.tail.foldl (fun value digit => pushExponent value (some digit))
        (digitValue (digits.headD 0x30) : ℤ)
      if sign = some 0x2D then -size else size

/-- The accumulator after the whole number. -/
def numberScan (number : Number) : Scan :=
  let scan := fractionScan (wholeScan number.negative number.whole) number.fraction
  { scan with isDouble := scan.isDouble || number.exponent.isSome }

/-- The power of ten by which the accumulated digits are scaled. -/
def numberExponent (number : Number) : ℤ :=
  exponentValue number.exponent - (number.fraction.getD []).length

/-- What a number is delivered as; `none` when its conversion is refused. -/
def numberValue (number : Number) : Option Value :=
  let scan := numberScan number
  if scan.isDouble then
    match fastValue number.negative scan.u scan.digits (numberExponent number) with
    | some value => some value
    | none => (strtodSlow number.render).map .real
  else some (integerValue number.negative scan.u)

/-- The event a number is delivered by. -/
def numberEvents (number : Number) : Program StreamReader Failure Unit :=
  match numberValue number with
  | some value => StreamReader.setValue value
  | none => Program.fail (.sax .invalidValue)

/-- The place a lexer stops at and the events it stands for; a refusal stops anywhere. -/
def delivery : Option (Number × Bytes) → Bytes × Program StreamReader Failure Unit
  | some (number, rest) => (rest, numberEvents number)
  | none => ([], Program.fail (.sax .invalidValue))

/-! ## The lexer -/

/-- A point and the digits behind it. -/
def takeFraction : Bytes → Option Bytes × Bytes
  | [] => (none, [])
  | byte :: rest =>
      if byte = 0x2E then (some (rest.takeWhile isDigit), rest.dropWhile isDigit)
      else (none, byte :: rest)

/-- The sign of an exponent. -/
def takeSign : Bytes → Option UInt8 × Bytes
  | [] => (none, [])
  | byte :: rest => if isSign byte then (some byte, rest) else (none, byte :: rest)

/-- An exponent; `none` when its mark has no digits behind it. -/
def takeExponent : Bytes → Option (Option Exponent × Bytes)
  | [] => some (none, [])
  | mark :: rest =>
      if mark = 0x65 ∨ mark = 0x45 then
        let (sign, body) := takeSign rest
        if body.takeWhile isDigit = [] then none
        else some (some ⟨mark, sign, body.takeWhile isDigit⟩, body.dropWhile isDigit)
      else some (none, mark :: rest)

/-- What follows the integer part. -/
def takeTail (negative : Bool) (whole rest : Bytes) : Option (Number × Bytes) :=
  let (fraction, rest) := takeFraction rest
  (takeExponent rest).map fun (exponent, rest) => (⟨negative, whole, fraction, exponent⟩, rest)

/-- A number after its minus sign. -/
def takeDigits (negative : Bool) : Bytes → Option (Number × Bytes)
  | [] => none
  | byte :: rest =>
      if byte = 0x30 then
        if (rest.takeWhile isDigit) = [] then takeTail negative [0x30] rest else none
      else if isDigit byte then
        takeTail negative (byte :: rest.takeWhile isDigit) (rest.dropWhile isDigit)
      else none

/-- The longest number at the front of the input. -/
def takeNumber (input : Bytes) : Option (Number × Bytes) :=
  let (negative, body) := splitMinus input
  takeDigits negative body

/-! ## The reader does what the lexer says -/

/-- The bytes are digits, and what follows them is not one. -/
structure DigitRun (digits rest : Bytes) : Prop where
  digits : ∀ digit ∈ digits, isDigit digit = true
  stops : isDigitCharacter rest.head? = false

theorem isDigitCharacter_head? (input : Bytes) :
    isDigitCharacter input.head? = true ↔ input.takeWhile isDigit ≠ [] := by
  cases input with
  | nil => decide
  | cons byte rest =>
      simp only [List.head?_cons, isDigitCharacter, Character.toByte, Option.getD_some,
        List.takeWhile_cons]
      by_cases digit : isDigit byte = true <;> simp [digit]

/-- The longest run of digits at the front of an input. -/
theorem digitRun_takeWhile (input : Bytes) :
    DigitRun (input.takeWhile isDigit) (input.dropWhile isDigit) := by
  refine ⟨fun digit member => List.mem_takeWhile_imp member, ?_⟩
  rw [← Bool.not_eq_true, isDigitCharacter_head?, not_not, List.takeWhile_eq_nil_iff]
  exact fun nonempty => List.dropWhile_get_zero_not isDigit input nonempty

theorem DigitRun.stopped {digits rest : Bytes} (run : DigitRun digits rest) :
    ¬ isDigitCharacter rest.head? = true := by
  rw [run.stops]
  exact Bool.false_ne_true

theorem DigitRun.tail {digit : UInt8} {digits rest : Bytes} (run : DigitRun (digit :: digits) rest) :
    DigitRun digits rest :=
  ⟨fun other member => run.digits other (List.mem_cons_of_mem _ member), run.stops⟩

theorem DigitRun.head {digit : UInt8} {digits rest : Bytes} (run : DigitRun (digit :: digits) rest) :
    isDigitCharacter (digit :: digits ++ rest).head? = true :=
  run.digits digit List.mem_cons_self

theorem digitValue_lt (byte : UInt8) (digit : isDigit byte = true) : digitValue byte < 10 := by
  simp only [isDigit, decide_eq_true_eq, UInt8.le_iff_toNat_le] at digit
  exact Nat.lt_succ_of_le digit

theorem pushDigit_some (u : ℕ) (digit : UInt8) :
    pushDigit u (some digit) = (u * 10 + digitValue digit) % 2 ^ 64 := rfl

theorem digitsValue_cons (start : ℕ) (digit : UInt8) (digits : Bytes) :
    digitsValue start (digit :: digits) = digitsValue (start * 10 + digitValue digit) digits := rfl

theorem le_digitsValue (start : ℕ) (digits : Bytes) : start ≤ digitsValue start digits := by
  induction digits generalizing start with
  | nil => exact le_rfl
  | cons digit digits ih =>
      rw [digitsValue_cons]
      exact le_trans (by omega) (ih _)

theorem foldl_push (scan : Scan) (digits : Bytes) :
    digits.foldl Scan.push { scan with u := scan.u % 2 ^ 64 } =
      { scan with u := digitsValue scan.u digits % 2 ^ 64, digits := scan.digits + digits.length } := by
  induction digits generalizing scan with
  | nil => rfl
  | cons digit digits ih =>
      have step : Scan.push { scan with u := scan.u % 2 ^ 64 } digit =
          { scan with
            u := (scan.u * 10 + digitValue digit) % 2 ^ 64
            digits := scan.digits + 1 } := by
        simp only [Scan.push, pushDigit_some, Scan.mk.injEq, and_true]
        omega
      rw [List.foldl_cons, step]
      refine (ih { scan with u := scan.u * 10 + digitValue digit, digits := scan.digits + 1 }).trans ?_
      simp only [digitsValue_cons, List.length_cons, Scan.mk.injEq, and_true, true_and]
      omega

theorem overflowDigits_advances {digits rest : Bytes} (run : DigitRun digits rest) (fuel : ℕ)
    (enough : digits.length < fuel) (scan : Scan) (kept : Bytes) :
    Advances (digits ++ rest) rest (overflowDigits fuel scan kept)
      (digits.foldl Scan.push scan, kept ++ digits) := by
  induction digits generalizing fuel scan kept with
  | nil =>
      obtain ⟨fuel, rfl⟩ := Nat.exists_eq_add_one.mpr enough
      rw [List.append_nil]
      exact (Advances.peek rest).bind (.ifNeg run.stopped (Advances.pure rest _))
  | cons digit digits ih =>
      obtain ⟨fuel, rfl⟩ := Nat.exists_eq_add_one.mpr (Nat.zero_lt_of_lt enough)
      refine (Advances.peek _).bind (.ifPos run.head ?_)
      refine (Advances.bufferedGet digit (digits ++ rest) kept).bind ?_
      have next := ih run.tail fuel (Nat.lt_of_succ_lt_succ enough) (scan.push digit) (kept ++ [digit])
      rw [List.append_assoc] at next
      exact next

theorem fractionDigits_advances {digits rest : Bytes} (run : DigitRun digits rest) (fuel : ℕ)
    (enough : digits.length < fuel) (scan : Scan) (frac : ℤ) (kept : Bytes) :
    Advances (digits ++ rest) rest (fractionDigits fuel scan frac kept)
      (digits.foldl Scan.pushFraction scan, frac - digits.length, kept ++ digits) := by
  induction digits generalizing fuel scan frac kept with
  | nil =>
      obtain ⟨fuel, rfl⟩ := Nat.exists_eq_add_one.mpr enough
      rw [List.append_nil, List.length_nil, Nat.cast_zero, sub_zero]
      exact (Advances.peek rest).bind (.ifNeg run.stopped (Advances.pure rest _))
  | cons digit digits ih =>
      obtain ⟨fuel, rfl⟩ := Nat.exists_eq_add_one.mpr (Nat.zero_lt_of_lt enough)
      refine (Advances.peek _).bind (.ifPos run.head ?_)
      refine (Advances.bufferedGet digit (digits ++ rest) kept).bind ?_
      have next := ih run.tail fuel (Nat.lt_of_succ_lt_succ enough) (scan.pushFraction digit)
        (frac - 1) (kept ++ [digit])
      rw [List.append_assoc, sub_sub, add_comm (1 : ℤ), ← Nat.cast_succ] at next
      exact next

theorem exponentDigits_advances {digits rest : Bytes} (run : DigitRun digits rest) (fuel : ℕ)
    (enough : digits.length < fuel) (exponent : ℤ) (kept : Bytes) :
    Advances (digits ++ rest) rest (exponentDigits fuel exponent kept)
      (digits.foldl (fun value digit => pushExponent value (some digit)) exponent,
        kept ++ digits) := by
  induction digits generalizing fuel exponent kept with
  | nil =>
      obtain ⟨fuel, rfl⟩ := Nat.exists_eq_add_one.mpr enough
      rw [List.append_nil]
      exact (Advances.peek rest).bind (.ifNeg run.stopped (Advances.pure rest _))
  | cons digit digits ih =>
      obtain ⟨fuel, rfl⟩ := Nat.exists_eq_add_one.mpr (Nat.zero_lt_of_lt enough)
      refine (Advances.peek _).bind (.ifPos run.head ?_)
      refine (Advances.bufferedGet digit (digits ++ rest) kept).bind ?_
      have next := ih run.tail fuel (Nat.lt_of_succ_lt_succ enough)
        (pushExponent exponent (some digit)) (kept ++ [digit])
      rw [List.append_assoc] at next
      exact next

/-- The first loop over the integer part takes all digits of a number within the limit,
and stops in front of the digit with which the number exceeds it. -/
theorem integerDigits_advances {digits rest : Bytes} (run : DigitRun digits rest) (fuel : ℕ)
    (enough : digits.length < fuel) (limit u count : ℕ) (large : 9 ≤ limit)
    (small : limit < 2 ^ 64) (within : u ≤ limit) (kept : Bytes) :
    ∃ taken left, digits = taken ++ left ∧ digitsValue u taken ≤ limit ∧
      (left ≠ [] → limit < digitsValue u digits) ∧
      Advances (digits ++ rest) (left ++ rest) (integerDigits limit fuel ⟨u, count, false⟩ kept)
        (⟨digitsValue u taken, count + taken.length, !left.isEmpty⟩, kept ++ taken) := by
  induction digits generalizing fuel u count kept with
  | nil =>
      obtain ⟨fuel, rfl⟩ := Nat.exists_eq_add_one.mpr enough
      refine ⟨[], [], rfl, within, fun absurd => (absurd rfl).elim, ?_⟩
      rw [List.append_nil]
      exact (Advances.peek rest).bind (.ifNeg run.stopped (Advances.pure rest _))
  | cons digit digits ih =>
      obtain ⟨fuel, rfl⟩ := Nat.exists_eq_add_one.mpr (Nat.zero_lt_of_lt enough)
      have bound := digitValue_lt digit (run.digits digit List.mem_cons_self)
      by_cases exceeds : u > (limit - digitValue digit) / 10
      · refine ⟨[], digit :: digits, rfl, within, fun _ => ?_, (Advances.peek _).bind ?_⟩
        · rw [digitsValue_cons]
          exact lt_of_lt_of_le (by omega) (le_digitsValue _ _)
        · rw [List.append_nil]
          exact .ifPos run.head (.ifPos exceeds (Advances.pure _ _))
      · have fits : u * 10 + digitValue digit ≤ limit := by omega
        have push : pushDigit u (some digit) = u * 10 + digitValue digit :=
          Nat.mod_eq_of_lt (lt_of_le_of_lt fits small)
        obtain ⟨taken, left, split, below, above, next⟩ :=
          ih run.tail fuel (Nat.lt_of_succ_lt_succ enough) _ (count + 1) fits (kept ++ [digit])
        refine ⟨digit :: taken, left, by rw [split, List.cons_append], below, above,
          (Advances.peek _).bind ?_⟩
        refine .ifPos run.head (.ifNeg exceeds ?_)
        refine (Advances.bufferedGet digit (digits ++ rest) kept).bind ?_
        simp only [push]
        rw [List.append_assoc, add_assoc, add_comm 1] at next
        exact next

/-- The two loops over the integer part take all its digits. -/
theorem readWhole_reaches {digits rest : Bytes} (run : DigitRun digits rest) (fuel : ℕ)
    (enough : digits.length < fuel) (limit u count : ℕ) (large : 9 ≤ limit)
    (small : limit < 2 ^ 64) (within : u ≤ limit) (negative : Bool) (kept : Bytes) :
    Reaches (digits ++ rest) rest
      (do
        let (scan, kept) ← integerDigits limit fuel ⟨u, count, false⟩ kept
        readNumberTail fuel negative scan kept)
      (readScale fuel negative ⟨digitsValue u digits % 2 ^ 64, count + digits.length,
        decide (limit < digitsValue u digits)⟩ (kept ++ digits)) := by
  obtain ⟨taken, left, split, below, above, first⟩ :=
    integerDigits_advances run fuel enough limit u count large small within kept
  refine first.reaches ?_
  have exact64 : digitsValue u taken % 2 ^ 64 = digitsValue u taken :=
    Nat.mod_eq_of_lt (lt_of_le_of_lt below small)
  by_cases all : left = []
  · subst all
    rw [List.append_nil] at split
    subst split
    rw [exact64, decide_eq_false (not_lt.mpr below)]
    exact (Advances.pure rest _).reaches (Reaches.refl rest _)
  · have runLeft : DigitRun left rest :=
      ⟨fun digit member => run.digits digit (split ▸ List.mem_append_right _ member), run.stops⟩
    have second := overflowDigits_advances runLeft fuel
      (lt_of_le_of_lt (by rw [split, List.length_append]; omega) enough)
      ⟨digitsValue u taken, count + taken.length, true⟩ (kept ++ taken)
    have total := foldl_push ⟨digitsValue u taken, count + taken.length, true⟩ left
    simp only [exact64] at total
    rw [total, List.append_assoc, ← split] at second
    have value : digitsValue (digitsValue u taken) left = digitsValue u digits := by
      rw [split, digitsValue, digitsValue, digitsValue, List.foldl_append]
    rw [decide_eq_true (above all)]
    rw [value, add_assoc, ← List.length_append, ← split] at second
    have started : (!left.isEmpty) = true := by simpa using all
    simp only [started]
    exact second.reaches (Reaches.refl rest _)

/-! ### Fraction, exponent and delivery -/

theorem readFraction_advances (input : Bytes) (fuel : ℕ) (enough : input.length < fuel)
    (scan : Scan) (kept : Bytes) :
    Advances input (takeFraction input).2 (readFraction fuel scan kept)
      (fractionScan scan (takeFraction input).1, -(((takeFraction input).1.getD []).length : ℤ),
        kept ++ renderFraction (takeFraction input).1) := by
  cases input with
  | nil =>
      rw [show kept ++ renderFraction (takeFraction []).1 = kept from List.append_nil kept]
      refine (Advances.bufferedGetIf_false (by simp) kept).bind ?_
      exact .ifNeg Bool.false_ne_true (Advances.pure _ _)
  | cons byte rest =>
      by_cases point : byte = 0x2E
      · subst point
        have run := digitRun_takeWhile rest
        have shorter := (List.takeWhile_sublist isDigit (l := rest)).length_le
        refine (Advances.bufferedGetIf_true 0x2E rest kept).bind (.ifPos rfl ?_)
        have digits := fractionDigits_advances run fuel
          (lt_of_le_of_lt shorter (Nat.lt_of_succ_lt enough)) { scan with isDouble := true } 0
          (kept ++ [0x2E])
        rw [List.takeWhile_append_dropWhile, zero_sub, List.append_assoc] at digits
        exact digits
      · have other : (byte :: rest).head? ≠ some 0x2E := by simpa using point
        simp only [takeFraction, if_neg point, fractionScan, renderFraction, List.append_nil,
          Option.getD_none, List.length_nil, Nat.cast_zero, neg_zero]
        refine (Advances.bufferedGetIf_false other kept).bind ?_
        exact .ifNeg Bool.false_ne_true (Advances.pure _ _)

theorem readExponentSign_advances (input kept : Bytes) :
    Advances input (takeSign input).2 (readExponentSign kept)
      ((takeSign input).1 == some 0x2D, kept ++ (takeSign input).1.toList) := by
  cases input with
  | nil =>
      rw [show kept ++ (takeSign []).1.toList = kept from List.append_nil kept]
      exact (Advances.peek []).bind (.ifNeg (by decide) (Advances.pure _ _))
  | cons byte rest =>
      refine (Advances.peek _).bind ?_
      by_cases sign : isSign byte = true
      · simp only [takeSign, if_pos sign]
        refine .ifPos sign ?_
        exact (Advances.bufferedGet byte rest kept).bind (Advances.pure _ _)
      · simp only [takeSign, if_neg sign, Option.toList_none, List.append_nil]
        exact .ifNeg sign (Advances.pure _ _)

theorem getExponentMark_advances (byte : UInt8) (rest kept : Bytes) :
    if byte = 0x65 ∨ byte = 0x45 then
      Advances (byte :: rest) rest (getExponentMark kept) (true, kept ++ [byte])
    else Advances (byte :: rest) (byte :: rest) (getExponentMark kept) (false, kept) := by
  by_cases lower : byte = 0x65
  · subst lower
    exact (Advances.bufferedGetIf_true 0x65 rest kept).bind (.ifPos rfl (Advances.pure _ _))
  · have notLower : (byte :: rest).head? ≠ some 0x65 := by simpa using lower
    by_cases upper : byte = 0x45
    · subst upper
      refine (Advances.bufferedGetIf_false notLower kept).bind (.ifNeg Bool.false_ne_true ?_)
      exact Advances.bufferedGetIf_true 0x45 rest kept
    · have notUpper : (byte :: rest).head? ≠ some 0x45 := by simpa using upper
      rw [if_neg (by simp [lower, upper])]
      refine (Advances.bufferedGetIf_false notLower kept).bind (.ifNeg Bool.false_ne_true ?_)
      exact Advances.bufferedGetIf_false notUpper kept

/-- The exponent after its mark: refused when it has no digits. -/
theorem readExponentBody_spec (input : Bytes) (fuel : ℕ) (enough : input.length < fuel)
    (mark : UInt8) (kept : Bytes) :
    let (sign, body) := takeSign input
    if body.takeWhile isDigit = [] then
      Refuses input (readExponentBody fuel kept) (.sax .invalidValue)
    else
      Advances input (body.dropWhile isDigit) (readExponentBody fuel kept)
        (exponentValue (some ⟨mark, sign, body.takeWhile isDigit⟩),
          kept ++ sign.toList ++ body.takeWhile isDigit) := by
  have signRead := readExponentSign_advances input kept
  have shorter : (takeSign input).2.length ≤ input.length := by
    cases input with
    | nil => exact le_rfl
    | cons byte rest =>
        simp only [takeSign]
        split <;> simp
  revert signRead shorter
  rcases takeSign input with ⟨sign, body⟩
  intro signRead shorter
  have run := digitRun_takeWhile body
  by_cases missing : body.takeWhile isDigit = []
  · simp only [if_pos missing]
    have noDigit : ¬ isDigitCharacter body.head? = true := by
      rw [isDigitCharacter_head?, not_not]
      exact missing
    exact signRead.refuses ((Advances.peek body).refuses (.ifNeg noDigit (Refuses.fail _ _)))
  · simp only [if_neg missing]
    have digit : isDigitCharacter body.head? = true := (isDigitCharacter_head? body).mpr missing
    refine signRead.bind ((Advances.peek body).bind (.ifPos digit ?_))
    cases body with
    | nil => exact (missing rfl).elim
    | cons first rest =>
        have isDigit : isDigit first = true := digit
        rw [List.takeWhile_cons_of_pos isDigit] at run ⊢
        rw [List.dropWhile_cons_of_pos isDigit] at run ⊢
        have bound := (List.takeWhile_sublist Join.isDigit (l := rest)).length_le
        refine (Advances.bufferedGet first rest _).bind ?_
        have digits := exponentDigits_advances run.tail fuel (by simp at shorter; omega)
          (digitValue first : ℤ) (kept ++ sign.toList ++ [first])
        rw [List.takeWhile_append_dropWhile, List.append_assoc _ [first]] at digits
        refine digits.bind ?_
        simp only [exponentValue, List.tail_cons, List.headD_cons, beq_iff_eq]
        exact Advances.pure _ _

theorem readExponent_spec (input : Bytes) (fuel : ℕ) (enough : input.length < fuel)
    (scan : Scan) (kept : Bytes) :
    match takeExponent input with
    | none => Refuses input (readExponent fuel scan kept) (.sax .invalidValue)
    | some (exponent, rest) =>
        Advances input rest (readExponent fuel scan kept)
          ({ scan with isDouble := scan.isDouble || exponent.isSome }, exponentValue exponent,
            kept ++ renderExponent exponent) := by
  cases input with
  | nil =>
      simp only [takeExponent, Option.isSome_none, Bool.or_false, exponentValue, renderExponent,
        List.append_nil]
      have absent : Advances [] [] (getExponentMark kept) (false, kept) :=
        (Advances.bufferedGetIf_false (by simp) kept).bind
          (.ifNeg Bool.false_ne_true (Advances.bufferedGetIf_false (by simp) kept))
      exact absent.bind (.ifNeg Bool.false_ne_true (Advances.pure _ _))
  | cons byte rest =>
      have mark := getExponentMark_advances byte rest kept
      by_cases isMark : byte = 0x65 ∨ byte = 0x45
      · rw [if_pos isMark] at mark
        have body := readExponentBody_spec rest fuel (Nat.lt_of_succ_lt enough) byte (kept ++ [byte])
        revert body
        simp only [takeExponent, if_pos isMark]
        rcases takeSign rest with ⟨sign, after⟩
        by_cases missing : after.takeWhile isDigit = []
        · simp only [if_pos missing]
          intro body
          exact mark.refuses (.ifPos rfl (body.bind _))
        · simp only [if_neg missing]
          intro body
          refine mark.bind (.ifPos rfl (body.bind ?_))
          simp only [Option.isSome_some, Bool.or_true, renderExponent, Exponent.render,
            List.append_assoc, List.cons_append, List.nil_append]
          exact Advances.pure _ _
      · rw [if_neg isMark] at mark
        simp only [takeExponent, if_neg isMark, Option.isSome_none, Bool.or_false, exponentValue,
          renderExponent, List.append_nil]
        exact mark.bind (.ifNeg Bool.false_ne_true (Advances.pure _ _))

/-- In front of `input` the program does what the lexer says: it comes to the delivery
of the number that was taken, or it refuses. -/
def Lexes (input : Bytes) (program : Reader PlainView Unit) : Option (Number × Bytes) → Prop
  | none => Refuses input program (.sax .invalidValue)
  | some (number, rest) => Reaches input rest program
      (finishNumber number.negative (numberScan number) (numberExponent number) number.render)

theorem Lexes.behind {input middle : Bytes} {program next : Reader PlainView Unit}
    {taken : Option (Number × Bytes)} (start : Reaches input middle program next)
    (lexes : Lexes middle next taken) : Lexes input program taken := by
  cases taken with
  | none => exact start.refuses lexes
  | some found => exact start.trans lexes

theorem Lexes.after {α : Type} {input middle : Bytes} {first : Reader PlainView α} {value : α}
    {next : α → Reader PlainView Unit} {taken : Option (Number × Bytes)}
    (start : Advances input middle first value) (lexes : Lexes middle (next value) taken) :
    Lexes input (first >>= next) taken :=
  .behind (start.reaches (Reaches.refl middle _)) lexes

theorem Lexes.ifPos {condition : Prop} [Decidable condition] {input : Bytes}
    {yes no : Reader PlainView Unit} {taken : Option (Number × Bytes)} (holds : condition)
    (lexes : Lexes input yes taken) : Lexes input (if condition then yes else no) taken := by
  rwa [if_pos holds]

theorem Lexes.ifNeg {condition : Prop} [Decidable condition] {input : Bytes}
    {yes no : Reader PlainView Unit} {taken : Option (Number × Bytes)} (fails : ¬ condition)
    (lexes : Lexes input no taken) : Lexes input (if condition then yes else no) taken := by
  rwa [if_neg fails]

/-- What the reader does after the integer part. -/
theorem readScale_lexes (negative : Bool) (whole rest : Bytes) (fuel : ℕ)
    (enough : rest.length < fuel) :
    Lexes rest (readScale fuel negative (wholeScan negative whole) (renderMinus negative ++ whole))
      (takeTail negative whole rest) := by
  have fraction := readFraction_advances rest fuel enough (wholeScan negative whole)
    (renderMinus negative ++ whole)
  have shorter : (takeFraction rest).2.length ≤ rest.length := by
    cases rest with
    | nil => exact le_rfl
    | cons byte rest =>
        simp only [takeFraction]
        split
        · exact ((List.dropWhile_suffix isDigit).length_le).trans (Nat.le_succ _)
        · exact le_rfl
  have exponent := readExponent_spec (takeFraction rest).2 fuel (lt_of_le_of_lt shorter enough)
    (fractionScan (wholeScan negative whole) (takeFraction rest).1)
    (renderMinus negative ++ whole ++ renderFraction (takeFraction rest).1)
  refine .after fraction ?_
  revert exponent
  simp only [takeTail]
  rcases takeExponent (takeFraction rest).2 with _ | ⟨found, output⟩
  · intro exponent
    exact exponent.bind _
  · intro exponent
    refine exponent.reaches ?_
    rw [← sub_eq_add_neg]
    exact Reaches.refl output _

theorem splitMinus_append (input : Bytes) :
    renderMinus (splitMinus input).1 ++ (splitMinus input).2 = input := by
  unfold splitMinus
  split <;> rfl

theorem minus_advances (input : Bytes) :
    Advances input (splitMinus input).2 (Reader.buffered (View.bufferedGetIf 0x2D) [])
      ((splitMinus input).1, renderMinus (splitMinus input).1) := by
  unfold splitMinus
  split
  case h_1 rest => exact Advances.bufferedGetIf_true 0x2D rest []
  case h_2 other =>
      refine Advances.bufferedGetIf_false ?_ []
      intro minus
      obtain ⟨rest, rfl⟩ := List.head?_eq_some_iff.mp minus
      exact other rest rfl

theorem isDigit_zero : isDigit 0x30 = true := by decide

theorem max64_bounds (negative : Bool) : 9 ≤ max64 negative ∧ max64 negative < 2 ^ 64 := by
  cases negative <;> decide

/-- What the reader does after the minus sign when a digit comes. -/
theorem readDigits_lexes (negative : Bool) (body : Bytes) (fuel : ℕ)
    (enough : body.length < fuel) (digit : isDigitCharacter body.head? = true) :
    Lexes body (readDigits fuel negative (renderMinus negative)) (takeDigits negative body) := by
  cases body with
  | nil => exact (Bool.false_ne_true digit).elim
  | cons first rest =>
      have isDigit : isDigit first = true := digit
      have shorter : rest.length < fuel := Nat.lt_of_succ_lt enough
      by_cases zero : first = 0x30
      · subst zero
        refine .after (Advances.bufferedGetIf_true 0x30 rest _) (.ifPos rfl ?_)
        refine .after (Advances.peek rest) ?_
        by_cases alone : rest.takeWhile Join.isDigit = []
        · have noDigit : ¬ isDigitCharacter rest.head? = true := by
            rw [isDigitCharacter_head?, not_not]
            exact alone
          simp only [takeDigits, if_true, if_pos alone]
          refine .ifNeg noDigit (.after (Advances.pure rest _) ?_)
          exact readScale_lexes negative [0x30] rest fuel shorter
        · simp only [takeDigits, if_true, if_neg alone]
          exact .ifPos ((isDigitCharacter_head? rest).mpr alone) (Refuses.fail _ _)
      · have notZero : (first :: rest).head? ≠ some 0x30 := by simpa using zero
        have run := digitRun_takeWhile rest
        have bounds := max64_bounds negative
        have small := digitValue_lt first isDigit
        have takenLength := (List.takeWhile_sublist Join.isDigit (l := rest)).length_le
        have leftLength := (List.dropWhile_suffix Join.isDigit (l := rest)).length_le
        simp only [takeDigits, if_neg zero, if_pos isDigit]
        refine .after (Advances.bufferedGetIf_false notZero _) (.ifNeg Bool.false_ne_true ?_)
        refine .after (Advances.peek _) (.ifPos digit ?_)
        refine .after (Advances.bufferedGet first rest _) ?_
        have tail := readScale_lexes negative (first :: rest.takeWhile Join.isDigit)
          (rest.dropWhile Join.isDigit) fuel (lt_of_le_of_lt leftLength shorter)
        have scan : wholeScan negative (first :: rest.takeWhile Join.isDigit) =
            ⟨digitsValue (digitValue first) (rest.takeWhile Join.isDigit) % 2 ^ 64,
              1 + (rest.takeWhile Join.isDigit).length,
              decide (max64 negative <
                digitsValue (digitValue first) (rest.takeWhile Join.isDigit))⟩ := by
          simp only [wholeScan, digitsValue_cons, zero_mul, zero_add, List.length_cons, add_comm 1]
          rw [if_neg (by simp [zero])]
        rw [scan, List.append_cons] at tail
        have whole := readWhole_reaches run fuel (lt_of_le_of_lt takenLength shorter)
          (max64 negative) (digitValue first) 1 bounds.1 bounds.2 (by omega) negative
          (renderMinus negative ++ [first])
        rw [List.takeWhile_append_dropWhile] at whole
        exact .behind whole tail

/-- A number that begins with a digit is lexed. -/
theorem readNumber_lexes (input : Bytes) (fuel : ℕ) (enough : input.length < fuel)
    (digit : isDigitCharacter (splitMinus input).2.head? = true) :
    Lexes input (readNumber fuel) (takeNumber input) := by
  have shorter : (splitMinus input).2.length ≤ input.length := by
    have whole := congrArg List.length (splitMinus_append input)
    rw [List.length_append] at whole
    omega
  have mark : Advances input input (Reader.mark : Reader PlainView Bytes) [] := fun _ => rfl
  refine .after mark (.after (minus_advances input) ?_)
  exact readDigits_lexes _ _ fuel (lt_of_le_of_lt shorter enough) digit

theorem finishNumber_follows (number : Number) (rest : Bytes) :
    Follows rest rest
      (finishNumber number.negative (numberScan number) (numberExponent number) number.render)
      (numberEvents number) := by
  simp only [finishNumber, numberEvents, numberValue]
  by_cases isDouble : (numberScan number).isDouble = true
  · rw [if_pos isDouble, if_pos isDouble]
    cases fastValue number.negative (numberScan number).u (numberScan number).digits
        (numberExponent number) with
    | some value => exact Follows.event rest _
    | none =>
        have snapshot : Advances rest rest (Reader.snapshot number.render) number.render :=
          fun _ => rfl
        refine snapshot.follows ?_
        cases strtodSlow number.render with
        | some value => exact Follows.event rest _
        | none => exact Follows.fail _
  · rw [if_neg isDouble, if_neg isDouble]
    exact Follows.event rest _

/-- A number that begins with a digit is lexed, converted and delivered. -/
theorem readNumber_follows (input : Bytes) (fuel : ℕ) (enough : input.length < fuel)
    (digit : isDigitCharacter (splitMinus input).2.head? = true) :
    Follows input (delivery (takeNumber input)).1 (readNumber fuel)
      (delivery (takeNumber input)).2 := by
  have lexes := readNumber_lexes input fuel enough digit
  revert lexes
  rcases takeNumber input with _ | ⟨number, rest⟩
  · intro refuses
    exact Refuses.follows refuses _
  · intro reaches
    exact Reaches.follows reaches (finishNumber_follows number rest)

/-- Anything else is read as a word. -/
theorem readNumber_word {input output : Bytes} (fuel : ℕ)
    {events : Program StreamReader Failure Unit}
    (noDigit : ¬ isDigitCharacter (splitMinus input).2.head? = true)
    (word : Follows (splitMinus input).2 output (readWord (splitMinus input).1) events) :
    Follows input output (readNumber fuel) events := by
  have notZero : (splitMinus input).2.head? ≠ some 0x30 := by
    intro zero
    rw [zero] at noDigit
    exact noDigit isDigit_zero
  have mark : Advances input input (Reader.mark : Reader PlainView Bytes) [] := fun _ => rfl
  refine mark.follows ((minus_advances input).follows ?_)
  refine (Advances.bufferedGetIf_false notZero _).follows (.ifNeg Bool.false_ne_true ?_)
  exact (Advances.peek _).follows (.ifNeg noDigit word)

/-! ## What the lexer takes -/

theorem isDigit_iff : ∀ byte : UInt8, isDigit byte = true ↔ IsDigit byte := by decide

theorem isSign_of_isDigit : ∀ byte : UInt8, isDigit byte = true → isSign byte = false := by
  decide

/-- A number the scanner takes. -/
structure Scannable (number : Number) : Prop where
  whole : WholePart number.whole
  fraction : ∀ digits, number.fraction = some digits → ∀ digit ∈ digits, IsDigit digit
  mark : ∀ exponent, number.exponent = some exponent → exponent.mark = 0x65 ∨ exponent.mark = 0x45
  sign : ∀ exponent, number.exponent = some exponent →
    ∀ sign, exponent.sign = some sign → isSign sign = true
  exponent : ∀ exponent, number.exponent = some exponent →
    exponent.digits ≠ [] ∧ ∀ digit ∈ exponent.digits, IsDigit digit

/-- The scanner takes the numbers of RFC 8259. -/
theorem Scannable.of_standard {number : Number} (standard : number.Standard) :
    Scannable number where
  whole := standard.whole
  fraction digits found := (standard.fraction digits found).2
  mark exponent found := (standard.exponent exponent found).mark
  sign exponent found sign signed := by
    rcases (standard.exponent exponent found).sign with none | plus | minus
    · rw [signed] at none
      cases none
    · rw [signed] at plus
      cases plus
      decide
    · rw [signed] at minus
      cases minus
      decide
  exponent exponent found :=
    ⟨(standard.exponent exponent found).nonempty, (standard.exponent exponent found).digits⟩

/-- Nothing follows that could belong to a number. -/
structure EndsNumber (rest : Bytes) : Prop where
  digit : isDigitCharacter rest.head? = false
  point : rest.head? ≠ some 0x2E
  lower : rest.head? ≠ some 0x65
  upper : rest.head? ≠ some 0x45

theorem DigitRun.takeWhile_eq {digits rest : Bytes} (run : DigitRun digits rest) :
    (digits ++ rest).takeWhile isDigit = digits := by
  have none : rest.takeWhile isDigit = [] := by
    by_contra some
    exact run.stopped ((isDigitCharacter_head? rest).mpr some)
  rw [List.takeWhile_append_of_pos run.digits, none, List.append_nil]

theorem DigitRun.dropWhile_eq {digits rest : Bytes} (run : DigitRun digits rest) :
    (digits ++ rest).dropWhile isDigit = rest := by
  have whole := List.takeWhile_append_dropWhile (p := isDigit) (l := digits ++ rest)
  rw [run.takeWhile_eq] at whole
  exact List.append_cancel_left whole

theorem takeExponent_render {exponent : Option Exponent} {rest : Bytes}
    (mark : ∀ found, exponent = some found → found.mark = 0x65 ∨ found.mark = 0x45)
    (sign : ∀ found, exponent = some found → ∀ sign, found.sign = some sign → isSign sign = true)
    (digits : ∀ found, exponent = some found →
      found.digits ≠ [] ∧ ∀ digit ∈ found.digits, IsDigit digit)
    (ends : EndsNumber rest) :
    takeExponent (renderExponent exponent ++ rest) = some (exponent, rest) := by
  cases exponent with
  | none =>
      cases rest with
      | nil => rfl
      | cons byte rest =>
          have notMark : ¬ (byte = 0x65 ∨ byte = 0x45) := by
            rintro (rfl | rfl)
            · exact ends.lower rfl
            · exact ends.upper rfl
          simp only [renderExponent, List.nil_append, takeExponent, if_neg notMark]
  | some found =>
      obtain ⟨nonempty, all⟩ := digits found rfl
      have run : DigitRun found.digits rest :=
        ⟨fun digit member => (isDigit_iff digit).mpr (all digit member), ends.digit⟩
      have signed : takeSign (found.sign.toList ++ (found.digits ++ rest)) =
          (found.sign, found.digits ++ rest) := by
        cases signCase : found.sign with
        | some byte =>
            simp only [Option.toList_some, List.singleton_append, takeSign,
              if_pos (sign found rfl byte signCase)]
        | none =>
            cases digitsCase : found.digits with
            | nil => exact (nonempty digitsCase).elim
            | cons first more =>
                have notSign : isSign first = false :=
                  isSign_of_isDigit first (run.digits first (digitsCase ▸ List.mem_cons_self))
                simp only [Option.toList_none, List.nil_append, List.cons_append, takeSign, notSign,
                  Bool.false_eq_true, if_false]
      simp only [renderExponent, Exponent.render, List.cons_append, takeExponent,
        if_pos (mark found rfl), List.append_assoc, signed, run.takeWhile_eq, run.dropWhile_eq,
        if_neg nonempty]

theorem takeTail_render {number : Number} {rest : Bytes} (scannable : Scannable number)
    (ends : EndsNumber rest) :
    takeTail number.negative number.whole
        (renderFraction number.fraction ++ renderExponent number.exponent ++ rest) =
      some (number, rest) := by
  have exponent := takeExponent_render scannable.mark scannable.sign scannable.exponent ends
  obtain ⟨negative, whole, fraction, found⟩ := number
  -- what follows the fraction neither begins with a digit nor with a point
  have stops : isDigitCharacter (renderExponent found ++ rest).head? = false ∧
      (renderExponent found ++ rest).head? ≠ some 0x2E := by
    cases found with
    | none => exact ⟨ends.digit, ends.point⟩
    | some found =>
        simp only [renderExponent, Exponent.render, List.cons_append, List.head?_cons]
        rcases scannable.mark found rfl with mark | mark
        · rw [mark]
          decide
        · rw [mark]
          decide
  have fractionTaken : takeFraction (renderFraction fraction ++ (renderExponent found ++ rest)) =
      (fraction, renderExponent found ++ rest) := by
    cases fraction with
    | some digits =>
        have run : DigitRun digits (renderExponent found ++ rest) :=
          ⟨fun digit member => (isDigit_iff digit).mpr (scannable.fraction digits rfl digit member),
            stops.1⟩
        simp only [renderFraction, List.cons_append, takeFraction, if_true, run.takeWhile_eq,
          run.dropWhile_eq]
    | none =>
        simp only [renderFraction, List.nil_append]
        revert stops
        generalize renderExponent found ++ rest = tail
        intro stops
        cases tail with
        | nil => rfl
        | cons byte tail =>
            have notPoint : ¬ byte = 0x2E := fun point => stops.2 (point ▸ rfl)
            simp only [takeFraction, if_neg notPoint]
  simp only [takeTail, List.append_assoc, fractionTaken, exponent, Option.map_some]

/-- A number that the scanner takes begins with a digit after its sign. -/
theorem Scannable.whole_head {number : Number} (scannable : Scannable number) :
    ∃ first more, number.whole = first :: more ∧ isDigit first = true ∧
      ∀ digit ∈ more, isDigit digit = true := by
  rcases scannable.whole with zero | ⟨nonempty, _, digits⟩
  · exact ⟨0x30, [], zero, isDigit_zero, fun _ absurd => by cases absurd⟩
  · obtain ⟨first, more, whole⟩ := List.exists_cons_of_ne_nil nonempty
    rw [whole] at digits
    exact ⟨first, more, whole, (isDigit_iff _).mpr (digits _ List.mem_cons_self),
      fun digit member => (isDigit_iff _).mpr (digits _ (List.mem_cons_of_mem _ member))⟩

theorem splitMinus_render (negative : Bool) {first : UInt8} (digit : isDigit first = true)
    (rest : Bytes) :
    splitMinus (renderMinus negative ++ first :: rest) = (negative, first :: rest) := by
  cases negative with
  | true => rfl
  | false =>
      have notMinus : first ≠ 0x2D := by
        rintro rfl
        exact absurd digit (by decide)
      simp only [renderMinus, Bool.false_eq_true, if_false, List.nil_append]
      unfold splitMinus
      split
      case h_1 more same => exact (notMinus (List.cons.inj same).1).elim
      case h_2 => rfl

/-- The lexer finds the number that was written. -/
theorem takeNumber_render {number : Number} {rest : Bytes} (scannable : Scannable number)
    (ends : EndsNumber rest) : takeNumber (number.render ++ rest) = some (number, rest) := by
  have tail := takeTail_render scannable ends
  obtain ⟨first, more, whole, digit, digits⟩ := scannable.whole_head
  have stops : isDigitCharacter
      (renderFraction number.fraction ++ renderExponent number.exponent ++ rest).head? = false := by
    cases fraction : number.fraction with
    | some digits => exact (by decide : isDigit 0x2E = false)
    | none =>
        cases exponent : number.exponent with
        | none => exact ends.digit
        | some found =>
            simp only [renderFraction, renderExponent, Exponent.render, List.nil_append,
              List.cons_append, List.head?_cons]
            rcases scannable.mark found exponent with mark | mark
            · rw [mark]
              decide
            · rw [mark]
              decide
  have run : DigitRun more
      (renderFraction number.fraction ++ renderExponent number.exponent ++ rest) :=
    ⟨digits, stops⟩
  have shape : number.render ++ rest = renderMinus number.negative ++ first ::
      (more ++ (renderFraction number.fraction ++ renderExponent number.exponent ++ rest)) := by
    simp only [Number.render, whole, List.append_assoc, List.cons_append]
  rw [takeNumber, shape, splitMinus_render _ digit]
  rcases scannable.whole with zero | ⟨_, notZero, _⟩
  · rw [whole] at zero
    obtain ⟨rfl, rfl⟩ := List.cons.inj zero
    rw [whole] at tail
    have alone := run.takeWhile_eq
    rw [List.nil_append] at alone
    simp only [takeDigits, if_true, List.nil_append, alone, tail]
  · have other : ¬ first = 0x30 := by
      rintro rfl
      exact notZero (by rw [whole, List.head?_cons])
    rw [whole] at tail
    simp only [takeDigits, if_neg other, if_pos digit, run.takeWhile_eq, run.dropWhile_eq, tail]

/-- In front of a number, after its minus sign, the scanner finds a digit. -/
theorem Scannable.startsDigit {number : Number} (scannable : Scannable number) (rest : Bytes) :
    isDigitCharacter (splitMinus (number.render ++ rest)).2.head? = true := by
  obtain ⟨first, more, whole, digit, _⟩ := scannable.whole_head
  have shape : number.render ++ rest = renderMinus number.negative ++ first ::
      (more ++ (renderFraction number.fraction ++ (renderExponent number.exponent ++ rest))) := by
    simp only [Number.render, whole, List.append_assoc, List.cons_append]
  rw [shape, splitMinus_render _ digit]
  exact digit

theorem takeFraction_append (input : Bytes) :
    renderFraction (takeFraction input).1 ++ (takeFraction input).2 = input := by
  cases input with
  | nil => rfl
  | cons byte rest =>
      by_cases point : byte = 0x2E
      · subst point
        simp only [takeFraction, if_true, renderFraction, List.cons_append,
          List.takeWhile_append_dropWhile]
      · simp only [takeFraction, if_neg point, renderFraction, List.nil_append]

theorem takeFraction_digits {input digits : Bytes} (found : (takeFraction input).1 = some digits) :
    ∀ digit ∈ digits, IsDigit digit := by
  cases input with
  | nil => cases found
  | cons byte rest =>
      by_cases point : byte = 0x2E
      · simp only [takeFraction, if_pos point, Option.some.injEq] at found
        subst found
        exact fun digit member => (isDigit_iff digit).mp (List.mem_takeWhile_imp member)
      · simp only [takeFraction, if_neg point, reduceCtorEq] at found

theorem takeSign_spec (input : Bytes) :
    (takeSign input).1.toList ++ (takeSign input).2 = input ∧
      ∀ sign, (takeSign input).1 = some sign → isSign sign = true := by
  cases input with
  | nil => exact ⟨rfl, fun _ absurd => by cases absurd⟩
  | cons byte rest =>
      by_cases signed : isSign byte = true
      · simp only [takeSign, if_pos signed]
        exact ⟨rfl, fun sign same => Option.some.inj same ▸ signed⟩
      · simp only [takeSign, if_neg signed]
        exact ⟨rfl, fun _ absurd => by cases absurd⟩

theorem takeExponent_sound {input rest : Bytes} {exponent : Option Exponent}
    (taken : takeExponent input = some (exponent, rest)) :
    renderExponent exponent ++ rest = input ∧
      ∀ found, exponent = some found →
        (found.mark = 0x65 ∨ found.mark = 0x45) ∧
          (∀ sign, found.sign = some sign → isSign sign = true) ∧
          found.digits ≠ [] ∧ ∀ digit ∈ found.digits, IsDigit digit := by
  cases input with
  | nil =>
      cases taken
      exact ⟨rfl, fun _ absurd => by cases absurd⟩
  | cons mark body =>
      by_cases isMark : mark = 0x65 ∨ mark = 0x45
      · obtain ⟨split, signs⟩ := takeSign_spec body
        simp only [takeExponent, if_pos isMark] at taken
        by_cases missing : (takeSign body).2.takeWhile isDigit = []
        · simp only [if_pos missing, reduceCtorEq] at taken
        · simp only [if_neg missing, Option.some.injEq, Prod.mk.injEq] at taken
          obtain ⟨rfl, rfl⟩ := taken
          refine ⟨?_, ?_⟩
          · simp only [renderExponent, Exponent.render, List.cons_append, List.append_assoc,
              List.takeWhile_append_dropWhile, split]
          · rintro found ⟨⟩
            exact ⟨isMark, signs, missing,
              fun digit member => (isDigit_iff digit).mp (List.mem_takeWhile_imp member)⟩
      · simp only [takeExponent, if_neg isMark, Option.some.injEq, Prod.mk.injEq] at taken
        obtain ⟨rfl, rfl⟩ := taken
        exact ⟨rfl, fun _ absurd => by cases absurd⟩

theorem takeTail_sound {negative : Bool} {whole input rest : Bytes} {number : Number}
    (part : WholePart whole) (taken : takeTail negative whole input = some (number, rest)) :
    Scannable number ∧ renderMinus negative ++ whole ++ input = number.render ++ rest := by
  simp only [takeTail, Option.map_eq_some_iff] at taken
  obtain ⟨⟨exponent, output⟩, found, same⟩ := taken
  obtain ⟨rfl, rfl⟩ := Prod.mk.inj same
  obtain ⟨split, spec⟩ := takeExponent_sound found
  refine ⟨⟨part, fun digits => takeFraction_digits, fun found same => (spec found same).1,
    fun found same => (spec found same).2.1, fun found same => (spec found same).2.2⟩, ?_⟩
  simp only [Number.render, List.append_assoc, split, takeFraction_append]

/-- What the lexer takes is a number of the scanner at the front of the input. -/
theorem takeNumber_sound {input rest : Bytes} {number : Number}
    (taken : takeNumber input = some (number, rest)) :
    Scannable number ∧ input = number.render ++ rest := by
  have split := splitMinus_append input
  have taken : takeDigits (splitMinus input).1 (splitMinus input).2 = some (number, rest) := taken
  revert taken split
  rcases splitMinus input with ⟨negative, body⟩
  intro split taken
  cases body with
  | nil => cases taken
  | cons first more =>
      by_cases zero : first = 0x30
      · simp only [takeDigits, if_pos zero] at taken
        by_cases alone : more.takeWhile isDigit = []
        · rw [if_pos alone] at taken
          obtain ⟨scannable, whole⟩ := takeTail_sound (.inl rfl) taken
          refine ⟨scannable, ?_⟩
          rw [← split, ← whole, zero, List.append_assoc, List.singleton_append]
        · rw [if_neg alone] at taken
          cases taken
      · simp only [takeDigits, if_neg zero] at taken
        by_cases digit : isDigit first = true
        · rw [if_pos digit] at taken
          have part : WholePart (first :: more.takeWhile isDigit) := by
            refine .inr ⟨List.cons_ne_nil _ _, by simpa using zero, ?_⟩
            intro other member
            rcases List.mem_cons.mp member with rfl | member
            · exact (isDigit_iff _).mp digit
            · exact (isDigit_iff _).mp (List.mem_takeWhile_imp member)
          obtain ⟨scannable, whole⟩ := takeTail_sound part taken
          refine ⟨scannable, ?_⟩
          rw [← split, ← whole, List.append_assoc, List.cons_append,
            List.takeWhile_append_dropWhile]
        · rw [if_neg digit] at taken
          cases taken

end Join.JsonReader
