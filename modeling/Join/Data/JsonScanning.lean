import Join.Data.JsonGrammar

/-!
# Exactness of the number scanner

The scanner turns a literal into a sign, a 64-bit significand and a power of ten.
For an integer literal of 64 bits nothing is lost. Otherwise the significand is
exact as long as there are at most 19 significant digits, and the power of ten is
exact as long as the digits of the exponent stay within an `int`.

Two literals fall outside. The smallest signed integer is scanned as `2 ^ 63`,
whose conversion to a signed word can not be negated. And an exponent beyond an
`int` loses the digits that do not fit, so that a fraction of hundreds of millions
of digits can bring what is left of it back into the range of the fast conversion.
-/

set_option autoImplicit false
set_option maxRecDepth 1024

namespace Join.JsonReader

open Library Library.Json

/-! ## What is written -/

/-- The digits of a number, those of the fraction behind those of the integer part. -/
def writtenDigits (number : Number) : Bytes := number.whole ++ number.fraction.getD []

/-- How many digits there are from the first other than zero on. -/
def significantDigits (number : Number) : ℕ :=
  ((writtenDigits number).dropWhile (· == 0x30)).length

/-- The exponent as it is written. -/
def writtenExponent : Option Exponent → ℤ
  | none => 0
  | some exponent =>
      if exponent.sign = some 0x2D then -(digitsValue 0 exponent.digits : ℤ)
      else digitsValue 0 exponent.digits

/-- The magnitude of the number that is written. -/
def writtenMagnitude (number : Number) : ℚ :=
  digitsValue 0 (writtenDigits number) *
    (10 : ℚ) ^ (writtenExponent number.exponent - (number.fraction.getD []).length)

/-- What is left of the digits of an exponent when those that would carry it past the
largest `int` are passed over. -/
def saturated (digits : Bytes) : ℕ :=
  digits.foldl (fun size digit =>
    if size * 10 + digitValue digit ≤ 2147483647 then size * 10 + digitValue digit else size) 0

/-- The exponent that is left of the one that is written. -/
def saturatedExponent (exponent : Exponent) : ℤ :=
  if exponent.sign = some 0x2D then -(saturated exponent.digits : ℤ) else saturated exponent.digits

/-! ## The exponent -/

theorem pushExponent_cast (size : ℕ) (digit : UInt8) :
    pushExponent size (some digit) =
      ((if size * 10 + digitValue digit ≤ 2147483647 then size * 10 + digitValue digit
        else size : ℕ) : ℤ) := by
  unfold pushExponent
  rw [show Character.toByte (some digit) = digit from rfl]
  by_cases fits : size * 10 + digitValue digit ≤ 2147483647
  · rw [if_pos fits, if_pos (by omega)]
    push_cast
    ring
  · rw [if_neg fits, if_neg (by omega)]

theorem foldl_pushExponent (size : ℕ) (digits : Bytes) :
    digits.foldl (fun value digit => pushExponent value (some digit)) (size : ℤ) =
      (digits.foldl (fun size digit =>
        if size * 10 + digitValue digit ≤ 2147483647 then size * 10 + digitValue digit
        else size) size : ℕ) := by
  induction digits generalizing size with
  | nil => rfl
  | cons digit digits ih =>
      rw [List.foldl_cons, List.foldl_cons, pushExponent_cast]
      exact ih _

/-- The scanner keeps what is left of the exponent. -/
theorem exponentValue_eq {exponent : Exponent} (standard : exponent.Standard) :
    exponentValue (some exponent) = saturatedExponent exponent := by
  obtain ⟨mark, sign, digits⟩ := exponent
  have size : digits.tail.foldl (fun value digit => pushExponent value (some digit))
      (digitValue (digits.headD 0x30) : ℤ) = (saturated digits : ℤ) := by
    cases digits with
    | nil => exact absurd rfl standard.nonempty
    | cons first rest =>
        have digit := digitValue_lt first
          ((isDigit_iff first).mpr (standard.digits first List.mem_cons_self))
        rw [saturated, List.foldl_cons, if_pos (by omega), zero_mul, zero_add]
        exact foldl_pushExponent _ rest
  simp only [exponentValue, saturatedExponent, size]

theorem saturated_step (size : ℕ) (digits : Bytes) (small : size ≤ 2147483647) :
    let left := digits.foldl (fun size digit =>
      if size * 10 + digitValue digit ≤ 2147483647 then size * 10 + digitValue digit
      else size) size
    left ≤ 2147483647 ∧ (digitsValue size digits ≤ 2147483647 → left = digitsValue size digits) := by
  induction digits generalizing size with
  | nil => exact ⟨small, fun _ => rfl⟩
  | cons digit digits ih =>
      rw [List.foldl_cons, digitsValue_cons]
      by_cases fits : size * 10 + digitValue digit ≤ 2147483647
      · rw [if_pos fits]
        exact ih _ fits
      · rw [if_neg fits]
        refine ⟨(ih size small).1, fun within => ?_⟩
        exact absurd ((le_digitsValue _ digits).trans within) fits

/-- Nothing is lost of an exponent exactly when it is an `int`. -/
theorem saturated_eq_iff (digits : Bytes) :
    saturated digits = digitsValue 0 digits ↔ digitsValue 0 digits ≤ 2147483647 := by
  obtain ⟨bounded, exact_⟩ := saturated_step 0 digits (Nat.zero_le _)
  constructor
  · intro same
    rw [← same]
    exact bounded
  · exact exact_

theorem saturatedExponent_eq_iff (exponent : Exponent) :
    saturatedExponent exponent = writtenExponent (some exponent) ↔
      digitsValue 0 exponent.digits ≤ 2147483647 := by
  rw [← saturated_eq_iff, saturatedExponent, writtenExponent]
  by_cases negative : exponent.sign = some 0x2D
  · rw [if_pos negative, if_pos negative, neg_inj, Nat.cast_inj]
  · rw [if_neg negative, if_neg negative, Nat.cast_inj]

/-! ## The significand -/

/-- The accumulator holds the digits read so far modulo `2 ^ 64`, and they are no more
than what the count says. -/
structure Accumulates (scan : Scan) (value : ℕ) : Prop where
  holds : scan.u = value % 2 ^ 64
  counted : value < 10 ^ scan.digits

theorem digitsValue_append (start : ℕ) (front back : Bytes) :
    digitsValue start (front ++ back) = digitsValue (digitsValue start front) back :=
  List.foldl_append

/-- A string of digits is a number of no more places. -/
theorem digitsValue_lt {start places : ℕ} {digits : Bytes} (small : start < 10 ^ places)
    (all : ∀ digit ∈ digits, isDigit digit = true) :
    digitsValue start digits < 10 ^ (places + digits.length) := by
  induction digits generalizing start places with
  | nil => exact small
  | cons digit digits ih =>
      obtain ⟨first, rest⟩ := List.forall_mem_cons.mp all
      have bound := digitValue_lt digit first
      have grown : start * 10 + digitValue digit < 10 ^ (places + 1) := by
        rw [pow_succ]
        omega
      have next := ih grown rest
      rw [digitsValue_cons, List.length_cons, ← add_assoc, Nat.add_right_comm]
      exact next

theorem Accumulates.pushFraction {scan : Scan} {value : ℕ} (accumulates : Accumulates scan value)
    {digit : UInt8} (isDigit : isDigit digit = true) :
    Accumulates (scan.pushFraction digit) (value * 10 + digitValue digit) := by
  have bound := digitValue_lt digit isDigit
  have counted := accumulates.counted
  have pushed : pushDigit scan.u (some digit) = (value * 10 + digitValue digit) % 2 ^ 64 := by
    rw [pushDigit_some, accumulates.holds]
    omega
  refine ⟨pushed, ?_⟩
  simp only [Scan.pushFraction]
  by_cases counts : pushDigit scan.u (some digit) ≠ 0 ∨ scan.digits ≠ 0
  · rw [if_pos counts, pow_succ]
    omega
  · obtain ⟨nothing, none⟩ := not_or.mp counts
    rw [not_not] at nothing none
    rw [if_neg counts, none]
    rw [none, pow_zero] at counted
    rw [pushed] at nothing
    omega

theorem foldl_pushFraction {scan : Scan} {value : ℕ} (accumulates : Accumulates scan value)
    {digits : Bytes} (all : ∀ digit ∈ digits, isDigit digit = true) :
    Accumulates (digits.foldl Scan.pushFraction scan) (digitsValue value digits) := by
  induction digits generalizing scan value with
  | nil => exact accumulates
  | cons digit digits ih =>
      obtain ⟨first, rest⟩ := List.forall_mem_cons.mp all
      rw [List.foldl_cons, digitsValue_cons]
      exact ih (accumulates.pushFraction first) rest

/-- Behind the first digit that counts every digit counts. -/
theorem digits_foldl_counting (digits : Bytes) {scan : Scan} (counting : scan.digits ≠ 0) :
    (digits.foldl Scan.pushFraction scan).digits = scan.digits + digits.length := by
  induction digits generalizing scan with
  | nil => rfl
  | cons digit digits ih =>
      have pushed : (scan.pushFraction digit).digits = scan.digits + 1 := if_pos (.inr counting)
      rw [List.foldl_cons, ih (by rw [pushed]; exact Nat.succ_ne_zero _), pushed, List.length_cons]
      omega

theorem digitValue_eq_zero : ∀ digit : UInt8, digitValue digit = 0 ↔ digit = 0x30 := by
  decide

/-- In front of it the zeros do not count. -/
theorem digits_foldl_zeros {digits : Bytes} (all : ∀ digit ∈ digits, isDigit digit = true)
    {scan : Scan} (empty : scan.u = 0) (none : scan.digits = 0) :
    (digits.foldl Scan.pushFraction scan).digits = (digits.dropWhile (· == 0x30)).length := by
  induction digits generalizing scan with
  | nil => exact none
  | cons digit digits ih =>
      obtain ⟨first, rest⟩ := List.forall_mem_cons.mp all
      have bound := digitValue_lt digit first
      have pushed : pushDigit scan.u (some digit) = digitValue digit := by
        rw [pushDigit_some, empty]
        omega
      rw [List.foldl_cons]
      by_cases zero : digit = 0x30
      · have nothing : pushDigit scan.u (some digit) = 0 := by
          rw [pushed]
          exact (digitValue_eq_zero digit).mpr zero
        rw [List.dropWhile_cons_of_pos (by rw [zero]; rfl)]
        refine ih rest nothing ?_
        simp only [Scan.pushFraction, nothing, none, ne_eq, not_true_eq_false, or_self, if_false]
      · have counts : pushDigit scan.u (some digit) ≠ 0 := by
          rw [pushed]
          exact mt (digitValue_eq_zero digit).mp zero
        have one : (scan.pushFraction digit).digits = 1 := by
          simp only [Scan.pushFraction, counts, none, ne_eq, not_false_eq_true, true_or, if_true]
        rw [List.dropWhile_cons_of_neg (by simpa using zero),
          digits_foldl_counting digits (by rw [one]; exact one_ne_zero), one, List.length_cons,
          Nat.add_comm]

theorem fractionScan_eq (scan : Scan) (fraction : Option Bytes) :
    (fractionScan scan fraction).u = ((fraction.getD []).foldl Scan.pushFraction scan).u ∧
      (fractionScan scan fraction).digits =
        ((fraction.getD []).foldl Scan.pushFraction scan).digits := by
  cases fraction with
  | none => exact ⟨rfl, rfl⟩
  | some digits =>
      have same : ∀ left right : Scan, left.u = right.u → left.digits = right.digits →
          (digits.foldl Scan.pushFraction left).u = (digits.foldl Scan.pushFraction right).u ∧
            (digits.foldl Scan.pushFraction left).digits =
              (digits.foldl Scan.pushFraction right).digits := by
        induction digits with
        | nil => exact fun left right u digits => ⟨u, digits⟩
        | cons digit digits ih =>
            intro left right u count
            rw [List.foldl_cons, List.foldl_cons]
            refine ih _ _ ?_ ?_
            · simp only [Scan.pushFraction, u]
            · simp only [Scan.pushFraction, u, count]
      exact same { scan with isDouble := true } scan rfl rfl

variable {number : Number}

theorem wholeScan_accumulates (standard : number.Standard) :
    Accumulates (wholeScan number.negative number.whole) (digitsValue 0 number.whole) := by
  refine ⟨wholeScan_u _ _, ?_⟩
  unfold wholeScan
  rcases standard.whole with zero | ⟨nonempty, notZero, all⟩
  · rw [if_pos zero, zero]
    exact Nat.one_pos
  · rw [if_neg (by rintro zero; rw [zero] at notZero; exact notZero rfl)]
    have bound := @digitsValue_lt 0 0 _ Nat.one_pos
      (fun digit member => (isDigit_iff digit).mpr (all digit member))
    rwa [zero_add] at bound

theorem fraction_digits (standard : number.Standard) :
    ∀ digit ∈ number.fraction.getD [], isDigit digit = true := by
  intro digit member
  cases found : number.fraction with
  | none =>
      rw [found] at member
      exact absurd member List.not_mem_nil
  | some digits =>
      rw [found] at member
      exact (isDigit_iff digit).mpr ((standard.fraction digits found).2 digit member)

/-- The accumulator holds the digits of the number modulo `2 ^ 64`. -/
theorem numberScan_accumulates (standard : number.Standard) :
    Accumulates (numberScan number) (digitsValue 0 (writtenDigits number)) := by
  have folded := foldl_pushFraction (wholeScan_accumulates standard) (fraction_digits standard)
  obtain ⟨u, count⟩ := fractionScan_eq (wholeScan number.negative number.whole) number.fraction
  rw [writtenDigits, digitsValue_append]
  exact ⟨u.trans folded.holds, lt_of_lt_of_eq folded.counted (congrArg (10 ^ ·) count.symm)⟩

/-- The count is that of the significant digits. -/
theorem numberScan_digits (standard : number.Standard) :
    (numberScan number).digits = significantDigits number := by
  have count := (fractionScan_eq (wholeScan number.negative number.whole) number.fraction).2
  refine count.trans ?_
  unfold wholeScan significantDigits writtenDigits
  rcases standard.whole with zero | ⟨nonempty, notZero, all⟩
  · rw [if_pos zero, zero, List.singleton_append, List.dropWhile_cons_of_pos rfl]
    exact digits_foldl_zeros (fraction_digits standard) rfl rfl
  · rw [if_neg (by rintro zero; rw [zero] at notZero; exact notZero rfl)]
    cases whole : number.whole with
    | nil => exact absurd whole nonempty
    | cons first rest =>
        rw [whole, List.head?_cons, ne_eq, Option.some.injEq] at notZero
        rw [List.cons_append, List.dropWhile_cons_of_neg (by simpa using notZero),
          digits_foldl_counting _ (Nat.succ_ne_zero _), List.length_cons, List.length_cons,
          List.length_append]
        exact Nat.add_right_comm _ _ _

/-! ## The scanned number -/

theorem fastValue_ne_none {negative : Bool} {u digits : ℕ} {exponent : ℤ} :
    fastValue negative u digits exponent ≠ none ↔
      digits ≤ 19 ∧ strtodFast u exponent ≠ none := by
  unfold fastValue
  by_cases few : digits ≤ 19
  · rw [if_pos few, ne_eq, Option.map_eq_none_iff]
    exact ⟨fun taken => ⟨few, taken⟩, And.right⟩
  · rw [if_neg few]
    exact ⟨fun absurd => (absurd rfl).elim, fun both => (few both.1).elim⟩

/-- With at most 19 significant digits the significand has not wrapped. -/
theorem numberScan_u (standard : number.Standard) (few : significantDigits number ≤ 19) :
    (numberScan number).u = digitsValue 0 (writtenDigits number) := by
  have accumulates := numberScan_accumulates standard
  have counted := accumulates.counted
  rw [numberScan_digits standard] at counted
  have small : digitsValue 0 (writtenDigits number) < 2 ^ 64 :=
    (counted.trans_le (Nat.pow_le_pow_right (by omega) few)).trans (by norm_num)
  rw [accumulates.holds, Nat.mod_eq_of_lt small]

theorem numberExponent_some (standard : number.Standard) {exponent : Exponent}
    (found : number.exponent = some exponent) :
    numberExponent number = saturatedExponent exponent - (number.fraction.getD []).length := by
  rw [numberExponent, found, exponentValue_eq (standard.exponent exponent found)]

/-- The fast conversion is given the number that is written. -/
def FastExact (number : Number) : Prop :=
  (numberScan number).u = digitsValue 0 (writtenDigits number) ∧
    ((numberScan number).u : ℚ) * (10 : ℚ) ^ numberExponent number = writtenMagnitude number

/-- The negation that delivers a negative integer stays within a signed word. -/
def NegatesInRange (u : ℕ) : Prop :=
  -2 ^ 63 ≤ -(UInt64.ofNat u).toInt64.toInt ∧ -(UInt64.ofNat u).toInt64.toInt < 2 ^ 63

/-- The scanner is exact on a number: it comes to its delivery, an integer of 64 bits is
delivered as itself without leaving a signed word, a wider integer as a real, and what
the fast conversion is given for any other number is the number that is written. -/
structure ScansExactly (number : Number) : Prop where
  scanned : ∀ (rest : Bytes) (fuel : ℕ), EndsNumber rest →
    (number.render ++ rest).length < fuel →
    Reaches (number.render ++ rest) rest (readNumber fuel)
      (finishNumber number.negative (numberScan number) (numberExponent number) number.render)
  delivered : ∀ rest : Bytes, Follows rest rest
    (finishNumber number.negative (numberScan number) (numberExponent number) number.render)
    (numberEvents number)
  integer : ∀ integer, writtenInteger number = some integer → -2 ^ 63 ≤ integer →
    integer < 2 ^ 64 →
      (∃ value, numberValue number = some value ∧ isWideInteger value = true ∧
        value.getInteger = integer) ∧
      (number.negative = true → NegatesInRange (numberScan number).u)
  wide : ∀ integer, writtenInteger number = some integer →
    ¬ (-2 ^ 63 ≤ integer ∧ integer < 2 ^ 64) → ∃ value, numberValue number = some (.real value)
  fast : writtenInteger number = none →
    fastValue number.negative (numberScan number).u (numberScan number).digits
      (numberExponent number) ≠ none → FastExact number

/-- The literal is not that of the smallest signed integer, and either its exponent is an
`int` or the fast conversion has no use for what is left of the exponent. -/
structure WithinScanner (number : Number) : Prop where
  integer : writtenInteger number ≠ some (-2 ^ 63)
  exponent : ∀ exponent, number.exponent = some exponent →
    digitsValue 0 exponent.digits ≤ 2147483647 ∨ digitsValue 0 (writtenDigits number) = 0 ∨
      19 < significantDigits number ∨
      strtodFast (digitsValue 0 (writtenDigits number))
        (saturatedExponent exponent - (number.fraction.getD []).length) = none

theorem readNumber_reaches (standard : number.Standard) {rest : Bytes} {fuel : ℕ}
    (ends : EndsNumber rest) (enough : (number.render ++ rest).length < fuel) :
    Reaches (number.render ++ rest) rest (readNumber fuel)
      (finishNumber number.negative (numberScan number) (numberExponent number)
        number.render) := by
  have scannable := Scannable.of_standard standard
  have lexes := readNumber_lexes (number.render ++ rest) fuel enough
    (scannable.startsDigit rest)
  rw [takeNumber_render scannable ends] at lexes
  exact lexes

/-- A number with fraction or exponent whose fast conversion is tried. -/
theorem fastExact_iff (standard : number.Standard) (few : significantDigits number ≤ 19) :
    FastExact number ↔ digitsValue 0 (writtenDigits number) = 0 ∨
      exponentValue number.exponent = writtenExponent number.exponent := by
  have u := numberScan_u standard few
  have ten : (10 : ℚ) ≠ 0 := by norm_num
  rw [FastExact, u, writtenMagnitude, numberExponent]
  constructor
  · rintro ⟨-, same⟩
    rcases mul_eq_mul_left_iff.mp same with powers | zero
    · have exponents := zpow_right_injective₀ (by norm_num : (0 : ℚ) < 10) (by norm_num) powers
      exact .inr (sub_left_inj.mp exponents)
    · exact .inl (Nat.cast_eq_zero.mp zero)
  · rintro (zero | same)
    · rw [zero, Nat.cast_zero, zero_mul, zero_mul]
      exact ⟨rfl, rfl⟩
    · rw [same]
      exact ⟨rfl, rfl⟩

/-! ## Integers -/

theorem isDouble_integer {integer : ℤ} (written : writtenInteger number = some integer) :
    (numberScan number).isDouble = decide (max64 number.negative < digitsValue 0 number.whole) := by
  simp only [writtenInteger, Option.ite_none_right_eq_some, Option.some.injEq] at written
  obtain ⟨⟨fraction, exponent⟩, -⟩ := written
  rw [numberScan_integer fraction exponent, wholeScan_isDouble]

theorem u_integer {integer : ℤ} (written : writtenInteger number = some integer) :
    (numberScan number).u = digitsValue 0 number.whole % 2 ^ 64 := by
  simp only [writtenInteger, Option.ite_none_right_eq_some, Option.some.injEq] at written
  obtain ⟨⟨fraction, exponent⟩, -⟩ := written
  rw [numberScan_integer fraction exponent, wholeScan_u]

theorem written_negative {integer : ℤ} (written : writtenInteger number = some integer)
    (negative : number.negative = true) : integer = -(digitsValue 0 number.whole : ℤ) := by
  simp only [writtenInteger, Option.ite_none_right_eq_some, Option.some.injEq] at written
  rw [← written.2, if_pos negative]

theorem written_within {integer : ℤ} (written : writtenInteger number = some integer) :
    -2 ^ 63 ≤ integer ∧ integer < 2 ^ 64 ↔ digitsValue 0 number.whole ≤ max64 number.negative := by
  simp only [writtenInteger, Option.ite_none_right_eq_some, Option.some.injEq] at written
  obtain ⟨-, rfl⟩ := written
  unfold max64
  by_cases negative : number.negative = true
  · rw [if_pos negative, if_pos negative]
    omega
  · rw [if_neg negative, if_neg negative]
    omega

/-- A number that is not delivered as an integer is delivered as a real. -/
theorem numberValue_real (standard : number.Standard)
    (isDouble : (numberScan number).isDouble = true) :
    ∃ value, numberValue number = some (.real value) := by
  unfold numberValue
  dsimp only
  rw [if_pos isDouble]
  cases fast : fastValue number.negative (numberScan number).u (numberScan number).digits
      (numberExponent number) with
  | some value =>
      simp only [fastValue, Option.ite_none_right_eq_some, Option.map_eq_some_iff] at fast
      obtain ⟨-, real, -, rfl⟩ := fast
      exact ⟨_, rfl⟩
  | none =>
      obtain ⟨real, slow⟩ := Option.isSome_iff_exists.mp (strtodSlow_standard standard)
      exact ⟨real, congrArg (Option.map Value.real) slow⟩

/-- The conversion to a signed word and its negation, up to `2 ^ 63`. -/
theorem negatesInRange_iff {u : ℕ} (small : u ≤ 2 ^ 63) : NegatesInRange u ↔ u ≠ 2 ^ 63 := by
  unfold NegatesInRange
  rw [UInt64.toInt64_ofNat']
  by_cases last : u = 2 ^ 63
  · subst last
    decide
  · have below : u < 2 ^ 63 := lt_of_le_of_ne small last
    rw [Int64.toInt_ofNat_of_lt below]
    constructor
    · exact fun _ => last
    · intro _
      omega

/-- The delivery of a negative integer stays within a signed word for all but the smallest. -/
theorem negates_iff {integer : ℤ} (written : writtenInteger number = some integer)
    (within : digitsValue 0 number.whole ≤ max64 number.negative)
    (negative : number.negative = true) :
    NegatesInRange (numberScan number).u ↔ integer ≠ -2 ^ 63 := by
  have limit : max64 number.negative = 2 ^ 63 := if_pos negative
  rw [limit] at within
  rw [u_integer written, written_negative written negative,
    Nat.mod_eq_of_lt (within.trans_lt (by norm_num)), negatesInRange_iff within]
  omega

/-! ## Numbers with fraction or exponent -/

/-- What the fast conversion is given is exact unless it is given less of the exponent
than is written. -/
theorem fast_exact_iff (standard : number.Standard) :
    (fastValue number.negative (numberScan number).u (numberScan number).digits
        (numberExponent number) ≠ none → FastExact number) ↔
      ∀ exponent, number.exponent = some exponent →
        digitsValue 0 exponent.digits ≤ 2147483647 ∨ digitsValue 0 (writtenDigits number) = 0 ∨
          19 < significantDigits number ∨
          strtodFast (digitsValue 0 (writtenDigits number))
            (saturatedExponent exponent - (number.fraction.getD []).length) = none := by
  rw [fastValue_ne_none, numberScan_digits standard]
  by_cases few : significantDigits number ≤ 19
  · rw [numberScan_u standard few, fastExact_iff standard few]
    cases found : number.exponent with
    | none =>
        exact ⟨fun _ _ absurd => (by cases absurd), fun _ _ => .inr rfl⟩
    | some exponent =>
        have scale := numberExponent_some standard found
        rw [scale, exponentValue_eq (standard.exponent exponent found),
          saturatedExponent_eq_iff]
        constructor
        · rintro exact_ _ ⟨⟩
          by_cases taken : strtodFast (digitsValue 0 (writtenDigits number))
              (saturatedExponent exponent - (number.fraction.getD []).length) = none
          · exact .inr (.inr (.inr taken))
          · rcases exact_ ⟨few, taken⟩ with zero | int
            · exact .inr (.inl zero)
            · exact .inl int
        · intro within taken
          rcases within exponent rfl with int | zero | many | declined
          · exact .inr int
          · exact .inl zero
          · exact absurd few (not_le.mpr many)
          · exact absurd declined taken.2
  · constructor
    · exact fun _ _ _ => .inr (.inr (.inl (not_le.mp few)))
    · exact fun _ taken => absurd taken.1 few

theorem written_none_of_exponent {exponent : Exponent} (found : number.exponent = some exponent) :
    writtenInteger number = none := by
  rw [writtenInteger, if_neg]
  rintro ⟨-, none⟩
  rw [found] at none
  cases none

/-- The scanner is exact on the literals within its bounds, and on no others. -/
theorem number_scanned_exactly_iff (number : Number) (standard : number.Standard) :
    ScansExactly number ↔ WithinScanner number := by
  constructor
  · intro exact_
    constructor
    · intro written
      have within := (written_within written).mp ⟨le_rfl, by norm_num⟩
      have negative : number.negative = true := by
        by_contra positive
        simp only [writtenInteger, Option.ite_none_right_eq_some, Option.some.injEq,
          if_neg positive] at written
        omega
      have negates := (exact_.integer _ written le_rfl (by norm_num)).2 negative
      exact (negates_iff written within negative).mp negates rfl
    · intro exponent found
      exact (fast_exact_iff standard).mp (exact_.fast (written_none_of_exponent found)) exponent
        found
  · intro within
    refine ⟨fun rest fuel ends enough => readNumber_reaches standard ends enough,
      fun rest => finishNumber_follows number rest, ?_, ?_, ?_⟩
    · intro integer written lower upper
      refine ⟨numberValue_integer written lower upper, fun negative => ?_⟩
      refine (negates_iff written ((written_within written).mp ⟨lower, upper⟩) negative).mpr ?_
      rintro rfl
      exact within.integer written
    · intro integer written outside
      refine numberValue_real standard ?_
      rw [isDouble_integer written, decide_eq_true_iff]
      exact not_le.mp (mt (written_within written).mpr outside)
    · exact fun _ => (fast_exact_iff standard).mpr within.exponent

theorem number_scanned_exactly_tenth :
    ScansExactly ⟨false, [0x30], some [0x31], none⟩ ↔
      WithinScanner ⟨false, [0x30], some [0x31], none⟩ :=
  number_scanned_exactly_iff ⟨false, [0x30], some [0x31], none⟩
    ⟨.inl rfl, fun digits found => by
      obtain rfl := Option.some.inj found
      exact ⟨List.cons_ne_nil _ _, List.forall_mem_singleton.2 ⟨by decide, by decide⟩⟩,
      fun exponent found => by cases found⟩

/-- The literal `-9223372036854775808`. -/
def smallestInteger : Number :=
  ⟨true, [0x39, 0x32, 0x32, 0x33, 0x33, 0x37, 0x32, 0x30, 0x33, 0x36, 0x38, 0x35, 0x34, 0x37,
    0x37, 0x35, 0x38, 0x30, 0x38], none, none⟩

/-- The negation that delivers the smallest integer leaves the signed words. -/
theorem smallest_integer_overflows :
    smallestInteger.Standard ∧ ¬ ScansExactly smallestInteger := by
  have written : writtenInteger smallestInteger = some (-2 ^ 63) := by decide
  have digits : smallestInteger.whole.all isDigit = true := by decide
  refine ⟨⟨.inr ⟨List.cons_ne_nil _ _, by decide, fun digit member =>
      (isDigit_iff digit).mp (List.all_eq_true.mp digits digit member)⟩,
    fun digits absurd => (by cases absurd), fun exponent absurd => (by cases absurd)⟩, ?_⟩
  intro exact_
  have negates := (exact_.integer _ written le_rfl (by norm_num)).2 rfl
  exact (negates_iff written (by decide) rfl).mp negates rfl

end Join.JsonReader
