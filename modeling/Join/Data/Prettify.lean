import Join.Data.Grisu
import Join.Data.JsonScanning
import Join.Library.Buffer

/-!
# Laying out a double

`prettify` turns the digits of a double into a number, in place: the digits move to make
room for the point, zeros fill what lies between the digits and the point, and an exponent
is written when the point is too far away.

`layout` is the number that is written, as a tree of its parts. It is a number of RFC 8259
whose exact value is that of the digits and their exponent, and `prettify` leaves its
rendering in the buffer, as long as the exponent has no more than three digits.
-/

set_option autoImplicit false

namespace Join

open Library Library.Ieee Library.Json JsonReader

/-! ## The code -/

/-- `*buffer = '0' + digit`. -/
def putNumber (buffer digit : ℕ) : Buffered Unit := Buffered.put buffer (UInt8.ofNat (0x30 + digit))

/-- The digits that `writeExponent` writes for an exponent without its sign. -/
def putExponent (buffer k : ℕ) : Buffered ℕ :=
  if k ≥ 100 then do
    putNumber buffer (k / 100)
    putNumber (buffer + 1) (k % 100 / 10)
    putNumber (buffer + 2) (k % 100 % 10)
    pure (buffer + 3)
  else if k ≥ 10 then do
    putNumber buffer (k / 10)
    putNumber (buffer + 1) (k % 10)
    pure (buffer + 2)
  else do
    putNumber buffer k
    pure (buffer + 1)

/-- `writeExponent`: the end of what is written. -/
def writeExponent (buffer : ℕ) (k : ℤ) : Buffered ℕ := do
  Buffered.put buffer 0x2D
  putExponent (buffer + if k < 0 then 1 else 0) k.natAbs

/-- `prettify`: the end of what is written. -/
def prettify (buffer length : ℕ) (k : ℤ) : Buffered ℕ :=
  let kk : ℤ := length + k
  if length ≤ kk ∧ kk ≤ 21 then do
    Buffered.memset (buffer + length) 0x30 (kk - length).toNat
    Buffered.put (buffer + kk.toNat) 0x2E
    Buffered.put (buffer + kk.toNat + 1) 0x30
    pure (buffer + kk.toNat + 2)
  else if 0 < kk ∧ kk ≤ 21 then do
    Buffered.memmove (buffer + kk.toNat + 1) (buffer + kk.toNat) (length - kk).toNat
    Buffered.put (buffer + kk.toNat) 0x2E
    pure (buffer + length + 1)
  else if -6 < kk ∧ kk ≤ 0 then do
    let offset := (2 - kk).toNat
    Buffered.memmove (buffer + offset) buffer length
    Buffered.put buffer 0x30
    Buffered.put (buffer + 1) 0x2E
    Buffered.memset (buffer + 2) 0x30 (offset - 2)
    pure (buffer + length + offset)
  else if length = 1 then do
    Buffered.put (buffer + 1) 0x65
    writeExponent (buffer + 2) (kk - 1)
  else do
    Buffered.memmove (buffer + 2) (buffer + 1) (length - 1)
    Buffered.put (buffer + 1) 0x2E
    Buffered.put (buffer + length + 1) 0x65
    writeExponent (buffer + length + 2) (kk - 1)

/-! ## The number that is written -/

/-- The digits of an exponent, three at most. -/
def exponentDigits (k : ℕ) : Bytes :=
  if k ≥ 100 then
    [UInt8.ofNat (0x30 + k / 100), UInt8.ofNat (0x30 + k % 100 / 10),
      UInt8.ofNat (0x30 + k % 100 % 10)]
  else if k ≥ 10 then [UInt8.ofNat (0x30 + k / 10), UInt8.ofNat (0x30 + k % 10)]
  else [UInt8.ofNat (0x30 + k)]

/-- An exponent with its sign when it is negative. -/
def layoutExponent (k : ℤ) : Exponent :=
  ⟨0x65, if k < 0 then some 0x2D else none, exponentDigits k.natAbs⟩

/-- The number that digits and an exponent are laid out as. -/
def layout (digits : Bytes) (k : ℤ) : Number :=
  let kk : ℤ := digits.length + k
  if digits.length ≤ kk ∧ kk ≤ 21 then
    ⟨false, digits ++ List.replicate (kk - digits.length).toNat 0x30, some [0x30], none⟩
  else if 0 < kk ∧ kk ≤ 21 then
    ⟨false, digits.take kk.toNat, some (digits.drop kk.toNat), none⟩
  else if -6 < kk ∧ kk ≤ 0 then
    ⟨false, [0x30], some (List.replicate (-kk).toNat 0x30 ++ digits), none⟩
  else if digits.length = 1 then ⟨false, digits, none, some (layoutExponent (kk - 1))⟩
  else ⟨false, digits.take 1, some (digits.drop 1), some (layoutExponent (kk - 1))⟩

/-! ### The exponent -/

section

variable {k : ℕ}

theorem exponentDigits_ne_nil (k : ℕ) : exponentDigits k ≠ [] := by
  unfold exponentDigits
  split_ifs <;> exact List.cons_ne_nil _ _

theorem exponentDigits_isDigit (small : k < 1000) :
    ∀ digit ∈ exponentDigits k, isDigit digit = true := by
  unfold exponentDigits
  split_ifs with hundreds tens
  all_goals
    simp only [List.forall_mem_cons, List.not_mem_nil, false_imp_iff, implies_true, and_true]
  · exact ⟨isDigit_digit (by omega), isDigit_digit (by omega), isDigit_digit (by omega)⟩
  · exact ⟨isDigit_digit (by omega), isDigit_digit (by omega)⟩
  · exact isDigit_digit (by omega)

theorem digitsValue_exponentDigits (small : k < 1000) :
    digitsValue 0 (exponentDigits k) = k := by
  unfold exponentDigits
  split_ifs with hundreds tens
  · simp only [digitsValue, List.foldl_cons, List.foldl_nil]
    rw [digitValue_digit (by omega), digitValue_digit (by omega), digitValue_digit (by omega)]
    omega
  · simp only [digitsValue, List.foldl_cons, List.foldl_nil]
    rw [digitValue_digit (by omega), digitValue_digit (by omega)]
    omega
  · simp only [digitsValue, List.foldl_cons, List.foldl_nil]
    rw [digitValue_digit (by omega)]
    omega

theorem length_exponentDigits_le (k : ℕ) : (exponentDigits k).length ≤ 3 := by
  unfold exponentDigits
  split_ifs <;> simp

end

theorem layoutExponent_standard {k : ℤ} (lower : -1000 < k) (upper : k < 1000) :
    (layoutExponent k).Standard := by
  refine ⟨.inl rfl, ?_, exponentDigits_ne_nil _, ?_⟩
  · unfold layoutExponent
    dsimp only
    split_ifs
    · exact .inr (.inr rfl)
    · exact .inl rfl
  · intro digit member
    exact (isDigit_iff digit).mp (exponentDigits_isDigit (by omega) digit member)

theorem writtenExponent_layout {k : ℤ} (lower : -1000 < k) (upper : k < 1000) :
    writtenExponent (some (layoutExponent k)) = k := by
  have value : (digitsValue 0 (exponentDigits k.natAbs) : ℤ) = k.natAbs := by
    exact_mod_cast digitsValue_exponentDigits (by omega)
  unfold writtenExponent layoutExponent
  dsimp only
  rw [value]
  by_cases negative : k < 0
  · rw [if_pos negative, if_pos rfl]
    omega
  · rw [if_neg negative, if_neg (by decide)]
    omega

/-! ### The value -/

theorem digitsValue_zeros (start count : ℕ) :
    digitsValue start (List.replicate count 0x30) = start * 10 ^ count := by
  induction count generalizing start with
  | zero => rw [List.replicate_zero, pow_zero, mul_one]; rfl
  | succ count ih =>
      have zero : digitValue 0x30 = 0 := rfl
      rw [List.replicate_succ, digitsValue_cons, ih, zero, Nat.add_zero, pow_succ']
      ring

section

variable {digits : Bytes} {k : ℤ}

/-- The exponent that is printed, if any, has three digits at most. -/
def ShortExponent (digits : Bytes) (k : ℤ) : Prop :=
  -1000 < (digits.length : ℤ) + k - 1 ∧ (digits.length : ℤ) + k - 1 < 1000

/-- The number has the value of the digits and their exponent. -/
theorem writtenMagnitude_layout (string : DigitString digits) (short : ShortExponent digits k) :
    writtenMagnitude (layout digits k) = digitsValue 0 digits * 10 ^ k := by
  have some_ := List.length_pos_of_ne_nil string.nonempty
  have exponent := writtenExponent_layout short.1 short.2
  unfold layout
  dsimp only
  split_ifs with whole inner small single
  · obtain ⟨count, size⟩ : ∃ count : ℕ, (digits.length : ℤ) + k - digits.length = count :=
      ⟨k.toNat, by omega⟩
    obtain rfl : k = count := by omega
    have point : digitValue 0x30 = 0 := rfl
    rw [size, Int.toNat_natCast, writtenMagnitude, writtenDigits, Option.getD_some,
      digitsValue_concat, digitsValue_append, digitsValue_zeros, point]
    simp only [writtenExponent, List.length_singleton]
    push_cast
    rw [zpow_natCast]
    ring
  · rw [writtenMagnitude, writtenDigits, Option.getD_some, List.take_append_drop]
    simp only [writtenExponent, List.length_drop]
    congr 2
    omega
  · rw [writtenMagnitude, writtenDigits, Option.getD_some, ← List.append_assoc,
      digitsValue_append, show ([0x30] : Bytes) = List.replicate 1 0x30 from rfl,
      ← List.replicate_add, digitsValue_zeros, Nat.zero_mul]
    simp only [writtenExponent, List.length_append, List.length_replicate]
    congr 2
    push_cast
    omega
  · rw [writtenMagnitude, writtenDigits, Option.getD_none, List.append_nil, exponent, single]
    congr 2
    simp
  · rw [writtenMagnitude, writtenDigits, Option.getD_some, List.take_append_drop, exponent]
    congr 2
    rw [List.length_drop]
    omega

/-- The number is one of RFC 8259. -/
theorem layout_standard (string : DigitString digits) (short : ShortExponent digits k) :
    (layout digits k).Standard := by
  have some_ := List.length_pos_of_ne_nil string.nonempty
  have all : ∀ digit ∈ digits, IsDigit digit := by
    intro digit member
    exact (isDigit_iff digit).mp (string.all digit member)
  have zeros {count : ℕ} : ∀ digit ∈ List.replicate count (0x30 : UInt8), IsDigit digit := by
    intro digit member
    rw [List.eq_of_mem_replicate member]
    decide
  have front {count : ℕ} (positive : 0 < count) : WholePart (digits.take count) := by
    refine .inr ⟨?_, ?_, ?_⟩
    · intro none
      exact absurd (congrArg List.length none) (by rw [List.length_take, List.length_nil]; omega)
    · rw [List.head?_take, if_neg positive.ne']
      exact string.leading
    · intro digit member
      exact all digit (List.mem_of_mem_take member)
  have mark : ∀ exponent, some (layoutExponent (digits.length + k - 1)) = some exponent →
      exponent.Standard := by
    intro exponent same
    rw [← Option.some.inj same]
    exact layoutExponent_standard short.1 short.2
  unfold layout
  dsimp only
  split_ifs with whole inner small single
  · refine ⟨.inr ⟨?_, ?_, ?_⟩, ?_, by rintro _ ⟨⟩⟩
    · simp [string.nonempty]
    · rw [List.head?_append_of_ne_nil _ string.nonempty]
      exact string.leading
    · intro digit member
      exact (List.mem_append.mp member).elim (all digit) (zeros digit)
    · rintro _ ⟨⟩
      exact ⟨List.cons_ne_nil _ _, @zeros 1⟩
  · refine ⟨front (by omega), ?_, by rintro _ ⟨⟩⟩
    rintro _ ⟨⟩
    refine ⟨?_, fun digit member => all digit (List.mem_of_mem_drop member)⟩
    intro none
    exact absurd (congrArg List.length none) (by rw [List.length_drop, List.length_nil]; omega)
  · refine ⟨.inl rfl, ?_, by rintro _ ⟨⟩⟩
    rintro _ ⟨⟩
    refine ⟨by simp [string.nonempty], ?_⟩
    intro digit member
    exact (List.mem_append.mp member).elim (zeros digit) (all digit)
  · refine ⟨.inr ⟨string.nonempty, string.leading, all⟩, by rintro _ ⟨⟩, mark⟩
  · refine ⟨front Nat.one_pos, ?_, mark⟩
    rintro _ ⟨⟩
    refine ⟨?_, fun digit member => all digit (List.mem_of_mem_drop member)⟩
    intro none
    exact absurd (congrArg List.length none) (by rw [List.length_drop, List.length_nil]; omega)

end

/-! ## What is left in the buffer -/

/-- The program finds this text behind `front`, writes the other one over it and returns
its end. -/
def Rewrites (program : Buffered ℕ) (front before text : Bytes) : Prop :=
  ∀ back, program (front ++ (before ++ back)) =
    some (front.length + text.length, front ++ (text ++ back))

theorem putNumber_then {α : Type} {front back : Bytes} {place : ℕ} (here : place = front.length)
    (former : UInt8) (digit : ℕ) (next : Unit → Buffered α) :
    (putNumber place digit >>= next) (front ++ former :: back) =
      next () ((front ++ [UInt8.ofNat (0x30 + digit)]) ++ back) :=
  Buffered.put_then here former _ next

theorem putExponent_rewrites (k : ℕ) (front : Bytes) {used : Bytes}
    (length : used.length = (exponentDigits k).length) :
    Rewrites (putExponent front.length k) front used (exponentDigits k) := by
  intro back
  unfold putExponent exponentDigits at *
  split_ifs at length ⊢ with hundreds tens
  · obtain ⟨a, b, c, rfl⟩ := List.length_eq_three.mp length
    simp only [List.cons_append, List.nil_append]
    rw [putNumber_then rfl, putNumber_then (by simp), putNumber_then (by simp)]
    simp [Buffered.pure_apply]
  · obtain ⟨a, b, rfl⟩ := List.length_eq_two.mp length
    simp only [List.cons_append, List.nil_append]
    rw [putNumber_then rfl, putNumber_then (by simp)]
    simp [Buffered.pure_apply]
  · obtain ⟨a, rfl⟩ := List.length_eq_one_iff.mp length
    simp only [List.cons_append, List.nil_append]
    rw [putNumber_then rfl]
    simp [Buffered.pure_apply]

/-- The exponent with its sign. -/
theorem writeExponent_rewrites (k : ℤ) (front : Bytes) {used : Bytes}
    (length : used.length =
      ((layoutExponent k).sign.toList ++ (layoutExponent k).digits).length) :
    Rewrites (writeExponent front.length k) front used
      ((layoutExponent k).sign.toList ++ (layoutExponent k).digits) := by
  intro back
  have some_ := List.length_pos_of_ne_nil (exponentDigits_ne_nil k.natAbs)
  unfold writeExponent layoutExponent at *
  dsimp only at *
  by_cases negative : k < 0
  · rw [if_pos negative] at length ⊢
    rw [if_pos negative]
    obtain ⟨first, rest, rfl⟩ := @List.exists_cons_of_length_pos _ used (by
      rw [length]
      simp)
    have digits := putExponent_rewrites k.natAbs (front ++ [0x2D])
      (show rest.length = _ by simpa using length) back
    rw [List.length_append, List.length_singleton] at digits
    rw [List.cons_append, Buffered.put_then rfl, digits]
    simp [Nat.add_assoc, Nat.add_comm 1]
  · rw [if_neg negative] at length ⊢
    rw [if_neg negative]
    obtain ⟨first, rest, rfl⟩ := @List.exists_cons_of_length_pos _ used (by
      rw [length]
      simpa using some_)
    have digits := putExponent_rewrites k.natAbs front
      (show ((0x2D : UInt8) :: rest).length = _ by simpa using length) back
    rw [List.cons_append, Buffered.put_then rfl, List.append_assoc]
    exact digits

/-! ### The five layouts -/

section

variable {front used : Bytes}

/-- Zeros behind the digits, then a point and a zero. -/
theorem pad_rewrites (digits : Bytes) (count : ℕ) (length : used.length = count + 2) :
    Rewrites (do
        Buffered.memset (front.length + digits.length) 0x30 count
        Buffered.put (front.length + digits.length + count) 0x2E
        Buffered.put (front.length + digits.length + count + 1) 0x30
        pure (front.length + digits.length + count + 2))
      front (digits ++ used) (digits ++ List.replicate count 0x30 ++ [0x2E, 0x30]) := by
  intro back
  obtain ⟨a, b, rest⟩ := List.length_eq_two.mp (show (used.drop count).length = 2 by
    rw [List.length_drop]
    omega)
  have split : front ++ (digits ++ used ++ back) =
      (front ++ digits) ++ (used.take count ++ a :: b :: back) := by
    conv_lhs => rw [← List.take_append_drop count used, rest]
    simp
  have filled := @Buffered.memset_append (front ++ digits) (a :: b :: back) (used.take count)
    (front.length + digits.length) count (by simp) (by
      rw [List.length_take]
      omega) 0x30
  rw [split, Buffered.bind_of_run filled, ← List.append_assoc,
    Buffered.put_then (by simp; omega), Buffered.put_then (by simp; omega)]
  simp [Buffered.pure_apply]
  omega

/-- A point inside the digits. -/
theorem split_rewrites (whole : Bytes) {fraction : Bytes} (some_ : fraction ≠ [])
    (length : used.length = 1) :
    Rewrites (do
        Buffered.memmove (front.length + whole.length + 1) (front.length + whole.length)
          fraction.length
        Buffered.put (front.length + whole.length) 0x2E
        pure (front.length + (whole ++ fraction).length + 1))
      front (whole ++ fraction ++ used) (whole ++ 0x2E :: fraction) := by
  intro back
  obtain ⟨a, rfl⟩ := List.length_eq_one_iff.mp length
  obtain ⟨first, rest, rfl⟩ := List.exists_cons_of_ne_nil some_
  have moved := @Buffered.memmove_append (front ++ whole ++ [first]) back (rest ++ [a])
    (first :: rest) (front.length + whole.length + 1) (front.length + whole.length)
    (first :: rest).length (front ++ (whole ++ first :: rest ++ [a] ++ back)) (by simp; omega)
    (by
      rw [show front ++ (whole ++ first :: rest ++ [a] ++ back) =
        (front ++ whole) ++ ((first :: rest) ++ ([a] ++ back)) by simp,
        ← List.length_append, List.drop_left, List.take_left])
    (by simp) (by simp; omega) (by simp)
  rw [Buffered.bind_of_run moved, List.append_assoc (front ++ whole), List.singleton_append,
    Buffered.put_then (by simp)]
  simp [Buffered.pure_apply]
  omega

/-- Zeros between the point and the digits. -/
theorem lead_rewrites (digits : Bytes) (count : ℕ) (length : used.length = count + 2) :
    Rewrites (do
        Buffered.memmove (front.length + (count + 2)) front.length digits.length
        Buffered.put front.length 0x30
        Buffered.put (front.length + 1) 0x2E
        Buffered.memset (front.length + 2) 0x30 count
        pure (front.length + digits.length + (count + 2)))
      front (digits ++ used) (0x30 :: 0x2E :: (List.replicate count 0x30 ++ digits)) := by
  intro back
  obtain ⟨a, b, zeros, first⟩ : ∃ a b zeros, (digits ++ used).take (count + 2) = a :: b :: zeros := by
    have size : ((digits ++ used).take (count + 2)).length = count + 2 := by
      rw [List.length_take, List.length_append]
      omega
    obtain ⟨a, rest, head⟩ := @List.exists_cons_of_length_pos _
      ((digits ++ used).take (count + 2)) (by omega)
    rw [head, List.length_cons] at size
    obtain ⟨b, zeros, rfl⟩ := @List.exists_cons_of_length_pos _ rest (by omega)
    exact ⟨a, b, zeros, head⟩
  have zeros_length : zeros.length = count := by
    have size := congrArg List.length first
    rw [List.length_take, List.length_append, List.length_cons, List.length_cons] at size
    omega
  have moved := @Buffered.memmove_append (front ++ (a :: b :: zeros)) back
    ((digits ++ used).drop (count + 2)) digits (front.length + (count + 2)) front.length
    digits.length (front ++ (digits ++ used ++ back)) (by simp)
    (by rw [List.drop_left, List.append_assoc, List.take_left])
    (by
      conv_lhs => rw [← List.take_append_drop (count + 2) (digits ++ used), first]
      simp)
    (by simp [zeros_length])
    (by
      rw [List.length_drop, List.length_append]
      omega)
  have split : (front ++ a :: b :: zeros) ++ (digits ++ back) =
      front ++ a :: (b :: (zeros ++ (digits ++ back))) := by simp
  rw [Buffered.bind_of_run moved, split, Buffered.put_then rfl, Buffered.put_then (by simp),
    Buffered.bind_of_run (Buffered.memset_append (by simp) zeros_length 0x30)]
  simp [Buffered.pure_apply]
  omega

/-- A digit alone with an exponent. -/
theorem single_rewrites (digit : UInt8) (k : ℤ)
    (length : used.length = (layoutExponent k).render.length) :
    Rewrites (do
        Buffered.put (front.length + 1) 0x65
        writeExponent (front.length + 2) k)
      front ([digit] ++ used) ([digit] ++ (layoutExponent k).render) := by
  intro back
  obtain ⟨a, rest, rfl⟩ := @List.exists_cons_of_length_pos _ used (by
    rw [length, Exponent.render]
    simp)
  have exponent := writeExponent_rewrites k (front ++ [digit] ++ [0x65])
    (show rest.length = _ by simpa [Exponent.render] using length) back
  have split : front ++ ([digit] ++ a :: rest ++ back) =
      (front ++ [digit]) ++ a :: (rest ++ back) := by simp
  have place : (front ++ [digit] ++ [0x65]).length = front.length + 2 := by simp
  rw [place] at exponent
  rw [split, Buffered.put_then (by simp), exponent]
  simp [Exponent.render, layoutExponent]
  omega

/-- The first digit, a point, the other digits and an exponent. -/
theorem scientific_rewrites (digit : UInt8) {rest : Bytes} (some_ : rest ≠ []) (k : ℤ)
    (length : used.length = 1 + (layoutExponent k).render.length) :
    Rewrites (do
        Buffered.memmove (front.length + 2) (front.length + 1) rest.length
        Buffered.put (front.length + 1) 0x2E
        Buffered.put (front.length + (rest.length + 1) + 1) 0x65
        writeExponent (front.length + (rest.length + 1) + 2) k)
      front (digit :: rest ++ used) (digit :: 0x2E :: rest ++ (layoutExponent k).render) := by
  intro back
  obtain ⟨a, more, rfl⟩ := @List.exists_cons_of_length_pos _ used (by omega)
  obtain ⟨b, last, rfl⟩ := @List.exists_cons_of_length_pos _ more (by
    rw [List.length_cons, Exponent.render] at length
    simp at length
    omega)
  obtain ⟨first, others, rfl⟩ := List.exists_cons_of_ne_nil some_
  have moved := @Buffered.memmove_append (front ++ [digit, first]) (b :: last ++ back)
    (others ++ [a]) (first :: others) (front.length + 2) (front.length + 1)
    (first :: others).length (front ++ (digit :: (first :: others) ++ a :: b :: last ++ back))
    (by simp; omega)
    (by
      rw [show front ++ (digit :: (first :: others) ++ a :: b :: last ++ back) =
        (front ++ [digit]) ++ ((first :: others) ++ (a :: b :: last ++ back)) by simp,
        show front.length + 1 = (front ++ [digit]).length by simp, List.drop_left, List.take_left])
    (by simp) (by simp) (by simp)
  have exponent := writeExponent_rewrites k
    (front ++ [digit] ++ [0x2E] ++ first :: others ++ [0x65])
    (show last.length = _ by simp [Exponent.render] at length ⊢; omega) back
  have place : (front ++ [digit] ++ [0x2E] ++ first :: others ++ [0x65]).length =
      front.length + ((first :: others).length + 1) + 2 := by
    simp
    omega
  rw [place] at exponent
  have point : (front ++ [digit, first]) ++ (first :: others ++ (b :: last ++ back)) =
      (front ++ [digit]) ++ first :: (first :: others ++ (b :: last ++ back)) := by simp
  have mark : front ++ [digit] ++ [0x2E] ++ (first :: others ++ (b :: last ++ back)) =
      (front ++ [digit] ++ [0x2E] ++ first :: others) ++ b :: (last ++ back) := by simp
  rw [Buffered.bind_of_run moved, point, Buffered.put_then (by simp), mark,
    Buffered.put_then (by simp; omega), exponent]
  simp [Exponent.render, layoutExponent]
  omega

end

/-- `prettify` leaves the number in the buffer. -/
theorem prettify_rewrites {digits : Bytes} (string : DigitString digits) (k : ℤ) (front : Bytes)
    {used : Bytes} (length : digits.length + used.length = (layout digits k).render.length) :
    Rewrites (prettify front.length digits.length k) front (digits ++ used)
      (layout digits k).render := by
  have some_ := List.length_pos_of_ne_nil string.nonempty
  unfold layout at *
  unfold prettify
  dsimp only at *
  split_ifs at length ⊢ with whole inner small single
  · obtain ⟨count, size⟩ : ∃ count : ℕ, (digits.length : ℤ) + k = (digits.length + count : ℕ) :=
      ⟨k.toNat, by omega⟩
    have zeros : (((digits.length + count : ℕ) : ℤ) - digits.length).toNat = count := by omega
    rw [size, zeros] at length ⊢
    rw [Int.toNat_natCast]
    simp only [Number.render, renderMinus, renderFraction, renderExponent, Bool.false_eq_true,
      if_false, List.nil_append, List.append_nil, ← Nat.add_assoc] at length ⊢
    refine pad_rewrites digits count ?_
    simp at length
    omega
  · obtain ⟨place, size⟩ : ∃ place : ℕ, (digits.length : ℤ) + k = place :=
      ⟨((digits.length : ℤ) + k).toNat, by omega⟩
    have counted : (digits.take place).length = place := by
      rw [List.length_take]
      omega
    have rest : (digits.drop place).length = ((digits.length : ℤ) - place).toNat := by
      rw [List.length_drop]
      omega
    rw [size, Int.toNat_natCast] at length ⊢
    simp only [Number.render, renderMinus, renderFraction, renderExponent, Bool.false_eq_true,
      if_false, List.nil_append, List.append_nil] at length ⊢
    have rewrites := @split_rewrites front used (digits.take place) (digits.drop place)
      (by
        intro none
        rw [none, List.length_nil] at rest
        omega)
      (by
        rw [List.length_append, List.length_cons, counted, List.length_drop] at length
        omega)
    rwa [counted, rest, List.take_append_drop] at rewrites
  · obtain ⟨count, size⟩ : ∃ count : ℕ, (digits.length : ℤ) + k = -(count : ℤ) :=
      ⟨(-((digits.length : ℤ) + k)).toNat, by omega⟩
    have zeros : (-(-(count : ℤ))).toNat = count := by omega
    have offset : (2 - -(count : ℤ)).toNat = count + 2 := by omega
    rw [size, zeros] at length ⊢
    rw [offset, Nat.add_sub_cancel]
    simp only [Number.render, renderMinus, renderFraction, renderExponent, Bool.false_eq_true,
      if_false, List.nil_append, List.append_nil] at length ⊢
    refine lead_rewrites digits count ?_
    simp at length
    omega
  · obtain ⟨digit, rfl⟩ := List.length_eq_one_iff.mp single
    simp only [Number.render, renderMinus, renderFraction, renderExponent, Bool.false_eq_true,
      if_false, List.nil_append, List.append_nil] at length ⊢
    refine single_rewrites digit _ ?_
    simp only [List.length_append, List.length_singleton] at length ⊢
    omega
  · obtain ⟨digit, rest, rfl⟩ := List.exists_cons_of_ne_nil string.nonempty
    simp only [Number.render, renderMinus, renderFraction, renderExponent, Bool.false_eq_true,
      if_false, List.nil_append, List.take_succ_cons, List.take_zero, List.drop_succ_cons,
      List.drop_zero] at length ⊢
    have rewrites := @scientific_rewrites front used digit rest
      (by
        rintro rfl
        exact single rfl)
      (((digit :: rest).length : ℤ) + k - 1)
      (by
        simp only [List.length_append, List.length_cons, List.length_nil] at length ⊢
        omega)
    exact rewrites

theorem length_exponent_le (k : ℤ) : (layoutExponent k).render.length ≤ 5 := by
  have digits := length_exponentDigits_le k.natAbs
  unfold layoutExponent Exponent.render
  split_ifs <;> simp <;> omega

/-- The numbers that at most 17 digits are laid out as have 24 characters at most. -/
theorem length_layout_le {digits : Bytes} (few : digits.length ≤ 17) (k : ℤ) :
    (layout digits k).render.length ≤ 24 := by
  have exponent := length_exponent_le (digits.length + k - 1)
  unfold layout
  dsimp only
  split_ifs with whole inner small single
  all_goals
    simp only [Number.render, renderMinus, renderFraction, renderExponent, Bool.false_eq_true,
      if_false, List.length_append, List.length_cons, List.length_nil, List.length_replicate,
      List.length_take, List.length_drop]
    omega

/-! ## Decimal formatting -/

/-- The layout is never shorter than the digits. -/
theorem length_le_layout {digits : Bytes} (k : ℤ) :
    digits.length ≤ (layout digits k).render.length := by
  unfold layout
  dsimp only
  split_ifs with whole inner small single
  all_goals
    simp only [Number.render, renderMinus, renderFraction, renderExponent, Bool.false_eq_true,
      if_false, List.length_append, List.length_cons, List.length_nil, List.length_replicate,
      List.length_take, List.length_drop]
    omega

/-- Formatting denotes the digits. The text that is left in the buffer is a number of RFC
8259 whose exact value is that of the digits and their exponent, as long as the exponent
that is printed has three digits at most; and there is room for it and a sign in 25
characters when there are 17 digits at most. What `grisu2` returns for a positive finite
double is always so. -/
theorem formatting_denotes :
    (∀ (digits : Bytes) (k : ℤ), DigitString digits → ShortExponent digits k →
      ∃ number : Number, number.Standard ∧ number.negative = false ∧
        writtenMagnitude number = digitsValue 0 digits * 10 ^ k ∧
        (digits.length ≤ 17 → number.render.length + 1 ≤ 25) ∧
        ∀ front spare : Bytes, number.render.length ≤ digits.length + spare.length →
          ∃ rest, prettify front.length digits.length k (front ++ (digits ++ spare)) =
            some (front.length + number.render.length, front ++ (number.render ++ rest))) ∧
    ∀ (value : Double) (limit : ℕ), value.isFinite = true →
      binary64.isNegative value.bits.toNat = false → binary64.isZero value.bits.toNat = false →
      20 ≤ limit → ∃ digits k, (grisu2 limit value).Exactly (digits, k) ∧ DigitString digits ∧
        digits.length ≤ 17 ∧ ShortExponent digits k := by
  constructor
  · intro digits k string short
    refine ⟨layout digits k, layout_standard string short, ?_,
      writtenMagnitude_layout string short, ?_, ?_⟩
    · unfold layout
      dsimp only
      split_ifs <;> rfl
    · intro few
      exact Nat.succ_le_succ (length_layout_le few k)
    · intro front spare room
      have longer := @length_le_layout digits k
      have written := @prettify_rewrites digits string k front
        (spare.take ((layout digits k).render.length - digits.length)) (by
          rw [List.length_take]
          omega) (spare.drop ((layout digits k).render.length - digits.length))
      rw [List.append_assoc, List.take_append_drop] at written
      exact ⟨_, written⟩
  · intro value limit finite sign nonzero enough
    obtain ⟨positive, below⟩ := positive_pattern finite sign nonzero
    obtain ⟨digits, k, result, printed⟩ := grisu2_spec positive below enough
    refine ⟨digits, k, ?_, printed.string, printed.length, ?_⟩
    · rw [Machine.Exactly, result]
      rfl
    · have places := printed.places
      constructor <;> omega

theorem digitString_fifteen : DigitString [0x31, 0x35] := by
  refine ⟨by decide, by decide, ?_⟩
  intro digit member
  rcases List.mem_cons.mp member with rfl | member
  · rfl
  · rw [List.mem_singleton.mp member]
    rfl

/-- The digits `15` with the exponent `-1`, and the digits of the double next to zero. -/
theorem formatting_denotes_fifteen :
    (∃ number : Number, number.Standard ∧ number.negative = false ∧
      writtenMagnitude number = digitsValue 0 [0x31, 0x35] * 10 ^ (-1 : ℤ) ∧
      (2 ≤ 17 → number.render.length + 1 ≤ 25) ∧
      ∀ front spare : Bytes, number.render.length ≤ 2 + spare.length →
        ∃ rest, prettify front.length 2 (-1) (front ++ ([0x31, 0x35] ++ spare)) =
          some (front.length + number.render.length, front ++ (number.render ++ rest))) ∧
    ∃ digits k, (grisu2 20 ⟨1⟩).Exactly (digits, k) ∧ DigitString digits ∧
      digits.length ≤ 17 ∧ ShortExponent digits k :=
  ⟨formatting_denotes.1 [0x31, 0x35] (-1) digitString_fifteen ⟨by decide, by decide⟩,
    formatting_denotes.2 ⟨1⟩ 20 (by decide) (by decide) (by decide) le_rfl⟩

/-- Not every digit string fits: 23 digits in front of a point are written with an
exponent, which ends behind the 25th character. -/
theorem long_string_overruns :
    ¬ ∀ (digits : Bytes) (k : ℤ), DigitString digits →
      (∃ value limit printed, (grisu2 limit value).Exactly (printed, k)) →
        ∀ spare : Bytes, digits.length + spare.length = 25 →
          (prettify 0 digits.length k (digits ++ spare)).isSome = true := by
  intro fits
  have string : DigitString (List.replicate 23 0x31) := by
    refine ⟨by decide, by decide, ?_⟩
    intro digit member
    rw [List.eq_of_mem_replicate member]
    rfl
  have returned : (grisu2 20 ⟨0x3FF0000000000000⟩).Exactly ([0x31], 0) := by
    show grisu2 20 ⟨0x3FF0000000000000⟩ false = some (([0x31], 0), false)
    decide +kernel
  have overrun := fits _ 0 string ⟨_, _, _, returned⟩ [0, 0] rfl
  revert overrun
  decide

end Join
