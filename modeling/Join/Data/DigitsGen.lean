import Join.Data.DiyFp
import Join.Library.Overflow

/-!
# Digit generation

`digitsGen` writes the decimal digits of a fixed point number, the greatest one that is
allowed, until what is left of the number is within `delta`. The integral part is divided
by powers of ten, the fractional part is multiplied by ten together with `delta`.
`grisuRound` then lowers the last digit while that comes closer to the number that is
printed and stays within `delta`.

Whatever the last digit becomes, the digits denote a number that is at most the one it
started from and at most `delta` below it. The digits generated before the last one left
more than `delta`, which bounds their number and keeps the last digit from falling below
zero. No operation on words overflows on the way.
-/

set_option autoImplicit false

namespace Join

open Library

/-- `details::pow10`. -/
def pow10 : List ℕ :=
  [1, 10, 100, 1000, 10000, 100000, 1000000, 10000000, 100000000, 1000000000]

/-- `pow10[index]`. -/
def power10 (index : ℕ) : ℕ := pow10.getD index 0

def digitsCount (n : ℕ) : ℕ :=
  if n < 10 then 1
  else if n < 100 then 2
  else if n < 1000 then 3
  else if n < 10000 then 4
  else if n < 100000 then 5
  else if n < 1000000 then 6
  else if n < 10000000 then 7
  else if n < 100000000 then 8
  else if n < 1000000000 then 9
  else 10

/-! ## Rounding -/

/-- `--buffer[length - 1]`. -/
def lowerLast (buffer : Bytes) : Bytes :=
  buffer.set (buffer.length - 1) (buffer.getD (buffer.length - 1) 0 - 1)

/-- The condition of the loop of `grisuRound`. -/
def grisuCloser (delta rest ten_kappa wp_w : ℕ) : Machine Bool :=
  if rest < wp_w then do
    let room ← Machine.sub delta rest
    if room ≥ ten_kappa then do
      let next ← Machine.add rest ten_kappa
      if next < wp_w then pure true
      else do
        let above ← Machine.sub wp_w rest
        let below ← Machine.sub next wp_w
        pure (decide (above > below))
    else pure false
  else pure false

/-- `grisuRound`, with the rounds that are left. -/
def grisuRound (delta ten_kappa wp_w : ℕ) : ℕ → Bytes → ℕ → Machine Bytes
  | 0, _, _ => failure
  | rounds + 1, buffer, rest => do
      let closer ← grisuCloser delta rest ten_kappa wp_w
      if closer then do
        let next ← Machine.add rest ten_kappa
        grisuRound delta ten_kappa wp_w rounds (lowerLast buffer) next
      else pure buffer

/-! ## Generation -/

/-- `buffer[length++] = '0' + d`, for a digit that is not a leading zero. -/
def putDigit (buffer : Bytes) (d : ℕ) : Bytes :=
  if d ≠ 0 ∨ buffer.length ≠ 0 then buffer ++ [UInt8.ofNat (0x30 + d)] else buffer

section

variable (shift one wp_w : ℕ) (k : ℤ) (limit : ℕ)

/-- The second loop of `digitsGen`, with the rounds that are left. -/
def fractionDigits : ℕ → ℕ → ℕ → ℕ → ℤ → Bytes → Machine (Bytes × ℤ)
  | 0, _, _, _, _, _ => failure
  | rounds + 1, p2, delta, unit, kappa, buffer => do
      let p2 ← Machine.mul p2 10
      let delta ← Machine.mul delta 10
      let unit ← Machine.mul unit 10
      let buffer := putDigit buffer (p2 >>> shift % 2 ^ 8)
      let p2 := p2 &&& (one - 1)
      let kappa := kappa - 1
      if p2 < delta then do
        let distance ← Machine.mul wp_w unit
        let rounded ← grisuRound delta one distance limit buffer p2
        pure (rounded, k + kappa)
      else fractionDigits rounds p2 delta unit kappa buffer

/-- The first loop of `digitsGen`. -/
def integerDigits (p2 delta : ℕ) : ℕ → ℕ → Bytes → Machine (Bytes × ℤ)
  | 0, _, buffer => fractionDigits shift one wp_w k limit limit p2 delta 1 0 buffer
  | kappa + 1, p1, buffer => do
      let d := p1 / power10 kappa
      let p1 := p1 % power10 kappa
      let buffer := putDigit buffer d
      let high ← Machine.shiftLeft p1 shift
      let tmp ← Machine.add high p2
      if tmp ≤ delta then do
        let ten_kappa ← Machine.shiftLeft (power10 kappa) shift
        let rounded ← grisuRound delta ten_kappa wp_w limit buffer tmp
        pure (rounded, k + kappa)
      else integerDigits p2 delta kappa p1 buffer

end

/-- `digitsGen`: the digits in the buffer and the decimal exponent. `limit` bounds the
rounds of its loops. -/
def digitsGen (limit : ℕ) (W Mp : DiyFp) (delta : UInt64) (k : ℤ) : Machine (Bytes × ℤ) := do
  let shift := (-Mp.exponent).toNat
  let one ← Machine.shiftLeft 1 shift
  let wp_w ← Machine.sub Mp.mantissa.toNat W.mantissa.toNat
  let p1 := Mp.mantissa.toNat >>> shift % 2 ^ 32
  let p2 := Mp.mantissa.toNat &&& (one - 1)
  integerDigits shift one wp_w k limit p2 delta.toNat (digitsCount p1) p1 []

/-! ## Digits -/

theorem power10_eq {index : ℕ} (small : index < 10) : power10 index = 10 ^ index := by
  have all : ∀ index : Fin 10, power10 index = 10 ^ index.val := by decide
  exact all ⟨index, small⟩

/-- A word of 32 bits has as many digits as are counted. -/
theorem digitsCount_spec {n : ℕ} (word : n < 2 ^ 32) :
    1 ≤ digitsCount n ∧ digitsCount n ≤ 10 ∧ n < 10 ^ digitsCount n ∧
      (0 < n → 10 ^ (digitsCount n - 1) ≤ n) := by
  unfold digitsCount
  split_ifs <;> norm_num <;> omega

theorem digitValue_digit {d : ℕ} (small : d < 10) : digitValue (UInt8.ofNat (0x30 + d)) = d := by
  have all : ∀ d : Fin 10, digitValue (UInt8.ofNat (0x30 + d.val)) = d.val := by decide
  exact all ⟨d, small⟩

theorem isDigit_digit {d : ℕ} (small : d < 10) : isDigit (UInt8.ofNat (0x30 + d)) = true := by
  have all : ∀ d : Fin 10, isDigit (UInt8.ofNat (0x30 + d.val)) = true := by decide
  exact all ⟨d, small⟩

theorem digitsValue_concat (buffer : Bytes) (digit : UInt8) :
    digitsValue 0 (buffer ++ [digit]) = digitsValue 0 buffer * 10 + digitValue digit := by
  rw [digitsValue, List.foldl_append]
  rfl

theorem lowerLast_digit (buffer : Bytes) (d : ℕ) :
    lowerLast (buffer ++ [UInt8.ofNat (0x30 + (d + 1))]) = buffer ++ [UInt8.ofNat (0x30 + d)] := by
  have lowered : UInt8.ofNat (0x30 + (d + 1)) - 1 = UInt8.ofNat (0x30 + d) := by
    rw [← Nat.add_assoc, UInt8.ofNat_add]
    simp
  rw [lowerLast, List.length_append, List.length_singleton, Nat.add_sub_cancel,
    List.getD_append_right _ _ _ _ le_rfl, Nat.sub_self, List.set_append_right _ _ le_rfl,
    Nat.sub_self]
  show buffer ++ [UInt8.ofNat (0x30 + (d + 1)) - 1] = _
  rw [lowered]

/-! ## Rounding stays within the allowance -/

theorem grisuCloser_spec {delta rest ten_kappa wp_w : ℕ} (inside : rest ≤ delta)
    (near : wp_w ≤ delta) (word : delta < 2 ^ 64) :
    ∃ closer, grisuCloser delta rest ten_kappa wp_w = pure closer ∧
      (closer = true → rest + ten_kappa ≤ delta) := by
  unfold grisuCloser
  by_cases above : rest < wp_w
  · rw [if_pos above, Machine.sub_exact inside word, pure_bind]
    by_cases room : delta - rest ≥ ten_kappa
    · rw [if_pos room, Machine.add_exact (by omega), pure_bind]
      by_cases short : rest + ten_kappa < wp_w
      · rw [if_pos short]
        exact ⟨true, rfl, fun _ => by omega⟩
      · rw [if_neg short, Machine.sub_exact above.le (by omega), pure_bind,
          Machine.sub_exact (not_lt.mp short) (by omega), pure_bind]
        exact ⟨_, rfl, fun _ => by omega⟩
    · rw [if_neg room]
      exact ⟨false, rfl, fun taken => Bool.noConfusion taken⟩
  · rw [if_neg above]
    exact ⟨false, rfl, fun taken => Bool.noConfusion taken⟩

/-- The last digit is lowered a number of times, and what is left grows by as many
steps without leaving `delta`. -/
theorem grisuRound_spec {delta ten_kappa wp_w : ℕ} (near : wp_w ≤ delta) (word : delta < 2 ^ 64)
    (moves : 0 < ten_kappa) (buffer : Bytes) {d limit rest : ℕ} (enough : d < limit)
    (inside : rest ≤ delta) (covers : delta ≤ rest + d * ten_kappa) :
    ∃ lowered ≤ d, rest + lowered * ten_kappa ≤ delta ∧
      grisuRound delta ten_kappa wp_w limit (buffer ++ [UInt8.ofNat (0x30 + d)]) rest =
        pure (buffer ++ [UInt8.ofNat (0x30 + (d - lowered))]) := by
  induction limit generalizing d rest with
  | zero => exact absurd enough (Nat.not_lt_zero d)
  | succ rounds ih =>
      obtain ⟨closer, same, room⟩ :=
        @grisuCloser_spec delta rest ten_kappa wp_w inside near word
      rw [grisuRound, same, pure_bind]
      cases closer with
      | false => exact ⟨0, Nat.zero_le d, by omega, rfl⟩
      | true =>
          have next := room rfl
          cases d with
          | zero => omega
          | succ d =>
              have steps : rest + ten_kappa + d * ten_kappa = rest + (d + 1) * ten_kappa := by ring
              obtain ⟨lowered, few, stays, result⟩ :=
                @ih d (rest + ten_kappa) (by omega) next (by rw [steps]; exact covers)
              refine ⟨lowered + 1, by omega, ?_, ?_⟩
              · rwa [Nat.add_mul, Nat.one_mul, Nat.add_comm (lowered * ten_kappa), ← Nat.add_assoc]
              · rw [if_pos rfl, Machine.add_exact (by omega), pure_bind, lowerLast_digit, result,
                  Nat.add_sub_add_right]

/-! ## What the digits denote -/

/-- Decimal digits without a leading zero. -/
structure DigitString (digits : Bytes) : Prop where
  nonempty : digits ≠ []
  leading : digits.head? ≠ some 0x30
  all : ∀ digit ∈ digits, isDigit digit = true

/-- The digits are those of a number within `delta` below the total, in units of
`10 ^ kappa * one`. There are no more of them than `delta` calls for, and `count` of them
stand in front of the point. -/
structure Generated (total delta one count : ℕ) (digits : Bytes) (kappa : ℤ) : Prop where
  string : DigitString digits
  upper : (digitsValue 0 digits : ℚ) * (10 ^ kappa * one) ≤ total
  lower : (total : ℚ) - delta ≤ digitsValue 0 digits * (10 ^ kappa * one)
  short : 2 ≤ digits.length → 10 ^ (digits.length - 2) * delta < total
  places : (digits.length : ℤ) + kappa = count

theorem digit_ne_zero {d : ℕ} (small : d < 10) (positive : 0 < d) :
    UInt8.ofNat (0x30 + d) ≠ 0x30 := by
  have all : ∀ d : Fin 10, 0 < d.val → UInt8.ofNat (0x30 + d.val) ≠ 0x30 := by decide
  exact all ⟨d, small⟩ positive

/-- A digit behind other digits, or alone and not zero. -/
theorem DigitString.concat {front : Bytes} {d : ℕ} (started : front = [] ∨ DigitString front)
    (small : d < 10) (leading : front = [] → 0 < d) :
    DigitString (front ++ [UInt8.ofNat (0x30 + d)]) := by
  refine ⟨by simp, ?_, ?_⟩
  · rcases started with rfl | string
    · intro same
      exact digit_ne_zero small (leading rfl) (Option.some.inj same)
    · rw [List.head?_append_of_ne_nil _ string.nonempty]
      exact string.leading
  · intro digit member
    rcases List.mem_append.mp member with before | last
    · rcases started with rfl | string
      · cases before
      · exact string.all digit before
    · rw [List.mem_singleton.mp last]
      exact isDigit_digit small

theorem putDigit_eq {buffer : Bytes} {d : ℕ} (shown : buffer = [] → 0 < d) :
    putDigit buffer d = buffer ++ [UInt8.ofNat (0x30 + d)] := by
  rw [putDigit, if_pos]
  by_cases first : buffer = []
  · exact .inl (shown first).ne'
  · exact .inr fun none => first (List.length_eq_zero_iff.mp none)

section

variable {total delta one count d lowered : ℕ} {front : Bytes} {kappa : ℤ} {rest : ℚ}

/-- The generation ends with a digit that has been lowered within the allowance. -/
theorem generated_close (started : front = [] ∨ DigitString front) (small : d < 10)
    (positive : 0 < one)
    (whole : (total : ℚ) =
      ((digitsValue 0 front * 10 + d : ℕ) : ℚ) * (10 ^ kappa * one) + rest)
    (remains : 0 ≤ rest) (few : lowered ≤ d)
    (room : rest + lowered * (10 ^ kappa * one) ≤ delta) (below : delta < total)
    (short : 1 ≤ front.length → 10 ^ (front.length - 1) * delta < total)
    (places : (front.length : ℤ) + 1 + kappa = count) :
    Generated total delta one count (front ++ [UInt8.ofNat (0x30 + (d - lowered))]) kappa := by
  have unit : (0 : ℚ) < 10 ^ kappa * one :=
    mul_pos (zpow_pos (by norm_num) _) (by exact_mod_cast positive)
  have leading : front = [] → 0 < d - lowered := by
    rintro rfl
    by_contra none
    have same : lowered = d := by omega
    have value : digitsValue 0 ([] : Bytes) = 0 := rfl
    rw [value, Nat.zero_mul, Nat.zero_add] at whole
    rw [same] at room
    have bound : (delta : ℚ) < total := by exact_mod_cast below
    linarith
  have value : (digitsValue 0 (front ++ [UInt8.ofNat (0x30 + (d - lowered))]) : ℚ) =
      ((digitsValue 0 front * 10 + d : ℕ) : ℚ) - lowered := by
    rw [digitsValue_concat, digitValue_digit (by omega)]
    push_cast [Nat.cast_sub few]
    ring
  have product : (digitsValue 0 (front ++ [UInt8.ofNat (0x30 + (d - lowered))]) : ℚ) *
      (10 ^ kappa * one) = total - (rest + lowered * (10 ^ kappa * one)) := by
    rw [value, whole]
    ring
  have lowering : (0 : ℚ) ≤ lowered * (10 ^ kappa * one) :=
    mul_nonneg (Nat.cast_nonneg _) unit.le
  refine ⟨.concat started (by omega) leading, ?_, ?_, ?_, ?_⟩
  · rw [product]
    linarith
  · rw [product]
    linarith
  · intro two
    rw [List.length_append, List.length_singleton] at two ⊢
    exact short (by omega)
  · rw [List.length_append, List.length_singleton]
    push_cast
    exact places

end

/-! ## The loops -/

section

variable {shift wp_w limit total allowance count : ℕ}

/-- The fractional part of what is left still exceeds the allowance. -/
theorem fractionDigits_spec (k : ℤ) (room : shift ≤ 60) (near : wp_w ≤ allowance)
    (positive : 0 < allowance) (below : allowance < total) (enough : 10 ≤ limit)
    (counted : 0 < count) (large : 10 ^ (count - 1) * 2 ^ shift ≤ total)
    {rounds places p2 : ℕ} {buffer : Bytes} (turns : 20 ≤ rounds + places)
    (string : DigitString buffer) (length : buffer.length = count + places)
    (part : p2 < 2 ^ shift) (exceeds : allowance * 10 ^ places ≤ p2)
    (whole : total * 10 ^ places = digitsValue 0 buffer * 2 ^ shift + p2) :
    ∃ digits kappa, fractionDigits shift (2 ^ shift) wp_w k limit rounds p2
        (allowance * 10 ^ places) (10 ^ places) (-places) buffer = pure (digits, k + kappa) ∧
      Generated total allowance (2 ^ shift) count digits kappa := by
  have one_le : 2 ^ shift ≤ 2 ^ 60 := Nat.pow_le_pow_right (by norm_num) room
  have one_pos : 0 < 2 ^ shift := by positivity
  induction rounds generalizing places p2 buffer with
  | zero =>
      -- twenty more digits would take the allowance past the whole part
      have many : 10 ^ 20 ≤ 10 ^ places := Nat.pow_le_pow_right (by norm_num) (by omega)
      have grown : 1 * 10 ^ places ≤ allowance * 10 ^ places := Nat.mul_le_mul_right _ positive
      omega
  | succ rounds ih =>
      have power : 0 < 10 ^ places := by positivity
      have unit : 1 * 10 ^ places ≤ allowance * 10 ^ places := Nat.mul_le_mul_right _ positive
      have grown : 10 ^ places * 10 = 10 ^ (places + 1) := (pow_succ 10 places).symm
      have allowed : allowance * 10 ^ places * 10 = allowance * 10 ^ (places + 1) := by
        rw [Nat.mul_assoc, grown]
      have cut : p2 * 10 &&& (2 ^ shift - 1) = p2 * 10 % 2 ^ shift :=
        Nat.and_two_pow_sub_one_eq_mod _ _
      have small : p2 * 10 / 2 ^ shift < 10 := by
        rw [Nat.div_lt_iff_lt_mul one_pos]
        omega
      have digit : (p2 * 10) >>> shift % 2 ^ 8 = p2 * 10 / 2 ^ shift := by
        rw [Nat.shiftRight_eq_div_pow]
        exact Nat.mod_eq_of_lt (small.trans (by norm_num))
      have split := Nat.div_add_mod' (p2 * 10) (2 ^ shift)
      have left := Nat.mod_lt (p2 * 10) one_pos
      have kappa : -(places : ℤ) - 1 = -((places + 1 : ℕ) : ℤ) := by
        push_cast
        ring
      rw [fractionDigits, Machine.mul_exact (by omega), pure_bind, Machine.mul_exact (by omega),
        pure_bind, Machine.mul_exact (by omega), pure_bind]
      dsimp only
      rw [cut, digit, putDigit_eq fun none => absurd none string.nonempty, allowed, grown, kappa]
      generalize p2 * 10 / 2 ^ shift = d at *
      generalize p2 * 10 % 2 ^ shift = rest at *
      have next : total * 10 ^ (places + 1) =
          (digitsValue 0 buffer * 10 + d) * 2 ^ shift + rest := by
        rw [← grown, ← Nat.mul_assoc, whole, Nat.add_mul, ← split]
        ring
      split
      case isTrue inside =>
          have distance : wp_w * 10 ^ (places + 1) ≤ allowance * 10 ^ (places + 1) :=
            Nat.mul_le_mul_right _ near
          obtain ⟨lowered, few, stays, result⟩ := @grisuRound_spec
            (allowance * 10 ^ (places + 1)) (2 ^ shift) (wp_w * 10 ^ (places + 1)) distance
            (by omega) one_pos buffer d limit rest (by omega) inside.le (by omega)
          rw [Machine.mul_exact (by omega), pure_bind, result, pure_bind]
          refine ⟨_, _, rfl, ?_⟩
          -- one unit of the fraction is `scale`
          have scale : (10 : ℚ) ^ (places + 1) * 10 ^ (-((places + 1 : ℕ) : ℤ)) = 1 := by
            rw [zpow_neg, zpow_natCast]
            exact mul_inv_cancel₀ (by positivity)
          have unit_pos : (0 : ℚ) < 10 ^ (-((places + 1 : ℕ) : ℤ)) := zpow_pos (by norm_num) _
          have wholeQ : (total : ℚ) * 10 ^ (places + 1) =
              ((digitsValue 0 buffer * 10 + d : ℕ) : ℚ) * (2 ^ shift : ℕ) + rest := by
            exact_mod_cast next
          have staysQ : (rest : ℚ) + lowered * (2 ^ shift : ℕ) ≤ allowance * 10 ^ (places + 1) := by
            exact_mod_cast stays
          apply @generated_close _ _ _ _ _ _ _ _
            ((rest : ℚ) * 10 ^ (-((places + 1 : ℕ) : ℤ))) (.inr string) small one_pos
          · calc (total : ℚ) = total * 10 ^ (places + 1) * 10 ^ (-((places + 1 : ℕ) : ℤ)) := by
                  rw [mul_assoc, scale, mul_one]
              _ = _ := by
                  rw [wholeQ]
                  ring
          · exact mul_nonneg (Nat.cast_nonneg _) unit_pos.le
          · exact few
          · calc (rest : ℚ) * 10 ^ (-((places + 1 : ℕ) : ℤ)) +
                  lowered * (10 ^ (-((places + 1 : ℕ) : ℤ)) * (2 ^ shift : ℕ)) =
                (rest + lowered * (2 ^ shift : ℕ)) * 10 ^ (-((places + 1 : ℕ) : ℤ)) := by ring
              _ ≤ allowance * 10 ^ (places + 1) * 10 ^ (-((places + 1 : ℕ) : ℤ)) :=
                  mul_le_mul_of_nonneg_right staysQ unit_pos.le
              _ = allowance := by rw [mul_assoc, scale, mul_one]
          · exact below
          · intro _
            have exponent : buffer.length - 1 = count - 1 + places := by omega
            calc 10 ^ (buffer.length - 1) * allowance =
                10 ^ (count - 1) * (allowance * 10 ^ places) := by
                  rw [exponent, pow_add]
                  ring
              _ < 10 ^ (count - 1) * 2 ^ shift :=
                  Nat.mul_lt_mul_of_pos_left (exceeds.trans_lt part) (by positivity)
              _ ≤ total := large
          · rw [length]
            push_cast
            ring
      case isFalse outside =>
          obtain ⟨digits, kappa, result, generated⟩ := @ih (places + 1) rest
            (buffer ++ [UInt8.ofNat (0x30 + d)]) (by omega)
            (.concat (.inr string) small fun none => absurd none string.nonempty)
            (by rw [List.length_append, List.length_singleton, length, Nat.add_assoc]) left
            (not_lt.mp outside)
            (by rw [digitsValue_concat, digitValue_digit small, next])
          exact ⟨digits, kappa, result, generated⟩

/-- What is left of the integral and the fractional part exceeds the allowance. -/
theorem integerDigits_spec (k : ℤ) (room : shift ≤ 60) (near : wp_w ≤ allowance)
    (positive : 0 < allowance) (below : allowance < total) (word : total < 2 ^ 64)
    (enough : 20 ≤ limit) (counted : 0 < count) (most : count ≤ 10)
    (large : 10 ^ (count - 1) * 2 ^ shift ≤ total) {p2 : ℕ} (part : p2 < 2 ^ shift)
    {kappa p1 : ℕ} {buffer : Bytes} (length : buffer.length + kappa = count)
    (fits : p1 < 10 ^ kappa)
    (started : buffer = [] ∧ 10 ^ (kappa - 1) ≤ p1 ∨ DigitString buffer)
    (exceeds : allowance < p1 * 2 ^ shift + p2)
    (whole : total = (digitsValue 0 buffer * 10 ^ kappa + p1) * 2 ^ shift + p2) :
    ∃ digits kappa', integerDigits shift (2 ^ shift) wp_w k limit p2 allowance kappa p1 buffer =
        pure (digits, k + kappa') ∧
      Generated total allowance (2 ^ shift) count digits kappa' := by
  have one_pos : 0 < 2 ^ shift := by positivity
  induction kappa generalizing p1 buffer with
  | zero =>
      obtain rfl : p1 = 0 := by omega
      have string : DigitString buffer := by
        rcases started with ⟨rfl, _⟩ | string
        · rw [List.length_nil] at length
          omega
        · exact string
      have fraction := @fractionDigits_spec shift wp_w limit total allowance count k room near
        positive below (by omega) counted large limit 0 p2 buffer (by omega) string
        (by omega) part (by omega) (by simpa using whole)
      rw [pow_zero, Nat.mul_one] at fraction
      exact fraction
  | succ kappa ih =>
      have power : power10 kappa = 10 ^ kappa := power10_eq (by omega)
      have power_pos : 0 < 10 ^ kappa := by positivity
      have digit : p1 / 10 ^ kappa < 10 := by
        rw [Nat.div_lt_iff_lt_mul power_pos, ← pow_succ']
        exact fits
      have shown : buffer = [] → 0 < p1 / 10 ^ kappa := by
        intro first
        rcases started with ⟨_, leading⟩ | string
        · exact Nat.div_pos leading power_pos
        · exact absurd first string.nonempty
      have split := Nat.div_add_mod' p1 (10 ^ kappa)
      have left := Nat.mod_lt p1 power_pos
      have front : buffer = [] ∨ DigitString buffer := started.imp_left And.left
      rw [integerDigits, power, putDigit_eq shown]
      generalize p1 / 10 ^ kappa = d at *
      generalize p1 % 10 ^ kappa = rest at *
      subst p1
      have string : DigitString (buffer ++ [UInt8.ofNat (0x30 + d)]) := .concat front digit shown
      have value : digitsValue 0 (buffer ++ [UInt8.ofNat (0x30 + d)]) =
          digitsValue 0 buffer * 10 + d := by
        rw [digitsValue_concat, digitValue_digit digit]
      have next : total =
          (digitsValue 0 buffer * 10 + d) * (10 ^ kappa * 2 ^ shift) + (rest * 2 ^ shift + p2) := by
        rw [whole, pow_succ]
        ring
      have tail : rest * 2 ^ shift + p2 ≤ total := by
        rw [next]
        exact Nat.le_add_left _ _
      rw [Machine.shiftLeft_exact (by omega), pure_bind, Machine.add_exact (by omega), pure_bind]
      split
      case isTrue inside =>
          have unit : 10 ^ kappa * 2 ^ shift ≤ total :=
            (Nat.mul_le_mul_right _ (Nat.pow_le_pow_right (by norm_num) (by omega))).trans large
          have step : d * (10 ^ kappa * 2 ^ shift) + rest * 2 ^ shift =
              (d * 10 ^ kappa + rest) * 2 ^ shift := by ring
          obtain ⟨lowered, few, stays, result⟩ := @grisuRound_spec allowance
            (10 ^ kappa * 2 ^ shift) wp_w near (by omega) (by positivity) buffer d limit
            (rest * 2 ^ shift + p2) (by omega) inside (by omega)
          rw [Machine.shiftLeft_exact (by omega), pure_bind, result, pure_bind]
          refine ⟨_, _, rfl, ?_⟩
          have wholeQ : (total : ℚ) =
              ((digitsValue 0 buffer * 10 + d : ℕ) : ℚ) * (10 ^ kappa * (2 ^ shift : ℕ)) +
                (rest * 2 ^ shift + p2 : ℕ) := by
            exact_mod_cast next
          have staysQ : ((rest * 2 ^ shift + p2 : ℕ) : ℚ) +
              lowered * (10 ^ kappa * (2 ^ shift : ℕ)) ≤ allowance := by
            exact_mod_cast stays
          rw [← zpow_natCast] at wholeQ staysQ
          refine generated_close front digit one_pos wholeQ (Nat.cast_nonneg _) few staysQ below
            ?_ ?_
          · intro some
            have exponent : buffer.length - 1 + (kappa + 1) = count - 1 := by omega
            have bound : allowance < 10 ^ (kappa + 1) * 2 ^ shift := by
              have lead : (d * 10 ^ kappa + rest + 1) * 2 ^ shift ≤ 10 ^ (kappa + 1) * 2 ^ shift :=
                Nat.mul_le_mul_right _ fits
              rw [Nat.add_mul, Nat.one_mul] at lead
              omega
            calc 10 ^ (buffer.length - 1) * allowance
                < 10 ^ (buffer.length - 1) * (10 ^ (kappa + 1) * 2 ^ shift) :=
                  Nat.mul_lt_mul_of_pos_left bound (by positivity)
              _ = 10 ^ (count - 1) * 2 ^ shift := by rw [← Nat.mul_assoc, ← pow_add, exponent]
              _ ≤ total := large
          · rw [← length]
            push_cast
            ring
      case isFalse outside =>
          refine @ih rest _ ?_ left (.inr string) (not_le.mp outside) ?_
          · rw [List.length_append, List.length_singleton]
            omega
          · rw [value, next]
            ring

end

/-- The digits that are generated denote a number between `Mp` and `delta` below it. -/
theorem digitsGen_spec {limit shift : ℕ} (k : ℤ) {W Mp : DiyFp} {delta : UInt64}
    (exponent : Mp.exponent = -shift) (lowest : 32 ≤ shift) (highest : shift ≤ 60)
    (whole : 2 ^ shift ≤ Mp.mantissa.toNat) (ordered : W.mantissa.toNat ≤ Mp.mantissa.toNat)
    (near : Mp.mantissa.toNat - W.mantissa.toNat ≤ delta.toNat) (positive : 0 < delta.toNat)
    (below : delta.toNat < Mp.mantissa.toNat) (enough : 20 ≤ limit) :
    ∃ digits kappa count, digitsGen limit W Mp delta k = pure (digits, k + kappa) ∧
      Generated Mp.mantissa.toNat delta.toNat (2 ^ shift) count digits kappa ∧
      1 ≤ count ∧ count ≤ 10 := by
  have word := Mp.mantissa.toNat_lt
  have places : (-Mp.exponent).toNat = shift := by
    rw [exponent, neg_neg, Int.toNat_natCast]
  have one_pos : 0 < 2 ^ shift := by positivity
  have one_word : 1 * 2 ^ shift < 2 ^ 64 := by
    rw [Nat.one_mul]
    exact Nat.pow_lt_pow_right (by norm_num) (by omega)
  have small : Mp.mantissa.toNat / 2 ^ shift < 2 ^ 32 := by
    rw [Nat.div_lt_iff_lt_mul one_pos, ← pow_add]
    exact word.trans_le (Nat.pow_le_pow_right (by norm_num) (by omega))
  have integer : Mp.mantissa.toNat >>> shift % 2 ^ 32 = Mp.mantissa.toNat / 2 ^ shift := by
    rw [Nat.shiftRight_eq_div_pow]
    exact Nat.mod_eq_of_lt small
  have fraction : Mp.mantissa.toNat &&& (2 ^ shift - 1) = Mp.mantissa.toNat % 2 ^ shift :=
    Nat.and_two_pow_sub_one_eq_mod _ _
  have split := Nat.div_add_mod' Mp.mantissa.toNat (2 ^ shift)
  have leading := Nat.div_pos whole one_pos
  obtain ⟨counted, most, fits, first⟩ := digitsCount_spec small
  have power := first leading
  have large : 10 ^ (digitsCount (Mp.mantissa.toNat / 2 ^ shift) - 1) * 2 ^ shift ≤
      Mp.mantissa.toNat :=
    (Nat.mul_le_mul_right _ power).trans (Nat.div_mul_le_self _ _)
  obtain ⟨digits, kappa, result, generated⟩ := integerDigits_spec k highest near positive below
    word enough counted most large (Nat.mod_lt _ one_pos) (Nat.zero_add _) fits
    (.inl ⟨rfl, power⟩) (below.trans_eq split.symm) (by
      rw [digitsValue, List.foldl_nil, Nat.zero_mul, Nat.zero_add]
      exact split.symm)
  refine ⟨digits, kappa, _, ?_, generated, counted, most⟩
  rw [digitsGen, places, Machine.shiftLeft_exact one_word, pure_bind, Nat.one_mul,
    Machine.sub_exact ordered word, pure_bind, integer, fraction]
  exact result

end Join
