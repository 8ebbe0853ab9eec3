import Join.Library.Ieee
import Mathlib.Data.UInt
import Mathlib.Data.List.Basic

/-!
# Values

`join::Value` is a variant of ten alternatives, numbered as in the source. A
`double` is taken as its 64-bit pattern, compared the way IEEE 754 compares:
patterns of one sign are ordered as the numbers they denote, so the comparison
of two data that are not NaN is the comparison of their sign-magnitude keys.

The elements of an array and the members of an object are vectors; an object
keeps its members in insertion order and does not look for an equal key when a
member is inserted. A pointer to a nested value is the path of indices that
leads to it from the root.
-/

set_option autoImplicit false

namespace Join

open Library.Ieee

/-- A byte string. -/
abbrev Bytes := List UInt8

/-! ## Doubles -/

/-- A C++ `double`, as its bit pattern. -/
structure Double where
  bits : UInt64
deriving DecidableEq, Repr

/-- A C++ `float`, as its bit pattern. -/
structure Single where
  bits : UInt32
deriving DecidableEq, Repr

/-- The key by which IEEE 754 compares: the magnitude pattern with the sign. -/
def signedKey (format : Format) (pattern : ℕ) : ℤ :=
  if format.isNegative pattern then -(format.magnitudePattern pattern : ℤ)
  else format.magnitudePattern pattern

/-- Conversion between formats; a NaN keeps its sign and the top of its payload
and becomes quiet. -/
def convertPattern (source target : Format) (pattern : ℕ) : ℕ :=
  let sign := if source.isNegative pattern then target.signBit else 0
  if source.isNaN pattern then
    sign + target.infinity + (2 ^ (target.fractionBits - 1) |||
      (pattern % 2 ^ source.fractionBits) * 2 ^ target.fractionBits / 2 ^ source.fractionBits)
  else if source.isFinite pattern then
    target.encode (source.isNegative pattern) (source.magnitude (source.magnitudePattern pattern))
  else sign + target.infinity

namespace Double

def isNaN (value : Double) : Bool := binary64.isNaN value.bits.toNat

/-- `std::isfinite`. -/
def isFinite (value : Double) : Bool := binary64.isFinite value.bits.toNat

/-- The built-in `==` on doubles. -/
def eq (lhs rhs : Double) : Bool :=
  !lhs.isNaN && !rhs.isNaN &&
    signedKey binary64 lhs.bits.toNat == signedKey binary64 rhs.bits.toNat

/-- The built-in `<=` on doubles. -/
def le (lhs rhs : Double) : Bool :=
  !lhs.isNaN && !rhs.isNaN &&
    signedKey binary64 lhs.bits.toNat ≤ signedKey binary64 rhs.bits.toNat

/-- The built-in `<` on doubles. -/
def lt (lhs rhs : Double) : Bool :=
  !lhs.isNaN && !rhs.isNaN &&
    signedKey binary64 lhs.bits.toNat < signedKey binary64 rhs.bits.toNat

/-- Conversion of an integer to the nearest double. -/
def ofInt (value : ℤ) : Double :=
  ⟨UInt64.ofNat (binary64.encode (value < 0) (value.natAbs : ℚ))⟩

theorem encode_lt (negative : Bool) (value : ℚ) : binary64.encode negative value < 2 ^ 64 := by
  have bound := (binary64.round_le_infinity value).trans_lt binary64.infinity_lt_signBit
  have sign : binary64.signBit = 2 ^ 63 := rfl
  unfold Format.encode
  split <;> omega

theorem isNaN_ofInt (value : ℤ) : (ofInt value).isNaN = false := by
  have small : binary64.encode (value < 0) (value.natAbs : ℚ) < 2 ^ 64 := encode_lt _ _
  simp only [isNaN, ofInt, UInt64.toNat_ofNat', Nat.mod_eq_of_lt small, binary64.isNaN_encode]

theorem eq_self {value : Double} (number : value.isNaN = false) : value.eq value = true := by
  simp [eq, number]

/-- Integers of less than 53 bits that convert to equal doubles are equal. -/
theorem eq_of_ofInt {lhs rhs : ℤ} (left : lhs.natAbs < 2 ^ 53) (right : rhs.natAbs < 2 ^ 53)
    (same : (ofInt lhs).eq (ofInt rhs) = true) : lhs = rhs := by
  have key {value : ℤ} : signedKey binary64 (ofInt value).bits.toNat =
      if value < 0 then -(binary64.round value.natAbs : ℤ) else binary64.round value.natAbs := by
    have small : binary64.encode (value < 0) (value.natAbs : ℚ) < 2 ^ 64 := encode_lt _ _
    simp only [signedKey, ofInt, UInt64.toNat_ofNat', Nat.mod_eq_of_lt small,
      binary64.isNegative_encode, binary64.magnitudePattern_encode, decide_eq_true_eq]
  have exactly {value : ℤ} (fits : value.natAbs < 2 ^ 53) :
      binary64.magnitude (binary64.round value.natAbs) = value.natAbs :=
    Format.magnitude_round_natCast fits
  have zero : binary64.magnitude 0 = 0 := by simp [Format.magnitude]
  simp only [eq, Bool.and_eq_true, beq_iff_eq, key] at same
  have keys := same.2
  have sizes : binary64.round (lhs.natAbs : ℚ) = binary64.round (rhs.natAbs : ℚ) := by
    split at keys <;> split at keys <;> omega
  have abs : lhs.natAbs = rhs.natAbs := by
    have magnitudes := congrArg binary64.magnitude sizes
    rw [exactly left, exactly right] at magnitudes
    exact_mod_cast magnitudes
  by_cases vanishes : binary64.round (lhs.natAbs : ℚ) = 0
  · have none := exactly left
    rw [vanishes, zero] at none
    have : lhs.natAbs = 0 := by exact_mod_cast none.symm
    omega
  · split at keys <;> split at keys <;> omega

/-- `std::trunc`. -/
def trunc (value : Double) : Double :=
  if value.isFinite then
    ⟨UInt64.ofNat (binary64.encode (binary64.isNegative value.bits.toNat)
      ((⌊binary64.magnitude (binary64.magnitudePattern value.bits.toNat)⌋₊ : ℕ) : ℚ))⟩
  else value

/-- Conversion of a finite double to an integer, towards zero. -/
def toInt (value : Double) : ℤ :=
  let size : ℤ := ⌊binary64.magnitude (binary64.magnitudePattern value.bits.toNat)⌋₊
  if binary64.isNegative value.bits.toNat then -size else size

/-- Conversion of a double to the nearest float. -/
def toSingle (value : Double) : Single :=
  ⟨UInt32.ofNat (convertPattern binary64 binary32 value.bits.toNat)⟩

end Double

/-- Conversion of a float to the double of the same value. -/
def Single.toDouble (value : Single) : Double :=
  ⟨UInt64.ofNat (convertPattern binary32 binary64 value.bits.toNat)⟩

/-! ## Values -/

/-- `join::Value`. -/
inductive Value where
  | null
  | boolean (value : Bool)
  | integer (value : Int32)
  | unsigned (value : UInt32)
  | integer64 (value : Int64)
  | unsigned64 (value : UInt64)
  | real (value : Double)
  | string (value : Bytes)
  | array (elements : List Value)
  | object (members : List (Value × Value))
deriving Repr

instance : Inhabited Value := ⟨.null⟩

namespace Value

/-- The number of the alternative a value holds. -/
def index : Value → ℕ
  | null => 0
  | boolean _ => 1
  | integer _ => 2
  | unsigned _ => 3
  | integer64 _ => 4
  | unsigned64 _ => 5
  | real _ => 6
  | string _ => 7
  | array _ => 8
  | object _ => 9

def isString : Value → Bool
  | string _ => true
  | _ => false

def isArray : Value → Bool
  | array _ => true
  | _ => false

def isObject : Value → Bool
  | object _ => true
  | _ => false

/-- An array or an object. -/
def isContainer (value : Value) : Bool := value.isArray || value.isObject

def isNumber : Value → Bool
  | integer _ | unsigned _ | integer64 _ | unsigned64 _ | real _ => true
  | _ => false

def isInt64 : Value → Bool
  | integer _ | unsigned _ | integer64 _ => true
  | unsigned64 value => value.toNat ≤ 2 ^ 63 - 1
  | real value =>
      value.trunc.eq value && (Double.ofInt (-2 ^ 63)).le value &&
        value.lt (Double.ofInt (2 ^ 63 - 1))
  | _ => false

def isUint64 : Value → Bool
  | integer value => 0 ≤ value.toInt
  | unsigned _ => true
  | integer64 value => 0 ≤ value.toInt
  | unsigned64 _ => true
  | real value =>
      value.trunc.eq value && (Double.ofInt 0).le value && value.lt (Double.ofInt (2 ^ 64 - 1))
  | _ => false

/-- The integer of a number that `isInt64` or `isUint64` admits. -/
def getInteger : Value → ℤ
  | integer value => value.toInt
  | unsigned value => value.toNat
  | integer64 value => value.toInt
  | unsigned64 value => value.toNat
  | real value => value.toInt
  | _ => 0

def getDouble : Value → Double
  | integer value => .ofInt value.toInt
  | unsigned value => .ofInt value.toNat
  | integer64 value => .ofInt value.toInt
  | unsigned64 value => .ofInt value.toNat
  | real value => value
  | _ => .ofInt 0

/-- The branch of `operator==` for two numbers of different alternatives. -/
def numericEq (lhs rhs : Value) : Bool :=
  if lhs.isInt64 && rhs.isUint64 then
    0 ≤ lhs.getInteger && lhs.getInteger == rhs.getInteger
  else if lhs.isUint64 && rhs.isInt64 then
    0 ≤ rhs.getInteger && rhs.getInteger == lhs.getInteger
  else lhs.getDouble.eq rhs.getDouble

mutual
/-- `operator==`. -/
def eq : Value → Value → Bool
  | null, null => true
  | boolean lhs, boolean rhs => lhs == rhs
  | integer lhs, integer rhs => lhs == rhs
  | unsigned lhs, unsigned rhs => lhs == rhs
  | integer64 lhs, integer64 rhs => lhs == rhs
  | unsigned64 lhs, unsigned64 rhs => lhs == rhs
  | real lhs, real rhs => lhs.eq rhs
  | string lhs, string rhs => lhs == rhs
  | array lhs, array rhs => eqArray lhs rhs
  | object lhs, object rhs => eqObject lhs rhs
  -- values of different alternatives are equal only when both are numbers
  | lhs, rhs =>
      lhs.isNumber && rhs.isNumber && lhs.index != rhs.index && numericEq lhs rhs

def eqArray : List Value → List Value → Bool
  | [], [] => true
  | lhs :: lefts, rhs :: rights => eq lhs rhs && eqArray lefts rights
  | _, _ => false

def eqObject : List (Value × Value) → List (Value × Value) → Bool
  | [], [] => true
  | (lkey, lhs) :: lefts, (rkey, rhs) :: rights =>
      eq lkey rkey && eq lhs rhs && eqObject lefts rights
  | _, _ => false
end

/-- A value of one of the four integer alternatives. -/
def isIntegral : Value → Bool
  | integer _ | unsigned _ | integer64 _ | unsigned64 _ => true
  | _ => false

mutual
/-- How deep containers are nested. -/
def depth : Value → ℕ
  | array elements => elementsDepth elements + 1
  | object members => membersDepth members + 1
  | _ => 0

def elementsDepth : List Value → ℕ
  | [] => 0
  | element :: elements => max (depth element) (elementsDepth elements)

def membersDepth : List (Value × Value) → ℕ
  | [] => 0
  | (_, value) :: members => max (depth value) (membersDepth members)
end

/-- What is left in a value that was moved from: the string of a string value has
been taken, the scalars have been copied. -/
def movedFrom : Value → Value
  | string _ => string []
  | array _ => array []
  | object _ => object []
  | value => value

/-! ## Equal integers -/

section Integers

variable {lhs rhs : Value}

theorem getInteger_bounds (integral : lhs.isIntegral = true) :
    -2 ^ 63 ≤ lhs.getInteger ∧ lhs.getInteger < 2 ^ 64 := by
  cases lhs with
  | integer value =>
      have lower := value.le_toInt
      have upper := value.toInt_lt
      exact ⟨show _ ≤ value.toInt by omega, show value.toInt < _ by omega⟩
  | unsigned value =>
      have upper := value.toNat_lt
      exact ⟨show _ ≤ (value.toNat : ℤ) by omega, show (value.toNat : ℤ) < _ by omega⟩
  | integer64 value =>
      have lower := value.le_toInt
      have upper := value.toInt_lt
      exact ⟨show _ ≤ value.toInt by omega, show value.toInt < _ by omega⟩
  | unsigned64 value =>
      have upper := value.toNat_lt
      exact ⟨show _ ≤ (value.toNat : ℤ) by omega, show (value.toNat : ℤ) < _ by omega⟩
  | _ => cases integral

theorem getDouble_integral (integral : lhs.isIntegral = true) :
    lhs.getDouble = .ofInt lhs.getInteger := by
  cases lhs <;> simp_all [isIntegral, getDouble, getInteger]

theorem isUint64_integral (integral : lhs.isIntegral = true) :
    lhs.isUint64 = true ↔ 0 ≤ lhs.getInteger := by
  cases lhs <;> simp_all [isIntegral, isUint64, getInteger]

theorem isInt64_integral (integral : lhs.isIntegral = true) :
    lhs.isInt64 = true ↔ lhs.getInteger ≤ 2 ^ 63 - 1 := by
  cases lhs with
  | integer value =>
      have bound := value.toInt_lt
      exact iff_of_true rfl (show value.toInt ≤ _ by omega)
  | unsigned value =>
      have bound := value.toNat_lt
      exact iff_of_true rfl (show (value.toNat : ℤ) ≤ _ by omega)
  | integer64 value =>
      have bound := value.toInt_lt
      exact iff_of_true rfl (show value.toInt ≤ _ by omega)
  | unsigned64 value =>
      simp only [isInt64, getInteger, decide_eq_true_eq]
      omega
  | _ => cases integral

/-- Equal integers compare equal as numbers. -/
theorem numericEq_of_getInteger (left : lhs.isIntegral = true) (right : rhs.isIntegral = true)
    (same : lhs.getInteger = rhs.getInteger) : numericEq lhs rhs = true := by
  unfold numericEq
  split
  case isTrue both =>
      have natural := (isUint64_integral right).mp (Bool.and_eq_true_iff.mp both).2
      simp [same, natural]
  case isFalse =>
      split
      case isTrue both =>
          have natural := (isUint64_integral left).mp (Bool.and_eq_true_iff.mp both).1
          simp [← same, natural]
      case isFalse =>
          rw [getDouble_integral left, getDouble_integral right, same]
          exact Double.eq_self (Double.isNaN_ofInt _)

/-- Equal integers compare equal, whatever the alternatives that hold them. -/
theorem eq_of_getInteger (left : lhs.isIntegral = true) (right : rhs.isIntegral = true)
    (same : lhs.getInteger = rhs.getInteger) : lhs.eq rhs = true := by
  have numeric := numericEq_of_getInteger left right same
  cases lhs with
  | integer value =>
      cases rhs with
      | integer other => exact beq_iff_eq.mpr (Int32.toInt.inj same)
      | unsigned _ | integer64 _ | unsigned64 _ => simpa [eq, isNumber, index] using numeric
      | _ => cases right
  | unsigned value =>
      cases rhs with
      | unsigned other => exact beq_iff_eq.mpr (UInt32.toNat.inj (Int.ofNat.inj same))
      | integer _ | integer64 _ | unsigned64 _ => simpa [eq, isNumber, index] using numeric
      | _ => cases right
  | integer64 value =>
      cases rhs with
      | integer64 other => exact beq_iff_eq.mpr (Int64.toInt.inj same)
      | integer _ | unsigned _ | unsigned64 _ => simpa [eq, isNumber, index] using numeric
      | _ => cases right
  | unsigned64 value =>
      cases rhs with
      | unsigned64 other => exact beq_iff_eq.mpr (UInt64.toNat.inj (Int.ofNat.inj same))
      | integer _ | unsigned _ | integer64 _ => simpa [eq, isNumber, index] using numeric
      | _ => cases right
  | _ => cases left

end Integers

/-- Structural induction with the hypothesis on the parts of a container. -/
theorem structural {P : Value → Prop} (null : P null) (boolean : ∀ b, P (boolean b))
    (integer : ∀ i, P (integer i)) (unsigned : ∀ u, P (unsigned u))
    (integer64 : ∀ i, P (integer64 i)) (unsigned64 : ∀ u, P (unsigned64 u))
    (real : ∀ d, P (real d)) (string : ∀ s, P (string s))
    (array : ∀ elements, (∀ element ∈ elements, P element) → P (array elements))
    (object : ∀ members, (∀ member ∈ members, P member.1 ∧ P member.2) → P (object members))
    (value : Value) : P value :=
  @Value.rec P (fun elements => ∀ element ∈ elements, P element)
    (fun members => ∀ member ∈ members, P member.1 ∧ P member.2)
    (fun member => P member.1 ∧ P member.2)
    null boolean integer unsigned integer64 unsigned64 real string array object
    (by simp) (fun _ _ first rest => List.forall_mem_cons.mpr ⟨first, rest⟩)
    (by simp) (fun _ _ first rest => List.forall_mem_cons.mpr ⟨first, rest⟩)
    (fun _ _ first second => ⟨first, second⟩) value

/-! ## Pointers to nested values -/

/-- The value a pointer leads to. -/
def at? : List ℕ → Value → Option Value
  | [], value => some value
  | position :: path, array elements => elements[position]?.bind (at? path)
  | position :: path, object members => members[position]?.bind fun member => at? path member.2
  | _ :: _, _ => none

/-- Change the value a pointer leads to. -/
def modifyAt : List ℕ → (Value → Value) → Value → Value
  | [], update, value => update value
  | position :: path, update, array elements =>
      array (elements.modify position (modifyAt path update))
  | position :: path, update, object members =>
      object (members.modify position fun member => (member.1, modifyAt path update member.2))
  | _ :: _, _, value => value

/-- How many values are nested directly in a value. -/
def childCount : Value → ℕ
  | array elements => elements.length
  | object members => members.length
  | _ => 0

/-- Changing the last of a list. -/
theorem modify_concat {α : Type} (front : List α) (last : α) (update : α → α) :
    (front ++ [last]).modify front.length update = front ++ [update last] := by
  induction front with
  | nil => rfl
  | cons head front ih => simp only [List.cons_append, List.length_cons, List.modify_succ_cons, ih]

theorem at?_append (path more : List ℕ) (value : Value) :
    at? (path ++ more) value = (at? path value).bind (at? more) := by
  induction path generalizing value with
  | nil => rfl
  | cons position path ih =>
      cases value with
      | array elements =>
          simp only [List.cons_append, at?]
          cases elements[position]? with
          | none => rfl
          | some element => exact ih element
      | object members =>
          simp only [List.cons_append, at?]
          cases members[position]? with
          | none => rfl
          | some member => exact ih member.2
      | _ => rfl

/-- Changing what a longer pointer leads to is changing a part of what its prefix
leads to. -/
theorem modifyAt_append (path more : List ℕ) (update : Value → Value) (value : Value) :
    modifyAt (path ++ more) update value = modifyAt path (modifyAt more update) value := by
  induction path generalizing value with
  | nil => rfl
  | cons position path ih =>
      cases value with
      | array elements =>
          simp only [List.cons_append, modifyAt]
          rw [show modifyAt (path ++ more) update = modifyAt path (modifyAt more update) from
            funext ih]
      | object members =>
          simp only [List.cons_append, modifyAt, ih]
      | _ => rfl

theorem modifyAt_modifyAt (path : List ℕ) (first second : Value → Value) (value : Value) :
    modifyAt path second (modifyAt path first value) =
      modifyAt path (fun inner => second (first inner)) value := by
  induction path generalizing value with
  | nil => rfl
  | cons position path ih =>
      cases value with
      | array elements =>
          simp only [modifyAt, List.modify_modify_eq]
          congr 2
          funext element
          exact ih element
      | object members =>
          simp only [modifyAt, List.modify_modify_eq]
          congr 2
          funext member
          exact congrArg (Prod.mk member.1) (ih member.2)
      | _ => rfl

/-- Two changes agree where they agree on the value that is changed. -/
theorem modifyAt_congr {path : List ℕ} {first second : Value → Value} {value target : Value}
    (leads : at? path value = some target) (agree : first target = second target) :
    modifyAt path first value = modifyAt path second value := by
  induction path generalizing value with
  | nil =>
      obtain rfl : value = target := Option.some.inj leads
      exact agree
  | cons position path ih =>
      cases value with
      | array elements =>
          simp only [at?, Option.bind_eq_some_iff] at leads
          obtain ⟨element, found, leads⟩ := leads
          simp only [modifyAt]
          congr 1
          apply List.ext_getElem?
          intro other
          simp only [List.getElem?_modify]
          by_cases same : position = other
          · subst same
            simp [found, ih leads]
          · simp [same]
      | object members =>
          simp only [at?, Option.bind_eq_some_iff] at leads
          obtain ⟨member, found, leads⟩ := leads
          simp only [modifyAt]
          congr 1
          apply List.ext_getElem?
          intro other
          simp only [List.getElem?_modify]
          by_cases same : position = other
          · subst same
            simp [found, ih leads]
          · simp [same]
      | _ => rfl

/-- A pointer leads to the changed value afterwards. -/
theorem at?_modifyAt {path : List ℕ} {value target : Value} (leads : at? path value = some target)
    (update : Value → Value) : at? path (modifyAt path update value) = some (update target) := by
  induction path generalizing value with
  | nil =>
      obtain rfl : value = target := Option.some.inj leads
      rfl
  | cons position path ih =>
      cases value with
      | array elements =>
          simp only [at?, Option.bind_eq_some_iff] at leads
          obtain ⟨element, found, leads⟩ := leads
          simp [modifyAt, at?, found, ih leads]
      | object members =>
          simp only [at?, Option.bind_eq_some_iff] at leads
          obtain ⟨member, found, leads⟩ := leads
          simp [modifyAt, at?, found, ih leads]
      | _ => simp [at?] at leads

end Value

end Join
