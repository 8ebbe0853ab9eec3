import Join.Library.Records

/-!
# Values in netlink messages

What the managers share that handle the kernel's messages: a number among the data of an
attribute, and the update of a value together with the note that it has changed.
-/

set_option autoImplicit false

namespace Join

open Library

/-! ## Numbers -/

/-- A number among the data. -/
def dataValue (data : List UInt8) : UInt32 := UInt32.ofNat (leValue (data.take 4))

/-- A number as data. -/
def valueData (value : UInt32) : List UInt8 := leBytes 4 value.toNat

/-- The number that was sent is read. -/
theorem dataValue_valueData (value : UInt32) : dataValue (valueData value) = value := by
  have small : value.toNat < 256 ^ 4 := value.toNat_lt
  rw [dataValue, valueData, List.take_of_length_le (Nat.le_of_eq (length_leBytes _ _)),
    leValue_leBytes, Nat.mod_eq_of_lt small, UInt32.ofNat_toNat]

/-- What all of no attributes have. -/
theorem no_attributes (property : Attribute → Prop) : ∀ attr ∈ [], property attr := by
  intro attr member
  cases member

/-! ## Updates -/

/-- `NetlinkManager::updateValue`: the new value and what has changed. -/
def updateValue {α : Type} [DecidableEq α] (oldVal newVal : α) (changed : UInt32) : α × UInt32 :=
  if oldVal ≠ newVal then (newVal, changed) else (oldVal, 0)

/-- In either case the new value is there. -/
@[simp]
theorem updateValue_fst {α : Type} [DecidableEq α] (oldVal newVal : α) (changed : UInt32) :
    (updateValue oldVal newVal changed).1 = newVal := by
  by_cases same : oldVal = newVal
  · rw [updateValue, if_neg (not_not_intro same), same]
  · rw [updateValue, if_pos same]

end Join
