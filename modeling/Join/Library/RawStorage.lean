import Mathlib.Data.Sigma.Basic
import Mathlib.Logic.Function.Basic
import Mathlib.Tactic.Common

/-!
# Storage that is raw or holds an object

A place of storage is raw or holds one live object, which is of one of several kinds. An object
is made in raw storage only, and it is copied, moved and destroyed as an object of its own kind
only; what is not allowed has no result. An object that was moved from is live still, with a
value of its kind. To move an object and to destroy what is left is to take it to another place.
-/

set_option autoImplicit false

namespace Join.Library

variable {Place Index : Type} {Value : Index → Type}

/-- What each place holds. -/
abbrev RawStorage (Place : Type) {Index : Type} (Value : Index → Type) : Type :=
  Place → Option ((index : Index) × Value index)

namespace RawStorage

variable [DecidableEq Place]

/-- An object is made. -/
def emplace (storage : RawStorage Place Value) (place : Place)
    (object : (index : Index) × Value index) : Option (RawStorage Place Value) :=
  match storage place with
  | none => some (Function.update storage place (some object))
  | some _ => none

variable [DecidableEq Index]

omit [DecidableEq Place] in
/-- The object of a kind that a place holds. -/
def object? (storage : RawStorage Place Value) (index : Index) (place : Place) :
    Option ((index : Index) × Value index) :=
  (storage place).filter fun object => object.1 = index

/-- A copy is made of an object. -/
def copy (storage : RawStorage Place Value) (index : Index) (src dst : Place) :
    Option (RawStorage Place Value) :=
  (storage.object? index src).bind fun object => storage.emplace dst object

/-- An object is made from one that is moved from. -/
def move (moved : ∀ index, Value index → Value index) (storage : RawStorage Place Value)
    (index : Index) (src dst : Place) : Option (RawStorage Place Value) :=
  (storage.object? index src).bind fun object =>
    (storage.emplace dst object).map fun storage =>
      Function.update storage src (some ⟨object.1, moved object.1 object.2⟩)

/-- An object is destroyed. -/
def destroy (storage : RawStorage Place Value) (index : Index) (place : Place) :
    Option (RawStorage Place Value) :=
  (storage.object? index place).map fun _ => Function.update storage place none

variable {storage : RawStorage Place Value} {object : (index : Index) × Value index}
variable {src dst place : Place}

omit [DecidableEq Index] in
theorem emplace_of_raw (raw : storage place = none) :
    storage.emplace place object = some (Function.update storage place (some object)) := by
  rw [emplace, raw]

omit [DecidableEq Place] in
theorem object?_of_live (live : storage place = some object) :
    storage.object? object.1 place = some object := by
  rw [object?, live]
  exact Option.filter_some_pos (decide_eq_true rfl)

omit [DecidableEq Place] in
theorem object?_of_raw (raw : storage place = none) (index : Index) :
    storage.object? index place = none := by
  rw [object?, raw]
  rfl

theorem copy_of_live (live : storage src = some object) (raw : storage dst = none) :
    storage.copy object.1 src dst = some (Function.update storage dst (some object)) := by
  rw [copy, object?_of_live live, Option.bind_some, emplace_of_raw raw]

theorem move_of_live (moved : ∀ index, Value index → Value index)
    (live : storage src = some object) (raw : storage dst = none) :
    storage.move moved object.1 src dst =
      some (Function.update (Function.update storage dst (some object)) src
        (some ⟨object.1, moved object.1 object.2⟩)) := by
  rw [move, object?_of_live live, Option.bind_some, emplace_of_raw raw, Option.map_some]

/-- Nothing is moved from raw storage. -/
theorem move_of_raw (moved : ∀ index, Value index → Value index) (raw : storage src = none)
    (index : Index) : storage.move moved index src dst = none := by
  rw [move, object?_of_raw raw]
  rfl

theorem destroy_of_live (live : storage place = some object) :
    storage.destroy object.1 place = some (Function.update storage place none) := by
  rw [destroy, object?_of_live live, Option.map_some]

/-- An object is taken to another place. -/
theorem relocate (moved : ∀ index, Value index → Value index)
    (live : storage src = some object) (raw : storage dst = none) :
    ((storage.move moved object.1 src dst).bind fun storage => storage.destroy object.1 src) =
      some (Function.update (Function.update storage dst (some object)) src none) := by
  have left : Function.update (Function.update storage dst (some object)) src
      (some ⟨object.1, moved object.1 object.2⟩) src =
        some ⟨object.1, moved object.1 object.2⟩ := Function.update_self ..
  rw [move_of_live moved live raw, Option.bind_some]
  change RawStorage.destroy _ (Sigma.fst ⟨object.1, moved object.1 object.2⟩) src = _
  rw [destroy_of_live left, Function.update_idem]

end RawStorage

end Join.Library
