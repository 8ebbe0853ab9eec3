import Join.Library.RawStorage
import Join.Library.Trace

/-!
# Variants

A variant is a place of storage together with the index of the alternative that it holds. To
swap two variants, their objects are taken through a buffer, and then the indices are exchanged;
an assignment swaps with a copy or with the source itself, and `set` swaps with a new variant.

When the two are one variant, its object is destroyed before it is moved from. So in every run,
an operation does what it should, and no step of it touches raw storage as an object or makes an
object where one is, exactly when it does not swap a variant with itself, or assign it to itself
by moving.
-/

set_option autoImplicit false

namespace Join

open Library Library.RawStorage

/-- Where an object can be: in a variant, in the local variant of an operation, or in the buffer
of `swap`. -/
inductive VariantPlace (Id : Type)
  | variant (id : Id)
  | tmp
  | buffer
deriving DecidableEq

/-- The storage and the indices: `_data` and `_which`. There is no index where there is no
variant. -/
structure Variants (Id : Type) {Index : Type} (Value : Index → Type) where
  data : RawStorage (VariantPlace Id) Value
  which : VariantPlace Id → Option Index

/-- The operations on variants. -/
inductive VariantAction (Id : Type) {Index : Type} (Value : Index → Type)
  | construct (this : Id) (object : (index : Index) × Value index)
  | copyConstruct (this other : Id)
  | moveConstruct (this other : Id)
  | copyAssign (this other : Id)
  | moveAssign (this other : Id)
  | set (this : Id) (object : (index : Index) × Value index)
  | swap (this other : Id)
  | destroy (this : Id)

namespace Variants

variable {Id Index : Type} {Value : Index → Type} [DecidableEq Id] [DecidableEq Index]

/-! ## The code -/

omit [DecidableEq Index] in
/-- The constructor with an alternative. -/
def construct (variants : Variants Id Value) (this : VariantPlace Id)
    (object : (index : Index) × Value index) : Option (Variants Id Value) := do
  let data ← variants.data.emplace this object
  return { data := data, which := Function.update variants.which this (some object.1) }

/-- The copy constructor. -/
def copyConstruct (variants : Variants Id Value) (this other : VariantPlace Id) :
    Option (Variants Id Value) := do
  let which ← variants.which other
  let data ← variants.data.copy which other this
  return { data := data, which := Function.update variants.which this (some which) }

/-- The destructor. -/
def destruct (variants : Variants Id Value) (this : VariantPlace Id) :
    Option (Variants Id Value) := do
  let which ← variants.which this
  let data ← variants.data.destroy which this
  return { data := data, which := Function.update variants.which this none }

variable (moved : ∀ index, Value index → Value index)

/-- The move constructor. -/
def moveConstruct (variants : Variants Id Value) (this other : VariantPlace Id) :
    Option (Variants Id Value) := do
  let which ← variants.which other
  let data ← variants.data.move moved which other this
  return { data := data, which := Function.update variants.which this (some which) }

/-- `VariantStorage::swap`. -/
def swap (variants : Variants Id Value) (this other : VariantPlace Id) :
    Option (Variants Id Value) := do
  let thisWhich ← variants.which this
  let otherWhich ← variants.which other
  let data ← variants.data.move moved thisWhich this .buffer
  let data ← data.destroy thisWhich this
  let data ← data.move moved otherWhich other this
  let data ← data.destroy otherWhich other
  let data ← data.move moved thisWhich .buffer other
  let data ← data.destroy thisWhich .buffer
  return { data := data
           which := Function.update (Function.update variants.which this (some otherWhich)) other
             (some thisWhich) }

/-- The copy assignment. -/
def copyAssign (variants : Variants Id Value) (this other : VariantPlace Id) :
    Option (Variants Id Value) := do
  let variants ← variants.copyConstruct .tmp other
  let variants ← variants.swap moved this .tmp
  variants.destruct .tmp

/-- The move assignment. -/
def moveAssign (variants : Variants Id Value) (this other : VariantPlace Id) :
    Option (Variants Id Value) :=
  variants.swap moved this other

/-- `Variant::set`. -/
def set (variants : Variants Id Value) (this : VariantPlace Id)
    (object : (index : Index) × Value index) : Option (Variants Id Value) := do
  let variants ← variants.construct .tmp object
  let variants ← variants.moveAssign moved this .tmp
  variants.destruct .tmp

/-- An operation; there is no result when a step of it is not allowed. -/
def perform (variants : Variants Id Value) :
    VariantAction Id Value → Option (Variants Id Value)
  | .construct this object => variants.construct (.variant this) object
  | .copyConstruct this other => variants.copyConstruct (.variant this) (.variant other)
  | .moveConstruct this other => variants.moveConstruct moved (.variant this) (.variant other)
  | .copyAssign this other => variants.copyAssign moved (.variant this) (.variant other)
  | .moveAssign this other => variants.moveAssign moved (.variant this) (.variant other)
  | .set this object => variants.set moved (.variant this) object
  | .swap this other => variants.swap moved (.variant this) (.variant other)
  | .destroy this => variants.destruct (.variant this)

omit [DecidableEq Id] [DecidableEq Index] in
/-- The variants of an operation exist, and the one that it makes does not. -/
def Possible (variants : Variants Id Value) : VariantAction Id Value → Bool
  | .construct this _ => (variants.which (.variant this)).isNone
  | .copyConstruct this other =>
      (variants.which (.variant this)).isNone && (variants.which (.variant other)).isSome
  | .moveConstruct this other =>
      (variants.which (.variant this)).isNone && (variants.which (.variant other)).isSome
  | .copyAssign this other =>
      (variants.which (.variant this)).isSome && (variants.which (.variant other)).isSome
  | .moveAssign this other =>
      (variants.which (.variant this)).isSome && (variants.which (.variant other)).isSome
  | .set this _ => (variants.which (.variant this)).isSome
  | .swap this other =>
      (variants.which (.variant this)).isSome && (variants.which (.variant other)).isSome
  | .destroy this => (variants.which (.variant this)).isSome

/-- A program does an operation on variants that exist. -/
def act (variants : Variants Id Value) (action : VariantAction Id Value) :
    Option (Variants Id Value) :=
  if variants.Possible action then variants.perform moved action else none

omit [DecidableEq Id] [DecidableEq Index] in
/-- No variants. -/
def start : Variants Id Value := ⟨fun _ => none, fun _ => none⟩

/-! ## What variants are for -/

/-- What variants hold after an operation, told by what they held before it. -/
def result (held : Id → Option ((index : Index) × Value index)) :
    VariantAction Id Value → Id → Option ((index : Index) × Value index)
  | .construct this object => Function.update held this (some object)
  | .copyConstruct this other => Function.update held this (held other)
  | .moveConstruct this other =>
      Function.update (Function.update held this (held other)) other
        ((held other).map fun object => ⟨object.1, moved object.1 object.2⟩)
  | .copyAssign this other => Function.update held this (held other)
  | .moveAssign this other =>
      Function.update (Function.update held this (held other)) other (held this)
  | .set this object => Function.update held this (some object)
  | .swap this other =>
      Function.update (Function.update held this (held other)) other (held this)
  | .destroy this => Function.update held this none

omit [DecidableEq Id] [DecidableEq Index] in
/-- Every variant holds a live object of the alternative that its index names, and no other place
holds an object. -/
structure Live (variants : Variants Id Value) : Prop where
  named : ∀ place, variants.which place = (variants.data place).map Sigma.fst
  tmp : variants.data .tmp = none
  buffer : variants.data .buffer = none

/-- An operation is right: all its steps are allowed, it leaves live objects that the indices
name, and the variants hold what they should. -/
def Right (before : Variants Id Value) (action : VariantAction Id Value) : Prop :=
  ∃ after, before.perform moved action = some after ∧ after.Live ∧
    (fun id => after.data (.variant id)) =
      result moved (fun id => before.data (.variant id)) action

omit [DecidableEq Id] [DecidableEq Index] in
/-- An operation does not swap a variant with itself, directly or by a move assignment. -/
def Apart : VariantAction Id Value → Prop
  | .moveAssign this other => this ≠ other
  | .swap this other => this ≠ other
  | _ => True

/-! ## Steps -/

omit [DecidableEq Id] [DecidableEq Index] in
/-- The variants that hold some objects. -/
def holding (contents : RawStorage (VariantPlace Id) Value) : Variants Id Value :=
  ⟨contents, fun place => (contents place).map Sigma.fst⟩

section

variable {moved} {contents : RawStorage (VariantPlace Id) Value}
variable {this other : VariantPlace Id} {object left right : (index : Index) × Value index}

omit [DecidableEq Id] [DecidableEq Index] in
theorem Live.eq_holding {variants : Variants Id Value} (live : variants.Live) :
    variants = holding variants.data := by
  obtain ⟨data, which⟩ := variants
  rw [holding, Variants.mk.injEq]
  exact ⟨rfl, funext live.named⟩

omit [DecidableEq Index] in
/-- The index of a place goes with its object. -/
theorem which_update (contents : RawStorage (VariantPlace Id) Value) (this : VariantPlace Id)
    (held : Option ((index : Index) × Value index)) :
    Function.update (fun place => (contents place).map Sigma.fst) this (held.map Sigma.fst) =
      fun place => (Function.update contents this held place).map Sigma.fst := by
  funext place
  by_cases same : place = this
  · rw [same, Function.update_self, Function.update_self]
  · rw [Function.update_of_ne same, Function.update_of_ne same]

omit [DecidableEq Id] [DecidableEq Index] in
theorem which_holding (live : contents this = some object) :
    (holding contents).which this = some object.1 :=
  congrArg (Option.map Sigma.fst) live

omit [DecidableEq Index] in
theorem construct_holding (raw : contents this = none) :
    (holding contents).construct this object =
      some (holding (Function.update contents this (some object))) := by
  rw [construct, holding, emplace_of_raw raw, holding, ← which_update]
  rfl

theorem copyConstruct_holding (raw : contents this = none) (live : contents other = some object) :
    (holding contents).copyConstruct this other =
      some (holding (Function.update contents this (some object))) := by
  have which := which_holding live
  rw [copyConstruct, which, holding, Option.bind_eq_bind, Option.bind_some,
    copy_of_live live raw, holding, ← which_update]
  rfl

theorem moveConstruct_holding (raw : contents this = none)
    (live : contents other = some object) :
    (holding contents).moveConstruct moved this other =
      some (holding (Function.update (Function.update contents this (some object)) other
        (some ⟨object.1, moved object.1 object.2⟩))) := by
  have which := which_holding live
  have apart : other ≠ this := by
    rintro rfl
    rw [raw] at live
    cases live
  have kept : Function.update (fun place => (contents place).map Sigma.fst) this (some object.1) =
      fun place => (Function.update (Function.update contents this (some object)) other
        (some ⟨object.1, moved object.1 object.2⟩) place).map Sigma.fst := by
    rw [← which_update, ← which_update]
    funext place
    by_cases same : place = other
    · rw [same, Function.update_self, Function.update_of_ne apart]
      exact which
    · rw [Function.update_of_ne same]
      rfl
  rw [moveConstruct, which, holding, Option.bind_eq_bind, Option.bind_some,
    move_of_live moved live raw, holding, ← kept]
  rfl

theorem destruct_holding (live : contents this = some object) :
    (holding contents).destruct this = some (holding (Function.update contents this none)) := by
  have which := which_holding live
  rw [destruct, which, holding, Option.bind_eq_bind, Option.bind_some,
    destroy_of_live live, holding, ← which_update]
  rfl

omit [DecidableEq Index] in
theorem raw_update (contents : RawStorage (VariantPlace Id) Value) (this : VariantPlace Id) :
    Function.update contents this none this = none := Function.update_self ..

omit [DecidableEq Index] in
/-- What three objects that are taken to other places leave. -/
theorem update_swapped (first : this ≠ .buffer) (second : other ≠ .buffer)
    (raw : contents .buffer = none) :
    Function.update (Function.update (Function.update (Function.update (Function.update
      (Function.update contents .buffer (some left)) this none) this (some right)) other none)
        other (some left)) .buffer none =
      Function.update (Function.update contents this (some right)) other (some left) := by
  funext place
  by_cases isBuffer : place = .buffer
  · rw [isBuffer, Function.update_self, Function.update_of_ne second.symm,
      Function.update_of_ne first.symm, raw]
  · rw [Function.update_of_ne isBuffer]
    by_cases isOther : place = other
    · rw [isOther, Function.update_self, Function.update_self]
    · rw [Function.update_of_ne isOther, Function.update_of_ne isOther,
        Function.update_of_ne isOther]
      by_cases isThis : place = this
      · rw [isThis, Function.update_self, Function.update_self]
      · rw [Function.update_of_ne isThis, Function.update_of_ne isThis,
          Function.update_of_ne isBuffer, Function.update_of_ne isThis]

/-- Two variants are swapped through the buffer. -/
theorem swap_holding (apart : this ≠ other) (first : this ≠ .buffer) (second : other ≠ .buffer)
    (raw : contents .buffer = none) (live : contents this = some left)
    (right_live : contents other = some right) :
    (holding contents).swap moved this other =
      some (holding (Function.update (Function.update contents this (some right)) other
        (some left))) := by
  -- the object of `this` goes to the buffer
  have saved := relocate moved live raw
  have live' : Function.update (Function.update contents .buffer (some left)) this none other =
      some right := by
    rw [Function.update_of_ne apart.symm, Function.update_of_ne second]
    exact right_live
  -- the object of `other` goes to `this`
  have taken := relocate moved live' (raw_update _ this)
  have kept : Function.update (Function.update (Function.update (Function.update contents .buffer
      (some left)) this none) this (some right)) other none .buffer = some left := by
    rw [Function.update_of_ne second.symm, Function.update_of_ne first.symm,
      Function.update_of_ne first.symm, Function.update_self]
  -- and what is in the buffer goes to `other`
  have given := relocate moved kept (raw_update _ other)
  rw [update_swapped first second raw] at given
  obtain ⟨_, save, clearThis⟩ := Option.bind_eq_some_iff.mp saved
  obtain ⟨_, take, clearOther⟩ := Option.bind_eq_some_iff.mp taken
  obtain ⟨_, give, clearBuffer⟩ := Option.bind_eq_some_iff.mp given
  have thisWhich := which_holding live
  have otherWhich := which_holding right_live
  have data : (holding contents).data = contents := rfl
  have which := which_update contents this (some right)
  have which' := which_update (Function.update contents this (some right)) other (some left)
  rw [← which, Option.map_some, Option.map_some] at which'
  simp only [swap, thisWhich, otherWhich, Option.bind_eq_bind, Option.bind_some, data, save,
    clearThis, take, clearOther, give, clearBuffer]
  exact congrArg (fun which => some (Variants.mk _ which)) which'

/-- A variant that is swapped with itself is moved from when it is raw. -/
theorem swap_self (raw : contents .buffer = none) (live : contents this = some object) :
    (holding contents).swap moved this this = none := by
  have saved := relocate moved live raw
  obtain ⟨_, save, clearThis⟩ := Option.bind_eq_some_iff.mp saved
  have which := which_holding live
  have data : (holding contents).data = contents := rfl
  have nothing (index : Index) := @move_of_raw _ _ _ _ _ _ this this moved
    (raw_update (Function.update contents .buffer (some object)) this) index
  simp only [swap, which, Option.bind_eq_bind, Option.bind_some, data, save, clearThis, nothing,
    Option.bind_none]

/-- A variant is swapped with the local one, and what it held is destroyed. -/
theorem swap_tmp (first : this ≠ .buffer) (second : this ≠ .tmp) (rawTmp : contents .tmp = none)
    (raw : contents .buffer = none) (live : contents this = some left) :
    (((holding (Function.update contents .tmp (some right))).swap moved this .tmp).bind
      fun variants => variants.destruct .tmp) =
        some (holding (Function.update contents this (some right))) := by
  have buffer : Function.update contents .tmp (some right) .buffer = none := by
    rw [Function.update_of_ne (by intro same; cases same)]
    exact raw
  have kept : Function.update contents .tmp (some right) this = some left := by
    rw [Function.update_of_ne second]
    exact live
  have made : Function.update contents .tmp (some right) .tmp = some right :=
    Function.update_self ..
  have swapped := @swap_holding _ _ _ _ _ moved _ _ _ _ _ second first
    (by intro same; cases same) buffer kept made
  have old : Function.update (Function.update (Function.update contents .tmp (some right)) this
      (some right)) .tmp (some left) .tmp = some left := Function.update_self ..
  have settled : Function.update (Function.update (Function.update (Function.update contents .tmp
      (some right)) this (some right)) .tmp (some left)) .tmp none =
        Function.update contents this (some right) := by
    funext place
    by_cases isTmp : place = .tmp
    · rw [isTmp, Function.update_self, Function.update_of_ne second.symm, rawTmp]
    · rw [Function.update_of_ne isTmp, Function.update_of_ne isTmp]
      by_cases isThis : place = this
      · rw [isThis, Function.update_self, Function.update_self]
      · rw [Function.update_of_ne isThis, Function.update_of_ne isThis,
          Function.update_of_ne isTmp]
  rw [swapped, Option.bind_some, destruct_holding old, settled]

end

/-! ## Operations -/

section

variable {moved} {contents : RawStorage (VariantPlace Id) Value}
variable {before after : Variants Id Value} {action : VariantAction Id Value}

omit [DecidableEq Index] in
/-- What the variants hold when one place is changed. -/
theorem held_update (contents : RawStorage (VariantPlace Id) Value) (this : Id)
    (object : Option ((index : Index) × Value index)) :
    (fun id => Function.update contents (.variant this) object (.variant id)) =
      Function.update (fun id => contents (.variant id)) this object := by
  funext id
  by_cases same : id = this
  · rw [same, Function.update_self, Function.update_self]
  · have other : VariantPlace.variant id ≠ .variant this := by
      intro equal
      cases equal
      exact same rfl
    rw [Function.update_of_ne other, Function.update_of_ne same]

omit [DecidableEq Index] in
/-- A variant is changed, and the other places are as they were. -/
theorem live_update (rawTmp : contents .tmp = none) (raw : contents .buffer = none) (this : Id)
    (object : Option ((index : Index) × Value index)) :
    Function.update contents (.variant this) object .tmp = none ∧
      Function.update contents (.variant this) object .buffer = none := by
  constructor
  · rw [Function.update_of_ne (by intro same; cases same)]
    exact rawTmp
  · rw [Function.update_of_ne (by intro same; cases same)]
    exact raw

omit [DecidableEq Id] [DecidableEq Index] in
theorem live_holding (rawTmp : contents .tmp = none) (raw : contents .buffer = none) :
    (holding contents).Live := ⟨fun _ => rfl, rawTmp, raw⟩

omit [DecidableEq Id] [DecidableEq Index] in
/-- A variant that exists holds an object. -/
theorem exists_of_isSome {place : VariantPlace Id}
    (some : ((holding contents).which place).isSome = true) :
    ∃ object, contents place = .some object := by
  rw [holding, Option.isSome_map] at some
  exact Option.isSome_iff_exists.mp some

omit [DecidableEq Id] [DecidableEq Index] in
/-- Where there is no variant there is no object. -/
theorem raw_of_isNone {place : VariantPlace Id}
    (none : ((holding contents).which place).isNone = true) : contents place = .none := by
  rw [holding, Option.isNone_map] at none
  exact Option.isNone_iff_eq_none.mp none

/-- The objects of two variants are exchanged. -/
theorem swap_right {this other : Id} (rawTmp : contents .tmp = none)
    (raw : contents .buffer = none)
    (possible : (((holding contents).which (.variant this)).isSome &&
      ((holding contents).which (.variant other)).isSome) = true) (apart : this ≠ other) :
    ∃ after, (holding contents).swap moved (.variant this) (.variant other) = some after ∧
      after.Live ∧ (fun id => after.data (.variant id)) =
        Function.update (Function.update (fun id => contents (.variant id)) this
          (contents (.variant other))) other (contents (.variant this)) := by
  rw [Bool.and_eq_true] at possible
  obtain ⟨left, live⟩ := exists_of_isSome possible.1
  obtain ⟨right, live'⟩ := exists_of_isSome possible.2
  have different : VariantPlace.variant this ≠ .variant other := by
    intro same
    cases same
    exact apart rfl
  have swapped := @swap_holding _ _ _ _ _ moved _ _ _ _ _ different
    (by intro same; cases same) (by intro same; cases same) raw live live'
  have once := live_update rawTmp raw this (some right)
  have kept := live_update once.1 once.2 other (some left)
  refine ⟨_, swapped, live_holding kept.1 kept.2, ?_⟩
  rw [live, live']
  exact (held_update ..).trans (congrArg (Function.update · other (some left)) (held_update ..))

/-- A variant is given an object through the local one. -/
theorem assign_right {this : Id} {object : (index : Index) × Value index}
    (rawTmp : contents .tmp = none) (raw : contents .buffer = none)
    (possible : ((holding contents).which (.variant this)).isSome = true) :
    ∃ after, (((holding (Function.update contents .tmp (some object))).swap moved
        (.variant this) .tmp).bind fun variants => variants.destruct .tmp) = some after ∧
      after.Live ∧ (fun id => after.data (.variant id)) =
        Function.update (fun id => contents (.variant id)) this (some object) := by
  obtain ⟨old, live⟩ := exists_of_isSome possible
  have kept := live_update rawTmp raw this (some object)
  exact ⟨_, swap_tmp (by intro same; cases same) (by intro same; cases same) rawTmp raw live,
    live_holding kept.1 kept.2, held_update ..⟩

/-- An operation on variants that are apart is right. -/
theorem right_of_apart (rawTmp : contents .tmp = none) (raw : contents .buffer = none)
    (possible : (holding contents).Possible action = true) (apart : Apart action) :
    Right moved (holding contents) action := by
  cases action with
  | construct this object =>
      have free := raw_of_isNone possible
      have kept := live_update rawTmp raw this (some object)
      exact ⟨_, construct_holding free, live_holding kept.1 kept.2, held_update ..⟩
  | copyConstruct this other =>
      rw [Possible, Bool.and_eq_true] at possible
      have free := raw_of_isNone possible.1
      obtain ⟨object, live⟩ := exists_of_isSome possible.2
      have kept := live_update rawTmp raw this (some object)
      refine ⟨_, copyConstruct_holding free live, live_holding kept.1 kept.2, ?_⟩
      rw [result]
      exact (held_update ..).trans (congrArg _ live.symm)
  | moveConstruct this other =>
      rw [Possible, Bool.and_eq_true] at possible
      have free := raw_of_isNone possible.1
      obtain ⟨object, live⟩ := exists_of_isSome possible.2
      have once := live_update rawTmp raw this (some object)
      have kept := live_update once.1 once.2 other (some ⟨object.1, moved object.1 object.2⟩)
      refine ⟨_, moveConstruct_holding free live, live_holding kept.1 kept.2, ?_⟩
      have given : (holding contents).data (.variant other) = some object := live
      rw [result, given]
      exact (held_update ..).trans (congrArg (Function.update · other _) (held_update ..))
  | copyAssign this other =>
      rw [Possible, Bool.and_eq_true] at possible
      obtain ⟨object, live⟩ := exists_of_isSome possible.2
      obtain ⟨after, assigned, kept, held⟩ :=
        @assign_right _ _ _ _ _ moved _ _ object rawTmp raw possible.1
      refine ⟨after, ?_, kept, held.trans ?_⟩
      · rw [perform, copyAssign, copyConstruct_holding rawTmp live]
        exact assigned
      · exact congrArg _ live.symm
  | moveAssign this other => exact swap_right rawTmp raw possible apart
  | set this object =>
      obtain ⟨after, assigned, kept, held⟩ :=
        @assign_right _ _ _ _ _ moved _ _ object rawTmp raw possible
      refine ⟨after, ?_, kept, held⟩
      rw [perform, set, construct_holding rawTmp]
      exact assigned
  | swap this other => exact swap_right rawTmp raw possible apart
  | destroy this =>
      obtain ⟨object, live⟩ := exists_of_isSome possible
      have kept := live_update rawTmp raw this none
      exact ⟨_, destruct_holding live, live_holding kept.1 kept.2, held_update ..⟩

/-- An operation that swaps a variant with itself takes a step that is not allowed. -/
theorem perform_self (raw : contents .buffer = none)
    (possible : (holding contents).Possible action = true) (same : ¬ Apart action) :
    (holding contents).perform moved action = none := by
  have fails {this : Id} (some : ((holding contents).which (.variant this)).isSome = true) :
      (holding contents).swap moved (.variant this) (.variant this) = none := by
    obtain ⟨object, live⟩ := exists_of_isSome some
    exact swap_self raw live
  cases action with
  | moveAssign this other =>
      cases not_not.mp same
      rw [Possible, Bool.and_self] at possible
      exact fails possible
  | swap this other =>
      cases not_not.mp same
      rw [Possible, Bool.and_self] at possible
      exact fails possible
  | construct this object => exact absurd trivial same
  | copyConstruct this other => exact absurd trivial same
  | moveConstruct this other => exact absurd trivial same
  | copyAssign this other => exact absurd trivial same
  | set this object => exact absurd trivial same
  | destroy this => exact absurd trivial same

/-! ## Runs -/

omit [DecidableEq Id] [DecidableEq Index] in
theorem live_start : (start : Variants Id Value).Live := ⟨fun _ => rfl, rfl, rfl⟩

/-- What is live is live after an operation that can be done. -/
theorem Live.act (live : before.Live) (happens : before.act moved action = some after) :
    after.Live := by
  rw [Variants.act] at happens
  by_cases possible : before.Possible action = true
  · rw [if_pos possible] at happens
    rw [live.eq_holding] at happens possible
    by_cases apart : Apart action
    · obtain ⟨after', performed, kept, -⟩ :=
        @right_of_apart _ _ _ _ _ moved _ _ live.tmp live.buffer possible apart
      rw [happens] at performed
      cases performed
      exact kept
    · rw [perform_self live.buffer possible apart] at happens
      cases happens
  · rw [if_neg possible] at happens
    cases happens

/-- In every run, every variant holds a live object that its index names, and an operation on
variants that exist is right exactly when it does not swap a variant with itself, directly or by
a move assignment. -/
theorem variants_right_iff (moved : ∀ index, Value index → Value index)
    {actions : List (VariantAction Id Value)}
    (run : Trace (Variants.act moved) start actions before)
    (possible : before.Possible action = true) :
    before.Live ∧ (Right moved before action ↔ Apart action) := by
  have live : before.Live :=
    run.invariant Live (fun _ _ _ live happens => live.act happens) live_start
  refine ⟨live, ?_⟩
  rw [live.eq_holding] at possible ⊢
  constructor
  · rintro ⟨after, performed, -, -⟩
    by_contra same
    cases performed.symm.trans (perform_self live.buffer possible same)
  · exact right_of_apart live.tmp live.buffer possible

end

/-! ## Two runs -/

/-- Two alternatives, both with numbers. -/
abbrev Numbers : Bool → Type := fun _ => ℕ

/-- A number that is moved from is zero. -/
def emptied (index : Bool) (_ : Numbers index) : Numbers index := (0 : ℕ)

/-- The first variant, with a number of the first alternative. -/
def lone : Variants Bool Numbers :=
  holding (Function.update (fun _ => none) (.variant false) (some ⟨false, (7 : ℕ)⟩))

theorem lone_run : Trace (act emptied) (start : Variants Bool Numbers)
    [.construct false ⟨false, (7 : ℕ)⟩] lone :=
  .single ((if_pos rfl).trans (construct_holding rfl))

/-- The first variant is assigned a copy of itself. -/
def copyToSelf : VariantAction Bool Numbers := .copyAssign false false

theorem variants_right_copy :
    lone.Live ∧ (Right emptied lone copyToSelf ↔ Apart copyToSelf) :=
  variants_right_iff emptied lone_run rfl

/-- A variant that is swapped with itself is moved from when it is raw. -/
theorem self_swap_not_right : ¬ ∀ (actions : List (VariantAction Bool Numbers))
    (action : VariantAction Bool Numbers) (before : Variants Bool Numbers),
    Trace (act emptied) start actions before → before.Possible action = true →
      Right emptied before action := by
  intro always
  obtain ⟨after, performed, -⟩ := always _ (.swap false false) lone lone_run rfl
  have fails := @perform_self _ _ _ _ _ emptied _ (.swap false false) (rfl : lone.data .buffer = none)
    rfl (not_not_intro rfl)
  cases performed.symm.trans fails

end Variants

end Join
