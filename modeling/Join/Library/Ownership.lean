import Mathlib.Logic.Function.Basic
import Mathlib.Tactic.Common

/-!
# Resources and their owners

A table tells which resources exist, and what is known of each. Every resource has one owner, and
an owner has at most one resource. To acquire a resource is to make one that did not exist for an
owner that has none, to release it is to destroy it, and to hand it over is to give it to an owner
that has none.

An owner that releases what it has never destroys what another one has, or what is gone.
-/

set_option autoImplicit false

namespace Join.Library

variable {Owner Resource Data : Type}

/-- Every owner has an existing resource, no two have the same one, and every resource that exists
has an owner. -/
structure Owned (table : Resource → Option Data) (claims : Owner → Option (Resource × Data)) :
    Prop where
  backed : ∀ owner resource data, claims owner = some (resource, data) →
    table resource = some data
  single : ∀ owner other resource data known, claims owner = some (resource, data) →
    claims other = some (resource, known) → owner = other
  whole : ∀ resource data, table resource = some data →
    ∃ owner, claims owner = some (resource, data)

namespace Owned

variable {table : Resource → Option Data} {claims : Owner → Option (Resource × Data)}
variable {owner other : Owner} {resource : Resource} {data : Data}

/-- Nothing exists. -/
theorem empty : Owned (fun _ => none : Resource → Option Data)
    (fun _ => none : Owner → Option (Resource × Data)) :=
  ⟨nofun, nofun, nofun⟩

/-- Without owners there are no resources. -/
theorem eq_none (owned : Owned table claims) (unclaimed : ∀ owner, claims owner = none)
    (resource : Resource) : table resource = none := by
  cases held : table resource with
  | none => rfl
  | some data =>
      obtain ⟨owner, claimed⟩ := owned.whole resource data held
      rw [unclaimed owner] at claimed
      cases claimed

variable [DecidableEq Owner] [DecidableEq Resource]

/-- A resource is acquired. -/
theorem acquire (owned : Owned table claims) (fresh : table resource = none)
    (idle : claims owner = none) (data : Data) :
    Owned (Function.update table resource (some data))
      (Function.update claims owner (some (resource, data))) := by
  have apart : ∀ other held known, claims other = some (held, known) → held ≠ resource := by
    rintro other held known claimed rfl
    rw [owned.backed other held known claimed] at fresh
    cases fresh
  constructor
  · intro other held known claimed
    by_cases same : other = owner
    · rw [same, Function.update_self] at claimed
      cases claimed
      exact Function.update_self ..
    · rw [Function.update_of_ne same] at claimed
      rw [Function.update_of_ne (apart other held known claimed)]
      exact owned.backed other held known claimed
  · intro first second held left right claimed claims'
    by_cases here : first = owner
    · by_cases there : second = owner
      · exact here.trans there.symm
      · rw [here, Function.update_self] at claimed
        rw [Function.update_of_ne there] at claims'
        cases claimed
        exact absurd rfl (apart second _ right claims')
    · rw [Function.update_of_ne here] at claimed
      by_cases there : second = owner
      · rw [there, Function.update_self] at claims'
        cases claims'
        exact absurd rfl (apart first _ left claimed)
      · rw [Function.update_of_ne there] at claims'
        exact owned.single first second held left right claimed claims'
  · intro held known exists'
    by_cases same : held = resource
    · rw [same, Function.update_self] at exists'
      cases exists'
      refine ⟨owner, ?_⟩
      rw [same]
      exact Function.update_self ..
    · rw [Function.update_of_ne same] at exists'
      obtain ⟨other, claimed⟩ := owned.whole held known exists'
      refine ⟨other, ?_⟩
      rw [Function.update_of_ne]
      · exact claimed
      · rintro rfl
        rw [idle] at claimed
        cases claimed

/-- A resource is released. -/
theorem release (owned : Owned table claims) (claimed : claims owner = some (resource, data)) :
    Owned (Function.update table resource none) (Function.update claims owner none) := by
  constructor
  · intro other held known claims'
    by_cases same : other = owner
    · rw [same, Function.update_self] at claims'
      cases claims'
    · rw [Function.update_of_ne same] at claims'
      rw [Function.update_of_ne]
      · exact owned.backed other held known claims'
      · rintro rfl
        exact same (owned.single other owner held known data claims' claimed)
  · intro first second held left right claims' claims''
    by_cases here : first = owner
    · rw [here, Function.update_self] at claims'
      cases claims'
    · by_cases there : second = owner
      · rw [there, Function.update_self] at claims''
        cases claims''
      · rw [Function.update_of_ne here] at claims'
        rw [Function.update_of_ne there] at claims''
        exact owned.single first second held left right claims' claims''
  · intro held known exists'
    by_cases same : held = resource
    · rw [same, Function.update_self] at exists'
      cases exists'
    · rw [Function.update_of_ne same] at exists'
      obtain ⟨other, claims'⟩ := owned.whole held known exists'
      refine ⟨other, ?_⟩
      rw [Function.update_of_ne]
      · exact claims'
      · rintro rfl
        rw [claimed] at claims'
        cases claims'
        exact same rfl

end Owned

end Join.Library
