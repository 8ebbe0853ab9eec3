import Mathlib.Data.List.Nodup
import Mathlib.Data.List.Perm.Basic
import Mathlib.Logic.Function.Basic

/-!
# Lists whose members know their places

A roster is a list without duplicates, with a function that gives the place of each member. A
member is added at the end; it is removed by putting the last member into its place, so that
only the place of that one changes.
-/

set_option autoImplicit false

namespace Join.Library

variable {α : Type} {roster : List α} {place : α → ℕ}

/-- No member is listed twice, and each knows its place. -/
structure Roster (roster : List α) (place : α → ℕ) : Prop where
  distinct : roster.Nodup
  known : ∀ (i : ℕ) (member : α), roster[i]? = some member → place member = i

/-- The last member takes a place. -/
def swapRemove (roster : List α) (i : ℕ) (last : α) : List α := (roster.set i last).dropLast

namespace Roster

theorem empty (place : α → ℕ) : Roster [] place := ⟨List.nodup_nil, fun _ _ => nofun⟩

/-- A member is found in its place. -/
theorem mem_iff (listed : Roster roster place) {member : α} :
    member ∈ roster ↔ roster[place member]? = some member := by
  constructor
  · intro inside
    obtain ⟨i, found⟩ := List.mem_iff_getElem?.mp inside
    rw [listed.known i member found]
    exact found
  · exact fun found => List.mem_iff_getElem?.mpr ⟨_, found⟩

variable [DecidableEq α]

/-- A member is added. -/
theorem append (listed : Roster roster place) {member : α} (new : member ∉ roster) :
    Roster (roster ++ [member]) (Function.update place member roster.length) := by
  refine ⟨?_, fun i other found => ?_⟩
  · rw [← List.concat_eq_append]
    exact listed.distinct.concat new
  · rcases Nat.lt_or_ge i roster.length with inside | behind
    · rw [List.getElem?_append_left inside] at found
      have differ : other ≠ member := by
        rintro rfl
        exact new (List.mem_of_getElem? found)
      rw [Function.update_of_ne differ]
      exact listed.known i other found
    · rw [List.getElem?_append_right behind] at found
      obtain ⟨bound, same⟩ := List.getElem?_eq_some_iff.mp found
      rw [List.length_singleton] at bound
      have here : i = roster.length := by omega
      subst here
      simp only [Nat.sub_self, List.getElem_cons_zero] at same
      rw [same, Function.update_self]

/-- A member is removed. -/
theorem swapRemove (listed : Roster roster place) {member last : α} (inside : member ∈ roster)
    (ends : roster.getLast? = some last) :
    Roster (Library.swapRemove roster (place member) last)
        (Function.update place last (place member)) ∧
      (Library.swapRemove roster (place member) last).Perm (roster.erase member) := by
  obtain ⟨front, rfl⟩ := List.getLast?_eq_some_iff.mp ends
  have found := listed.mem_iff.mp inside
  have bound := (List.getElem?_eq_some_iff.mp found).1
  rw [List.length_append, List.length_singleton] at bound
  have distinct := listed.distinct
  rw [← List.concat_eq_append, List.nodup_concat] at distinct
  obtain ⟨fresh, once⟩ := distinct
  have atEnd : place last = front.length := by
    refine listed.known front.length last ?_
    rw [List.getElem?_append_right (Nat.le_refl _), Nat.sub_self]
    rfl
  rcases Nat.lt_or_ge (place member) front.length with before | behind
  · rw [List.getElem?_append_left before] at found
    have removed : Library.swapRemove (front ++ [last]) (place member) last =
        front.set (place member) last := by
      rw [Library.swapRemove, List.set_append_left _ _ before, List.dropLast_concat]
    have permuted : (front.set (place member) last).Perm ((front ++ [last]).erase member) := by
      obtain ⟨_, there⟩ := List.getElem?_eq_some_iff.mp found
      have erased : (front.erase member).Perm (front.eraseIdx (place member)) := by
        have erased := List.erase_getElem before
        rw [there] at erased
        exact erased
      have member' : member ∈ front := List.mem_of_getElem? found
      rw [List.erase_append_left _ member']
      calc (front.set (place member) last).Perm (last :: front.eraseIdx (place member)) :=
          List.set_perm_cons_eraseIdx before last
        List.Perm _ (last :: front.erase member) := erased.symm.cons last
        List.Perm _ (front.erase member ++ [last]) := (List.perm_append_singleton last _).symm
    rw [removed]
    refine ⟨⟨permuted.nodup_iff.mpr (listed.distinct.erase member), ?_⟩, permuted⟩
    intro i other there
    rw [List.getElem?_set] at there
    split_ifs at there with here
    · cases there
      rw [here, Function.update_self]
    · have differ : other ≠ last := by
        rintro rfl
        exact fresh (List.mem_of_getElem? there)
      rw [Function.update_of_ne differ]
      refine listed.known i other ?_
      rw [List.getElem?_append_left (List.getElem?_eq_some_iff.mp there).1]
      exact there
  · have same : member = last := by
      have here : place member = front.length := by omega
      rw [here, List.getElem?_append_right (Nat.le_refl _), Nat.sub_self] at found
      exact (Option.some.inj found).symm
    subst same
    have removed : Library.swapRemove (front ++ [member]) (place member) member = front := by
      rw [Library.swapRemove, List.set_append_right _ _ behind, atEnd, Nat.sub_self]
      exact List.dropLast_concat
    rw [removed, Function.update_eq_self, List.erase_append_right _ fresh, List.erase_cons_head,
      List.append_nil]
    refine ⟨⟨once, fun i other there => listed.known i other ?_⟩, .refl _⟩
    rw [List.getElem?_append_left (List.getElem?_eq_some_iff.mp there).1]
    exact there

end Roster

end Join.Library
