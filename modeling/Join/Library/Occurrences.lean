import Mathlib.Data.List.Basic
import Mathlib.Data.List.Infix
import Mathlib.Tactic.Common

/-!
# Where a pattern occurs in a text

Two searches go through the positions of a text, one to the back and one to the front. What
they find is the first occurrence behind a position and the last one that ends in front of
a position.

`Cut` collects the occurrences that one meets from the back when each has to end where the
one behind it begins. For a pattern of one element the two searches take a text apart at
the same places.
-/

set_option autoImplicit false

namespace Join.Library

variable {α : Type} [BEq α]

/-- The pattern stands in the text at a position. -/
def occurs (pattern text : List α) (position : Nat) : Bool :=
  pattern.isPrefixOf (text.drop position)

/-- The first of a number of positions at which the pattern stands. -/
def searchForward (pattern text : List α) : Nat → Nat → Option Nat
  | 0, _ => none
  | count + 1, position =>
      if occurs pattern text position then some position
      else searchForward pattern text count (position + 1)

/-- The last position up to a given one at which the pattern stands. -/
def searchBackward (pattern text : List α) : Nat → Option Nat
  | 0 => if occurs pattern text 0 then some 0 else none
  | position + 1 =>
      if occurs pattern text (position + 1) then some (position + 1)
      else searchBackward pattern text position

/-- The last occurrence that ends in front of a position. -/
structure LastBefore (pattern text : List α) (stop place : Nat) : Prop where
  occurs : occurs pattern text place = true
  within : place + pattern.length ≤ stop
  last : ∀ later, Library.occurs pattern text later = true →
    later + pattern.length ≤ stop → later ≤ place

/-- The occurrences met from a position to the front, each of which ends where the one
behind it begins. -/
inductive Cut (pattern text : List α) : Nat → Nat → Prop
  | last {stop place : Nat} : LastBefore pattern text stop place → Cut pattern text stop place
  | further {stop middle place : Nat} : LastBefore pattern text stop middle →
      Cut pattern text middle place → Cut pattern text stop place

/-! ## What the searches find -/

theorem searchForward_some {pattern text : List α} {count position place : Nat}
    (found : searchForward pattern text count position = some place) :
    position ≤ place ∧ occurs pattern text place = true ∧
      ∀ earlier, position ≤ earlier → earlier < place → occurs pattern text earlier = false := by
  induction count generalizing position with
  | zero => exact absurd found (by simp [searchForward])
  | succ count ih =>
    rw [searchForward] at found
    split at found
    · rename_i here
      obtain rfl := Option.some.inj found
      exact ⟨le_refl _, here, fun earlier after before => absurd after (not_le.mpr before)⟩
    · rename_i elsewhere
      obtain ⟨after, here, first⟩ := ih found
      refine ⟨by omega, here, ?_⟩
      intro earlier behind before
      rcases Nat.eq_or_lt_of_le behind with rfl | behind
      · exact Bool.eq_false_iff.mpr elsewhere
      · exact first earlier behind before

theorem searchForward_none {pattern text : List α} {count position : Nat}
    (absent : searchForward pattern text count position = none) (place : Nat)
    (after : position ≤ place) (before : place < position + count) :
    occurs pattern text place = false := by
  induction count generalizing position with
  | zero => omega
  | succ count ih =>
    rw [searchForward] at absent
    split at absent
    · exact absurd absent (by simp)
    · rename_i elsewhere
      rcases Nat.eq_or_lt_of_le after with rfl | after
      · exact Bool.eq_false_iff.mpr elsewhere
      · exact ih absent after (by omega)

theorem searchBackward_some {pattern text : List α} {position place : Nat}
    (found : searchBackward pattern text position = some place) :
    LastBefore pattern text (position + pattern.length) place := by
  induction position with
  | zero =>
    rw [searchBackward] at found
    split at found
    · rename_i here
      obtain rfl := Option.some.inj found
      exact ⟨here, le_refl _, fun later _ within => by omega⟩
    · exact absurd found (by simp)
  | succ position ih =>
    rw [searchBackward] at found
    split at found
    · rename_i here
      obtain rfl := Option.some.inj found
      exact ⟨here, le_refl _, fun later _ within => by omega⟩
    · rename_i elsewhere
      obtain ⟨here, within, last⟩ := ih found
      refine ⟨here, by omega, ?_⟩
      intro later there close
      apply last later there
      rcases Nat.eq_or_lt_of_le close with same | close
      · obtain rfl : later = position + 1 := by omega
        exact absurd there elsewhere
      · omega

theorem searchBackward_none {pattern text : List α} {position : Nat}
    (absent : searchBackward pattern text position = none) (place : Nat)
    (before : place ≤ position) : occurs pattern text place = false := by
  induction position with
  | zero =>
    rw [searchBackward] at absent
    split at absent
    · exact absurd absent (by simp)
    · rename_i elsewhere
      obtain rfl : place = 0 := by omega
      exact Bool.eq_false_iff.mpr elsewhere
  | succ position ih =>
    rw [searchBackward] at absent
    split at absent
    · exact absurd absent (by simp)
    · rename_i elsewhere
      rcases Nat.eq_or_lt_of_le before with rfl | before
      · exact Bool.eq_false_iff.mpr elsewhere
      · exact ih absent (by omega)

/-! ## Cuts -/

/-- There is one last occurrence. -/
theorem LastBefore.unique {pattern text : List α} {stop place other : Nat}
    (one : LastBefore pattern text stop place) (two : LastBefore pattern text stop other) :
    place = other :=
  Nat.le_antisymm (two.last place one.occurs one.within) (one.last other two.occurs two.within)

/-- The first cut met is the last occurrence, and what is met later is met from there. -/
theorem Cut.from_last {pattern text : List α} {stop place found : Nat}
    (cut : Cut pattern text stop place) (last : LastBefore pattern text stop found) :
    place = found ∨ Cut pattern text found place := by
  cases cut with
  | last here => exact .inl (here.unique last)
  | further here rest =>
    rw [here.unique last] at rest
    exact .inr rest

/-- The pattern stands at every cut. -/
theorem Cut.present {pattern text : List α} {stop place : Nat}
    (cut : Cut pattern text stop place) : Library.occurs pattern text place = true := by
  induction cut with
  | last here => exact here.occurs
  | further _ _ ih => exact ih

/-- A place at which something is cut has an occurrence in front of it. -/
theorem Cut.exists_occurs {pattern text : List α} {stop place : Nat}
    (cut : Cut pattern text stop place) :
    ∃ there, occurs pattern text there = true ∧ there + pattern.length ≤ stop := by
  cases cut with
  | last here => exact ⟨_, here.occurs, here.within⟩
  | further here _ => exact ⟨_, here.occurs, here.within⟩

/-! ## Taking a text apart -/

section Lawful

variable [LawfulBEq α]

theorem occurs_iff {pattern text : List α} {position : Nat} :
    occurs pattern text position = true ↔ pattern <+: text.drop position :=
  List.isPrefixOf_iff_prefix

/-- A pattern that occurs ends in the text. -/
theorem occurs_le {pattern text : List α} {position : Nat} (nonempty : pattern ≠ [])
    (here : occurs pattern text position = true) : position + pattern.length ≤ text.length := by
  have short := (occurs_iff.mp here).length_le
  have long := List.length_pos_iff.mpr nonempty
  rw [List.length_drop] at short
  omega

/-- What stands behind a position goes on with the pattern. -/
theorem drop_of_occurs {pattern text : List α} {position : Nat}
    (here : occurs pattern text position = true) :
    text.drop position = pattern ++ text.drop (position + pattern.length) := by
  obtain ⟨rest, split⟩ := occurs_iff.mp here
  rw [← List.drop_drop, ← split, List.drop_left]

/-- What stands behind a position, taken apart at a later occurrence. -/
theorem drop_eq_take_append {pattern text : List α} {position place : Nat}
    (after : position ≤ place) (here : occurs pattern text place = true) :
    text.drop position = (text.drop position).take (place - position) ++
      (pattern ++ text.drop (place + pattern.length)) := by
  rw [← drop_of_occurs here]
  conv_lhs => rw [← List.take_append_drop (place - position) (text.drop position)]
  rw [List.drop_drop, Nat.add_sub_cancel' after]

/-! ### One element -/

theorem occurs_singleton {element : α} {text : List α} {position : Nat} :
    occurs [element] text position = true ↔ text[position]? = some element := by
  rw [occurs_iff, List.singleton_prefix_iff_head?_eq_some, List.head?_drop]

/-- Between two positions at which it does not stand, the element is not met. -/
theorem not_mem_between {element : α} {text : List α} {position stop : Nat}
    (absent : ∀ place, position ≤ place → place < stop →
      occurs [element] text place = false) :
    element ∉ (text.drop position).take (stop - position) := by
  intro member
  obtain ⟨offset, there⟩ := List.mem_iff_getElem?.mp member
  rw [List.getElem?_take] at there
  split at there
  · rename_i inside
    rw [List.getElem?_drop] at there
    have missing := absent (position + offset) (by omega) (by omega)
    rw [occurs_singleton.mpr there] at missing
    cases missing
  · cases there

/-- The first piece behind a position ends at the first occurrence. -/
theorem splitOn_first {element : α} {text : List α} {position place : Nat}
    (after : position ≤ place) (here : occurs [element] text place = true)
    (first : ∀ earlier, position ≤ earlier → earlier < place →
      occurs [element] text earlier = false) :
    (text.drop position).splitOn element =
      (text.drop position).take (place - position) :: (text.drop (place + 1)).splitOn element := by
  conv_lhs => rw [drop_eq_take_append after here]
  exact List.splitOn_append_cons_self_of_not_mem (not_mem_between first) _

/-- The last piece in front of a position begins behind the last occurrence. -/
theorem LastBefore.splitOn {element : α} {text : List α} {stop place : Nat}
    (here : LastBefore [element] text stop place) :
    (text.take stop).splitOn element =
      (text.take place).splitOn element ++
        [(text.drop (place + 1)).take (stop - (place + 1))] := by
  have within : place + 1 ≤ stop := here.within
  have parts : text.take stop =
      text.take place ++ element :: (text.drop (place + 1)).take (stop - (place + 1)) := by
    obtain ⟨more, rfl⟩ := Nat.exists_eq_add_of_le within
    have gap : place + (more + 1) - (place + 1) = more := by omega
    rw [Nat.add_assoc, List.take_add, drop_of_occurs here.occurs, Nat.add_comm 1 more, gap]
    rfl
  have clean : element ∉ (text.drop (place + 1)).take (stop - (place + 1)) := by
    apply not_mem_between
    intro later after before
    apply Bool.eq_false_iff.mpr
    intro there
    have := here.last later there before
    omega
  rw [parts, List.splitOn_append_cons_self, List.splitOn_eq_singleton clean]

/-- Where the element does not stand there is one piece. -/
theorem splitOn_absent {element : α} {text : List α} {position stop : Nat}
    (absent : ∀ place, position ≤ place → place < stop →
      occurs [element] text place = false) :
    ((text.drop position).take (stop - position)).splitOn element =
      [(text.drop position).take (stop - position)] :=
  List.splitOn_eq_singleton (not_mem_between absent)

end Lawful

end Join.Library
