import Mathlib.Data.List.Basic
import Mathlib.Data.List.Infix
import Mathlib.Tactic.Common

/-!
# Data that ends with a dot on a line of its own

A text of lines is sent as it is, and a line that holds a single dot ends it. So that
a line of the text can hold a dot alone, the sender puts a dot in front of every line
that begins with one and the receiver takes it away again.

`unstuff` is what the receiver does and `receive` is what it gets out of the data: the
text in front of the first end of data, unstuffed. A text arrives as it was sent,
unstuffed, exactly when none of its lines begins with a dot.
-/

set_option autoImplicit false

namespace Join.Library.DotStuffing

/-- The end of a line. -/
def endOfLine : List UInt8 := [13, 10]

/-- The dot. -/
def dot : UInt8 := 46

/-- The end of the data: a line that is a dot, behind the end of another. -/
def endOfData : List UInt8 := endOfLine ++ [dot] ++ endOfLine

/-! ## The receiver -/

/-- Where in a line a position is. -/
inductive Place where
  | lineStart
  | afterReturn
  | inside
deriving DecidableEq, Repr

/-- The place behind a byte. -/
def Place.next (place : Place) (byte : UInt8) : Place :=
  if byte = 13 then .afterReturn
  else if place = .afterReturn ∧ byte = 10 then .lineStart
  else .inside

/-- The place behind a text. -/
def Place.after (place : Place) (text : List UInt8) : Place := text.foldl Place.next place

/-- Drop the first dot of every line that begins with one. -/
def unstuff : Place → List UInt8 → List UInt8
  | _, [] => []
  | place, byte :: text =>
      if place = .lineStart ∧ byte = dot then unstuff .inside text
      else byte :: unstuff (place.next byte) text

/-- What stands in front of the first end of data, and what stands behind it. -/
def cutAtEnd : List UInt8 → Option (List UInt8 × List UInt8)
  | [] => none
  | byte :: data =>
      if endOfData.isPrefixOf (byte :: data) then
        some ([], (byte :: data).drop endOfData.length)
      else (cutAtEnd data).map fun parts => (byte :: parts.1, parts.2)

/-- What a receiver gets out of the data. -/
def receive (data : List UInt8) : Option (List UInt8) :=
  (cutAtEnd data).map fun parts => unstuff .lineStart parts.1

/-! ## Lines -/

/-- A line begins behind the text. -/
def BeginsLine (text : List UInt8) : Prop := text = [] ∨ endOfLine <:+ text

/-- No line of the text begins with a dot. -/
def NoDotLine (text : List UInt8) : Prop :=
  ∀ front back, text = front ++ dot :: back → ¬ BeginsLine front

theorem after_append (place : Place) (front back : List UInt8) :
    place.after (front ++ back) = (place.after front).after back := List.foldl_append

theorem after_endOfLine (place : Place) : place.after endOfLine = .lineStart := by
  cases place <;> rfl

/-- Behind a text a line begins when it ends one, and at the start. -/
theorem after_eq_lineStart_iff (text : List UInt8) :
    Place.after .lineStart text = .lineStart ↔ BeginsLine text := by
  constructor
  · intro starts
    rcases List.eq_nil_or_concat text with rfl | ⟨front, last, rfl⟩
    · exact .inl rfl
    · rw [List.concat_eq_append, after_append] at starts
      have last_eq : last = 10 ∧ Place.after .lineStart front = .afterReturn := by
        simp only [Place.after, List.foldl_cons, List.foldl_nil, Place.next] at starts ⊢
        split_ifs at starts with _ found
        exact ⟨found.2, found.1⟩
      obtain ⟨rfl, returned⟩ := last_eq
      rcases List.eq_nil_or_concat front with rfl | ⟨front, before, rfl⟩
      · cases returned
      · rw [List.concat_eq_append, after_append] at returned
        have before_eq : before = 13 := by
          by_contra other
          simp only [Place.after, List.foldl_cons, List.foldl_nil, Place.next, if_neg other]
            at returned
          split_ifs at returned
        subst before_eq
        refine .inr ⟨front, ?_⟩
        rw [List.concat_eq_append, List.concat_eq_append, List.append_assoc]
        rfl
  · rintro (rfl | ⟨front, rfl⟩)
    · rfl
    · rw [after_append, after_endOfLine]

/-! ## Unstuffing -/

theorem unstuff_append (place : Place) (front back : List UInt8) :
    unstuff place (front ++ back) = unstuff place front ++ unstuff (place.after front) back := by
  induction front generalizing place with
  | nil => rfl
  | cons byte front ih =>
      rw [List.cons_append, unstuff, unstuff]
      by_cases stuffed : place = .lineStart ∧ byte = dot
      · obtain ⟨rfl, rfl⟩ := stuffed
        rw [if_pos ⟨rfl, rfl⟩, if_pos ⟨rfl, rfl⟩, ih]
        rfl
      · rw [if_neg stuffed, if_neg stuffed, ih]
        rfl

theorem length_unstuff_le (place : Place) (text : List UInt8) :
    (unstuff place text).length ≤ text.length := by
  induction text generalizing place with
  | nil => exact le_rfl
  | cons byte text ih =>
      rw [unstuff]
      split_ifs
      · exact (ih _).trans (Nat.le_succ _)
      · exact Nat.succ_le_succ (ih _)

/-- Nothing is dropped exactly when there is no dot where a line begins. -/
theorem unstuff_eq_self_iff (place : Place) (text : List UInt8) :
    unstuff place text = text ↔
      ∀ front back, text = front ++ dot :: back → place.after front ≠ .lineStart := by
  induction text generalizing place with
  | nil =>
      refine iff_of_true rfl fun front back split => ?_
      exact absurd split (by simp)
  | cons byte text ih =>
      rw [unstuff]
      by_cases stuffed : place = .lineStart ∧ byte = dot
      · obtain ⟨rfl, rfl⟩ := stuffed
        rw [if_pos ⟨rfl, rfl⟩]
        constructor
        · intro same
          have shorter := length_unstuff_le .inside text
          rw [same, List.length_cons] at shorter
          omega
        · intro none
          exact absurd rfl (none [] text rfl)
      · rw [if_neg stuffed, List.cons.injEq, eq_self_iff_true, true_and, ih]
        constructor
        · rintro none front back split
          cases front with
          | nil =>
              obtain ⟨rfl, -⟩ := List.cons.inj split
              intro starts
              exact stuffed ⟨starts, rfl⟩
          | cons first front =>
              obtain ⟨rfl, rfl⟩ := List.cons.inj split
              exact none front back rfl
        · rintro none front back rfl
          exact none (byte :: front) back rfl

theorem unstuff_eq_self_iff_noDotLine (text : List UInt8) :
    unstuff .lineStart text = text ↔ NoDotLine text := by
  rw [unstuff_eq_self_iff]
  simp only [NoDotLine, ne_eq, after_eq_lineStart_iff]

/-! ## The end of the data -/

theorem cutAtEnd_sound {data front back : List UInt8} (found : cutAtEnd data = some (front, back)) :
    data = front ++ endOfData ++ back := by
  induction data generalizing front with
  | nil => cases found
  | cons byte data ih =>
      rw [cutAtEnd] at found
      by_cases here : endOfData.isPrefixOf (byte :: data) = true
      · rw [if_pos here, Option.some.injEq, Prod.mk.injEq] at found
        obtain ⟨rfl, rfl⟩ := found
        obtain ⟨rest, split⟩ := List.isPrefixOf_iff_prefix.mp here
        rw [← split, List.drop_left, List.nil_append]
      · rw [if_neg here] at found
        obtain ⟨parts, inner, same⟩ := Option.map_eq_some_iff.mp found
        obtain ⟨rfl, rfl⟩ := Prod.mk.inj same
        rw [ih inner]
        rfl

theorem cutAtEnd_complete (front back : List UInt8) :
    (cutAtEnd (front ++ endOfData ++ back)).isSome = true := by
  induction front with
  | nil => rfl
  | cons byte front ih =>
      rw [List.cons_append, List.cons_append, cutAtEnd]
      split_ifs
      · rfl
      · rw [Option.isSome_map]
        exact ih

/-- Data whose only end of data is at its end is received as what stands in front of it. -/
theorem receive_of_last {text : List UInt8}
    (last : ∀ front back, text ++ endOfData = front ++ endOfData ++ back → back = []) :
    receive (text ++ endOfData) = some (unstuff .lineStart text) := by
  have complete := cutAtEnd_complete text []
  rw [List.append_nil] at complete
  obtain ⟨⟨front, back⟩, found⟩ := Option.isSome_iff_exists.mp complete
  have split := cutAtEnd_sound found
  obtain rfl := last front back split
  rw [List.append_nil] at split
  obtain rfl := List.append_cancel_right split
  rw [receive, found]
  rfl

/-! ## Where the data ends -/

theorem suffix_endOfLine {text : List UInt8} (suffix : text <:+ endOfLine) :
    text = [] ∨ text = [10] ∨ text = endOfLine := by
  rcases List.suffix_cons_iff.mp suffix with whole | suffix
  · exact .inr (.inr whole)
  · rcases List.suffix_cons_iff.mp suffix with last | nothing
    · exact .inr (.inl last)
    · exact .inl (List.suffix_nil.mp nothing)

/-- Behind lines, a text that ends a line with what stands in front of it begins one. -/
theorem beginsLine_of_append {headers text front : List UInt8} (lines : endOfLine <:+ headers)
    (same : front ++ endOfLine = headers ++ text) : BeginsLine text := by
  rcases List.suffix_or_suffix_of_suffix ⟨front, same⟩ ⟨headers, rfl⟩ with ends | short
  · exact .inr ends
  · rcases suffix_endOfLine short with rfl | rfl | rfl
    · exact .inl rfl
    · obtain ⟨before, rfl⟩ := lines
      have lasts := congrArg (fun line => line.dropLast.getLast?) same
      simp [endOfLine] at lasts
    · exact .inr List.suffix_rfl

/-- A dot that begins a line of lines is followed by at least the end of its own line. -/
theorem endOfLine_prefix_of_suffix {headers front text rest back : List UInt8}
    (lines : endOfLine <:+ headers) (split : headers = front ++ dot :: text)
    (same : endOfLine ++ back = text ++ rest) : endOfLine <+: text := by
  rcases List.suffix_or_suffix_of_suffix lines ⟨front, split.symm⟩ with ends | short
  · have long := ends.length_le
    refine List.prefix_of_prefix_length_le ⟨back, same⟩ ⟨rest, rfl⟩ ?_
    rcases List.suffix_cons_iff.mp ends with whole | inner
    · cases whole
    · exact inner.length_le
  · rcases suffix_endOfLine short with absurd | absurd | absurd
    · cases absurd
    · cases absurd
    · cases absurd

/-- Behind lines without an end of data, a text without a line that begins with a dot does not
end the data before its end. -/
theorem end_is_last {headers text : List UInt8} (lines : endOfLine <:+ headers)
    (noEnd : ¬ endOfData <:+: headers) (plain : NoDotLine text) {front back : List UInt8}
    (split : headers ++ text ++ endOfData = front ++ endOfData ++ back) : back = [] := by
  have shape : headers ++ (text ++ endOfData) =
      (front ++ endOfLine) ++ dot :: (endOfLine ++ back) := by
    rw [← List.append_assoc, split]
    simp only [endOfData, List.append_assoc, List.nil_append, List.cons_append]
  rcases List.append_eq_append_iff.mp shape with ⟨more, same, rest⟩ | ⟨more, same, rest⟩
  · rcases List.append_eq_append_iff.mp rest with ⟨inner, here, behind⟩ | ⟨inner, here, behind⟩
    · -- the dot is the one the end of data begins its line with
      have length := congrArg List.length behind
      rcases inner with _ | ⟨first, _ | ⟨second, _ | ⟨third, inner⟩⟩⟩
      · cases behind
      · cases behind
      · simp only [endOfData, endOfLine, List.cons_append, List.nil_append, List.cons.injEq,
          true_and] at behind
        exact behind.2.2.symm ▸ rfl
      · simp [endOfData, endOfLine] at length
        omega
    · cases inner with
      | nil => cases behind
      | cons first inner =>
          obtain ⟨rfl, -⟩ := List.cons.inj behind
          exact absurd (beginsLine_of_append lines same) (plain more inner here)
  · cases more with
    | nil =>
        cases text with
        | nil => cases rest
        | cons first text =>
            obtain ⟨rfl, -⟩ := List.cons.inj rest
            exact absurd (.inl rfl) (plain [] text rfl)
    | cons first more =>
        obtain ⟨rfl, behind⟩ := List.cons.inj rest
        obtain ⟨inner, rfl⟩ := endOfLine_prefix_of_suffix lines same behind
        refine absurd ⟨front, inner, ?_⟩ noEnd
        rw [same]
        simp only [endOfData, List.append_assoc, List.cons_append, List.nil_append]

end Join.Library.DotStuffing
