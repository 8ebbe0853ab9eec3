import Join.Library.Occurrences
import Mathlib.Algebra.Group.Nat.Defs

/-!
# Taking a string apart

`join::split` looks for a delimiter from the front and `join::rsplit` looks for it from the
back. Both work on unsigned positions of 64 bits; `npos`, the greatest of them, is what a
search gives that finds nothing and what stands for the end of the string.

`rsplit` goes on searching one delimiter in front of the one that it found. Where the one
that it found begins less than a delimiter behind the start of the string, that position is
below zero and becomes a large one: the search starts over at the back, and `rsplit` never
returns.
-/

set_option autoImplicit false

namespace Join.Splitting

open Library

/-- A `std::string`: no longer than `max_size` allows. -/
structure StdString where
  bytes : List UInt8
  bounded : bytes.length < 2 ^ 63

/-- `std::string::npos` -/
def npos : Nat := 2 ^ 64 - 1

/-- The difference of two positions. -/
def minus (left right : Nat) : Nat := (left + 2 ^ 64 - right) % 2 ^ 64

/-- `std::string::find`: the first occurrence at a position or behind it. -/
def find (text delim : List UInt8) (position : Nat) : Option Nat :=
  searchForward delim text (text.length + 1 - position) position

/-- `std::string::rfind`: the last occurrence at a position or in front of it. -/
def rfind (text delim : List UInt8) (position : Nat) : Option Nat :=
  if delim.length ≤ text.length then
    searchBackward delim text (min (text.length - delim.length) position)
  else none

/-- `std::string::substr`, for a position that is not behind the end. -/
def substr (text : List UInt8) (position count : Nat) : List UInt8 :=
  (text.drop position).take count

/-- What a loop has collected, and whether one of its differences was below zero. -/
structure Tokens where
  tokens : List (List UInt8) := []
  wrapped : Bool := false
deriving DecidableEq, Repr

/-- How far a loop has come when its time is up: it is still at work, `substr` has thrown
`out_of_range`, or it has returned. -/
inductive Outcome where
  | running
  | outOfRange
  | returned (tokens : Tokens)
deriving DecidableEq, Repr

/-- `tokens.push_back`, and whether a difference of the same round is below zero. -/
def Tokens.push (found : Tokens) (token : List UInt8) (wraps : Bool) : Tokens :=
  { tokens := found.tokens ++ [token], wrapped := found.wrapped || wraps }

/-- The loop of `split`. -/
def splitLoop (text delim : List UInt8) : Nat → Nat → Option Nat → Tokens → Outcome
  | 0, _, _, _ => .running
  | fuel + 1, start, stop, found =>
      if text.length < start then .outOfRange
      else match stop with
        | none => .returned (found.push (substr text start npos) false)
        | some stop =>
            splitLoop text delim fuel (stop + delim.length)
              (find text delim (stop + delim.length))
              (found.push (substr text start (minus stop start)) (decide (stop < start)))

/-- `split` -/
def split (text delim : List UInt8) (fuel : Nat) : Outcome :=
  if text = [] then .returned {}
  else splitLoop text delim fuel 0 (find text delim 0) {}

/-- The loop of `rsplit`. -/
def rsplitLoop (text delim : List UInt8) : Nat → Option Nat → Nat → Tokens → Outcome
  | 0, _, _, _ => .running
  | _ + 1, none, stop, found => .returned (found.push (substr text 0 stop) false)
  | fuel + 1, some start, stop, found =>
      if text.length < start + delim.length then .outOfRange
      else
        rsplitLoop text delim fuel (rfind text delim (minus start delim.length)) start
          (found.push
            (substr text (start + delim.length) (minus (minus stop start) delim.length))
            (decide (stop < start + delim.length) || decide (start < delim.length)))

/-- `rsplit` -/
def rsplit (text delim : List UInt8) (fuel : Nat) : Outcome :=
  if text = [] then .returned {}
  else rsplitLoop text delim fuel (rfind text delim npos) npos {}

/-- The two loops return, none of their differences is below zero, the pieces of `split`
joined with the delimiter are the text, and for a delimiter of one byte `rsplit` returns
the same pieces from the back. -/
def Agree (text delim : List UInt8) : Prop :=
  ∃ (bound : Nat) (pieces backward : List (List UInt8)),
    (∀ fuel, bound ≤ fuel → split text delim fuel = .returned { tokens := pieces }) ∧
    (∀ fuel, bound ≤ fuel → rsplit text delim fuel = .returned { tokens := backward }) ∧
    delim.intercalate pieces = text ∧
    (delim.length = 1 → backward = pieces.reverse)

/-! ## Differences -/

theorem minus_of_le {left right : Nat} (small : left < 2 ^ 64) (below : right ≤ left) :
    minus left right = left - right := by
  rw [minus, Nat.sub_add_comm below, Nat.add_mod_right,
    Nat.mod_eq_of_lt (Nat.lt_of_le_of_lt (Nat.sub_le _ _) small)]

theorem minus_minus {left middle right : Nat} (small : left < 2 ^ 64)
    (below : middle + right ≤ left) :
    minus (minus left middle) right = left - (middle + right) := by
  have first : minus left middle = left - middle := minus_of_le small (by omega)
  rw [first, minus_of_le (by omega) (by omega), Nat.sub_sub]

/-- Below zero the difference lies behind every string. -/
theorem minus_of_lt {left right : Nat} (small : right < 2 ^ 63) (above : left < right) :
    2 ^ 63 ≤ minus left right := by
  rw [minus, Nat.mod_eq_of_lt (by omega)]
  omega

/-! ## The searches -/

section Search

variable {text delim : List UInt8}

theorem find_none {position : Nat} (absent : find text delim position = none) (place : Nat)
    (after : position ≤ place) (before : place < text.length) :
    occurs delim text place = false :=
  searchForward_none absent place after (by omega)

/-- What a search for the last occurrence in front of a position gives. -/
def LastIn (text delim : List UInt8) (edge : Nat) : Option Nat → Prop
  | none => ∀ place, place + delim.length ≤ edge → occurs delim text place = false
  | some place => LastBefore delim text edge place

theorem rfind_lastIn {position edge : Nat} (nonempty : delim ≠ [])
    (limit : delim.length ≤ text.length →
      min (text.length - delim.length) position + delim.length = edge) :
    LastIn text delim edge (rfind text delim position) := by
  rw [rfind]
  split
  · rename_i fits
    rw [← limit fits]
    cases found : searchBackward delim text (min (text.length - delim.length) position) with
    | none =>
      intro place within
      exact searchBackward_none found place (by omega)
    | some place => exact searchBackward_some found
  · intro place within
    apply Bool.eq_false_iff.mpr
    intro here
    have := occurs_le nonempty here
    omega

/-- A search from far behind finds the last occurrence of all. -/
theorem rfind_far {position : Nat} (nonempty : delim ≠ []) (far : text.length ≤ position) :
    LastIn text delim text.length (rfind text delim position) :=
  rfind_lastIn nonempty fun fits => by omega

/-- A search one delimiter in front of an edge finds the last occurrence that ends there. -/
theorem rfind_minus {edge : Nat} (nonempty : delim ≠ []) (small : text.length < 2 ^ 63)
    (inside : edge ≤ text.length) (room : delim.length ≤ edge) :
    LastIn text delim edge (rfind text delim (minus edge delim.length)) := by
  apply rfind_lastIn nonempty
  intro fits
  rw [minus_of_le (by omega) room]
  omega

end Search

/-! ## `split` -/

section Loops

variable {text delim : List UInt8}

theorem substr_to_end {position count : Nat} (long : text.length ≤ position + count) :
    substr text position count = text.drop position := by
  apply List.take_of_length_le
  rw [List.length_drop]
  omega

/-- From every position on, the loop of `split` returns the pieces of what is left. -/
theorem splitLoop_returns (nonempty : delim ≠ []) (small : text.length < 2 ^ 63)
    (remaining start : Nat) (inside : start ≤ text.length)
    (left : text.length ≤ start + remaining) :
    ∃ pieces, (∀ fuel found, remaining < fuel →
        splitLoop text delim fuel start (find text delim start) found =
          .returned { tokens := found.tokens ++ pieces, wrapped := found.wrapped }) ∧
      pieces ≠ [] ∧ delim.intercalate pieces = text.drop start ∧
      ∀ byte, delim = [byte] → pieces = (text.drop start).splitOn byte := by
  induction remaining using Nat.strong_induction_on generalizing start with
  | _ remaining ih =>
    have behind : ¬ text.length < start := not_lt.mpr inside
    cases next : find text delim start with
    | none =>
      refine ⟨[text.drop start], ?_, by simp, List.intercalate_singleton, ?_⟩
      · intro fuel found enough
        obtain ⟨fuel, rfl⟩ := Nat.exists_eq_succ_of_ne_zero (Nat.ne_zero_of_lt enough)
        have whole : substr text start npos = text.drop start :=
          substr_to_end (by rw [npos]; omega)
        simp only [splitLoop, if_neg behind, whole, Tokens.push, Bool.or_false]
      · rintro byte rfl
        have clean := @splitOn_absent _ _ _ byte text start text.length
          (fun place after before => find_none next place after before)
        rwa [List.take_of_length_le (by rw [List.length_drop]), eq_comm] at clean
    | some place =>
      obtain ⟨after, here, first⟩ := searchForward_some next
      have within := occurs_le nonempty here
      have long := List.length_pos_iff.mpr nonempty
      obtain ⟨pieces, returns, some, joined, single⟩ :=
        ih (remaining - 1) (by omega) (place + delim.length) within (by omega)
      refine ⟨(text.drop start).take (place - start) :: pieces, ?_, by simp, ?_, ?_⟩
      · intro fuel found enough
        obtain ⟨fuel, rfl⟩ := Nat.exists_eq_succ_of_ne_zero (Nat.ne_zero_of_lt enough)
        have gap : minus place start = place - start := minus_of_le (by omega) after
        have forward : decide (place < start) = false := decide_eq_false (not_lt.mpr after)
        simp only [splitLoop, if_neg behind]
        rw [returns fuel _ (by omega), gap, forward]
        simp [Tokens.push, substr]
      · rw [List.intercalate_cons_of_ne_nil some, joined, List.append_assoc,
          ← drop_eq_take_append after here]
      · rintro byte rfl
        rw [single byte rfl]
        exact (splitOn_first after here first).symm

/-- `split` returns, and no difference is below zero. -/
theorem split_returns (nonempty : delim ≠ []) (small : text.length < 2 ^ 63) :
    ∃ pieces, (∀ fuel, text.length + 1 ≤ fuel →
        split text delim fuel = .returned { tokens := pieces }) ∧
      delim.intercalate pieces = text ∧
      ∀ byte, delim = [byte] → text ≠ [] → pieces = text.splitOn byte := by
  by_cases empty : text = []
  · refine ⟨[], ?_, ?_, ?_⟩
    · intro fuel enough
      rw [split, if_pos empty]
    · rw [empty, List.intercalate_nil]
    · intro byte _ filled
      exact absurd empty filled
  · obtain ⟨pieces, returns, -, joined, single⟩ :=
      splitLoop_returns nonempty small text.length 0 (Nat.zero_le _) (Nat.le_add_left _ _)
    refine ⟨pieces, ?_, joined, ?_⟩
    · intro fuel enough
      rw [split, if_neg empty, returns fuel {} enough]
      rfl
    · intro byte alone _
      exact single byte alone

/-! ## `rsplit` -/

/-- In front of every edge the loop of `rsplit` returns, when none of the cuts that it meets
there begins less than a delimiter behind the start. -/
theorem rsplitLoop_returns (nonempty : delim ≠ []) (small : text.length < 2 ^ 63)
    (edge : Nat) (search : Option Nat) (inside : edge ≤ text.length)
    (last : LastIn text delim edge search)
    (room : ∀ place, Cut delim text edge place → delim.length ≤ place) :
    ∃ backward, (∀ fuel found, edge < fuel →
        rsplitLoop text delim fuel search edge found =
          .returned { tokens := found.tokens ++ backward, wrapped := found.wrapped }) ∧
      ∀ byte, delim = [byte] → backward = ((text.take edge).splitOn byte).reverse := by
  induction edge using Nat.strong_induction_on generalizing search with
  | _ edge ih =>
    cases search with
    | none =>
      refine ⟨[text.take edge], ?_, ?_⟩
      · intro fuel found enough
        obtain ⟨fuel, rfl⟩ := Nat.exists_eq_succ_of_ne_zero (Nat.ne_zero_of_lt enough)
        simp only [rsplitLoop, Tokens.push, substr, List.drop_zero, Bool.or_false]
      · rintro byte rfl
        have clean := @splitOn_absent _ _ _ byte text 0 edge
          (fun place _ before => last place before)
        rw [List.drop_zero, Nat.sub_zero] at clean
        rw [clean, List.reverse_singleton]
    | some place =>
      have here : LastBefore delim text edge place := last
      have within := here.within
      have long := List.length_pos_iff.mpr nonempty
      have far := room place (.last here)
      obtain ⟨backward, returns, single⟩ :=
        ih place (by omega) (rfind text delim (minus place delim.length)) (by omega)
          (rfind_minus nonempty small (by omega) far)
          (fun other cut => room other (.further here cut))
      refine ⟨(text.drop (place + delim.length)).take (edge - (place + delim.length)) ::
        backward, ?_, ?_⟩
      · intro fuel found enough
        obtain ⟨fuel, rfl⟩ := Nat.exists_eq_succ_of_ne_zero (Nat.ne_zero_of_lt enough)
        have reached : ¬ text.length < place + delim.length := by omega
        have gap : minus (minus edge place) delim.length = edge - (place + delim.length) :=
          minus_minus (by omega) within
        have ordered : decide (edge < place + delim.length) = false :=
          decide_eq_false (not_lt.mpr within)
        have enclosed : decide (place < delim.length) = false :=
          decide_eq_false (not_lt.mpr far)
        simp only [rsplitLoop, if_neg reached]
        rw [returns fuel _ (by omega), gap, ordered, enclosed]
        simp [Tokens.push, substr]
      · rintro byte rfl
        rw [single byte rfl, here.splitOn, List.reverse_append]
        rfl

/-- The first round of `rsplit` takes the end of the string for its edge. -/
theorem rsplitLoop_npos (small : text.length < 2 ^ 63) (fuel : Nat) (search : Option Nat)
    (found : Tokens) (last : LastIn text delim text.length search) :
    rsplitLoop text delim fuel search npos found =
      rsplitLoop text delim fuel search text.length found := by
  cases fuel with
  | zero => rfl
  | succ fuel =>
    cases search with
    | none =>
      have far : substr text 0 npos = text := substr_to_end (by rw [npos]; omega)
      have near : substr text 0 text.length = text := substr_to_end (by omega)
      simp only [rsplitLoop, far, near]
    | some place =>
      have within : place + delim.length ≤ text.length := LastBefore.within last
      have reached : ¬ text.length < place + delim.length := not_lt.mpr within
      have far : minus (minus npos place) delim.length = npos - (place + delim.length) :=
        minus_minus (by rw [npos]; omega) (by rw [npos]; omega)
      have near : minus (minus text.length place) delim.length =
          text.length - (place + delim.length) :=
        minus_minus (by omega) within
      have behind : decide (npos < place + delim.length) = false :=
        decide_eq_false (by rw [npos]; omega)
      have before : decide (text.length < place + delim.length) = false :=
        decide_eq_false reached
      have token : substr text (place + delim.length) (npos - (place + delim.length)) =
          substr text (place + delim.length) (text.length - (place + delim.length)) := by
        rw [substr_to_end (by rw [npos]; omega), substr_to_end (by omega)]
      simp only [rsplitLoop, if_neg reached, far, near, behind, before, token]

/-- Where a cut begins less than a delimiter behind the start, the loop of `rsplit` never
returns: from that cut the search starts over at the back. -/
theorem rsplitLoop_running (nonempty : delim ≠ []) (small : text.length < 2 ^ 63)
    (short : delim.length < 2 ^ 63) {place : Nat}
    (cut : Cut delim text text.length place) (near : place < delim.length) (fuel edge : Nat)
    (search : Option Nat) (stop : Nat) (found : Tokens)
    (last : LastIn text delim edge search) (ahead : Cut delim text edge place) :
    rsplitLoop text delim fuel search stop found = .running := by
  induction fuel generalizing edge search stop found with
  | zero => cases search <;> rfl
  | succ fuel ih =>
    cases search with
    | none =>
      obtain ⟨there, here, within⟩ := ahead.exists_occurs
      rw [last there within] at here
      cases here
    | some first =>
      have here : LastBefore delim text edge first := last
      have reached : ¬ text.length < first + delim.length :=
        not_lt.mpr (occurs_le nonempty here.occurs)
      simp only [rsplitLoop, if_neg reached]
      by_cases low : first < delim.length
      · -- the position in front of the cut is below zero
        have far := minus_of_lt short low
        exact ih text.length _ _ _ (rfind_far nonempty (by omega)) cut
      · rcases ahead.from_last here with rfl | further
        · exact absurd near low
        · exact ih first _ _ _
            (rfind_minus nonempty small (by omega) (not_lt.mp low)) further

/-- `rsplit` never returns when a cut begins less than a delimiter behind the start. -/
theorem rsplit_running (nonempty : delim ≠ []) (small : text.length < 2 ^ 63)
    (short : delim.length < 2 ^ 63) {place : Nat}
    (cut : Cut delim text text.length place) (near : place < delim.length) (fuel : Nat) :
    rsplit text delim fuel = .running := by
  have filled : text ≠ [] := by
    rintro rfl
    obtain ⟨there, here, -⟩ := cut.exists_occurs
    have := occurs_le nonempty here
    have := List.length_pos_iff.mpr nonempty
    simp only [List.length_nil] at *
    omega
  rw [rsplit, if_neg filled]
  exact rsplitLoop_running nonempty small short cut near fuel text.length _ _ _
    (rfind_far nonempty (by rw [npos]; omega)) cut

/-- `rsplit` returns when every cut leaves room for a delimiter in front of it. -/
theorem rsplit_returns (nonempty : delim ≠ []) (small : text.length < 2 ^ 63)
    (room : ∀ place, Cut delim text text.length place → delim.length ≤ place) :
    ∃ backward, (∀ fuel, text.length + 1 ≤ fuel →
        rsplit text delim fuel = .returned { tokens := backward }) ∧
      (text = [] → backward = []) ∧
      ∀ byte, delim = [byte] → text ≠ [] → backward = (text.splitOn byte).reverse := by
  by_cases empty : text = []
  · refine ⟨[], ?_, fun _ => rfl, ?_⟩
    · intro fuel enough
      rw [rsplit, if_pos empty]
    · intro byte _ filled
      exact absurd empty filled
  · have last : LastIn text delim text.length (rfind text delim npos) :=
      rfind_far nonempty (by rw [npos]; omega)
    obtain ⟨backward, returns, single⟩ :=
      rsplitLoop_returns nonempty small text.length _ (le_refl _) last room
    refine ⟨backward, ?_, fun nothing => absurd nothing empty, ?_⟩
    · intro fuel enough
      rw [rsplit, if_neg empty, rsplitLoop_npos small fuel _ _ last, returns fuel {} enough]
      rfl
    · intro byte alone _
      rw [single byte alone, List.take_length]

end Loops

/-- `split` and `rsplit` return and agree exactly when every delimiter that one meets from
the back leaves room for another in front of it. -/
theorem split_rsplit_agree_iff_room (text delim : StdString) (nonempty : delim.bytes ≠ []) :
    Agree text.bytes delim.bytes ↔
      ∀ place, Cut delim.bytes text.bytes text.bytes.length place →
        delim.bytes.length ≤ place := by
  constructor
  · rintro ⟨bound, pieces, backward, -, returns, -⟩ place cut
    by_contra near
    have running := rsplit_running nonempty text.bounded delim.bounded cut (not_le.mp near) bound
    rw [returns bound (le_refl _)] at running
    cases running
  · intro room
    obtain ⟨pieces, forth, joined, single⟩ := split_returns nonempty text.bounded
    obtain ⟨backward, back, nothing, reversed⟩ := rsplit_returns nonempty text.bounded room
    refine ⟨text.bytes.length + 1, pieces, backward, forth, back, joined, ?_⟩
    intro one
    obtain ⟨byte, alone⟩ := List.length_eq_one_iff.mp one
    by_cases empty : text.bytes = []
    · have none : pieces = [] := by
        have same := forth (text.bytes.length + 1) (le_refl _)
        rw [split, if_pos empty] at same
        injection same with same
        injection same with same
        exact same.symm
      rw [nothing empty, none, List.reverse_nil]
    · rw [single byte alone empty, reversed byte alone empty]

/-- Two pieces around a comma. -/
theorem split_rsplit_agree_iff_room_comma : Agree [97, 44, 98] [44] := by
  apply (split_rsplit_agree_iff_room ⟨[97, 44, 98], by simp⟩ ⟨[44], by simp⟩ (by simp)).mpr
  intro place cut
  apply Nat.pos_of_ne_zero
  rintro rfl
  exact absurd cut.present (by decide)

/-- A header value that begins with the delimiter keeps `rsplit` at work for ever. -/
theorem leading_comma_runs_on :
    ¬ ∀ text delim : StdString, delim.bytes ≠ [] → Agree text.bytes delim.bytes := by
  intro agree
  obtain ⟨bound, pieces, backward, -, returns, -⟩ :=
    agree ⟨[44, 97], by simp⟩ ⟨[44], by simp⟩ (by simp)
  have here : LastBefore [(44 : UInt8)] [44, 97] 2 0 := by
    refine ⟨rfl, by simp, ?_⟩
    intro later there within
    rcases Nat.le_one_iff_eq_zero_or_eq_one.mp (Nat.le_of_succ_le_succ within) with rfl | rfl
    · exact le_refl 0
    · exact absurd there (by decide)
  have running := rsplit_running (by simp) (by simp) (by simp) (.last here)
    (by simp) bound
  rw [returns bound (le_refl _)] at running
  cases running

end Join.Splitting
