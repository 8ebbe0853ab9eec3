import Mathlib.Data.List.Nodup
import Mathlib.Order.Basic
import Mathlib.Order.Defs.LinearOrder
import Mathlib.Order.Lattice
import Mathlib.Tactic.Common

/-!
# Sorted maps

An associative container that keeps its entries in the order of their keys and holds no
two entries with equivalent keys. The order of the keys is the order of their ranks, so
that keys which are told apart by `=` may still be equivalent, as they are under a
comparison that ignores case.

An entry is only ever put into the map where its key is not yet present, or given a new
value where it is. The entries of a map are therefore strictly increasing, which is part
of the type, and a key that is present keeps its entry under every insertion.
-/

set_option autoImplicit false

namespace Join.Library

variable {Key Value Rank : Type} [LinearOrder Rank]

/-- The entries of a map in the order of the ranks of their keys. -/
structure SortedMap (rank : Key → Rank) (Value : Type) where
  entries : List (Key × Value)
  ordered : entries.Pairwise fun first second => rank first.1 < rank second.1

namespace SortedMap

variable {rank : Key → Rank}

@[ext] theorem ext {left right : SortedMap rank Value} (same : left.entries = right.entries) :
    left = right := by
  cases left
  cases right
  cases same
  rfl

instance [DecidableEq Key] [DecidableEq Value] : DecidableEq (SortedMap rank Value) :=
  fun left right => decidable_of_iff (left.entries = right.entries)
    ⟨ext, fun same => congrArg entries same⟩

/-- The map without entries. -/
def empty : SortedMap rank Value := ⟨[], List.Pairwise.nil⟩

/-- The value of the entry with an equivalent key. -/
def find (key : Key) (map : SortedMap rank Value) : Option Value :=
  (map.entries.find? fun entry => decide (rank entry.1 = rank key)).map Prod.snd

/-- The entries with one more, unless there is one with an equivalent key. -/
def emplaceEntries (rank : Key → Rank) (key : Key) (value : Value) :
    List (Key × Value) → List (Key × Value)
  | [] => [(key, value)]
  | entry :: entries =>
      if rank entry.1 < rank key then entry :: emplaceEntries rank key value entries
      else if rank key < rank entry.1 then (key, value) :: entry :: entries
      else entry :: entries

theorem mem_emplaceEntries {key : Key} {value : Value} {entries : List (Key × Value)}
    {entry : Key × Value} (member : entry ∈ emplaceEntries rank key value entries) :
    entry = (key, value) ∨ entry ∈ entries := by
  induction entries with
  | nil => exact .inl (List.mem_singleton.mp member)
  | cons first rest ih =>
      rw [emplaceEntries] at member
      split_ifs at member
      · rcases List.mem_cons.mp member with rfl | member
        · exact .inr List.mem_cons_self
        · exact (ih member).imp id (List.mem_cons_of_mem _)
      · exact List.mem_cons.mp member
      · exact .inr member

theorem ordered_emplaceEntries {entries : List (Key × Value)}
    (ordered : entries.Pairwise fun first second => rank first.1 < rank second.1)
    (key : Key) (value : Value) :
    (emplaceEntries rank key value entries).Pairwise
      fun first second => rank first.1 < rank second.1 := by
  induction entries with
  | nil => exact List.pairwise_singleton _ _
  | cons first rest ih =>
      rw [List.pairwise_cons] at ordered
      rw [emplaceEntries]
      split_ifs with before after
      · refine List.Pairwise.cons ?_ (ih ordered.2)
        intro entry member
        rcases mem_emplaceEntries member with rfl | member
        · exact before
        · exact ordered.1 entry member
      · refine List.Pairwise.cons ?_ (List.pairwise_cons.mpr ordered)
        intro entry member
        rcases List.mem_cons.mp member with rfl | member
        · exact after
        · exact after.trans (ordered.1 entry member)
      · exact List.pairwise_cons.mpr ordered

/-- Put an entry into the map, and tell whether it was put there. -/
def emplace (key : Key) (value : Value) (map : SortedMap rank Value) :
    SortedMap rank Value × Bool :=
  (⟨emplaceEntries rank key value map.entries, ordered_emplaceEntries map.ordered key value⟩,
    (map.find key).isNone)

/-- The entries with a new value under a key. An equivalent key that is present stays. -/
def assignEntries (rank : Key → Rank) (key : Key) (value : Value) :
    List (Key × Value) → List (Key × Value)
  | [] => [(key, value)]
  | entry :: entries =>
      if rank entry.1 < rank key then entry :: assignEntries rank key value entries
      else if rank key < rank entry.1 then (key, value) :: entry :: entries
      else (entry.1, value) :: entries

theorem mem_assignEntries {key : Key} {value : Value} {entries : List (Key × Value)}
    {entry : Key × Value} (member : entry ∈ assignEntries rank key value entries) :
    rank entry.1 = rank key ∨ entry ∈ entries := by
  induction entries with
  | nil => exact .inl (by rw [List.mem_singleton.mp member])
  | cons first rest ih =>
      rw [assignEntries] at member
      split_ifs at member with before after
      · rcases List.mem_cons.mp member with rfl | member
        · exact .inr List.mem_cons_self
        · exact (ih member).imp id (List.mem_cons_of_mem _)
      · rcases List.mem_cons.mp member with rfl | member
        · exact .inl rfl
        · exact .inr member
      · rcases List.mem_cons.mp member with rfl | member
        · exact .inl (le_antisymm (not_lt.mp after) (not_lt.mp before))
        · exact .inr (List.mem_cons_of_mem _ member)

theorem ordered_assignEntries {entries : List (Key × Value)}
    (ordered : entries.Pairwise fun first second => rank first.1 < rank second.1)
    (key : Key) (value : Value) :
    (assignEntries rank key value entries).Pairwise
      fun first second => rank first.1 < rank second.1 := by
  induction entries with
  | nil => exact List.pairwise_singleton _ _
  | cons first rest ih =>
      rw [List.pairwise_cons] at ordered
      rw [assignEntries]
      split_ifs with before after
      · refine List.Pairwise.cons ?_ (ih ordered.2)
        intro entry member
        rcases mem_assignEntries member with same | member
        · rw [same]
          exact before
        · exact ordered.1 entry member
      · refine List.Pairwise.cons ?_ (List.pairwise_cons.mpr ordered)
        intro entry member
        rcases List.mem_cons.mp member with rfl | member
        · exact after
        · exact after.trans (ordered.1 entry member)
      · exact List.Pairwise.cons ordered.1 ordered.2

/-- Give a key a value, whether it is present or not. -/
def assign (key : Key) (value : Value) (map : SortedMap rank Value) : SortedMap rank Value :=
  ⟨assignEntries rank key value map.entries, ordered_assignEntries map.ordered key value⟩

/-- Remove the entry with an equivalent key. -/
def erase (key : Key) (map : SortedMap rank Value) : SortedMap rank Value :=
  ⟨map.entries.filter fun entry => decide (rank entry.1 ≠ rank key), map.ordered.filter _⟩

/-- Put the entries of a range into the map, one after the other. -/
def insertRange (range : List (Key × Value)) (map : SortedMap rank Value) :
    SortedMap rank Value :=
  range.foldl (fun map entry => (map.emplace entry.1 entry.2).1) map

variable {map : SortedMap rank Value} {key other : Key} {value : Value}

/-! ## Looking up -/

/-- Entries of equal rank are the same entry. -/
theorem eq_of_rank_eq {first second : Key × Value} (left : first ∈ map.entries)
    (right : second ∈ map.entries) (same : rank first.1 = rank second.1) : first = second := by
  have distinct : (map.entries.map fun entry => rank entry.1).Nodup := by
    rw [List.Nodup, List.pairwise_map]
    exact map.ordered.imp fun {first second} less => ne_of_lt less
  exact List.inj_on_of_nodup_map distinct left right same

theorem find_eq_some_iff : map.find key = some value ↔
    ∃ stored, (stored, value) ∈ map.entries ∧ rank stored = rank key := by
  rw [find, Option.map_eq_some_iff]
  constructor
  · rintro ⟨entry, found, rfl⟩
    have same : rank entry.1 = rank key := by simpa using List.find?_some found
    exact ⟨entry.1, List.mem_of_find?_eq_some found, same⟩
  · rintro ⟨stored, member, same⟩
    cases located : map.entries.find? fun entry => decide (rank entry.1 = rank key) with
    | none =>
        have absent := List.find?_eq_none.mp located _ member
        exact absurd same (by simpa using absent)
    | some entry =>
        have equal : rank entry.1 = rank key := by simpa using List.find?_some located
        have unique := eq_of_rank_eq (List.mem_of_find?_eq_some located) member
          (equal.trans same.symm)
        exact ⟨entry, rfl, congrArg Prod.snd unique⟩

theorem find_eq_none_iff : map.find key = none ↔
    ∀ entry ∈ map.entries, rank entry.1 ≠ rank key := by
  rw [find, Option.map_eq_none_iff, List.find?_eq_none]
  simp

/-- No two entries of a map have the same key. -/
theorem nodup_keys : (map.entries.map Prod.fst).Nodup := by
  rw [List.Nodup, List.pairwise_map]
  exact map.ordered.imp fun {first second} less same => ne_of_lt less (congrArg rank same)

/-! ## Inserting -/

theorem mem_emplace {entry : Key × Value}
    (member : entry ∈ (map.emplace key value).1.entries) :
    entry = (key, value) ∨ entry ∈ map.entries := mem_emplaceEntries member

theorem emplaceEntries_of_present {entries : List (Key × Value)}
    (ordered : entries.Pairwise fun first second => rank first.1 < rank second.1)
    {entry : Key × Value} (member : entry ∈ entries) (same : rank entry.1 = rank key) :
    emplaceEntries rank key value entries = entries := by
  induction entries with
  | nil => exact absurd member List.not_mem_nil
  | cons first rest ih =>
      rw [List.pairwise_cons] at ordered
      rw [emplaceEntries]
      rcases List.mem_cons.mp member with rfl | member
      · rw [if_neg (by rw [same]; exact lt_irrefl _), if_neg (by rw [same]; exact lt_irrefl _)]
      · have below := ordered.1 entry member
        rw [same] at below
        rw [if_pos below, ih ordered.2 member]

/-- A key that is present is refused, and the map stays as it is. -/
theorem emplace_of_present {stored : Value} (present : map.find key = some stored) :
    map.emplace key value = (map, false) := by
  obtain ⟨found, member, same⟩ := find_eq_some_iff.mp present
  rw [emplace, present]
  refine Prod.ext (SortedMap.ext ?_) rfl
  exact emplaceEntries_of_present map.ordered member same

theorem mem_emplaceEntries_of_mem {entries : List (Key × Value)} {entry : Key × Value}
    (member : entry ∈ entries) : entry ∈ emplaceEntries rank key value entries := by
  induction entries with
  | nil => exact absurd member List.not_mem_nil
  | cons first rest ih =>
      rw [emplaceEntries]
      split_ifs
      · rcases List.mem_cons.mp member with rfl | member
        · exact List.mem_cons_self
        · exact List.mem_cons_of_mem _ (ih member)
      · exact List.mem_cons_of_mem _ member
      · exact member

theorem mem_emplaceEntries_self {entries : List (Key × Value)}
    (absent : ∀ entry ∈ entries, rank entry.1 ≠ rank key) :
    (key, value) ∈ emplaceEntries rank key value entries := by
  induction entries with
  | nil => exact List.mem_singleton_self _
  | cons first rest ih =>
      rw [emplaceEntries]
      split_ifs with before after
      · exact List.mem_cons_of_mem _
          (ih fun entry member => absent entry (List.mem_cons_of_mem _ member))
      · exact List.mem_cons_self
      · exact absurd (le_antisymm (not_lt.mp after) (not_lt.mp before))
          (absent first List.mem_cons_self)

/-- An entry whose key is not present is found after it was put into the map. -/
theorem find_emplace_self (absent : map.find key = none) :
    (map.emplace key value).1.find key = some value :=
  find_eq_some_iff.mpr ⟨key, mem_emplaceEntries_self (find_eq_none_iff.mp absent), rfl⟩

/-- Insertion does not change what is found under other keys. -/
theorem find_emplace_of_ne (different : rank key ≠ rank other) :
    (map.emplace key value).1.find other = map.find other := by
  cases found : map.find other with
  | some stored =>
      obtain ⟨place, member, same⟩ := find_eq_some_iff.mp found
      exact find_eq_some_iff.mpr ⟨place, mem_emplaceEntries_of_mem member, same⟩
  | none =>
      rw [find_eq_none_iff] at found ⊢
      intro entry member
      rcases mem_emplace member with rfl | member
      · exact different
      · exact found entry member

/-- What is found after an insertion: the old entry first, then the new one. -/
theorem find_emplace : (map.emplace key value).1.find other =
    (map.find other <|> if rank key = rank other then some value else none) := by
  by_cases same : rank key = rank other
  · have alike : ∀ map : SortedMap rank Value, map.find other = map.find key := by
      intro map
      rw [find, find, same]
    rw [if_pos same, alike, alike]
    cases found : map.find key with
    | some stored => rw [emplace_of_present found, found]; rfl
    | none => rw [find_emplace_self found]; rfl
  · rw [if_neg same, find_emplace_of_ne same]
    cases map.find other <;> rfl

theorem emplaceEntries_behind {entries : List (Key × Value)}
    (behind : ∀ entry ∈ entries, rank entry.1 < rank key) :
    emplaceEntries rank key value entries = entries ++ [(key, value)] := by
  induction entries with
  | nil => rfl
  | cons first rest ih =>
      rw [emplaceEntries, if_pos (behind first List.mem_cons_self), List.cons_append,
        ih fun entry member => behind entry (List.mem_cons_of_mem _ member)]

/-- An entry behind all others is appended. -/
theorem emplace_behind (behind : ∀ entry ∈ map.entries, rank entry.1 < rank key) :
    (map.emplace key value).1.entries = map.entries ++ [(key, value)] :=
  emplaceEntries_behind behind

theorem assignEntries_behind {entries : List (Key × Value)}
    (behind : ∀ entry ∈ entries, rank entry.1 < rank key) :
    assignEntries rank key value entries = entries ++ [(key, value)] := by
  induction entries with
  | nil => rfl
  | cons first rest ih =>
      rw [assignEntries, if_pos (behind first List.mem_cons_self), List.cons_append,
        ih fun entry member => behind entry (List.mem_cons_of_mem _ member)]

/-- Giving the entries of a map their values one after the other builds the map. -/
theorem foldl_assign {entries : List (Key × Value)}
    (ordered : (map.entries ++ entries).Pairwise
      fun first second => rank first.1 < rank second.1) :
    (entries.foldl (fun map entry => map.assign entry.1 entry.2) map).entries =
      map.entries ++ entries := by
  induction entries generalizing map with
  | nil => exact (List.append_nil _).symm
  | cons entry rest ih =>
      have behind : ∀ old ∈ map.entries, rank old.1 < rank entry.1 :=
        fun old member => (List.pairwise_append.mp ordered).2.2 old member entry List.mem_cons_self
      have step : (map.assign entry.1 entry.2).entries = map.entries ++ [entry] :=
        assignEntries_behind behind
      rw [List.foldl_cons, ih (by rw [step, List.append_assoc]; exact ordered), step,
        List.append_assoc, List.singleton_append]

/-! ## Ranges -/

theorem mem_insertRange {range : List (Key × Value)} {entry : Key × Value}
    (member : entry ∈ (map.insertRange range).entries) : entry ∈ range ∨ entry ∈ map.entries := by
  induction range generalizing map with
  | nil => exact .inr member
  | cons first rest ih =>
      rcases ih member with later | earlier
      · exact .inl (List.mem_cons_of_mem _ later)
      · rcases mem_emplace earlier with rfl | earlier
        · exact .inl List.mem_cons_self
        · exact .inr earlier

/-- What is found after a range was put into the map: the old entry first, then the first
one of the range. -/
theorem find_insertRange (range : List (Key × Value)) : (map.insertRange range).find key =
    (map.find key <|> (range.find? fun entry => decide (rank entry.1 = rank key)).map Prod.snd) := by
  induction range generalizing map with
  | nil => rw [insertRange, List.foldl_nil, List.find?_nil]; cases map.find key <;> rfl
  | cons first rest ih =>
      have step : map.insertRange (first :: rest) =
          (map.emplace first.1 first.2).1.insertRange rest := rfl
      rw [step, ih, find_emplace, List.find?_cons]
      by_cases same : rank first.1 = rank key
      · rw [if_pos same, decide_eq_true same]
        cases map.find key <;> rfl
      · rw [if_neg same, decide_eq_false same]
        cases map.find key <;> rfl

theorem mem_erase {entry : Key × Value} (member : entry ∈ (map.erase key).entries) :
    entry ∈ map.entries := (List.mem_filter.mp member).1

end SortedMap

end Join.Library
