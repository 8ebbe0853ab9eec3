import Mathlib.Algebra.Group.Nat.Defs
import Mathlib.Data.List.Basic

/-!
# Lists linked through indices

A list kept in a table of successors: each cell of the list names the next one, and the
last names the null index.
-/

set_option autoImplicit false

namespace Join.Library

/-- Following the successors from `start` one meets the cells of the list and then the
null index. -/
def Linked (null : ℕ) (next : ℕ → ℕ) : ℕ → List ℕ → Prop
  | start, [] => start = null
  | start, cell :: rest => start = cell ∧ Linked null next (next cell) rest

/-- The cells that one meets from `start`, at most as many as `fuel`. -/
def linkedCells (null : ℕ) (next : ℕ → ℕ) : ℕ → ℕ → List ℕ
  | 0, _ => []
  | fuel + 1, start =>
      if start = null then [] else start :: linkedCells null next fuel (next start)

namespace Linked

variable {null start : ℕ} {next next' : ℕ → ℕ} {list : List ℕ}

/-- Only the successors of the cells matter. -/
theorem congr (linked : Linked null next start list)
    (same : ∀ cell ∈ list, next' cell = next cell) : Linked null next' start list := by
  induction list generalizing start with
  | nil => exact linked
  | cons cell rest ih =>
      refine ⟨linked.1, ?_⟩
      rw [same cell (List.mem_cons_self ..)]
      exact ih linked.2 fun other member => same other (List.mem_cons_of_mem _ member)

/-- A list that starts at the null index is empty. -/
theorem eq_nil (linked : Linked null next null list) (inner : ∀ cell ∈ list, cell ≠ null) :
    list = [] := by
  cases list with
  | nil => rfl
  | cons cell rest => exact absurd linked.1.symm (inner cell (List.mem_cons_self ..))

/-- A list that starts elsewhere has its start as the first cell. -/
theorem exists_cons (linked : Linked null next start list) (inner : start ≠ null) :
    ∃ rest, list = start :: rest ∧ Linked null next (next start) rest := by
  cases list with
  | nil => exact absurd linked inner
  | cons cell rest =>
      obtain ⟨rfl, remaining⟩ := linked
      exact ⟨rest, rfl, remaining⟩

/-- With fuel for all of them, the cells that one meets are those of the list. -/
theorem cells_eq (linked : Linked null next start list) (inner : ∀ cell ∈ list, cell ≠ null)
    {fuel : ℕ} (enough : list.length ≤ fuel) : linkedCells null next fuel start = list := by
  induction list generalizing start fuel with
  | nil =>
      cases fuel with
      | zero => rfl
      | succ fuel =>
          have here : start = null := linked
          rw [linkedCells, if_pos here]
  | cons cell rest ih =>
      obtain ⟨rfl, remaining⟩ := linked
      obtain ⟨fuel, rfl⟩ := Nat.exists_eq_succ_of_ne_zero
        (Nat.ne_zero_of_lt (Nat.lt_of_lt_of_le (Nat.zero_lt_succ _) enough))
      rw [linkedCells, if_neg (inner start (List.mem_cons_self ..)),
        ih remaining (fun other member => inner other (List.mem_cons_of_mem _ member))
          (Nat.le_of_succ_le_succ enough)]

/-- The cells from `start` on, one after the other. -/
theorem range' (count : ℕ) (successor : ∀ i, start ≤ i → i + 1 < start + count → next i = i + 1)
    (last : next (start + count - 1) = null) (positive : 0 < count) :
    Linked null next start (List.range' start count) := by
  induction count generalizing start with
  | zero => omega
  | succ count ih =>
      rw [List.range'_succ]
      refine ⟨rfl, ?_⟩
      rcases Nat.eq_zero_or_pos count with rfl | more
      · simpa [Linked] using last
      · rw [successor start (Nat.le_refl _) (by omega)]
        refine ih (fun i low high => successor i (by omega) (by omega)) ?_ more
        rwa [show start + 1 + count - 1 = start + (count + 1) - 1 by omega]

end Linked

end Join.Library
