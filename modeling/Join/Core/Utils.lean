import Mathlib.Data.List.Basic
import Mathlib.Tactic.Common

/-!
# Reading lines

`join::getline` over the bytes that a stream still has. A line ends at a line feed, carriage
returns are dropped wherever they stand, and at most `max` characters are read: a line that
is longer, or that the stream does not hold completely, is a failure.
-/

set_option autoImplicit false

namespace Join

/-- The carriage return. -/
def carriageReturn : UInt8 := 13

/-- The line feed. -/
def lineFeed : UInt8 := 10

/-- The end of a line. -/
def crlf : List UInt8 := [carriageReturn, lineFeed]

/-- The loop of `join::getline`, with what has been taken for the line: the line, if it is
complete, and the bytes behind what was read. -/
def getlineFrom : ℕ → List UInt8 → List UInt8 → Option (List UInt8) × List UInt8
  | 0, _, data => (none, data)
  | _ + 1, _, [] => (none, [])
  | max + 1, line, ch :: data =>
      if ch = carriageReturn then getlineFrom max line data
      else if ch = lineFeed then (some line, data)
      else getlineFrom max (line ++ [ch]) data

/-- `join::getline`. -/
def getline (max : ℕ) (data : List UInt8) : Option (List UInt8) × List UInt8 :=
  getlineFrom max [] data

/-- A text has no character that ends a line or is dropped from it. -/
def OnOneLine (text : List UInt8) : Prop := ∀ ch ∈ text, ch ≠ carriageReturn ∧ ch ≠ lineFeed

theorem getlineFrom_crlf {text : List UInt8} (plain : OnOneLine text) (max : ℕ)
    (line rest : List UInt8) (short : text.length + 2 ≤ max) :
    getlineFrom max line (text ++ crlf ++ rest) = (some (line ++ text), rest) := by
  induction text generalizing max line with
  | nil =>
      obtain ⟨max, rfl⟩ : ∃ more, max = more + 2 := ⟨max - 2, by simp at short; omega⟩
      rw [List.append_nil]
      rfl
  | cons ch text ih =>
      obtain ⟨max, rfl⟩ : ∃ more, max = more + 1 := ⟨max - 1, by simp at short; omega⟩
      have first := plain ch List.mem_cons_self
      have later : OnOneLine text := fun other member => plain other (List.mem_cons_of_mem _ member)
      rw [List.cons_append, List.cons_append, getlineFrom, if_neg first.1, if_neg first.2,
        ih later max _ (by rw [List.length_cons] at short; omega), List.append_assoc]
      rfl

/-- A line feed alone ends a line too. -/
theorem getlineFrom_lineFeed {text : List UInt8} (plain : OnOneLine text) (max : ℕ)
    (line rest : List UInt8) (short : text.length < max) :
    getlineFrom max line (text ++ lineFeed :: rest) = (some (line ++ text), rest) := by
  induction text generalizing max line with
  | nil =>
      obtain ⟨max, rfl⟩ := Nat.exists_eq_add_of_lt short
      rw [List.append_nil]
      rfl
  | cons ch text ih =>
      obtain ⟨max, rfl⟩ : ∃ more, max = more + 1 := ⟨max - 1, by simp at short; omega⟩
      have first := plain ch List.mem_cons_self
      have later : OnOneLine text := fun other member => plain other (List.mem_cons_of_mem _ member)
      rw [List.cons_append, getlineFrom, if_neg first.1, if_neg first.2,
        ih later max _ (by rw [List.length_cons] at short; omega), List.append_assoc]
      rfl

/-- The bytes that a line is read from: less than the limit, and all of them but the
returns. -/
theorem getlineFrom_used {max : ℕ} {line data reply rest : List UInt8}
    (taken : getlineFrom max line data = (some reply, rest)) :
    ∃ used, data = used ++ lineFeed :: rest ∧ used.length < max ∧
      reply = line ++ used.filter fun ch => ch != carriageReturn := by
  induction max generalizing line data with
  | zero => cases taken
  | succ max ih =>
      cases data with
      | nil => cases taken
      | cons ch data =>
          rw [getlineFrom] at taken
          split_ifs at taken with returned ended
          · obtain ⟨used, rfl, short, rfl⟩ := ih taken
            refine ⟨ch :: used, rfl, Nat.succ_lt_succ short, ?_⟩
            rw [returned, List.filter_cons_of_neg (by simp)]
          · obtain ⟨rfl, rfl⟩ : line = reply ∧ data = rest := by simpa using taken
            refine ⟨[], by rw [ended]; rfl, Nat.succ_pos _, ?_⟩
            rw [List.filter_nil, List.append_nil]
          · obtain ⟨used, rfl, short, rfl⟩ := ih taken
            refine ⟨ch :: used, rfl, Nat.succ_lt_succ short, ?_⟩
            rw [List.filter_cons_of_pos (by simpa using returned), List.append_assoc]
            rfl

/-- A text that is short enough is read up to the end of its line. -/
theorem getline_crlf {text : List UInt8} (plain : OnOneLine text) {max : ℕ}
    (short : text.length + 2 ≤ max) (rest : List UInt8) :
    getline max (text ++ crlf ++ rest) = (some text, rest) :=
  getlineFrom_crlf plain max [] rest short

end Join
