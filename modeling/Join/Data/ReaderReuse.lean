import Join.Data.JsonMeaning
import Join.Data.PackMeaning

/-!
# Reading several documents with one reader

A reader object keeps the stack, the pending key and the root from one call to the
next. A call that starts on an empty stack is determined by its bytes, so a run whose
calls all start so cannot be told from as many readers that were just constructed. A
call that succeeds leaves the stack empty. A call that gives its document up inside a
container does not, and the next document is then attached to what is left of it.
-/

set_option autoImplicit false

namespace Join

open Library

/-! ## Runs of a reader -/

section Runs

variable {Document : Type} (call : Document → StreamReader → ℤ × StreamReader)

/-- What the calls of a run return and leave, in order. -/
def reuse : List Document → StreamReader → List (ℤ × StreamReader)
  | [], _ => []
  | document :: documents, reader =>
      call document reader :: reuse documents (call document reader).2

/-- Every call of the run finds an empty stack. -/
def StartsEmpty : List Document → StreamReader → Prop
  | [], _ => True
  | document :: documents, reader =>
      reader.stack = [] ∧ StartsEmpty documents (call document reader).2

/-- What the caller gets: the code and, on success, the root. -/
def observed (result : ℤ × StreamReader) : ℤ × Option Value :=
  (result.1, if result.1 = 0 then some result.2.root else none)

/-- On an empty stack a call depends on the document alone. -/
def Determined : Prop :=
  ∀ document, ∃ verdict, ∀ reader : StreamReader, reader.stack = [] →
    Returns (call document reader) verdict

variable {call}

theorem observed_of_returns {result : ℤ × StreamReader} {verdict : Option Value}
    (returns : Returns result verdict) :
    observed result = (if verdict.isSome then 0 else -1, verdict) := by
  cases verdict with
  | none =>
      have code : result.1 = -1 := returns
      simp [observed, code]
  | some value => simp [observed, returns.1, returns.2.1]

/-- One call on an empty stack returns what a new reader returns. -/
theorem Determined.observed_eq (determined : Determined call) (document : Document)
    {reader : StreamReader} (empty : reader.stack = []) (root : Value) :
    observed (call document reader) = observed (call document (.fresh root)) := by
  obtain ⟨verdict, returns⟩ := determined document
  rw [observed_of_returns (returns reader empty), observed_of_returns (returns (.fresh root) rfl)]

/-- A run whose calls start on an empty stack returns what new readers return. -/
theorem Determined.reuse_eq (determined : Determined call) {documents : List Document}
    {reader : StreamReader} (starts : StartsEmpty call documents reader) (root : Value) :
    (reuse call documents reader).map observed =
      documents.map fun document => observed (call document (.fresh root)) := by
  induction documents generalizing reader with
  | nil => rfl
  | cons document documents ih =>
      rw [reuse, List.map_cons, List.map_cons, ih starts.2,
        determined.observed_eq document starts.1 root]

/-- A run of documents that new readers accept starts every call on an empty stack. -/
theorem Determined.startsEmpty (determined : Determined call) {documents : List Document}
    {root : Value} (accepted : ∀ document ∈ documents, (call document (.fresh root)).1 = 0)
    {reader : StreamReader} (empty : reader.stack = []) : StartsEmpty call documents reader := by
  induction documents generalizing reader with
  | nil => trivial
  | cons document documents ih =>
      refine ⟨empty, ih (fun document member => accepted document (List.mem_cons_of_mem _ member)) ?_⟩
      obtain ⟨verdict, returns⟩ := determined document
      have code := accepted document List.mem_cons_self
      have new := returns (.fresh root) rfl
      cases verdict with
      | none =>
          rw [show (call document (.fresh root)).1 = -1 from new] at code
          cases code
      | some value => exact (returns reader empty).2.2

end Runs

/-! ## The two readers -/

/-- A document for `JsonReader`: a view, a read mode and the bytes. -/
structure JsonReader.Call where
  kind : ViewKind
  mode : JsonReadMode
  bytes : Bytes

def JsonReader.Call.perform (call : JsonReader.Call) (reader : StreamReader) : ℤ × StreamReader :=
  JsonReader.deserialize call.kind call.mode call.bytes reader

/-- A document for `PackReader`: a view and the bytes. -/
structure PackReader.Call where
  kind : ViewKind
  bytes : Bytes

def PackReader.Call.perform (call : PackReader.Call) (reader : StreamReader) : ℤ × StreamReader :=
  PackReader.deserialize call.kind call.bytes reader

theorem JsonReader.Call.determined : Determined JsonReader.Call.perform := by
  intro call
  obtain ⟨verdict, returns⟩ := JsonReader.deserialize_verdict call.mode call.bytes
  exact ⟨verdict, fun reader empty => returns call.kind reader empty⟩

theorem PackReader.Call.determined : Determined PackReader.Call.perform := by
  intro call
  exact ⟨_, fun reader empty => PackReader.deserialize_returns call.kind call.bytes empty⟩

/-- A reader object of either kind that starts each of its calls on an empty stack returns,
call by call, the codes and roots of readers that were just constructed. -/
theorem reader_reuse (root other : Value) :
    (∀ documents : List JsonReader.Call,
      StartsEmpty JsonReader.Call.perform documents (.fresh root) →
      (reuse JsonReader.Call.perform documents (.fresh root)).map observed =
        documents.map fun document => observed (document.perform (.fresh other))) ∧
    (∀ documents : List PackReader.Call,
      StartsEmpty PackReader.Call.perform documents (.fresh root) →
      (reuse PackReader.Call.perform documents (.fresh root)).map observed =
        documents.map fun document => observed (document.perform (.fresh other))) :=
  ⟨fun _ starts => JsonReader.Call.determined.reuse_eq starts other,
    fun _ starts => PackReader.Call.determined.reuse_eq starts other⟩

/-- The documents `[1]`, `7` and `[2]`, of which the second is refused with nothing open. -/
theorem reader_reuse_three :
    (reuse JsonReader.Call.perform [⟨.string, {}, [0x5B, 0x31, 0x5D]⟩, ⟨.string, {}, [0x37]⟩,
        ⟨.stream, {}, [0x5B, 0x32, 0x5D]⟩] (.fresh .null)).map observed =
      [⟨.string, {}, [0x5B, 0x31, 0x5D]⟩, ⟨.string, {}, [0x37]⟩,
        ⟨.stream, {}, [0x5B, 0x32, 0x5D]⟩].map
          fun document : JsonReader.Call => observed (document.perform (.fresh .null)) :=
  (reader_reuse .null .null).1 _ ⟨rfl, rfl, rfl, trivial⟩

/-- The document `[1,` leaves its array open, and `[2]` is put into it. -/
theorem reader_reuse_spoils :
    let documents : List JsonReader.Call :=
      [⟨.string, {}, [0x5B, 0x31, 0x2C]⟩, ⟨.string, {}, [0x5B, 0x32, 0x5D]⟩]
    (reuse JsonReader.Call.perform documents (.fresh .null)).map Prod.fst = [-1, 0] ∧
      (JsonReader.Call.perform ⟨.string, {}, [0x5B, 0x32, 0x5D]⟩ (.fresh .null)).1 = 0 ∧
      ((reuse JsonReader.Call.perform documents (.fresh .null)).getLast?.map
        fun result => result.2.root.eq
          (JsonReader.Call.perform ⟨.string, {}, [0x5B, 0x32, 0x5D]⟩ (.fresh .null)).2.root) =
        some false := by
  decide +kernel

end Join
