import Join.Data.Sax

/-!
# Readings

A reader works on a document, seen through a view, and on the handler that takes
its events. This module lifts the primitives of views and the events of the
handler to programs on both.

Over a plain document a reader is described by what it consumes and what it sends:
`Advances` says that a program moves from one place to another and returns a
value, `Reaches` that it comes to a point where it does what another program does,
`Follows` that it sends the events of a given program on its way.
-/

set_option autoImplicit false

namespace Join

open Library

/-- A document being read into a handler. -/
structure Reading (V : Type) where
  document : V
  handler : StreamReader

/-- A step of a reader. -/
abbrev Reader (V : Type) := Program (Reading V) Failure

namespace Reader

variable {V α : Type}

/-- A primitive of the view. -/
def doc (primitive : V → α × V) : Reader V α :=
  Program.act fun state =>
    ((primitive state.document).1, { state with document := (primitive state.document).2 })

/-- An event for the handler. -/
def event (program : Program StreamReader Failure α) : Reader V α := fun state =>
  match program state.handler with
  | none => none
  | some (outcome, handler) => some (outcome, { state with handler := handler })

/-- The code a call returns and the handler it leaves. A call that runs out of fuel
has no outcome; the readers are given enough. -/
def outcome (handler : StreamReader) :
    Option (Except Failure Unit × Reading V) → ℤ × StreamReader
  | some (.ok (), state) => (0, state.handler)
  | some (.error _, state) => (-1, state.handler)
  | none => (-1, handler)

variable [View V]

def peek : Reader V Character := Program.gets fun state => View.peek state.document

def get : Reader V Character := doc View.get

def getIf (expected : UInt8) : Reader V Bool := doc (View.getIf expected)

def getIfNoCase (expected : UInt8) : Reader V Bool := doc (View.getIfNoCase expected)

def read (count : ℕ) : Reader V Bytes := doc (View.read count)

def setValue (value : Value) : Reader V Unit := event (StreamReader.setValue value)

/-- Fail with a SAX error. -/
def saxError (code : SaxErrc) : Reader V α := Program.fail (.sax code)

/-- Fail with a JSON error. -/
def jsonError (code : JsonErrc) : Reader V α := Program.fail (.json code)

/-! ### The buffering view -/

/-- A primitive of the buffering view wrapped around the document. -/
def buffered (primitive : View.Mark V × V → α × (View.Mark V × V)) (mark : View.Mark V) :
    Reader V (α × View.Mark V) :=
  Program.act fun state =>
    let outcome := primitive (mark, state.document)
    ((outcome.1, outcome.2.1), { state with document := outcome.2.2 })

/-- Wrap the document in a buffering view. -/
def mark : Reader V (View.Mark V) := Program.gets fun state => View.mark state.document

def snapshot (mark : View.Mark V) : Reader V Bytes :=
  doc fun document => View.snapshot (mark, document)

end Reader

/-- The views a document can be read through. -/
inductive ViewKind where
  | string
  | seekableStream
  | stream
deriving DecidableEq, Repr

/-- What a call returns when its document has the value, or none. -/
def Returns (call : ℤ × StreamReader) : Option Value → Prop
  | some value => call.1 = 0 ∧ call.2.root = value ∧ call.2.stack = []
  | none => call.1 = -1

/-! ## Readings of a plain document -/

/-- The reading that has `input` in front of it. -/
def At (input : Bytes) (reading : Reading PlainView) (handler : StreamReader) : Prop :=
  reading = ⟨⟨input⟩, handler⟩

/-- A reading that has been given up, wherever it stopped. -/
def Abandoned (reading : Reading PlainView) (handler : StreamReader) : Prop :=
  reading.handler = handler

/-- In front of `input` the program sends these events to the handler and stops in
front of `output`. -/
abbrev Follows {α : Type} (input output : Bytes) (program : Reader PlainView α)
    (events : Program StreamReader Failure α) : Prop :=
  Simulates (At input) (Same (At output)) Abandoned program events

/-- In front of `input` the program returns `value` in front of `output` and does not
touch the handler. -/
def Advances {α : Type} (input output : Bytes) (program : Reader PlainView α) (value : α) : Prop :=
  ∀ handler, program ⟨⟨input⟩, handler⟩ = some (.ok value, ⟨⟨output⟩, handler⟩)

/-- In front of `input` the program does what `final` does in front of `output`. -/
def Reaches {α : Type} (input output : Bytes) (program final : Reader PlainView α) : Prop :=
  ∀ handler, program ⟨⟨input⟩, handler⟩ = final ⟨⟨output⟩, handler⟩

/-- In front of `input` the program fails and does not touch the handler. -/
def Refuses {α : Type} (input : Bytes) (program : Reader PlainView α) (failure : Failure) : Prop :=
  ∀ handler, ∃ document, program ⟨⟨input⟩, handler⟩ = some (.error failure, ⟨document, handler⟩)

namespace Advances

variable {α β : Type} {input middle output : Bytes} {first : Reader PlainView α}
  {next : α → Reader PlainView β} {value : α} {result : β}
  {events : Program StreamReader Failure β}

theorem bind (start : Advances input middle first value)
    (rest : Advances middle output (next value) result) :
    Advances input output (first >>= next) result := by
  intro handler
  rw [Program.bind_apply, start handler]
  exact rest handler

theorem follows (start : Advances input middle first value)
    (rest : Follows middle output (next value) events) :
    Follows input output (first >>= next) events := by
  rintro _ handler rfl
  rw [Program.bind_apply, start handler]
  exact rest rfl

theorem reaches {final : Reader PlainView β} (start : Advances input middle first value)
    (rest : Reaches middle output (next value) final) :
    Reaches input output (first >>= next) final := by
  intro handler
  rw [Program.bind_apply, start handler]
  exact rest handler

theorem refuses {failure : Failure} (start : Advances input middle first value)
    (rest : Refuses middle (next value) failure) : Refuses input (first >>= next) failure := by
  intro handler
  rw [Program.bind_apply, start handler]
  exact rest handler

theorem ifPos {condition : Prop} [Decidable condition] {yes no : Reader PlainView α}
    (holds : condition) (taken : Advances input output yes value) :
    Advances input output (if condition then yes else no) value := by
  rwa [if_pos holds]

theorem ifNeg {condition : Prop} [Decidable condition] {yes no : Reader PlainView α}
    (fails : ¬ condition) (taken : Advances input output no value) :
    Advances input output (if condition then yes else no) value := by
  rwa [if_neg fails]

theorem pure (input : Bytes) (value : α) :
    Advances input input (pure value : Reader PlainView α) value := fun _ => rfl

theorem peek (input : Bytes) : Advances input input Reader.peek input.head? := fun _ => rfl

theorem get (input : Bytes) : Advances input input.tail Reader.get input.head? := fun _ => rfl

theorem getIf_true (byte : UInt8) (rest : Bytes) :
    Advances (byte :: rest) rest (Reader.getIf byte) true := by
  intro handler
  simp only [Reader.getIf, Reader.doc, Program.act_apply, View.getIf, PlainView.getIf,
    List.head?_cons, if_true, List.tail_cons]

theorem getIf_false {byte : UInt8} (other : input.head? ≠ some byte) :
    Advances input input (Reader.getIf byte) false := by
  intro handler
  simp only [Reader.getIf, Reader.doc, Program.act_apply, View.getIf, PlainView.getIf, if_neg other]

theorem bufferedGet (byte : UInt8) (rest kept : Bytes) :
    Advances (byte :: rest) rest (Reader.buffered View.bufferedGet kept)
      (some byte, kept ++ [byte]) := fun _ => rfl

theorem bufferedGetIf_true (byte : UInt8) (rest kept : Bytes) :
    Advances (byte :: rest) rest (Reader.buffered (View.bufferedGetIf byte) kept)
      (true, kept ++ [byte]) := by
  intro handler
  simp only [Reader.buffered, Program.act_apply, View.bufferedGetIf, List.head?_cons, if_true,
    List.tail_cons]

theorem bufferedGetIf_false {byte : UInt8} (other : input.head? ≠ some byte) (kept : Bytes) :
    Advances input input (Reader.buffered (View.bufferedGetIf byte) kept) (false, kept) := by
  intro handler
  simp only [Reader.buffered, Program.act_apply, View.bufferedGetIf, if_neg other]

end Advances

namespace Refuses

variable {α β : Type} {input : Bytes} {first : Reader PlainView α} {failure : Failure}

theorem bind (refuses : Refuses input first failure) (next : α → Reader PlainView β) :
    Refuses input (first >>= next) failure := by
  intro handler
  obtain ⟨document, run⟩ := refuses handler
  exact ⟨document, by rw [Program.bind_apply, run]⟩

theorem ifPos {condition : Prop} [Decidable condition] {yes no : Reader PlainView α}
    (holds : condition) (taken : Refuses input yes failure) :
    Refuses input (if condition then yes else no) failure := by
  rwa [if_pos holds]

theorem ifNeg {condition : Prop} [Decidable condition] {yes no : Reader PlainView α}
    (fails : ¬ condition) (taken : Refuses input no failure) :
    Refuses input (if condition then yes else no) failure := by
  rwa [if_neg fails]

theorem fail (input : Bytes) (failure : Failure) :
    Refuses input (Program.fail failure : Reader PlainView α) failure := fun _ => ⟨_, rfl⟩

theorem follows (refuses : Refuses input first failure) (output : Bytes) :
    Follows input output first (Program.fail failure) := by
  rintro _ handler rfl
  obtain ⟨document, run⟩ := refuses handler
  rw [run]
  exact ⟨rfl, rfl⟩

end Refuses

namespace Reaches

variable {α : Type} {input middle output : Bytes} {program final : Reader PlainView α}

theorem refl (input : Bytes) (program : Reader PlainView α) : Reaches input input program program :=
  fun _ => rfl

theorem refuses {failure : Failure} (start : Reaches input middle program final)
    (rest : Refuses middle final failure) : Refuses input program failure := by
  intro handler
  rw [start handler]
  exact rest handler

theorem trans {last : Reader PlainView α} (start : Reaches input middle program final)
    (rest : Reaches middle output final last) : Reaches input output program last :=
  fun handler => (start handler).trans (rest handler)

theorem follows {events : Program StreamReader Failure α}
    (start : Reaches input middle program final) (rest : Follows middle output final events) :
    Follows input output program events := by
  rintro _ handler rfl
  rw [start handler]
  exact rest rfl

end Reaches

namespace Follows

variable {α : Type} {input output : Bytes} {events : Program StreamReader Failure α}

theorem ifPos {condition : Prop} [Decidable condition] {yes no : Reader PlainView α}
    (holds : condition) (taken : Follows input output yes events) :
    Follows input output (if condition then yes else no) events := by
  rwa [if_pos holds]

theorem ifNeg {condition : Prop} [Decidable condition] {yes no : Reader PlainView α}
    (fails : ¬ condition) (taken : Follows input output no events) :
    Follows input output (if condition then yes else no) events := by
  rwa [if_neg fails]

/-- A program that sends its events and then moves on. -/
theorem thenAdvances {middle : Bytes} {first : Reader PlainView Unit}
    {next : Unit → Reader PlainView Unit} {events : Program StreamReader Failure Unit}
    (follows : Follows input middle first events)
    (rest : ∀ value, Advances middle output (next value) ()) :
    Follows input output (first >>= next) events := by
  rintro _ handler rfl
  have step := follows (rfl : At input ⟨⟨input⟩, handler⟩ handler)
  revert step
  rw [Program.bind_apply]
  rcases first ⟨⟨input⟩, handler⟩ with _ | ⟨failure | value, state⟩ <;>
    rcases events handler with _ | ⟨failure' | value', after⟩ <;> intro step
  case some.ok.some.ok =>
      obtain ⟨rfl, rfl⟩ := step
      simp only [rest value after]
      exact ⟨rfl, rfl⟩
  all_goals first | exact step | exact step.elim

/-- An event is sent as it is. -/
theorem event (input : Bytes) (program : Program StreamReader Failure α) :
    Follows input input (Reader.event program) program := by
  rintro _ handler rfl
  simp only [Reader.event]
  rcases program handler with _ | ⟨failure | value, after⟩
  · trivial
  · exact ⟨rfl, rfl⟩
  · exact ⟨rfl, rfl⟩

theorem fail (failure : Failure) :
    Follows input output (Program.fail failure : Reader PlainView α) (Program.fail failure) :=
  Simulates.fail (fun _ _ same => congrArg Reading.handler same) failure

end Follows

/-! ## Preconditions -/

section Preconditions

variable {α β : Type} {returns : β → Reading PlainView → Prop}
  {fails : Failure → Reading PlainView → Prop} {input middle : Bytes} {handler : StreamReader}

theorem Advances.wp {first : Reader PlainView α} {value : α} {next : α → Reader PlainView β}
    (start : Advances input middle first value)
    (rest : Program.wp (next value) returns fails ⟨⟨middle⟩, handler⟩) :
    Program.wp (first >>= next) returns fails ⟨⟨input⟩, handler⟩ := by
  rwa [Program.wp_bind, Program.wp_of_ok (start handler)]

theorem Refuses.wp {program : Reader PlainView β} {failure : Failure}
    (refuses : Refuses input program failure)
    (failed : ∀ document, fails failure ⟨document, handler⟩) :
    Program.wp program returns fails ⟨⟨input⟩, handler⟩ := by
  obtain ⟨document, run⟩ := refuses handler
  rw [Program.wp, run]
  exact failed document

/-- A program meets what the events that it follows meet. -/
theorem Follows.wp {program : Reader PlainView β} {events : Program StreamReader Failure β}
    (follows : Follows input middle program events)
    (met : Program.wp events (fun value after => returns value ⟨⟨middle⟩, after⟩)
      (fun failure after => ∀ document, fails failure ⟨document, after⟩) handler) :
    Program.wp program returns fails ⟨⟨input⟩, handler⟩ := by
  have step := follows (rfl : At input ⟨⟨input⟩, handler⟩ handler)
  unfold Program.wp at *
  revert step met
  rcases program ⟨⟨input⟩, handler⟩ with _ | ⟨failure | value, state⟩ <;>
    rcases events handler with _ | ⟨failure' | value', after⟩ <;> intro met step
  case some.ok.some.ok =>
      obtain ⟨rfl, rfl⟩ := step
      exact met
  case some.error.some.error =>
      obtain ⟨rfl, rfl⟩ := step
      exact met state.document
  all_goals first | exact step.elim | exact met.elim

end Preconditions

/-! ## Failing runs -/

/-- In front of `input` the program fails; what it has sent before is not said. -/
def Fails {α : Type} (input : Bytes) (program : Reader PlainView α) : Prop :=
  ∀ handler, ∃ failure state, program ⟨⟨input⟩, handler⟩ = some (.error failure, state)

/-- The events produce an outcome, whatever the handler. -/
def Total {α : Type} (events : Program StreamReader Failure α) : Prop :=
  ∀ handler, events handler ≠ none

namespace Fails

variable {α β : Type} {input middle : Bytes} {first : Reader PlainView α}
  {next : α → Reader PlainView β}

theorem of_refuses {failure : Failure} (refuses : Refuses input first failure) :
    Fails input first := by
  intro handler
  obtain ⟨document, run⟩ := refuses handler
  exact ⟨failure, _, run⟩

theorem of_follows {output : Bytes} {failure : Failure}
    (follows : Follows input output first (Program.fail failure)) : Fails input first := by
  intro handler
  have step := follows (rfl : At input ⟨⟨input⟩, handler⟩ handler)
  revert step
  rcases first ⟨⟨input⟩, handler⟩ with _ | ⟨failure | value, state⟩ <;> intro step
  · exact step.elim
  · exact ⟨failure, state, rfl⟩
  · exact step.elim

theorem bind (fails : Fails input first) (next : α → Reader PlainView β) :
    Fails input (first >>= next) := by
  intro handler
  obtain ⟨failure, state, run⟩ := fails handler
  exact ⟨failure, state, by rw [Program.bind_apply, run]⟩

theorem advance {value : α} (start : Advances input middle first value)
    (fails : Fails middle (next value)) : Fails input (first >>= next) := by
  intro handler
  rw [Program.bind_apply, start handler]
  exact fails handler

/-- A program fails when it fails behind its events, whatever becomes of these. -/
theorem follow {events : Program StreamReader Failure α} (total : Total events)
    (start : Follows input middle first events) (fails : ∀ value, Fails middle (next value)) :
    Fails input (first >>= next) := by
  intro handler
  have step := start (rfl : At input ⟨⟨input⟩, handler⟩ handler)
  have produces := total handler
  revert step produces
  rw [Program.bind_apply]
  rcases first ⟨⟨input⟩, handler⟩ with _ | ⟨failure | value, state⟩ <;>
    rcases events handler with _ | ⟨failure' | value', after⟩ <;> intro step produces
  case some.ok.some.ok =>
      obtain ⟨rfl, rfl⟩ := step
      exact fails value after
  case some.error.some.error => exact ⟨failure, state, rfl⟩
  all_goals first | exact step.elim | exact (produces rfl).elim

theorem ifPos {condition : Prop} [Decidable condition] {yes no : Reader PlainView α}
    (holds : condition) (taken : Fails input yes) :
    Fails input (if condition then yes else no) := by
  rwa [if_pos holds]

theorem ifNeg {condition : Prop} [Decidable condition] {yes no : Reader PlainView α}
    (fails : ¬ condition) (taken : Fails input no) :
    Fails input (if condition then yes else no) := by
  rwa [if_neg fails]

theorem fail (input : Bytes) (failure : Failure) :
    Fails input (Program.fail failure : Reader PlainView α) :=
  of_refuses (Refuses.fail input failure)

end Fails

namespace Total

variable {α β : Type}

theorem bind {first : Program StreamReader Failure α}
    {next : α → Program StreamReader Failure β} (total : Total first)
    (rest : ∀ value, Total (next value)) : Total (first >>= next) := by
  intro handler
  have produces := total handler
  revert produces
  rw [Program.bind_apply]
  rcases first handler with _ | ⟨failure | value, after⟩ <;> intro produces
  · exact (produces rfl).elim
  · exact fun absurd => by cases absurd
  · exact rest value after

theorem pure (value : α) : Total (pure value : Program StreamReader Failure α) :=
  fun _ absurd => by cases absurd

theorem fail (failure : Failure) : Total (Program.fail failure : Program StreamReader Failure α) :=
  fun _ absurd => by cases absurd

theorem change (update : StreamReader → StreamReader) :
    Total (Program.change update : Program StreamReader Failure Unit) :=
  fun _ absurd => by cases absurd

theorem append (value : Value) : Total (StreamReader.append value) := by
  intro handler
  unfold StreamReader.append
  split
  · exact fun absurd => by cases absurd
  · split
    · exact fun absurd => by cases absurd
    · split <;> exact fun absurd => by cases absurd

theorem setValue (value : Value) : Total (StreamReader.setValue value) :=
  (append value).bind fun _ => pure ()

theorem startContainer (container : Value) : Total (StreamReader.startContainer container) := by
  have gets : Total (Program.gets StreamReader.stack) := fun _ absurd => by cases absurd
  refine gets.bind fun stack => ?_
  split
  · exact change _
  · split
    · exact fail _
    · exact (append container).bind fun _ => change _

end Total

end Join
