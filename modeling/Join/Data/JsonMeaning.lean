import Join.Data.JsonSoundness
import Join.Data.JsonViews

/-!
# What a text means

`denote` is the value that a text stands for. The events of a text build this
value in the handler, and they succeed only if the text has a value, if the stack
has room for its containers, if no comment follows an element or a member directly
and if its root is a container.

With the two descriptions of the language of the reader this determines every
call of `deserialize` that starts on an empty stack.
-/

set_option autoImplicit false

namespace Join.JsonReader

open Library Library.Json StreamReader

mutual
/-- The value of a text; `none` when a surrogate is not paired, when the conversion
of a number is refused or when a word is taken for `null`. -/
def denote : Text → Option Value
  | .null => some .null
  | .boolean value => some (.boolean value)
  | .number number => numberValue number
  | .word negative name =>
      if takenForNull negative name then none else (wordValue name).map (signed negative)
  | .string pieces => (decode pieces).map .string
  | .emptyArray _ => some (.array [])
  | .array _ elements => (denoteElements elements).map .array
  | .emptyObject _ => some (.object [])
  | .object _ members => (denoteMembers members).map .object

def denoteElements : Elements → Option (List Value)
  | .last value _ => (denote value).map fun element => [element]
  | .more value _ _ rest =>
      (denote value).bind fun element => (denoteElements rest).map (element :: ·)

def denoteMembers : Members → Option (List (Value × Value))
  | .last key _ _ value _ =>
      (decode key).bind fun name => (denote value).map fun element => [(.string name, element)]
  | .more key _ _ value _ _ rest =>
      (decode key).bind fun name => (denote value).bind fun element =>
        (denoteMembers rest).map ((.string name, element) :: ·)
end

mutual
/-- No comment follows an element or a member directly. -/
def tailsWhite : Text → Bool
  | .array _ elements => elementTailsWhite elements
  | .object _ members => memberTailsWhite members
  | _ => true

def elementTailsWhite : Elements → Bool
  | .last value tail => tailsWhite value && tail.startsWhite
  | .more value tail _ rest => tailsWhite value && tail.startsWhite && elementTailsWhite rest

def memberTailsWhite : Members → Bool
  | .last _ _ _ value tail => tailsWhite value && tail.startsWhite
  | .more _ _ _ value tail _ rest =>
      tailsWhite value && tail.startsWhite && memberTailsWhite rest
end

/-- The events of the text build the value when `depth` containers are open. -/
structure Builds (depth : ℕ) (text : Text) (value : Value) : Prop where
  denotes : denote text = some value
  tails : tailsWhite text = true
  room : depth + text.depth ≤ maxdepth
  nested : depth = 0 → text.isContainer = true

structure BuildsElements (depth : ℕ) (elements : Elements) (values : List Value) : Prop where
  denotes : denoteElements elements = some values
  tails : elementTailsWhite elements = true
  room : depth + elements.depth ≤ maxdepth

structure BuildsMembers (depth : ℕ) (members : Members) (values : List (Value × Value)) :
    Prop where
  denotes : denoteMembers members = some values
  tails : memberTailsWhite members = true
  room : depth + members.depth ≤ maxdepth

variable {depth : ℕ}

theorem builds_array {gap : Gap} {elements : Elements} {value : Value} :
    Builds depth (.array gap elements) value ↔
      ∃ values, value = .array values ∧ BuildsElements (depth + 1) elements values := by
  constructor
  · rintro ⟨denotes, tails, room, _⟩
    obtain ⟨values, found, rfl⟩ := Option.map_eq_some_iff.mp denotes
    exact ⟨values, rfl, found, tails, by rw [Text.depth] at room; omega⟩
  · rintro ⟨values, rfl, denotes, tails, room⟩
    exact ⟨by rw [denote, denotes, Option.map_some], tails, by rw [Text.depth]; omega, fun _ => rfl⟩

theorem builds_object {gap : Gap} {members : Members} {value : Value} :
    Builds depth (.object gap members) value ↔
      ∃ values, value = .object values ∧ BuildsMembers (depth + 1) members values := by
  constructor
  · rintro ⟨denotes, tails, room, _⟩
    obtain ⟨values, found, rfl⟩ := Option.map_eq_some_iff.mp denotes
    exact ⟨values, rfl, found, tails, by rw [Text.depth] at room; omega⟩
  · rintro ⟨values, rfl, denotes, tails, room⟩
    exact ⟨by rw [denote, denotes, Option.map_some], tails, by rw [Text.depth]; omega, fun _ => rfl⟩

theorem buildsElements_last {value : Text} {tail : Gap} {values : List Value} :
    BuildsElements (depth + 1) (.last value tail) values ↔
      ∃ element, values = [element] ∧ Builds (depth + 1) value element ∧
        tail.startsWhite = true := by
  constructor
  · rintro ⟨denotes, tails, room⟩
    obtain ⟨element, found, rfl⟩ := Option.map_eq_some_iff.mp denotes
    rw [elementTailsWhite, Bool.and_eq_true] at tails
    exact ⟨element, rfl, ⟨found, tails.1, room, fun absurd => (by cases absurd)⟩, tails.2⟩
  · rintro ⟨element, rfl, builds, white⟩
    exact ⟨by rw [denoteElements, builds.denotes, Option.map_some],
      by rw [elementTailsWhite, builds.tails, white, Bool.and_self], builds.room⟩

theorem buildsElements_more {value : Text} {tail gap : Gap} {rest : Elements}
    {values : List Value} :
    BuildsElements (depth + 1) (.more value tail gap rest) values ↔
      ∃ element others, values = element :: others ∧ Builds (depth + 1) value element ∧
        tail.startsWhite = true ∧ BuildsElements (depth + 1) rest others := by
  constructor
  · rintro ⟨denotes, tails, room⟩
    obtain ⟨element, found, denotes⟩ := Option.bind_eq_some_iff.mp denotes
    obtain ⟨others, more, rfl⟩ := Option.map_eq_some_iff.mp denotes
    rw [elementTailsWhite, Bool.and_eq_true, Bool.and_eq_true] at tails
    rw [Elements.depth] at room
    exact ⟨element, others, rfl, ⟨found, tails.1.1, by omega, fun absurd => (by cases absurd)⟩,
      tails.1.2, more, tails.2, by omega⟩
  · rintro ⟨element, others, rfl, builds, white, denotes, tails, room⟩
    refine ⟨?_, ?_, ?_⟩
    · rw [denoteElements, builds.denotes, Option.bind_some, denotes, Option.map_some]
    · rw [elementTailsWhite, builds.tails, white, tails, Bool.and_self, Bool.and_self]
    · have := builds.room
      rw [Elements.depth]
      omega

theorem buildsMembers_last {key : List Piece} {before after : Gap} {value : Text} {tail : Gap}
    {values : List (Value × Value)} :
    BuildsMembers (depth + 1) (.last key before after value tail) values ↔
      ∃ name element, values = [(.string name, element)] ∧ decode key = some name ∧
        Builds (depth + 1) value element ∧ tail.startsWhite = true := by
  constructor
  · rintro ⟨denotes, tails, room⟩
    obtain ⟨name, named, denotes⟩ := Option.bind_eq_some_iff.mp denotes
    obtain ⟨element, found, rfl⟩ := Option.map_eq_some_iff.mp denotes
    rw [memberTailsWhite, Bool.and_eq_true] at tails
    exact ⟨name, element, rfl, named,
      ⟨found, tails.1, room, fun absurd => (by cases absurd)⟩, tails.2⟩
  · rintro ⟨name, element, rfl, named, builds, white⟩
    exact ⟨by rw [denoteMembers, named, Option.bind_some, builds.denotes, Option.map_some],
      by rw [memberTailsWhite, builds.tails, white, Bool.and_self], builds.room⟩

theorem buildsMembers_more {key : List Piece} {before after : Gap} {value : Text}
    {tail gap : Gap} {rest : Members} {values : List (Value × Value)} :
    BuildsMembers (depth + 1) (.more key before after value tail gap rest) values ↔
      ∃ name element others, values = (.string name, element) :: others ∧
        decode key = some name ∧ Builds (depth + 1) value element ∧
        tail.startsWhite = true ∧ BuildsMembers (depth + 1) rest others := by
  constructor
  · rintro ⟨denotes, tails, room⟩
    obtain ⟨name, named, denotes⟩ := Option.bind_eq_some_iff.mp denotes
    obtain ⟨element, found, denotes⟩ := Option.bind_eq_some_iff.mp denotes
    obtain ⟨others, more, rfl⟩ := Option.map_eq_some_iff.mp denotes
    rw [memberTailsWhite, Bool.and_eq_true, Bool.and_eq_true] at tails
    rw [Members.depth] at room
    exact ⟨name, element, others, rfl, named,
      ⟨found, tails.1.1, by omega, fun absurd => (by cases absurd)⟩, tails.1.2, more, tails.2,
      by omega⟩
  · rintro ⟨name, element, others, rfl, named, builds, white, denotes, tails, room⟩
    refine ⟨?_, ?_, ?_⟩
    · rw [denoteMembers, named, Option.bind_some, builds.denotes, Option.bind_some, denotes,
        Option.map_some]
    · rw [memberTailsWhite, builds.tails, white, tails, Bool.and_self, Bool.and_self]
    · have := builds.room
      rw [Members.depth]
      omega

/-! ## The events build the value -/

/-- The events of a text end well exactly when they build a value. -/
def Delivers (reader : StreamReader) (text : Text) : Prop :=
  Program.wp (events text)
    (fun _ after => ∃ value, Builds reader.stack.length text value ∧ Finished reader value after)
    (fun _ _ => ∀ value, ¬ Builds reader.stack.length text value) reader

/-- A text that denotes a value which is no container. -/
theorem delivers_scalar {reader : StreamReader} (ready : Ready reader)
    (bounded : reader.stack.length ≤ maxdepth) {text : Text} {value : Value}
    (denotes : denote text = some value) (tails : tailsWhite text = true)
    (flat : text.depth = 0) (scalar : text.isContainer = false)
    (sends : events text = setValue value) : Delivers reader text := by
  unfold Delivers
  rw [sends]
  rcases ready with empty | ⟨path, target, opened⟩
  · rw [Program.wp, setValue_empty empty]
    intro other builds
    have container := builds.nested (by rw [empty, List.length_nil])
    rw [scalar] at container
    exact Bool.false_ne_true container
  · refine Program.wp_mono (setValue_open opened value) (fun _ after finished => ?_)
      fun _ _ absurd => absurd.elim
    refine ⟨value, ⟨denotes, tails, by omega, fun empty => ?_⟩, finished⟩
    obtain ⟨rest, stack⟩ := List.head?_eq_some_iff.mp opened.top
    rw [stack] at empty
    cases empty

/-- A text without a value. -/
theorem delivers_nothing {reader : StreamReader} {text : Text} {failure : Failure}
    (meaningless : denote text = none) (sends : events text = Program.fail failure) :
    Delivers reader text := by
  unfold Delivers
  rw [sends]
  intro value builds
  have denotes := builds.denotes
  rw [meaningless] at denotes
  cases denotes

/-- A container is opened, or the stack is full and the text builds nothing. -/
theorem wp_startContainer {reader : StreamReader} (ready : Ready reader)
    (bounded : reader.stack.length ≤ maxdepth) (container : Value)
    {next : Unit → Program StreamReader Failure Unit} {returns : Unit → StreamReader → Prop}
    {fails : Failure → StreamReader → Prop}
    (opens : reader.stack.length < maxdepth → ∀ inner, Inside reader container inner →
      Program.wp (next ()) returns fails inner)
    (full : reader.stack.length = maxdepth → fails (.sax .stackOverflow) reader) :
    Program.wp (startContainer container >>= next) returns fails reader := by
  rw [Program.wp_bind]
  rcases Nat.lt_or_eq_of_le bounded with room | filled
  · exact Program.wp_mono (startContainer_ready ready room container)
      (fun _ inner inside => opens room inner inside) fun _ _ absurd => absurd.elim
  · rw [Program.wp, startContainer_full filled.ge]
    exact full filled

theorem wp_tailEvents {tail : Gap} {reader : StreamReader}
    {next : Unit → Program StreamReader Failure Unit} {returns : Unit → StreamReader → Prop}
    {fails : Failure → StreamReader → Prop}
    (white : tail.startsWhite = true → Program.wp (next ()) returns fails reader)
    (comment : tail.startsWhite = false → fails (.json .missingComma) reader) :
    Program.wp (tailEvents tail >>= next) returns fails reader := by
  unfold tailEvents
  cases starts : tail.startsWhite with
  | true => exact white starts
  | false => exact comment starts

theorem wp_keyEvents {key : List Piece} {reader : StreamReader}
    {next : Unit → Program StreamReader Failure Unit} {returns : Unit → StreamReader → Prop}
    {fails : Failure → StreamReader → Prop}
    (named : ∀ name, decode key = some name →
      Program.wp (next ()) returns fails { reader with curkey := .string name })
    (unnamed : decode key = none → fails (.json .invalidEncoding) reader) :
    Program.wp (keyEvents key >>= next) returns fails reader := by
  unfold keyEvents
  cases found : decode key with
  | some name => exact named name found
  | none => exact unnamed found

/-- A value inside an open container, and what follows it. -/
theorem wp_element {outer inner : StreamReader} {content : Value} {text : Text}
    (delivers : Delivers inner text) (ready : Ready outer) (inside : Inside outer content inner)
    {next : Unit → Program StreamReader Failure Unit} {returns : Unit → StreamReader → Prop}
    {fails : Failure → StreamReader → Prop}
    (finishes : ∀ element middle, Builds inner.stack.length text element →
      middle.stack.length = inner.stack.length →
      Inside outer (extend inner.curkey element content) middle →
      Program.wp (next ()) returns fails middle)
    (nothing : (∀ element, ¬ Builds inner.stack.length text element) →
      ∀ failure after, fails failure after) :
    Program.wp (events text >>= next) returns fails inner := by
  rw [Program.wp_bind]
  refine Program.wp_mono delivers ?_ fun failure after builds => nothing builds failure after
  rintro _ middle ⟨element, builds, finished⟩
  exact finishes element middle builds (by rw [finished.stack]) (inside.finished ready finished)

mutual
/-- The events of a text build its value, or fail if it builds none. -/
theorem events_delivers : ∀ (text : Text) (reader : StreamReader), Ready reader →
    reader.stack.length ≤ maxdepth → Delivers reader text
  | .null, _, ready, bounded => delivers_scalar ready bounded rfl rfl rfl rfl rfl
  | .boolean _, _, ready, bounded => delivers_scalar ready bounded rfl rfl rfl rfl rfl
  | .number number, _, ready, bounded => by
      cases found : numberValue number with
      | some value =>
          have sends : events (.number number) = setValue value := by
            simp only [events, numberEvents, found]
          exact delivers_scalar ready bounded found rfl rfl rfl sends
      | none =>
          have sends : events (.number number) = Program.fail (.sax .invalidValue) := by
            simp only [events, numberEvents, found]
          exact delivers_nothing found sends
  | .word negative name, _, ready, bounded => by
      cases taken : takenForNull negative name with
      | true =>
          have sends : events (.word negative name) = Program.fail (.sax .invalidValue) := by
            simp only [events, taken, if_true]
          exact delivers_nothing (by simp only [denote, taken, if_true]) sends
      | false =>
          have denotes : denote (.word negative name) = (wordValue name).map (signed negative) := by
            simp only [denote, taken, Bool.false_eq_true, if_false]
          have sends : events (.word negative name) = wordEvents negative name := by
            simp only [events, taken, Bool.false_eq_true, if_false]
          cases found : wordValue name with
          | some value =>
              rw [found, Option.map_some] at denotes
              rw [wordEvents, found] at sends
              exact delivers_scalar ready bounded denotes rfl rfl rfl sends
          | none =>
              rw [found, Option.map_none] at denotes
              rw [wordEvents, found] at sends
              exact delivers_nothing denotes sends
  | .string pieces, _, ready, bounded => by
      cases found : decode pieces with
      | some bytes =>
          have sends : events (.string pieces) = setValue (.string bytes) := by
            simp only [events, stringEvents, found]
          exact delivers_scalar ready bounded (by rw [denote, found, Option.map_some]) rfl rfl rfl
            sends
      | none =>
          have sends : events (.string pieces) = Program.fail (.json .invalidEncoding) := by
            simp only [events, stringEvents, found]
          exact delivers_nothing (by rw [denote, found, Option.map_none]) sends
  | .emptyArray gap, reader, ready, bounded => by
      refine wp_startContainer ready bounded _ (fun room inner inside => ?_) fun full value builds => ?_
      · refine Program.wp_mono inside.stop (fun _ after finished => ?_) fun _ _ absurd => absurd.elim
        exact ⟨_, ⟨rfl, rfl, by rw [Text.depth]; omega, fun _ => rfl⟩, finished⟩
      · have room := builds.room
        rw [Text.depth] at room
        omega
  | .array gap elements, reader, ready, bounded => by
      refine wp_startContainer ready bounded _ (fun room inner inside => ?_) fun full value builds => ?_
      · have depth := inside.depth
        refine Program.wp_mono (elementEvents_delivers elements ready inside (by omega)) ?_ ?_
        · rintro _ after ⟨values, builds, finished⟩
          rw [depth] at builds
          exact ⟨_, builds_array.mpr ⟨values, rfl, builds⟩, finished⟩
        · intro _ after nothing value builds
          obtain ⟨values, _, builds⟩ := builds_array.mp builds
          rw [← depth] at builds
          exact nothing values builds
      · have room := builds.room
        rw [Text.depth] at room
        omega
  | .emptyObject gap, reader, ready, bounded => by
      refine wp_startContainer ready bounded _ (fun room inner inside => ?_) fun full value builds => ?_
      · refine Program.wp_mono inside.stop (fun _ after finished => ?_) fun _ _ absurd => absurd.elim
        exact ⟨_, ⟨rfl, rfl, by rw [Text.depth]; omega, fun _ => rfl⟩, finished⟩
      · have room := builds.room
        rw [Text.depth] at room
        omega
  | .object gap members, reader, ready, bounded => by
      refine wp_startContainer ready bounded _ (fun room inner inside => ?_) fun full value builds => ?_
      · have depth := inside.depth
        refine Program.wp_mono (memberEvents_delivers members ready inside (by omega)) ?_ ?_
        · rintro _ after ⟨values, builds, finished⟩
          rw [depth] at builds
          exact ⟨_, builds_object.mpr ⟨values, rfl, builds⟩, finished⟩
        · intro _ after nothing value builds
          obtain ⟨values, _, builds⟩ := builds_object.mp builds
          rw [← depth] at builds
          exact nothing values builds
      · have room := builds.room
        rw [Text.depth] at room
        omega

theorem elementEvents_delivers : ∀ (elements : Elements) {outer inner : StreamReader}
    {sofar : List Value}, Ready outer → Inside outer (.array sofar) inner →
    inner.stack.length ≤ maxdepth →
    Program.wp (elementEvents elements)
      (fun _ after => ∃ values, BuildsElements inner.stack.length elements values ∧
        Finished outer (.array (sofar ++ values)) after)
      (fun _ _ => ∀ values, ¬ BuildsElements inner.stack.length elements values) inner
  | .last value tail, outer, inner, sofar, ready, inside, bounded => by
      have opened := (inside.opened ready rfl).ready
      rw [inside.depth]
      refine wp_element (events_delivers value inner opened bounded) ready inside
        (fun element middle builds _ inside' => ?_) fun nothing _ _ values builds => ?_
      · rw [inside.depth] at builds
        refine wp_tailEvents (fun white => ?_) fun comment values builds => ?_
        · refine Program.wp_mono inside'.stop (fun _ after finished => ?_)
            fun _ _ absurd => absurd.elim
          exact ⟨[element], buildsElements_last.mpr ⟨element, rfl, builds, white⟩, finished⟩
        · obtain ⟨_, _, _, white⟩ := buildsElements_last.mp builds
          rw [comment] at white
          cases white
      · obtain ⟨element, _, builds, _⟩ := buildsElements_last.mp builds
        rw [inside.depth] at nothing
        exact nothing element builds
  | .more value tail gap rest, outer, inner, sofar, ready, inside, bounded => by
      have opened := (inside.opened ready rfl).ready
      rw [inside.depth]
      refine wp_element (events_delivers value inner opened bounded) ready inside
        (fun element middle builds same inside' => ?_) fun nothing _ _ values builds => ?_
      · rw [inside.depth] at builds
        refine wp_tailEvents (fun white => ?_) fun comment values builds => ?_
        · refine Program.wp_mono (elementEvents_delivers rest ready inside' (by omega)) ?_ ?_
          · rintro _ after ⟨values, more, finished⟩
            rw [inside'.depth] at more
            rw [List.append_assoc] at finished
            exact ⟨_, buildsElements_more.mpr ⟨element, values, rfl, builds, white, more⟩, finished⟩
          · intro _ after nothing values builds
            obtain ⟨_, others, _, _, _, more⟩ := buildsElements_more.mp builds
            rw [inside'.depth] at nothing
            exact nothing others more
        · obtain ⟨_, _, _, _, white, _⟩ := buildsElements_more.mp builds
          rw [comment] at white
          cases white
      · obtain ⟨element, _, _, builds, _⟩ := buildsElements_more.mp builds
        rw [inside.depth] at nothing
        exact nothing element builds

theorem memberEvents_delivers : ∀ (members : Members) {outer inner : StreamReader}
    {sofar : List (Value × Value)}, Ready outer → Inside outer (.object sofar) inner →
    inner.stack.length ≤ maxdepth →
    Program.wp (memberEvents members)
      (fun _ after => ∃ values, BuildsMembers inner.stack.length members values ∧
        Finished outer (.object (sofar ++ values)) after)
      (fun _ _ => ∀ values, ¬ BuildsMembers inner.stack.length members values) inner
  | .last key before after value tail, outer, inner, sofar, ready, inside, bounded => by
      rw [inside.depth]
      refine wp_keyEvents (fun name named => ?_) fun unnamed values builds => ?_
      · have keyed := inside.setKey (.string name)
        have opened := (keyed.opened ready rfl).ready
        refine wp_element (events_delivers value _ opened bounded) ready keyed
          (fun element middle builds _ inside' => ?_) fun nothing _ _ values builds => ?_
        · rw [keyed.depth] at builds
          refine wp_tailEvents (fun white => ?_) fun comment values builds => ?_
          · refine Program.wp_mono inside'.stop (fun _ after finished => ?_)
              fun _ _ absurd => absurd.elim
            exact ⟨_, buildsMembers_last.mpr ⟨name, element, rfl, named, builds, white⟩, finished⟩
          · obtain ⟨_, _, _, _, _, white⟩ := buildsMembers_last.mp builds
            rw [comment] at white
            cases white
        · obtain ⟨_, element, _, _, builds, _⟩ := buildsMembers_last.mp builds
          rw [keyed.depth] at nothing
          exact nothing element builds
      · obtain ⟨_, _, _, named, _⟩ := buildsMembers_last.mp builds
        rw [unnamed] at named
        cases named
  | .more key before after value tail gap rest, outer, inner, sofar, ready, inside, bounded => by
      rw [inside.depth]
      refine wp_keyEvents (fun name named => ?_) fun unnamed values builds => ?_
      · have keyed := inside.setKey (.string name)
        have opened := (keyed.opened ready rfl).ready
        refine wp_element (events_delivers value _ opened bounded) ready keyed
          (fun element middle builds same inside' => ?_) fun nothing _ _ values builds => ?_
        · rw [keyed.depth] at builds
          refine wp_tailEvents (fun white => ?_) fun comment values builds => ?_
          · refine Program.wp_mono (memberEvents_delivers rest ready inside' ?_) ?_ ?_
            · rw [same]
              exact bounded
            · rintro _ after ⟨values, more, finished⟩
              rw [inside'.depth] at more
              rw [List.append_assoc] at finished
              exact ⟨_, buildsMembers_more.mpr ⟨name, element, values, rfl, named, builds, white,
                more⟩, finished⟩
            · intro _ after nothing values builds
              obtain ⟨_, _, others, _, _, _, _, more⟩ := buildsMembers_more.mp builds
              rw [inside'.depth] at nothing
              exact nothing others more
          · obtain ⟨_, _, _, _, _, _, white, _⟩ := buildsMembers_more.mp builds
            rw [comment] at white
            cases white
        · obtain ⟨_, element, _, _, _, builds, _⟩ := buildsMembers_more.mp builds
          rw [keyed.depth] at nothing
          exact nothing element builds
      · obtain ⟨_, _, _, _, named, _⟩ := buildsMembers_more.mp builds
        rw [unnamed] at named
        cases named
end

/-! ## Calls that start on an empty stack -/

variable {mode : JsonReadMode} {handler : StreamReader}

theorem outcome_follows {input output : Bytes} {program : Reader PlainView Unit} {text : Text}
    (follows : Follows input output program (events text)) (empty : handler.stack = []) :
    (∃ value, Builds 0 text value ∧
      Returns (Reader.outcome handler (program ⟨⟨input⟩, handler⟩)) (some value)) ∨
    ((∀ value, ¬ Builds 0 text value) ∧
      Returns (Reader.outcome handler (program ⟨⟨input⟩, handler⟩)) none) := by
  have step := follows (rfl : At input ⟨⟨input⟩, handler⟩ handler)
  have delivers := events_delivers text handler (.inl empty) (by rw [empty]; exact Nat.zero_le _)
  simp only [Delivers, Program.wp, empty, List.length_nil] at delivers
  revert step delivers
  rcases program ⟨⟨input⟩, handler⟩ with _ | ⟨failure | value, state⟩ <;>
    rcases events text handler with _ | ⟨failure' | value', after⟩ <;> intro step delivers
  case some.ok.some.ok =>
      obtain ⟨_, rfl⟩ := step
      obtain ⟨value, builds, finished⟩ := delivers
      refine .inl ⟨value, builds, rfl, ?_, finished.stack.trans empty⟩
      exact finished.root.trans (by rw [deliver, empty])
  case some.error.some.error => exact .inr ⟨delivers, rfl⟩
  all_goals first | exact step.elim | exact delivers.elim

theorem outcome_fails {input : Bytes} {program : Reader PlainView Unit}
    (fails : Fails input program) (handler : StreamReader) :
    Returns (Reader.outcome handler (program ⟨⟨input⟩, handler⟩)) none := by
  obtain ⟨failure, state, run⟩ := fails handler
  rw [run]
  rfl

/-- The reader follows the events of a text, or fails, in every mode. -/
theorem read_follows_or_fails (mode : JsonReadMode) (bytes : Bytes) :
    (∃ text output, Follows bytes output (JsonReader.read mode (fuelFor bytes.length))
      (events text)) ∨ Fails bytes (JsonReader.read mode (fuelFor bytes.length)) := by
  have enough : 3 * bytes.length + 1 ≤ fuelFor bytes.length := by
    rw [fuelFor]
    omega
  cases stops : mode.stopParsingOnDone with
  | true =>
      rcases read_cases_stopping stops bytes _ enough with ⟨text, output, _, follows⟩ | fails
      · exact .inl ⟨text, output, follows⟩
      · exact .inr fails
  | false =>
      rcases read_cases stops bytes _ enough with ⟨document, conforms, rfl⟩ | fails
      · exact .inl ⟨document.root, [], read_follows stops conforms _ enough⟩
      · exact .inr fails

/-- A call on an empty stack depends on the bytes alone. -/
theorem deserialize_verdict (mode : JsonReadMode) (bytes : Bytes) :
    ∃ verdict, ∀ (kind : ViewKind) (handler : StreamReader), handler.stack = [] →
      Returns (deserialize kind mode bytes handler) verdict := by
  rcases read_follows_or_fails mode bytes with ⟨text, output, follows⟩ | fails
  · by_cases builds : ∃ value, Builds 0 text value
    · obtain ⟨value, builds⟩ := builds
      refine ⟨some value, fun kind handler empty => ?_⟩
      rw [deserialize_eq_plain]
      rcases outcome_follows follows empty with ⟨value', builds', returns⟩ | ⟨nothing, _⟩
      · obtain rfl := Option.some.inj (builds.denotes.symm.trans builds'.denotes)
        exact returns
      · exact (nothing value builds).elim
    · refine ⟨none, fun kind handler empty => ?_⟩
      rw [deserialize_eq_plain]
      rcases outcome_follows follows empty with ⟨value, builds', _⟩ | ⟨_, returns⟩
      · exact (builds ⟨value, builds'⟩).elim
      · exact returns
  · refine ⟨none, fun kind handler _ => ?_⟩
    rw [deserialize_eq_plain]
    exact outcome_fails fails handler

/-- A document is read as what it builds. -/
theorem deserialize_document (goesOn : mode.stopParsingOnDone = false) {document : Document}
    (conforms : document.Conforms (readerDialect mode)) {value : Value}
    (builds : Builds 0 document.root value) (kind : ViewKind) (empty : handler.stack = []) :
    Returns (deserialize kind mode document.render handler) (some value) := by
  have follows := read_follows goesOn conforms (fuelFor document.render.length)
    (by rw [fuelFor]; omega)
  rw [deserialize_eq_plain]
  rcases outcome_follows follows empty with ⟨value', builds', returns⟩ | ⟨nothing, _⟩
  · obtain rfl := Option.some.inj (builds.denotes.symm.trans builds'.denotes)
    exact returns
  · exact (nothing value builds).elim

/-- A document that builds nothing is refused. -/
theorem deserialize_document_refused (goesOn : mode.stopParsingOnDone = false)
    {document : Document} (conforms : document.Conforms (readerDialect mode))
    (nothing : ∀ value, ¬ Builds 0 document.root value) (kind : ViewKind)
    (empty : handler.stack = []) :
    Returns (deserialize kind mode document.render handler) none := by
  have follows := read_follows goesOn conforms (fuelFor document.render.length)
    (by rw [fuelFor]; omega)
  rw [deserialize_eq_plain]
  rcases outcome_follows follows empty with ⟨value, builds, _⟩ | ⟨_, returns⟩
  · exact (nothing value builds).elim
  · exact returns

/-- What is no document is refused. -/
theorem deserialize_other (goesOn : mode.stopParsingOnDone = false) {bytes : Bytes}
    (other : ∀ document : Document, document.Conforms (readerDialect mode) →
      document.render ≠ bytes) (kind : ViewKind) (handler : StreamReader) :
    Returns (deserialize kind mode bytes handler) none := by
  rw [deserialize_eq_plain]
  rcases read_cases goesOn bytes (fuelFor bytes.length) (by rw [fuelFor]; omega) with
    ⟨document, conforms, render⟩ | fails
  · exact (other document conforms render).elim
  · exact outcome_fails fails handler

end Join.JsonReader
