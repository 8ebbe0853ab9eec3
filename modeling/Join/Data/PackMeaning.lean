import Join.Data.PackTokens

/-!
# What a MessagePack input means

`parse` reads a value off an input: the items that a container announces are its
values, in the order in which they come. It is given how many levels of containers
the stack still has room for, and whether it reads inside a container: the handler
takes a scalar only there.

The reader builds in the handler what `parse` finds, and fails where `parse` fails. So
a call of `deserialize` on an empty stack is determined by its bytes.
-/

set_option autoImplicit false

namespace Join.PackReader

open Library StreamReader

/-! ## Values of an input -/

/-- Read a number of things one after the other. -/
def collect {α : Type} (step : Bytes → Option (α × Bytes)) : ℕ → Bytes → Option (List α × Bytes)
  | 0, input => some ([], input)
  | count + 1, input =>
      (step input).bind fun (value, rest) =>
        (collect step count rest).map (Prod.map (value :: ·) id)

/-- A key and the value behind it. -/
def member (value : Bytes → Option (Value × Bytes)) (input : Bytes) :
    Option ((Value × Value) × Bytes) :=
  (key input).bind fun (name, rest) => (value rest).map (Prod.map (name, ·) id)

/-- The value that an item begins. `inner` reads the values of a container; there is no
such reader when the stack is full. -/
def content (inner : Option (Bytes → Option (Value × Bytes))) (nested : Bool) :
    Token → Bytes → Option (Value × Bytes)
  | .scalar value, rest => if nested then some (value, rest) else none
  | .binary bytes, rest => if nested then some (.string bytes, rest) else none
  | .array count, rest =>
      inner.bind fun value => (collect value count rest).map (Prod.map .array id)
  | .object count, rest =>
      inner.bind fun value => (collect (member value) count rest).map (Prod.map .object id)

def parseWith (inner : Option (Bytes → Option (Value × Bytes))) (nested : Bool) (input : Bytes) :
    Option (Value × Bytes) :=
  (next input).bind fun (token, rest) => content inner nested token rest

/-- Read a value, with room for a number of levels of containers. -/
def parse : ℕ → Bool → Bytes → Option (Value × Bytes)
  | 0 => parseWith none
  | room + 1 => parseWith (some (parse room true))

/-- The value of a whole document. -/
def document (bytes : Bytes) : Option Value :=
  match parse maxdepth false bytes with
  | some (value, []) => some value
  | _ => none

/-! ## The reader builds what is parsed -/

/-- Started in front of `input`, the program takes the value that was parsed, or fails if
there is none. -/
def Parses (handler : StreamReader) (input : Bytes) (program : Reader PlainView Unit)
    (result : Option (Value × Bytes)) : Prop :=
  Program.wp program
    (fun _ state => ∃ value rest, result = some (value, rest) ∧ state.document = ⟨rest⟩ ∧
      Finished handler value state.handler)
    (fun _ _ => result = none) ⟨⟨input⟩, handler⟩

/-- A round of a loop adds to the open container what `step` reads. -/
def Adds {α : Type} (depth : ℕ) (build : List α → Value) (round : Reader PlainView Unit)
    (step : Bytes → Option (α × Bytes)) : Prop :=
  ∀ outer inner sofar input, Ready outer → Inside outer (build sofar) inner →
    inner.stack.length = depth →
    Program.wp round
      (fun _ state => ∃ value rest, step input = some (value, rest) ∧ state.document = ⟨rest⟩ ∧
        Inside outer (build (sofar ++ [value])) state.handler)
      (fun _ _ => step input = none) ⟨⟨input⟩, inner⟩

/-- A loop adds everything that its rounds read, and the container is closed. -/
theorem times_adds {α : Type} {depth : ℕ} {build : List α → Value}
    {round : Reader PlainView Unit} {step : Bytes → Option (α × Bytes)}
    (adds : Adds depth build round step) (count : ℕ) {outer inner : StreamReader}
    {sofar : List α} {input : Bytes} (ready : Ready outer)
    (inside : Inside outer (build sofar) inner) (level : inner.stack.length = depth) :
    Program.wp (times round count >>= fun _ => Reader.event stopContainer)
      (fun _ state => ∃ values rest, collect step count input = some (values, rest) ∧
        state.document = ⟨rest⟩ ∧ Finished outer (build (sofar ++ values)) state.handler)
      (fun _ _ => collect step count input = none) ⟨⟨input⟩, inner⟩ := by
  induction count generalizing inner sofar input with
  | zero =>
      refine (Advances.pure input ()).wp ((Follows.event input stopContainer).wp ?_)
      refine Program.wp_mono inside.stop (fun _ after finished => ?_) fun _ _ absurd => absurd.elim
      exact ⟨[], input, rfl, rfl, by rwa [List.append_nil]⟩
  | succ count ih =>
      rw [times, Program.bind_bind, Program.wp_bind]
      refine Program.wp_mono (adds outer inner sofar input ready inside level) ?_ ?_
      · rintro _ ⟨_, after⟩ ⟨value, rest, found, rfl, inside'⟩
        have level' : after.stack.length = depth := by rw [inside'.depth, ← inside.depth, level]
        refine Program.wp_mono (ih inside' level') ?_ ?_
        · rintro _ state ⟨values, remaining, more, document, finished⟩
          rw [List.append_assoc] at finished
          refine ⟨value :: values, remaining, ?_, document, finished⟩
          simp only [collect, found, Option.bind_some, more, Option.map_some, Prod.map_apply, id]
        · intro _ _ failed
          simp only [collect, found, Option.bind_some, failed, Option.map_none]
      · intro _ _ failed
        simp only [collect, failed, Option.bind_none]

theorem adds_element {depth : ℕ} {readValue : Reader PlainView Unit}
    {value : Bytes → Option (Value × Bytes)}
    (parses : ∀ handler input, Ready handler → handler.stack.length = depth →
      Parses handler input readValue (value input)) :
    Adds depth .array readValue value := by
  intro outer inner sofar input ready inside level
  have opened := (inside.opened ready rfl).ready
  refine Program.wp_mono (parses inner input opened level) ?_ fun _ _ failed => failed
  rintro _ state ⟨element, rest, found, document, finished⟩
  exact ⟨element, rest, found, document, inside.finished ready finished⟩

theorem adds_member {depth : ℕ} {readValue : Reader PlainView Unit}
    {value : Bytes → Option (Value × Bytes)}
    (parses : ∀ handler input, Ready handler → handler.stack.length = depth →
      Parses handler input readValue (value input)) :
    Adds depth .object (readMember readValue) (member value) := by
  intro outer inner sofar input ready inside level
  unfold readMember member
  have sends := readKey_sends input
  rw [Program.wp_bind]
  cases found : key input with
  | none =>
      rw [found] at sends
      obtain ⟨failure, refuses⟩ := sends
      exact refuses.wp fun _ => by simp only [Option.bind_none]
  | some named =>
      obtain ⟨name, rest⟩ := named
      rw [found] at sends
      refine Follows.wp sends ?_
      have keyed := inside.setKey name
      have opened := (keyed.opened ready rfl).ready
      simp only [deliverEvents, if_true, StreamReader.setKey, Program.wp_change, Option.bind_some]
      refine Program.wp_mono (parses _ rest opened level) ?_ ?_
      · rintro _ state ⟨element, remaining, more, document, finished⟩
        refine ⟨(name, element), remaining, ?_, document, keyed.finished ready finished⟩
        simp only [more, Option.map_some, Prod.map_apply, id]
      · intro _ _ failed
        simp only [failed, Option.map_none]

/-- A container: its length, its opening, its rounds and its end. -/
theorem container_parses {α : Type} (build : List α → Value) {handler : StreamReader}
    {input : Bytes} {length : Reader PlainView UInt32} {count : Option (UInt32 × Bytes)}
    {round : Reader PlainView Unit} {step : Option (Bytes → Option (α × Bytes))}
    (ready : Ready handler) (bounded : handler.stack.length ≤ maxdepth)
    (decodes : Decodes input length count)
    (full : handler.stack.length = maxdepth → step = none)
    (adds : handler.stack.length < maxdepth →
      ∃ value, step = some value ∧ Adds (handler.stack.length + 1) build round value) :
    Parses handler input
      (length >>= fun len => Reader.event (startContainer (build [])) >>= fun _ =>
        times round len.toNat >>= fun _ => Reader.event stopContainer)
      (count.bind fun (len, rest) => step.bind fun value =>
        (collect value len.toNat rest).map (Prod.map build id)) := by
  unfold Parses
  cases count with
  | none =>
      obtain ⟨failure, refuses⟩ := decodes
      exact (refuses.bind _).wp fun _ => rfl
  | some found =>
      obtain ⟨len, rest⟩ := found
      refine Advances.wp decodes ?_
      rw [Program.wp_bind]
      refine (Follows.event rest (startContainer (build []))).wp ?_
      rcases Nat.lt_or_eq_of_le bounded with room | filled
      · obtain ⟨value, rfl, addsEach⟩ := adds room
        refine Program.wp_mono (startContainer_ready ready room (build [])) ?_
          fun _ _ absurd => absurd.elim
        intro _ inner inside
        refine Program.wp_mono (times_adds addsEach len.toNat ready inside inside.depth) ?_ ?_
        · rintro _ state ⟨values, remaining, collected, document, finished⟩
          refine ⟨build values, remaining, ?_, document, finished⟩
          simp only [Option.bind_some, collected, Option.map_some, Prod.map_apply, id]
        · intro _ _ failed
          simp only [Option.bind_some, failed, Option.map_none]
      · rw [Program.wp, startContainer_full filled.ge, full filled]
        intro _
        simp only [Option.bind_some, Option.bind_none]

/-- A scalar is taken inside a container and refused at the root. -/
theorem leaf_parses {handler : StreamReader} {input : Bytes} {program : Reader PlainView Unit}
    {result : Option (Value × Bytes)} (ready : Ready handler)
    (sends : Sends false input program result) :
    Parses handler input program (if handler.stack.isEmpty then none else result) := by
  unfold Parses
  cases result with
  | none =>
      obtain ⟨failure, refuses⟩ := sends
      exact refuses.wp fun _ => ite_self _
  | some found =>
      obtain ⟨value, rest⟩ := found
      refine Follows.wp sends ?_
      simp only [deliverEvents, Bool.false_eq_true, if_false]
      rcases ready with empty | ⟨path, target, opened⟩
      · rw [Program.wp, setValue_empty empty]
        intro _
        rw [empty]
        rfl
      · obtain ⟨others, stack⟩ := List.head?_eq_some_iff.mp opened.top
        refine Program.wp_mono (setValue_open opened value) (fun _ after finished => ?_)
          fun _ _ absurd => absurd.elim
        exact ⟨value, rest, by rw [stack]; rfl, rfl, finished⟩

theorem parseWith_array (inner : Option (Bytes → Option (Value × Bytes))) (nested : Bool)
    {head : UInt8} (array : isArray head = true) (rest : Bytes) :
    parseWith inner nested (head :: rest) = (arrayCount head rest).bind fun (len, rest) =>
      inner.bind fun value => (collect value len.toNat rest).map (Prod.map .array id) := by
  have first : next (head :: rest) =
      (arrayCount head rest).map (Prod.map (fun len => .array len.toNat) id) := if_pos array
  rw [parseWith, first, Option.bind_map]
  rfl

theorem parseWith_object (inner : Option (Bytes → Option (Value × Bytes))) (nested : Bool)
    {head : UInt8} (notArray : isArray head = false) (object : isObject head = true)
    (rest : Bytes) :
    parseWith inner nested (head :: rest) = (objectCount head rest).bind fun (len, rest) =>
      (inner.map member).bind fun member =>
        (collect member len.toNat rest).map (Prod.map .object id) := by
  have first : next (head :: rest) =
      (objectCount head rest).map (Prod.map (fun len => .object len.toNat) id) :=
    (if_neg (Bool.eq_false_iff.mp notArray)).trans (if_pos object)
  rw [parseWith, first, Option.bind_map]
  simp only [Option.bind_map]
  rfl

/-- The items that begin no container. -/
theorem parseWith_leaf (inner : Option (Bytes → Option (Value × Bytes))) (nested : Bool)
    {input : Bytes} (notArray : isArray (Character.toByte input.head?) = false)
    (notObject : isObject (Character.toByte input.head?) = false) :
    parseWith inner nested input = if nested then leaf input else none := by
  have token {α : Type} (found : Option (α × Bytes)) (token : α → Token) (value : α → Value)
      (scalar : ∀ content' rest, content inner nested (token content') rest =
        if nested then some (value content', rest) else none) :
      ((found.map (Prod.map token id)).bind fun (token, rest) => content inner nested token rest) =
        if nested then found.map (Prod.map value id) else none := by
    cases found with
    | none => exact (ite_self _).symm
    | some found => exact scalar found.1 found.2
  simp only [parseWith, next, item, leaf, notArray, notObject, Bool.false_eq_true, if_false]
  split
  case isTrue => exact token _ .binary .string fun _ _ => rfl
  case isFalse =>
      have plain := token (scalar (Character.toByte input.head?) input.tail) .scalar id
        fun _ _ => rfl
      rwa [Prod.map_id, Option.map_id] at plain

/-- One call of `readValue`, given what the calls inside a container do. -/
theorem readValue_step {fuel : ℕ} {handler : StreamReader} {input : Bytes}
    {inner : Option (Bytes → Option (Value × Bytes))} (ready : Ready handler)
    (bounded : handler.stack.length ≤ maxdepth)
    (full : handler.stack.length = maxdepth → inner = none)
    (nested : handler.stack.length < maxdepth → ∃ value, inner = some value ∧
      ∀ handler' input', Ready handler' → handler'.stack.length = handler.stack.length + 1 →
        Parses handler' input' (readValue fuel) (value input')) :
    Parses handler input (readValue (fuel + 1))
      (parseWith inner (!handler.stack.isEmpty) input) := by
  unfold Parses
  refine (Advances.peek input).wp ?_
  rw [Program.wp_mapFailure]
  by_cases array : isArray (Character.toByte input.head?) = true
  · rw [if_pos array]
    cases input with
    | nil => cases array
    | cons head rest =>
        have step := container_parses .array ready bounded (arrayLength_decodes head rest) full
          fun room => by
            obtain ⟨value, same, parses⟩ := nested room
            exact ⟨value, same, adds_element fun handler' input' => parses handler' input'⟩
        have same := parseWith_array inner (!handler.stack.isEmpty) (show isArray head from array) rest
        rwa [← same] at step
  by_cases object : isObject (Character.toByte input.head?) = true
  · rw [if_neg array, if_pos object]
    cases input with
    | nil => cases object
    | cons head rest =>
        have none : handler.stack.length = maxdepth → inner.map member = none := fun filled => by
          rw [full filled]
          rfl
        have step := container_parses .object ready bounded (objectLength_decodes head rest) none
          fun room => by
            obtain ⟨value, same, parses⟩ := nested room
            exact ⟨member value, by rw [same]; rfl,
              adds_member fun handler' input' => parses handler' input'⟩
        have same := parseWith_object inner (!handler.stack.isEmpty)
          (Bool.eq_false_iff.mpr (show isArray head ≠ true from array))
          (show isObject head from object) rest
        rwa [← same] at step
  rw [if_neg array, if_neg object]
  rw [Bool.not_eq_true] at array object
  have step := leaf_parses ready (leaf_sends input)
  rw [parseWith_leaf inner _ array object]
  cases empty : handler.stack.isEmpty <;> rw [empty] at step <;> exact step

/-- `readValue` takes the value that is parsed. -/
theorem readValue_parses (room : ℕ) {handler : StreamReader} (ready : Ready handler)
    (level : handler.stack.length + room = maxdepth) (input : Bytes) :
    Parses handler input (readValue (room + 1))
      (parse room (!handler.stack.isEmpty) input) := by
  induction room generalizing handler input with
  | zero => exact readValue_step ready level.le (fun _ => rfl) fun below => by omega
  | succ room ih =>
      refine readValue_step ready (by omega) (fun filled => by omega) fun _ => ?_
      refine ⟨_, rfl, fun handler' input' ready' deeper => ?_⟩
      have parses := ih ready' (by omega) input'
      have inside : handler'.stack.isEmpty = false := by
        rw [List.isEmpty_eq_false_iff, ← List.length_pos_iff]
        omega
      rwa [inside] at parses

/-! ## Calls that start on an empty stack -/

variable {handler : StreamReader}

/-- `read` builds the value of the document, or fails if it has none. -/
theorem read_builds (bytes : Bytes) (empty : handler.stack = []) :
    Program.wp (PackReader.read fuel : Reader PlainView Unit)
      (fun _ state => ∃ value, document bytes = some value ∧ Finished handler value state.handler)
      (fun _ _ => document bytes = none) ⟨⟨bytes⟩, handler⟩ := by
  have parses := readValue_parses maxdepth (.inl empty)
    (by rw [empty, List.length_nil, Nat.zero_add]) bytes
  rw [empty, List.isEmpty_nil, Bool.not_true] at parses
  rw [PackReader.read, Program.wp_bind]
  refine Program.wp_mono parses ?_ fun _ _ failed => by rw [document, failed]
  rintro _ ⟨_, after⟩ ⟨value, rest, found, rfl, finished⟩
  refine (Advances.peek rest).wp ?_
  cases rest with
  | nil => exact ⟨value, by rw [document, found], finished⟩
  | cons byte rest => exact show document bytes = none by rw [document, found]

/-- A call on an empty stack returns the value of the document. -/
theorem deserialize_returns (kind : ViewKind) (bytes : Bytes) (empty : handler.stack = []) :
    Returns (deserialize kind bytes handler) (document bytes) := by
  have builds := read_builds bytes empty
  rw [deserialize_eq_plain, deserializePlain]
  unfold Program.wp at builds
  revert builds
  rcases PackReader.read fuel (⟨⟨bytes⟩, handler⟩ : Reading PlainView) with
    _ | ⟨failure | value, state⟩ <;> intro builds
  · exact builds.elim
  · rw [show document bytes = none from builds]
    rfl
  · obtain ⟨value, found, finished⟩ := builds
    rw [found]
    refine ⟨rfl, ?_, finished.stack.trans empty⟩
    rw [Reader.outcome, finished.root, StreamReader.deliver, empty]

end Join.PackReader
