import Join.Data.View
import Join.Library.Program

/-!
# The SAX layer

A writer walks a value and emits events (`StreamWriter`); a reader turns events
back into a value (`StreamReader`). The reader keeps a stack of pointers to the
containers that are open, the key of the member that is coming and the root.

An event that cannot be served returns `-1`. What it changed before stays
changed, and nothing empties the stack when a document is given up.
-/

set_option autoImplicit false

namespace Join

open Library

/-- `SaxErrc`. -/
inductive SaxErrc where
  | stackOverflow
  | invalidParent
  | invalidKey
  | invalidValue
  | extraData
deriving DecidableEq, Repr

/-- `JsonErrc`. -/
inductive JsonErrc where
  | invalidComment
  | invalidEscaping
  | invalidEncoding
  | illegalCharacter
  | missingCurlyBracket
  | missingSquareBracket
  | missingQuote
  | missingColon
  | missingComma
  | endOfFile
deriving DecidableEq, Repr

/-- How a call ends that does not return 0. -/
inductive Failure where
  /-- It returns `-1` with a SAX error in `lastError`. -/
  | sax (code : SaxErrc)
  /-- It returns `-1` with a JSON error in `lastError`. -/
  | json (code : JsonErrc)
  /-- It returns `-1` and leaves `lastError` as it was. -/
  | unset
  /-- It is left by an exception. -/
  | thrown
deriving DecidableEq, Repr

/-! ## Writing -/

/-- The events a writer serves. -/
structure SaxHandler (State : Type) where
  setNull : Program State Failure Unit
  setBool : Bool → Program State Failure Unit
  setInt : Int32 → Program State Failure Unit
  setUint : UInt32 → Program State Failure Unit
  setInt64 : Int64 → Program State Failure Unit
  setUint64 : UInt64 → Program State Failure Unit
  setDouble : Double → Program State Failure Unit
  setString : Bytes → Program State Failure Unit
  startArray : UInt32 → Program State Failure Unit
  stopArray : Program State Failure Unit
  startObject : UInt32 → Program State Failure Unit
  setKey : Value → Program State Failure Unit
  stopObject : Program State Failure Unit

namespace StreamWriter

variable {State : Type} (handler : SaxHandler State)

mutual
/-- `StreamWriter::setValue`. -/
def setValue : Value → Program State Failure Unit
  | .boolean value => handler.setBool value
  | .integer value => handler.setInt value
  | .unsigned value => handler.setUint value
  | .integer64 value => handler.setInt64 value
  | .unsigned64 value => handler.setUint64 value
  | .real value => handler.setDouble value
  | .string value => handler.setString value
  | .array elements => do
      -- the size is narrowed to 32 bits
      handler.startArray (UInt32.ofNat elements.length)
      setElements elements
      handler.stopArray
  | .object members => do
      handler.startObject (UInt32.ofNat members.length)
      setMembers members
      handler.stopObject
  | .null => handler.setNull

/-- The loop of `StreamWriter::setArray`. -/
def setElements : List Value → Program State Failure Unit
  | [] => pure ()
  | element :: elements => do
      setValue element
      setElements elements

/-- The loop of `StreamWriter::setObject`. -/
def setMembers : List (Value × Value) → Program State Failure Unit
  | [] => pure ()
  | (key, value) :: members => do
      handler.setKey key
      setValue value
      setMembers members
end

end StreamWriter

/-! ## Reading -/

/-- `StreamReader`: the root, the pointers on the stack, its top first, and the
key of the member that is coming. -/
structure StreamReader where
  root : Value
  stack : List (List ℕ)
  curkey : Value
deriving Repr

namespace StreamReader

/-- `_maxdepth`. -/
def maxdepth : ℕ := 19

/-- A reader that has just been constructed on a root. -/
def fresh (root : Value) : StreamReader := ⟨root, [], .null⟩

/-- The parent after `insert` or `pushBack` of a value, which go by the
alternative of the parent; `none` when the variant throws. -/
def attach (key value : Value) : Value → Option Value
  | .object members => some (.object (members ++ [(key, value)]))
  | .array elements => some (.array (elements ++ [value]))
  | .null => some (.array [value])
  | _ => none

/-- Attach a value to the parent on top of the stack; the pointer to the new
value is returned. -/
def append (value : Value) : Program StreamReader Failure (List ℕ) := fun reader =>
  match reader.stack with
  | [] => some (.error (.sax .invalidParent), reader)
  | path :: _ =>
      match reader.root.at? path with
      | none => some (.error .thrown, reader)
      | some parent =>
          match attach reader.curkey value parent with
          | none => some (.error .thrown, reader)
          | some parent' =>
              some (.ok (path ++ [parent.childCount]),
                { reader with
                  root := reader.root.modifyAt path fun _ => parent'
                  curkey := if parent.isObject then reader.curkey.movedFrom else reader.curkey })

/-- `StreamReader::setValue`. -/
def setValue (value : Value) : Program StreamReader Failure Unit := do
  let _ ← append value

/-- What `startArray` and `startObject` share: the empty container becomes the root
or is attached to the parent, and a pointer to it is pushed. -/
def startContainer (container : Value) : Program StreamReader Failure Unit := do
  let stack ← Program.gets StreamReader.stack
  if stack.isEmpty then
    Program.change fun reader => { reader with root := container, stack := [[]] }
  else if stack.length ≥ maxdepth then
    Program.fail (.sax .stackOverflow)
  else do
    let pointer ← append container
    Program.change fun reader => { reader with stack := pointer :: reader.stack }

def startArray : Program StreamReader Failure Unit := startContainer (.array [])

def startObject : Program StreamReader Failure Unit := startContainer (.object [])

/-- `stopArray` and `stopObject`, which do the same. -/
def stopContainer : Program StreamReader Failure Unit :=
  Program.change fun reader => { reader with stack := reader.stack.tail }

def setKey (key : Value) : Program StreamReader Failure Unit :=
  Program.change fun reader => { reader with curkey := key }

/-! ### What the events do to the value under construction -/

/-- The top of the stack points to a container. -/
structure Open (reader : StreamReader) (path : List ℕ) (target : Value) : Prop where
  top : reader.stack.head? = some path
  leads : reader.root.at? path = some target
  container : target.isContainer = true

/-- The reader can take a container: nothing is open, or a container is. -/
def Ready (reader : StreamReader) : Prop :=
  reader.stack = [] ∨ ∃ path target, Open reader path target

/-- A container with one more value, at its end and, in an object, under the key. -/
def extend (key value : Value) : Value → Value
  | .object members => .object (members ++ [(key, value)])
  | .array elements => .array (elements ++ [value])
  | other => other

/-- The root once a value has been delivered to the reader: the value itself when
nothing was open, otherwise the old root with the value at the end of the
container on top of the stack. -/
def deliver (reader : StreamReader) (value : Value) : Value :=
  match reader.stack with
  | [] => value
  | path :: _ => reader.root.modifyAt path (extend reader.curkey value)

/-- The reader has taken a whole value. The key that was pending is not described:
it may have been moved away. -/
structure Finished (before : StreamReader) (value : Value) (after : StreamReader) : Prop where
  root : after.root = before.deliver value
  stack : after.stack = before.stack

/-- The pointer to the container a reader opens next. -/
def nextPointer (reader : StreamReader) : List ℕ :=
  match reader.stack with
  | [] => []
  | path :: _ => path ++ [((reader.root.at? path).map Value.childCount).getD 0]

/-- Inside the container that `outer` opened, which holds `content` so far. -/
structure Inside (outer : StreamReader) (content : Value) (inner : StreamReader) : Prop where
  root : inner.root = outer.deliver content
  stack : inner.stack = outer.nextPointer :: outer.stack

variable {reader outer inner after : StreamReader} {path : List ℕ} {target value content : Value}

theorem attach_container (container : target.isContainer = true) (key value : Value) :
    attach key value target = some (extend key value target) := by
  cases target <;> simp_all [Value.isContainer, Value.isArray, Value.isObject, attach, extend]

theorem Open.ready (opened : Open reader path target) : Ready reader :=
  .inr ⟨path, target, opened⟩

theorem append_open (opened : Open reader path target) (value : Value) :
    append value reader =
      some (.ok reader.nextPointer,
        { reader with
          root := reader.deliver value
          curkey := if target.isObject then reader.curkey.movedFrom else reader.curkey }) := by
  obtain ⟨rest, stack⟩ := List.head?_eq_some_iff.mp opened.top
  have same : reader.root.modifyAt path (fun _ => extend reader.curkey value target) =
      reader.root.modifyAt path (extend reader.curkey value) :=
    Value.modifyAt_congr opened.leads rfl
  simp only [append, deliver, nextPointer, stack, opened.leads,
    attach_container opened.container, same, Option.map_some, Option.getD_some]

/-- An open container takes any value. -/
theorem setValue_open (opened : Open reader path target) (value : Value) :
    Program.wp (setValue value) (fun _ after => Finished reader value after)
      (fun _ _ => False) reader := by
  simp only [setValue, Program.wp_bind, Program.wp_of_ok (append_open opened value),
    Program.wp_pure]
  exact ⟨rfl, rfl⟩

/-- An empty stack refuses a value. -/
theorem setValue_empty (empty : reader.stack = []) (value : Value) :
    setValue value reader = some (.error (.sax .invalidParent), reader) := by
  simp only [setValue, Program.bind_apply, append, empty]

/-- A container is opened as long as the stack is not full. -/
theorem startContainer_ready (ready : Ready reader) (room : reader.stack.length < maxdepth)
    (container : Value) :
    Program.wp (startContainer container) (fun _ after => Inside reader container after)
      (fun _ _ => False) reader := by
  rcases ready with empty | ⟨path, target, opened⟩
  · simp only [startContainer, Program.wp_bind, Program.wp_gets, empty, List.isEmpty_nil,
      if_true, Program.wp_change]
    exact ⟨by simp only [deliver, empty], by simp only [nextPointer, empty]⟩
  · have nonempty : reader.stack.isEmpty = false := by
      obtain ⟨rest, stack⟩ := List.head?_eq_some_iff.mp opened.top
      rw [stack, List.isEmpty_cons]
    simp only [startContainer, Program.wp_bind, Program.wp_gets, nonempty, Bool.false_eq_true,
      if_false, if_neg (not_le.mpr room), Program.wp_of_ok (append_open opened container),
      Program.wp_change]
    exact ⟨rfl, rfl⟩

/-- A full stack refuses a container and nothing changes. -/
theorem startContainer_full (full : maxdepth ≤ reader.stack.length) (container : Value) :
    startContainer container reader = some (.error (.sax .stackOverflow), reader) := by
  have nonempty : reader.stack.isEmpty = false := by
    cases stack : reader.stack with
    | nil => simp [stack, maxdepth] at full
    | cons path rest => rfl
  simp only [startContainer, Program.bind_apply, Program.gets_apply, nonempty,
    Bool.false_eq_true, if_false, ge_iff_le, full, if_true, Program.fail_apply]

/-- Inside a container that has just been opened, the top of the stack leads to it. -/
theorem Inside.opened (ready : Ready outer) (inside : Inside outer content inner)
    (container : content.isContainer = true) : Open inner outer.nextPointer content := by
  refine ⟨by rw [inside.stack, List.head?_cons], ?_, container⟩
  rcases ready with empty | ⟨path, target, opened⟩
  · simp only [inside.root, nextPointer, deliver, empty, Value.at?]
  · obtain ⟨rest, stack⟩ := List.head?_eq_some_iff.mp opened.top
    simp only [inside.root, nextPointer, deliver, stack, opened.leads, Option.map_some,
      Option.getD_some, Value.at?_append, Value.at?_modifyAt opened.leads, Option.bind_some]
    have isContainer := opened.container
    cases target with
    | array elements => simp [extend, Value.at?, Value.childCount]
    | object members => simp [extend, Value.at?, Value.childCount]
    | _ => simp [Value.isContainer, Value.isArray, Value.isObject] at isContainer

/-- A value finished inside a container has been added to it. -/
theorem Inside.finished (ready : Ready outer) (inside : Inside outer content inner)
    (finished : Finished inner value after) :
    Inside outer (extend inner.curkey value content) after := by
  refine ⟨?_, by rw [finished.stack, inside.stack]⟩
  rw [finished.root]
  simp only [deliver, inside.stack, inside.root]
  rcases ready with empty | ⟨path, target, opened⟩
  · simp only [nextPointer, empty, Value.modifyAt]
  · obtain ⟨rest, stack⟩ := List.head?_eq_some_iff.mp opened.top
    simp only [nextPointer, stack, opened.leads, Option.map_some, Option.getD_some,
      Value.modifyAt_append, Value.modifyAt_modifyAt]
    refine Value.modifyAt_congr opened.leads ?_
    have isContainer := opened.container
    cases target with
    | array elements =>
        exact congrArg Value.array (Value.modify_concat elements content _)
    | object members =>
        exact congrArg Value.object (Value.modify_concat members (outer.curkey, content) _)
    | _ => simp [Value.isContainer, Value.isArray, Value.isObject] at isContainer

/-- Closing a container finishes it. -/
theorem Inside.stop (inside : Inside outer content inner) :
    Program.wp stopContainer (fun _ after => Finished outer content after)
      (fun _ _ => False) inner := by
  simp only [stopContainer, Program.wp_change]
  exact ⟨inside.root, by simp only [inside.stack, List.tail_cons]⟩

theorem Inside.setKey (inside : Inside outer content inner) (key : Value) :
    Inside outer content { inner with curkey := key } :=
  ⟨inside.root, inside.stack⟩

theorem Inside.depth (inside : Inside outer content inner) :
    inner.stack.length = outer.stack.length + 1 := by
  rw [inside.stack, List.length_cons]

end StreamReader

end Join
