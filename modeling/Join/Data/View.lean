import Join.Data.Value

/-!
# Input views

The readers take their input through a view. `StringView` walks two pointers
over memory, `BasicStreamView` asks a `std::streambuf` for one character at a
time, and both offer the same primitives. A reader that may have to look at a
number again wraps its view in a `BufferingView`: over a seekable view this
remembers a position and seeks back to it, over a view that cannot seek it keeps
a copy of the characters it extracts.

A character is an optional byte. The source has an `int` that is `-1` at the end
of the input; where it converts that `int` to a character or to an unsigned
byte, the end of the input reads as `0xFF` (`toByte`).

`PlainView` is what the three are meant to be: the bytes not yet read.
-/

set_option autoImplicit false

namespace Join

/-- A character of the input, `none` at its end. -/
abbrev Character := Option UInt8

/-- The conversion of a character to an unsigned byte. -/
def Character.toByte (character : Character) : UInt8 := character.getD 0xFF

/-- `details::escapedLookup`: the bytes a run of plain string characters stops at. -/
def escapedLookup (byte : UInt8) : Bool := byte < 0x20 || byte == 0x22 || byte == 0x5C

/-- `details::whitespaceLookup`. -/
def whitespaceLookup (byte : UInt8) : Bool :=
  byte == 0x09 || byte == 0x0A || byte == 0x0D || byte == 0x20

/-- What the readers ask of a view. `Mark` is the memory of a `BufferingView`
wrapped around it. -/
class View (V : Type) where
  peek : V → Character
  get : V → Character × V
  getIf : UInt8 → V → Bool × V
  getIfNoCase : UInt8 → V → Bool × V
  read : ℕ → V → Bytes × V
  readUntilEscaped : V → Bytes × V
  skipWhitespaces : V → V
  /-- The flag tells whether the call returns 0. -/
  skipWhitespacesAndComments : V → Bool × V
  Mark : Type
  mark : V → Mark
  bufferedGet : Mark × V → Character × (Mark × V)
  bufferedGetIf : UInt8 → Mark × V → Bool × (Mark × V)
  snapshot : Mark × V → Bytes × V

/-! ## StringView -/

/-- The memory between `_beg` and `_end` and the offset of `_cur`. -/
structure StringView where
  data : Bytes
  cur : ℕ
deriving DecidableEq, Repr

namespace StringView

def ofBytes (data : Bytes) : StringView := ⟨data, 0⟩

def peek (view : StringView) : Character := view.data[view.cur]?

def get (view : StringView) : Character × StringView :=
  match view.data[view.cur]? with
  | some byte => (some byte, { view with cur := view.cur + 1 })
  | none => (none, view)

def getIf (expected : UInt8) (view : StringView) : Bool × StringView :=
  match view.data[view.cur]? with
  | some byte =>
      if byte = expected then (true, { view with cur := view.cur + 1 }) else (false, view)
  | none => (false, view)

def getIfNoCase (expected : UInt8) (view : StringView) : Bool × StringView :=
  match view.data[view.cur]? with
  | some byte =>
      if byte ||| 32 = expected ||| 32 then (true, { view with cur := view.cur + 1 })
      else (false, view)
  | none => (false, view)

def read (count : ℕ) (view : StringView) : Bytes × StringView :=
  let available := view.data.length - view.cur
  let nread := if count < available then count else available
  ((view.data.drop view.cur).take nread, { view with cur := view.cur + nread })

/-- `while (cur < end && test (*cur)) ++cur`, where `left` is `end - cur`. -/
def scan (test : UInt8 → Bool) (data : Bytes) : ℕ → ℕ → ℕ
  | 0, cur => cur
  | left + 1, cur =>
      match data[cur]? with
      | some byte => if test byte then scan test data left (cur + 1) else cur
      | none => cur

def readUntilEscaped (view : StringView) : Bytes × StringView :=
  let cur := scan (fun byte => !escapedLookup byte) view.data (view.data.length - view.cur) view.cur
  ((view.data.drop view.cur).take (cur - view.cur), { view with cur := cur })

def skipWhitespaces (view : StringView) : StringView :=
  { view with cur := scan whitespaceLookup view.data (view.data.length - view.cur) view.cur }

/-- The search for the end of a block comment: the offset after it. -/
def closeComment (data : Bytes) : ℕ → ℕ → Option ℕ
  | 0, _ => none
  | left + 1, cur =>
      if data[cur]? = some 0x2A ∧ data[cur + 1]? = some 0x2F then some (cur + 2)
      else closeComment data left (cur + 1)

/-- The outer loop of `skipWhitespacesAndComments`; every round moves `cur`. -/
def skipComments (data : Bytes) : ℕ → ℕ → Option ℕ
  | 0, cur => some cur
  | rounds + 1, cur =>
      let cur := scan whitespaceLookup data (data.length - cur) cur
      match data[cur]? with
      | none => some cur
      | some byte =>
          if byte ≠ 0x2F then some cur
          else
            match data[cur + 1]? with
            | none => none
            | some next =>
                if next = 0x2A then
                  match closeComment data (data.length - (cur + 2)) (cur + 2) with
                  | none => none
                  | some closed => skipComments data rounds closed
                else if next = 0x2F then
                  skipComments data rounds
                    (scan (fun byte => byte != 0x0A) data (data.length - (cur + 2)) (cur + 2))
                else none

/-- A failed call leaves `_cur` where it was. -/
def skipWhitespacesAndComments (view : StringView) : Bool × StringView :=
  match skipComments view.data (view.data.length - view.cur) view.cur with
  | some cur => (true, { view with cur := cur })
  | none => (false, view)

def tell (view : StringView) : ℕ := view.cur

def seek (position : ℕ) (view : StringView) : StringView :=
  if position ≤ view.data.length then { view with cur := position }
  else { view with cur := view.data.length }

end StringView

/-! ## BasicStreamView -/

/-- A `std::streambuf`: the characters already extracted and those still to come. -/
structure StreamBuf where
  before : Bytes
  after : Bytes
deriving DecidableEq, Repr

namespace StreamBuf

def ofBytes (data : Bytes) : StreamBuf := ⟨[], data⟩

def sgetc (buffer : StreamBuf) : Character := buffer.after.head?

def sbumpc (buffer : StreamBuf) : Character × StreamBuf :=
  match buffer.after with
  | [] => (none, buffer)
  | byte :: rest => (some byte, ⟨buffer.before ++ [byte], rest⟩)

def sgetn (count : ℕ) (buffer : StreamBuf) : Bytes × StreamBuf :=
  (buffer.after.take count,
    ⟨buffer.before ++ buffer.after.take count, buffer.after.drop count⟩)

/-- `pubseekoff (0, cur)`. -/
def pubtell (buffer : StreamBuf) : ℕ := buffer.before.length

def pubseekpos (position : ℕ) (buffer : StreamBuf) : StreamBuf :=
  ⟨(buffer.before ++ buffer.after).take position, (buffer.before ++ buffer.after).drop position⟩

/-- `while ((c = sgetc ()) != eof && test (c)) sbumpc ()`, with the characters it
extracts. -/
def bumpWhile (test : UInt8 → Bool) (before : Bytes) : Bytes → Bytes × StreamBuf
  | [] => ([], ⟨before, []⟩)
  | byte :: rest =>
      if test byte then
        let (taken, buffer) := bumpWhile test (before ++ [byte]) rest
        (byte :: taken, buffer)
      else ([], ⟨before, byte :: rest⟩)

mutual
/-- The loop of `skipWhitespacesAndComments`, started between two comments. -/
def skipBetween (before : Bytes) : Bytes → Bool × StreamBuf
  | [] => (true, ⟨before, []⟩)
  | byte :: rest =>
      if whitespaceLookup byte then skipBetween (before ++ [byte]) rest
      else if byte ≠ 0x2F then (true, ⟨before, byte :: rest⟩)
      else
        match rest with
        | [] => (false, ⟨before ++ [byte], []⟩)
        | next :: rest =>
            if next = 0x2A then skipBlock (before ++ [byte, next]) rest
            else if next = 0x2F then skipLine (before ++ [byte, next]) rest
            else (false, ⟨before ++ [byte], next :: rest⟩)

/-- The same loop inside a block comment. -/
def skipBlock (before : Bytes) : Bytes → Bool × StreamBuf
  | [] => (false, ⟨before, []⟩)
  | [byte] => (false, ⟨before ++ [byte], []⟩)
  | byte :: next :: rest =>
      if byte = 0x2A ∧ next = 0x2F then skipBetween (before ++ [byte, next]) rest
      else skipBlock (before ++ [byte]) (next :: rest)

/-- The same loop inside a line comment. -/
def skipLine (before : Bytes) : Bytes → Bool × StreamBuf
  | [] => (true, ⟨before, []⟩)
  | byte :: rest =>
      if byte = 0x0A then skipBetween (before ++ [byte]) rest else skipLine (before ++ [byte]) rest
end

def getIf (expected : UInt8) (buffer : StreamBuf) : Bool × StreamBuf :=
  if buffer.sgetc = some expected then (true, buffer.sbumpc.2) else (false, buffer)

def getIfNoCase (expected : UInt8) (buffer : StreamBuf) : Bool × StreamBuf :=
  match buffer.sgetc with
  | some byte =>
      if byte ||| 32 = expected ||| 32 then (true, buffer.sbumpc.2) else (false, buffer)
  | none => (false, buffer)

def readUntilEscaped (buffer : StreamBuf) : Bytes × StreamBuf :=
  bumpWhile (fun byte => !escapedLookup byte) buffer.before buffer.after

def skipWhitespaces (buffer : StreamBuf) : StreamBuf :=
  (bumpWhile whitespaceLookup buffer.before buffer.after).2

def skipWhitespacesAndComments (buffer : StreamBuf) : Bool × StreamBuf :=
  skipBetween buffer.before buffer.after

end StreamBuf

/-- `BasicStreamView<true>`, the view of string and file streams. -/
structure SeekableStreamView where
  buffer : StreamBuf
deriving DecidableEq, Repr

/-- `BasicStreamView<false>`, the view of pipes and sockets. -/
structure StreamView where
  buffer : StreamBuf
deriving DecidableEq, Repr

/-! ## The bytes not yet read -/

/-- The bytes not yet read. -/
structure PlainView where
  rest : Bytes
deriving DecidableEq, Repr

namespace PlainView

mutual
/-- Skip white space and comments; `none` when a comment is malformed. -/
def skipBetween : Bytes → Option Bytes
  | [] => some []
  | byte :: rest =>
      if whitespaceLookup byte then skipBetween rest
      else if byte ≠ 0x2F then some (byte :: rest)
      else
        match rest with
        | [] => none
        | next :: rest =>
            if next = 0x2A then skipBlock rest
            else if next = 0x2F then skipLine rest
            else none

def skipBlock : Bytes → Option Bytes
  | [] => none
  | [_] => none
  | byte :: next :: rest =>
      if byte = 0x2A ∧ next = 0x2F then skipBetween rest else skipBlock (next :: rest)

def skipLine : Bytes → Option Bytes
  | [] => some []
  | byte :: rest => if byte = 0x0A then skipBetween rest else skipLine rest
end

theorem skipBetween_cons (byte : UInt8) (rest : Bytes) :
    skipBetween (byte :: rest) =
      if whitespaceLookup byte then skipBetween rest
      else if byte ≠ 0x2F then some (byte :: rest)
      else
        match rest with
        | [] => none
        | next :: rest =>
            if next = 0x2A then skipBlock rest
            else if next = 0x2F then skipLine rest
            else none := by
  rw [skipBetween.eq_def]
  rfl

def get (view : PlainView) : Character × PlainView := (view.rest.head?, ⟨view.rest.tail⟩)

def getIf (expected : UInt8) (view : PlainView) : Bool × PlainView :=
  if view.rest.head? = some expected then (true, ⟨view.rest.tail⟩) else (false, view)

def getIfNoCase (expected : UInt8) (view : PlainView) : Bool × PlainView :=
  match view.rest with
  | [] => (false, view)
  | byte :: rest => if byte ||| 32 = expected ||| 32 then (true, ⟨rest⟩) else (false, view)

def skipWhitespacesAndComments (view : PlainView) : Bool × PlainView :=
  match skipBetween view.rest with
  | some rest => (true, ⟨rest⟩)
  | none => (false, view)

end PlainView

/-! ## The instances -/

/-- `BufferingView<StringView, true>` remembers an offset. -/
instance : View StringView where
  peek := StringView.peek
  get := StringView.get
  getIf := StringView.getIf
  getIfNoCase := StringView.getIfNoCase
  read := StringView.read
  readUntilEscaped := StringView.readUntilEscaped
  skipWhitespaces := StringView.skipWhitespaces
  skipWhitespacesAndComments := StringView.skipWhitespacesAndComments
  Mark := ℕ
  mark := StringView.tell
  bufferedGet := fun (start, view) => (view.get.1, (start, view.get.2))
  bufferedGetIf := fun expected (start, view) =>
    ((view.getIf expected).1, (start, (view.getIf expected).2))
  snapshot := fun (start, view) => (view.seek start).read (view.tell - start)

/-- `BufferingView<BasicStreamView<true>, true>` remembers a stream position. -/
instance : View SeekableStreamView where
  peek view := view.buffer.sgetc
  get view := (view.buffer.sbumpc.1, ⟨view.buffer.sbumpc.2⟩)
  getIf expected view := ((view.buffer.getIf expected).1, ⟨(view.buffer.getIf expected).2⟩)
  getIfNoCase expected view :=
    ((view.buffer.getIfNoCase expected).1, ⟨(view.buffer.getIfNoCase expected).2⟩)
  read count view := ((view.buffer.sgetn count).1, ⟨(view.buffer.sgetn count).2⟩)
  readUntilEscaped view := (view.buffer.readUntilEscaped.1, ⟨view.buffer.readUntilEscaped.2⟩)
  skipWhitespaces view := ⟨view.buffer.skipWhitespaces⟩
  skipWhitespacesAndComments view :=
    (view.buffer.skipWhitespacesAndComments.1, ⟨view.buffer.skipWhitespacesAndComments.2⟩)
  Mark := ℕ
  mark view := view.buffer.pubtell
  bufferedGet := fun (start, view) => (view.buffer.sbumpc.1, (start, ⟨view.buffer.sbumpc.2⟩))
  bufferedGetIf := fun expected (start, view) =>
    ((view.buffer.getIf expected).1, (start, ⟨(view.buffer.getIf expected).2⟩))
  snapshot := fun (start, view) =>
    let (bytes, buffer) :=
      (view.buffer.pubseekpos start).sgetn (view.buffer.pubtell - start)
    (bytes, ⟨buffer⟩)

/-- `BufferingView<BasicStreamView<false>, false>` keeps the characters it extracts. -/
instance : View StreamView where
  peek view := view.buffer.sgetc
  get view := (view.buffer.sbumpc.1, ⟨view.buffer.sbumpc.2⟩)
  getIf expected view := ((view.buffer.getIf expected).1, ⟨(view.buffer.getIf expected).2⟩)
  getIfNoCase expected view :=
    ((view.buffer.getIfNoCase expected).1, ⟨(view.buffer.getIfNoCase expected).2⟩)
  read count view := ((view.buffer.sgetn count).1, ⟨(view.buffer.sgetn count).2⟩)
  readUntilEscaped view := (view.buffer.readUntilEscaped.1, ⟨view.buffer.readUntilEscaped.2⟩)
  skipWhitespaces view := ⟨view.buffer.skipWhitespaces⟩
  skipWhitespacesAndComments view :=
    (view.buffer.skipWhitespacesAndComments.1, ⟨view.buffer.skipWhitespacesAndComments.2⟩)
  Mark := Bytes
  mark _ := []
  bufferedGet := fun (kept, view) =>
    match view.buffer.sbumpc with
    | (some byte, buffer) => (some byte, (kept ++ [byte], ⟨buffer⟩))
    | (none, buffer) => (none, (kept, ⟨buffer⟩))
  bufferedGetIf := fun expected (kept, view) =>
    if view.buffer.sgetc = some expected then
      (true, (kept ++ [expected], ⟨view.buffer.sbumpc.2⟩))
    else (false, (kept, view))
  snapshot := fun (kept, view) => (kept, view)

/-- The plain view keeps what it extracts. -/
instance : View PlainView where
  peek view := view.rest.head?
  get := PlainView.get
  getIf := PlainView.getIf
  getIfNoCase := PlainView.getIfNoCase
  read count view := (view.rest.take count, ⟨view.rest.drop count⟩)
  readUntilEscaped view :=
    (view.rest.takeWhile fun byte => !escapedLookup byte,
      ⟨view.rest.dropWhile fun byte => !escapedLookup byte⟩)
  skipWhitespaces view := ⟨view.rest.dropWhile whitespaceLookup⟩
  skipWhitespacesAndComments := PlainView.skipWhitespacesAndComments
  Mark := Bytes
  mark _ := []
  bufferedGet := fun (kept, view) => (view.rest.head?, (kept ++ view.rest.take 1, ⟨view.rest.tail⟩))
  bufferedGetIf := fun expected (kept, view) =>
    if view.rest.head? = some expected then (true, (kept ++ [expected], ⟨view.rest.tail⟩))
    else (false, (kept, view))
  snapshot := fun (kept, view) => (kept, view)

end Join
