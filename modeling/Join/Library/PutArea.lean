import Mathlib.Data.List.Basic
import Mathlib.Tactic.Common

/-!
# Output streams over a put area

An output stream stores characters in the put area of its buffer. When the area is full, and when
the buffer is asked for its result, the characters of the area are handed to a sink as one block.
The sink takes the block, refuses it, leaves it with an exception, or writes past the end of its
own memory; a stream whose write has failed ignores all further writes, and the block stays in
the area.

What the sink sees is told by the characters alone, however they were divided into writes: blocks
of the size of the area, as long as each of them is taken, and a rest that is still in the area.
-/

set_option autoImplicit false

namespace Join.Library

/-- How the hand-over of a block ends. -/
inductive Outcome
  | taken
  | refused
  | thrown
  | overrun
deriving DecidableEq

/-- What a stream buffer with a put area hands its blocks to. -/
structure Sink (σ : Type) where
  /-- The size of the put area. -/
  capacity : ℕ
  capacity_pos : 0 < capacity
  /-- What is done before a character or a block is looked at. -/
  prepare : σ → σ
  /-- The hand-over of a block. -/
  update : σ → List UInt8 → σ × Outcome
  prepare_prepare : ∀ sink, prepare (prepare sink) = prepare sink
  prepare_update : ∀ sink block, prepare sink = sink →
    prepare (update sink block).1 = (update sink block).1

/-- A stream buffer: the characters in its put area, which is not there before the first
character, and its sink. -/
structure Streambuf (σ : Type) where
  area : Option (List UInt8)
  sink : σ

/-- An output stream, and whether no error bit is set. -/
structure Ostream (σ : Type) where
  buf : Streambuf σ
  good : Bool

/-- A write to an output stream: one character, or a block of them. -/
inductive Write
  | put (byte : UInt8)
  | write (data : List UInt8)

/-- The characters of a write. -/
def Write.data : Write → List UInt8
  | .put byte => [byte]
  | .write data => data

/-- The characters of a sequence of writes. -/
def written (writes : List Write) : List UInt8 := writes.flatMap Write.data

namespace Sink

variable {σ : Type} (sort : Sink σ)

/-! ## The stream buffer -/

/-- Hand over the characters of the area, if there are any. -/
def flush (sink : σ) (held : List UInt8) : σ × Outcome :=
  if held.isEmpty then (sink, .taken) else sort.update sink held

/-- `std::streambuf::overflow`, with a character or with the end of the file. -/
def overflow (next : Option UInt8) (buf : Streambuf σ) : Streambuf σ × Outcome :=
  let sink := sort.prepare buf.sink
  let held := buf.area.getD []
  if held.length < sort.capacity ∧ next.isSome then
    (⟨some (held ++ next.toList), sink⟩, .taken)
  else
    match sort.flush sink held with
    | (after, .taken) => (⟨some next.toList, after⟩, .taken)
    | (after, outcome) => (⟨some held, after⟩, outcome)

/-- `std::streambuf::sputc`. -/
def sputc (byte : UInt8) (buf : Streambuf σ) : Streambuf σ × Outcome :=
  match buf.area with
  | some held =>
      if held.length < sort.capacity then (⟨some (held ++ [byte]), buf.sink⟩, .taken)
      else sort.overflow (some byte) buf
  | none => sort.overflow (some byte) buf

/-- `std::streambuf::xsputn`: one character after the other, up to the first that is not
stored. -/
def xsputn : List UInt8 → Streambuf σ → Streambuf σ × Outcome
  | [], buf => (buf, .taken)
  | byte :: rest, buf =>
      match sort.sputc byte buf with
      | (after, .taken) => xsputn rest after
      | (after, outcome) => (after, outcome)

/-! ## The stream -/

/-- Store the characters of a write. -/
def store : Write → Streambuf σ → Streambuf σ × Outcome
  | .put byte, buf => sort.sputc byte buf
  | .write data, buf => sort.xsputn data buf

/-- `std::ostream::put` and `std::ostream::write`: nothing is stored while an error bit is set,
and a bit is set when not everything was stored. -/
def emit (stream : Ostream σ) (write : Write) : Ostream σ :=
  if stream.good then
    ⟨(sort.store write stream.buf).1, (sort.store write stream.buf).2 = .taken⟩
  else stream

/-- A sequence of writes. -/
def emits (stream : Ostream σ) (writes : List Write) : Ostream σ := writes.foldl sort.emit stream

/-! ## The result -/

/-- How a buffer gives its result: the characters of the area are handed over, and what the sink
has collected is finished. A sink that refuses them is abandoned, with an empty result. -/
def collect (abandon : σ → σ) (finish : σ → σ × Except Outcome (List UInt8))
    (buf : Streambuf σ) : Streambuf σ × Except Outcome (List UInt8) :=
  match sort.overflow none buf with
  | (after, .taken) => (⟨after.area, (finish after.sink).1⟩, (finish after.sink).2)
  | (after, .refused) => (⟨after.area, abandon after.sink⟩, .ok [])
  | (after, outcome) => (after, .error outcome)

/-- How a stream gives its result: an error bit is set when it is empty. -/
def result (abandon : σ → σ) (finish : σ → σ × Except Outcome (List UInt8))
    (stream : Ostream σ) : Ostream σ × Except Outcome (List UInt8) :=
  match sort.collect abandon finish stream.buf with
  | (after, .ok []) => (⟨after, false⟩, .ok [])
  | (after, given) => (⟨after, stream.good⟩, given)

/-- One stream that is used several times: the results of its uses. -/
def results (abandon : σ → σ) (finish : σ → σ × Except Outcome (List UInt8)) :
    Ostream σ → List (List Write) → List (Except Outcome (List UInt8))
  | _, [] => []
  | stream, writes :: uses =>
      let given := sort.result abandon finish (sort.emits stream writes)
      given.2 :: results abandon finish given.1 uses

/-! ## What the sink sees -/

/-- The blocks that go to the sink while characters are added to those in the area, with the
state of the sink and the characters in the area after that. -/
def fill : σ → List UInt8 → List UInt8 → (σ × List UInt8) × Outcome
  | sink, held, [] => ((sink, held), .taken)
  | sink, held, byte :: rest =>
      if held.length < sort.capacity then fill sink (held ++ [byte]) rest
      else
        match sort.update sink held with
        | (after, .taken) => fill after [byte] rest
        | (after, outcome) => ((after, held), outcome)

/-- A buffer is in the given state, up to the preparation that is still to come. -/
structure Stands (buf : Streambuf σ) (state : σ × List UInt8) : Prop where
  sink : sort.prepare buf.sink = state.1
  held : buf.area.getD [] = state.2

variable {sort}

theorem Stands.prepared {buf : Streambuf σ} {state : σ × List UInt8}
    (stands : sort.Stands buf state) : sort.prepare state.1 = state.1 := by
  rw [← stands.sink, sort.prepare_prepare]

theorem flush_of_ne_nil {held : List UInt8} (filled : held ≠ []) (sink : σ) :
    sort.flush sink held = sort.update sink held :=
  if_neg fun empty => filled (List.isEmpty_iff.mp empty)

/-- Characters that are added in two portions. -/
theorem fill_append (first second : List UInt8) (sink : σ) (held : List UInt8) :
    sort.fill sink held (first ++ second) =
      match sort.fill sink held first with
      | ((after, left), .taken) => sort.fill after left second
      | (state, outcome) => (state, outcome) := by
  induction first generalizing sink held with
  | nil => rfl
  | cons byte rest ih =>
      rw [List.cons_append, fill, fill]
      by_cases room : held.length < sort.capacity
      · rw [if_pos room, if_pos room]
        exact ih sink (held ++ [byte])
      · rw [if_neg room, if_neg room]
        cases call : sort.update sink held with
        | mk after outcome =>
            cases outcome with
            | taken => exact ih after [byte]
            | refused => rfl
            | thrown => rfl
            | overrun => rfl

/-- An area that is full is not empty. -/
theorem ne_nil_of_full {held : List UInt8} (full : ¬ held.length < sort.capacity) : held ≠ [] := by
  rintro rfl
  exact full sort.capacity_pos

/-- `overflow` with a character is what the sink sees of it. -/
theorem overflow_some {buf : Streambuf σ} {sink : σ} {held : List UInt8}
    (stands : sort.Stands buf (sink, held)) (byte : UInt8) :
    sort.Stands (sort.overflow (some byte) buf).1 (sort.fill sink held [byte]).1 ∧
      (sort.overflow (some byte) buf).2 = (sort.fill sink held [byte]).2 := by
  rw [overflow, stands.sink, stands.held, fill]
  by_cases room : held.length < sort.capacity
  · rw [if_pos ⟨room, rfl⟩, if_pos room]
    exact ⟨⟨stands.prepared, rfl⟩, rfl⟩
  · rw [if_neg fun stored => room stored.1, if_neg room, flush_of_ne_nil (ne_nil_of_full room)]
    have prepared := sort.prepare_update sink held stands.prepared
    cases call : sort.update sink held with
    | mk after outcome =>
        rw [call] at prepared
        cases outcome with
        | taken => exact ⟨⟨prepared, rfl⟩, rfl⟩
        | refused => exact ⟨⟨prepared, rfl⟩, rfl⟩
        | thrown => exact ⟨⟨prepared, rfl⟩, rfl⟩
        | overrun => exact ⟨⟨prepared, rfl⟩, rfl⟩

theorem sputc_stands {buf : Streambuf σ} {sink : σ} {held : List UInt8}
    (stands : sort.Stands buf (sink, held)) (byte : UInt8) :
    sort.Stands (sort.sputc byte buf).1 (sort.fill sink held [byte]).1 ∧
      (sort.sputc byte buf).2 = (sort.fill sink held [byte]).2 := by
  rw [sputc]
  cases area : buf.area with
  | none => exact overflow_some stands byte
  | some stored =>
      have same : stored = held := by
        have content := stands.held
        rwa [area] at content
      dsimp only
      by_cases room : stored.length < sort.capacity
      · rw [same] at room ⊢
        rw [if_pos room, fill, if_pos room]
        exact ⟨⟨stands.sink, rfl⟩, rfl⟩
      · rw [if_neg room]
        exact overflow_some stands byte

theorem xsputn_stands (data : List UInt8) {buf : Streambuf σ} {sink : σ} {held : List UInt8}
    (stands : sort.Stands buf (sink, held)) :
    sort.Stands (sort.xsputn data buf).1 (sort.fill sink held data).1 ∧
      (sort.xsputn data buf).2 = (sort.fill sink held data).2 := by
  induction data generalizing buf sink held with
  | nil => exact ⟨stands, rfl⟩
  | cons byte rest ih =>
      obtain ⟨after, same⟩ := sputc_stands stands byte
      rw [xsputn, ← List.singleton_append, fill_append]
      cases call : sort.sputc byte buf with
      | mk next outcome =>
          cases seen : sort.fill sink held [byte] with
          | mk state result =>
              rw [call, seen] at same after
              cases same
              cases outcome with
              | taken => exact ih after
              | refused => exact ⟨after, rfl⟩
              | thrown => exact ⟨after, rfl⟩
              | overrun => exact ⟨after, rfl⟩

/-- One write, whether it is of a character or of a block. -/
theorem emit_stands (write : Write) {stream : Ostream σ} (good : stream.good = true) {sink : σ}
    {held : List UInt8} (stands : sort.Stands stream.buf (sink, held)) :
    sort.Stands (sort.emit stream write).buf (sort.fill sink held write.data).1 ∧
      ((sort.emit stream write).good = true ↔ (sort.fill sink held write.data).2 = .taken) := by
  have stored : sort.Stands (sort.store write stream.buf).1 (sort.fill sink held write.data).1 ∧
      (sort.store write stream.buf).2 = (sort.fill sink held write.data).2 := by
    cases write with
    | put byte => exact sputc_stands stands byte
    | write data => exact xsputn_stands data stands
  rw [emit, if_pos good, ← stored.2, decide_eq_true_iff]
  exact ⟨stored.1, Iff.rfl⟩

/-- A stream with an error bit ignores all writes. -/
theorem emits_of_bad (writes : List Write) {stream : Ostream σ} (bad : ¬ stream.good = true) :
    sort.emits stream writes = stream := by
  induction writes with
  | nil => rfl
  | cons write rest ih =>
      have ignored : sort.emit stream write = stream := if_neg bad
      rw [emits, List.foldl_cons, ignored]
      exact ih

/-- The sink sees the characters of all writes, however they were divided. -/
theorem emits_stands (writes : List Write) {stream : Ostream σ} (good : stream.good = true)
    {sink : σ} {held : List UInt8} (stands : sort.Stands stream.buf (sink, held)) :
    sort.Stands (sort.emits stream writes).buf (sort.fill sink held (written writes)).1 ∧
      ((sort.emits stream writes).good = true ↔
        (sort.fill sink held (written writes)).2 = .taken) := by
  induction writes generalizing stream sink held with
  | nil => exact ⟨stands, iff_of_true good rfl⟩
  | cons write rest ih =>
      obtain ⟨after, kept⟩ := emit_stands write good stands
      have portions : written (write :: rest) = write.data ++ written rest := rfl
      rw [portions, fill_append, emits, List.foldl_cons, ← emits]
      cases seen : sort.fill sink held write.data with
      | mk state outcome =>
          rw [seen] at after kept
          cases outcome with
          | taken => exact ih (kept.mpr rfl) after
          | refused =>
              rw [emits_of_bad rest fun still => nomatch kept.mp still]
              exact ⟨after, kept⟩
          | thrown =>
              rw [emits_of_bad rest fun still => nomatch kept.mp still]
              exact ⟨after, kept⟩
          | overrun =>
              rw [emits_of_bad rest fun still => nomatch kept.mp still]
              exact ⟨after, kept⟩

/-- `overflow` with the end of the file hands over what is in the area. -/
theorem overflow_none {buf : Streambuf σ} {sink : σ} {held : List UInt8}
    (stands : sort.Stands buf (sink, held)) :
    sort.overflow none buf =
      (⟨some (if (sort.flush sink held).2 = .taken then [] else held), (sort.flush sink held).1⟩,
        (sort.flush sink held).2) := by
  rw [overflow, stands.sink, stands.held, if_neg fun stored => nomatch stored.2]
  cases call : sort.flush sink held with
  | mk after outcome =>
      cases outcome with
      | taken => rfl
      | refused => rfl
      | thrown => rfl
      | overrun => rfl

/-! ## Results -/

section Collecting

variable (abandon : σ → σ) (finish : σ → σ × Except Outcome (List UInt8))

/-- The last block is taken: what the sink has collected is finished. -/
theorem collect_taken {buf : Streambuf σ} {sink after : σ} {held : List UInt8}
    (stands : sort.Stands buf (sink, held)) (call : sort.flush sink held = (after, .taken)) :
    sort.collect abandon finish buf = (⟨some [], (finish after).1⟩, (finish after).2) := by
  rw [collect, overflow_none stands, call]
  rfl

/-- The last block is refused: there is nothing. -/
theorem collect_refused {buf : Streambuf σ} {sink after : σ} {held : List UInt8}
    (stands : sort.Stands buf (sink, held)) (call : sort.flush sink held = (after, .refused)) :
    sort.collect abandon finish buf = (⟨some held, abandon after⟩, .ok []) := by
  rw [collect, overflow_none stands, call]
  rfl

/-- The hand-over of the last block does not return. -/
theorem collect_error {buf : Streambuf σ} {sink after : σ} {held : List UInt8} {outcome : Outcome}
    (stands : sort.Stands buf (sink, held)) (call : sort.flush sink held = (after, outcome))
    (stopped : outcome = .thrown ∨ outcome = .overrun) :
    sort.collect abandon finish buf = (⟨some held, after⟩, .error outcome) := by
  rw [collect, overflow_none stands, call]
  rcases stopped with rfl | rfl
  · rfl
  · rfl

end Collecting

variable {abandon : σ → σ} {finish : σ → σ × Except Outcome (List UInt8)}

theorem result_filled {stream : Ostream σ} {buf : Streambuf σ} {bytes : List UInt8}
    (given : sort.collect abandon finish stream.buf = (buf, .ok bytes)) (filled : bytes ≠ []) :
    sort.result abandon finish stream = (⟨buf, stream.good⟩, .ok bytes) := by
  rw [result, given]
  cases bytes with
  | nil => exact absurd rfl filled
  | cons byte rest => rfl

theorem result_empty {stream : Ostream σ} {buf : Streambuf σ}
    (given : sort.collect abandon finish stream.buf = (buf, .ok [])) :
    sort.result abandon finish stream = (⟨buf, false⟩, .ok []) := by
  rw [result, given]

theorem result_error {stream : Ostream σ} {buf : Streambuf σ} {outcome : Outcome}
    (given : sort.collect abandon finish stream.buf = (buf, .error outcome)) :
    sort.result abandon finish stream = (⟨buf, stream.good⟩, .error outcome) := by
  rw [result, given]

/-- The result itself is that of the buffer. -/
theorem result_snd (stream : Ostream σ) : (sort.result abandon finish stream).2 =
    (sort.collect abandon finish stream.buf).2 := by
  cases given : sort.collect abandon finish stream.buf with
  | mk buf outcome =>
      cases outcome with
      | error outcome => rw [result_error given]
      | ok bytes =>
          by_cases empty : bytes = []
          · rw [empty] at given ⊢
            rw [result_empty given]
          · rw [result_filled given empty]

/-! ## Invariants -/

/-- What a block at any place of the text keeps is true when the last block has been handed over,
unless a hand-over stops in one of the given ways and leaves the sink as it was. -/
theorem fill_invariant {keeps : List UInt8 → σ → Prop} {stops : Outcome → Prop}
    {text : List UInt8}
    (step : ∀ front block back sink, text = front ++ block ++ back → block ≠ [] →
      (back ≠ [] → block.length = sort.capacity) → keeps front sink →
        (∃ after, sort.update sink block = (after, .taken) ∧ keeps (front ++ block) after) ∨
          ∃ outcome, stops outcome ∧ sort.update sink block = (sink, outcome))
    (other : ¬ stops .taken) (data fed held : List UInt8) (sink : σ)
    (parts : text = fed ++ held ++ data) (fits : held.length ≤ sort.capacity)
    (kept : keeps fed sink) :
    ∃ state outcome, sort.fill sink held data = (state, outcome) ∧
      ((outcome = .taken ∧ ∃ after, sort.flush state.1 state.2 = (after, .taken) ∧
          keeps text after) ∨
        ∃ outcome, stops outcome ∧ sort.flush state.1 state.2 = (state.1, outcome)) := by
  induction data generalizing fed held sink with
  | nil =>
      refine ⟨(sink, held), .taken, rfl, ?_⟩
      rw [List.append_nil] at parts
      by_cases filled : held = []
      · rw [filled, List.append_nil] at parts
        rw [filled, parts]
        exact Or.inl ⟨rfl, sink, rfl, kept⟩
      · rw [flush_of_ne_nil filled]
        obtain ⟨after, call, next⟩ | stopped := step fed held [] sink
          (by rw [parts, List.append_nil]) filled (fun more => absurd rfl more) kept
        · exact Or.inl ⟨rfl, after, call, by rw [parts]; exact next⟩
        · exact Or.inr stopped
  | cons byte rest ih =>
      rw [fill]
      by_cases room : held.length < sort.capacity
      · rw [if_pos room]
        apply ih fed (held ++ [byte]) sink _ _ kept
        · rw [parts]
          simp
        · rw [List.length_append, List.length_singleton]
          exact room
      · rw [if_neg room]
        have filled := ne_nil_of_full room
        obtain ⟨after, call, next⟩ | ⟨outcome, stopped, call⟩ := step fed held (byte :: rest) sink
          parts filled (fun _ => Nat.le_antisymm fits (Nat.le_of_not_lt room)) kept
        · rw [call]
          apply ih (fed ++ held) [byte] after _ sort.capacity_pos next
          rw [parts]
          simp
        · have stays : sort.flush sink held = (sink, outcome) := by
            rw [flush_of_ne_nil filled]
            exact call
          rw [call]
          cases outcome with
          | taken => exact absurd stopped other
          | refused => exact ⟨(sink, held), .refused, rfl, Or.inr ⟨.refused, stopped, stays⟩⟩
          | thrown => exact ⟨(sink, held), .thrown, rfl, Or.inr ⟨.thrown, stopped, stays⟩⟩
          | overrun => exact ⟨(sink, held), .overrun, rfl, Or.inr ⟨.overrun, stopped, stays⟩⟩

/-- What full blocks keep and how they never end. -/
theorem fill_full {keeps : σ → Prop} {never : Outcome} (other : never ≠ .taken)
    (step : ∀ sink block, keeps sink → sort.capacity ≤ block.length →
      keeps (sort.update sink block).1 ∧ (sort.update sink block).2 ≠ never)
    (data held : List UInt8) (sink : σ) (kept : keeps sink) :
    keeps (sort.fill sink held data).1.1 ∧ (sort.fill sink held data).2 ≠ never := by
  induction data generalizing sink held with
  | nil => exact ⟨kept, other.symm⟩
  | cons byte rest ih =>
      rw [fill]
      by_cases room : held.length < sort.capacity
      · rw [if_pos room]
        exact ih (held ++ [byte]) sink kept
      · rw [if_neg room]
        obtain ⟨next, ends⟩ := step sink held kept (Nat.le_of_not_lt room)
        cases call : sort.update sink held with
        | mk after outcome =>
            rw [call] at next ends
            cases outcome with
            | taken => exact ih [byte] after next
            | refused => exact ⟨next, ends⟩
            | thrown => exact ⟨next, ends⟩
            | overrun => exact ⟨next, ends⟩

/-- Something is left in the area after any characters. -/
theorem held_ne_nil (data held : List UInt8) (sink : σ) (filled : held ++ data ≠ []) :
    (sort.fill sink held data).1.2 ≠ [] := by
  induction data generalizing sink held with
  | nil =>
      rw [List.append_nil] at filled
      exact filled
  | cons byte rest ih =>
      rw [fill]
      by_cases room : held.length < sort.capacity
      · rw [if_pos room]
        exact ih (held ++ [byte]) sink (by simp)
      · rw [if_neg room]
        cases call : sort.update sink held with
        | mk after outcome =>
            cases outcome with
            | taken => exact ih [byte] after (by simp)
            | refused => exact ne_nil_of_full room
            | thrown => exact ne_nil_of_full room
            | overrun => exact ne_nil_of_full room

end Sink

end Join.Library
