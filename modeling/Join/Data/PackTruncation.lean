import Join.Data.PackRoundTrip

/-!
# Documents that are cut off

A document that is cut inside an item is refused, because every field is read in full
or not at all. A document that is cut between two items is not: the items that are
missing are read as the integer `-1`, of which the end of the input is the head.

`fits` follows the items of a document the way the reader does, without their values.
It keeps, for every container that is open, how many items it still waits for, and gets
stuck where the reader fails: at a container in the place of a key, at a container on a
full stack and at an item after the last one that was announced.
-/

set_option autoImplicit false

namespace Join

open Library StreamReader

namespace PackReader

/-! ## Items that fit a document -/

/-- A container that is open and the number of items that it waits for. A member of an
object is two items. -/
structure Frame where
  object : Bool
  pending : ℕ
deriving Repr, DecidableEq

/-- The next item of the container is a key. -/
def Frame.atKey (frame : Frame) : Bool := frame.object && frame.pending % 2 == 0

/-- The container that an item opens. -/
def Token.frame? : Token → Option Frame
  | .array count => some ⟨false, count⟩
  | .object count => some ⟨true, 2 * count⟩
  | _ => none

/-- Take an item in a list of open containers, the innermost first. -/
def place : List Frame → Token → Option (List Frame)
  | [], _ => none
  | ⟨_, 0⟩ :: frames, token => place frames token
  | ⟨object, pending + 1⟩ :: frames, token =>
      if (Frame.mk object (pending + 1)).atKey then
        token.key?.map fun _ => ⟨object, pending⟩ :: frames
      else
        match token.frame? with
        | none => some (⟨object, pending⟩ :: frames)
        | some frame =>
            if frames.length + 1 < maxdepth then some (frame :: ⟨object, pending⟩ :: frames)
            else none

/-- Take items one after the other. -/
def placeAll : List Frame → List Token → Option (List Frame)
  | frames, [] => some frames
  | frames, token :: tokens => (place frames token).bind fun frames => placeAll frames tokens

/-- The items begin a document: the first one opens a container and the others fit. -/
def fits : List Token → Bool
  | [] => false
  | token :: tokens => (token.frame?.bind fun frame => placeAll [frame] tokens).isSome

theorem placeAll_append (frames : List Frame) (front back : List Token) :
    placeAll frames (front ++ back) =
      (placeAll frames front).bind fun frames => placeAll frames back := by
  induction front generalizing frames with
  | nil => rfl
  | cons token front ih =>
      rw [List.cons_append, placeAll, placeAll, Option.bind_assoc]
      congr
      funext frames
      exact ih frames

/-- What begins a document still does so when its end is taken away. -/
theorem fits_of_append {front back : List Token} (nonempty : front ≠ [])
    (fit : fits (front ++ back) = true) : fits front = true := by
  cases front with
  | nil => exact absurd rfl nonempty
  | cons token front =>
      rw [List.cons_append, fits] at fit
      rw [fits]
      cases opened : token.frame? with
      | none =>
          rw [opened] at fit
          cases fit
      | some frame =>
          rw [opened, Option.bind_some, placeAll_append] at fit
          rw [Option.bind_some]
          cases placed : placeAll [frame] front with
          | none =>
              rw [placed] at fit
              cases fit
          | some frames => rfl

/-! ## The reader takes what fits -/

/-- Read the items that a container still waits for. -/
def skip (value : Bytes → Option (Value × Bytes)) (object : Bool) : ℕ → Bytes → Option Bytes
  | 0, input => some input
  | pending + 1, input =>
      ((if (Frame.mk object (pending + 1)).atKey then key else value) input).bind fun (_, rest) =>
        skip value object pending rest

/-- Read everything that the open containers still wait for. -/
def finish : List Frame → Bytes → Option Bytes
  | [], input => some input
  | frame :: frames, input =>
      (skip (parse (maxdepth - (frames.length + 1)) true) frame.object frame.pending input).bind
        (finish frames)

theorem collect_skip (value : Bytes → Option (Value × Bytes)) (count : ℕ) (input : Bytes) :
    (collect value count input).map Prod.snd = skip value false count input := by
  induction count generalizing input with
  | zero => rfl
  | succ count ih =>
      have atValue : (Frame.mk false (count + 1)).atKey = false := rfl
      rw [collect, skip, atValue, if_neg Bool.false_ne_true]
      cases value input with
      | none => rfl
      | some found =>
          simp only [Option.bind_some, ← ih, Option.map_map]
          rfl

theorem collect_member_skip (value : Bytes → Option (Value × Bytes)) (count : ℕ) (input : Bytes) :
    (collect (member value) count input).map Prod.snd = skip value true (2 * count) input := by
  induction count generalizing input with
  | zero => rfl
  | succ count ih =>
      have atKey : (Frame.mk true (2 * count + 2)).atKey = true := by
        simp only [Frame.atKey, Bool.true_and, beq_iff_eq]
        omega
      have atValue : (Frame.mk true (2 * count + 1)).atKey = false := by
        simp only [Frame.atKey, Bool.true_and, beq_eq_false_iff_ne]
        omega
      rw [show 2 * (count + 1) = 2 * count + 1 + 1 by omega, skip, if_pos atKey, collect, member]
      cases key input with
      | none => rfl
      | some named =>
          simp only [Option.bind_some, skip, atValue, Bool.false_eq_true, if_false, ← ih]
          cases value named.2 with
          | none => rfl
          | some found =>
              simp only [Option.map_some, Option.bind_some, Option.map_map]
              rfl

/-- The value that an item begins, and what is read behind it, inside `level` containers. -/
theorem parse_next {level : ℕ} (bounded : level ≤ maxdepth) {input rest : Bytes} {token : Token}
    (found : next input = some (token, rest)) :
    (parse (maxdepth - level) true input).map Prod.snd =
      match token.frame? with
      | none => some rest
      | some frame =>
          if level < maxdepth then
            skip (parse (maxdepth - (level + 1)) true) frame.object frame.pending rest
          else none := by
  have inner : parse (maxdepth - level) true input =
      content (if level < maxdepth then some (parse (maxdepth - (level + 1)) true) else none) true
        token rest := by
    by_cases room : level < maxdepth
    · rw [if_pos room, show maxdepth - level = maxdepth - (level + 1) + 1 by omega, parse, parseWith,
        found]
      rfl
    · rw [if_neg room, show maxdepth - level = 0 by omega, parse, parseWith, found]
      rfl
  rw [inner]
  cases token with
  | scalar value => rfl
  | binary bytes => rfl
  | array count =>
      simp only [content, Token.frame?]
      split
      · simp only [Option.bind_some, Option.map_map, ← collect_skip]
        rfl
      · rfl
  | object count =>
      simp only [content, Token.frame?]
      split
      · simp only [Option.bind_some, Option.map_map, ← collect_member_skip]
        rfl
      · rfl

/-- The frames are not more than the stack can hold. -/
theorem length_place {frames frames' : List Frame} {token : Token}
    (placed : place frames token = some frames') (bounded : frames.length ≤ maxdepth) :
    frames'.length ≤ maxdepth := by
  induction frames with
  | nil => cases placed
  | cons frame frames ih =>
      obtain ⟨object, pending⟩ := frame
      rw [List.length_cons] at bounded
      cases pending with
      | zero => exact ih placed (by omega)
      | succ pending =>
          rw [place] at placed
          split at placed
          · obtain ⟨_, _, rfl⟩ := Option.map_eq_some_iff.mp placed
            exact bounded
          · split at placed
            · obtain rfl := Option.some.inj placed
              exact bounded
            · split at placed
              case isTrue room =>
                  obtain rfl := Option.some.inj placed
                  simp only [List.length_cons]
                  omega
              case isFalse => cases placed

theorem bind_snd {α β : Type} (found : Option (α × Bytes)) (next : Bytes → Option β) :
    (found.bind fun (_, rest) => next rest) = (found.map Prod.snd).bind next := by
  cases found <;> rfl

/-- Reading an item is taking it; behind the last item that was announced the reader
stops in front of it. -/
theorem finish_next {frames : List Frame} (bounded : frames.length ≤ maxdepth)
    {input rest : Bytes} {token : Token} (found : next input = some (token, rest))
    (shorter : input ≠ []) :
    finish frames input = some [] ↔
      ∃ frames', place frames token = some frames' ∧ finish frames' rest = some [] := by
  induction frames with
  | nil =>
      refine iff_of_false (fun done => shorter (Option.some.inj done)) ?_
      rintro ⟨frames', placed, _⟩
      cases placed
  | cons frame frames ih =>
      obtain ⟨object, pending⟩ := frame
      rw [List.length_cons] at bounded
      cases pending with
      | zero => exact ih (by omega)
      | succ pending =>
          rw [finish, skip, place]
          cases atKey : (Frame.mk object (pending + 1)).atKey with
          | true =>
              rw [if_pos rfl, if_pos rfl, key_eq, found, Option.bind_some]
              cases named : token.key? with
              | none => simp [named]
              | some name => simp [named, finish]
          | false =>
              rw [if_neg Bool.false_ne_true, if_neg Bool.false_ne_true]
              have parsed := parse_next bounded found
              rw [bind_snd, parsed]
              cases opened : token.frame? with
              | none => simp [finish]
              | some frame =>
                  by_cases room : frames.length + 1 < maxdepth
                  · simp [room, finish, Option.bind_assoc]
                  · simp [room]

/-- The root is a container, and the reader finishes it. -/
theorem parse_root {input rest : Bytes} {token : Token}
    (found : next input = some (token, rest)) :
    (parse maxdepth false input).map Prod.snd =
      token.frame?.bind fun frame => finish [frame] rest := by
  have inner : parse maxdepth false input =
      content (some (parse (maxdepth - 1) true)) false token rest := by
    rw [show maxdepth = maxdepth - 1 + 1 from rfl, parse, parseWith, found]
    rfl
  have last (frame : Frame) : finish [frame] rest =
      skip (parse (maxdepth - 1) true) frame.object frame.pending rest := Option.bind_fun_some _
  rw [inner]
  cases token with
  | scalar value => rfl
  | binary bytes => rfl
  | array count =>
      simp only [content, Token.frame?, Option.bind_some, Option.map_map, last, ← collect_skip]
      rfl
  | object count =>
      simp only [content, Token.frame?, Option.bind_some, Option.map_map, last,
        ← collect_member_skip]
      rfl

theorem document_isSome (bytes : Bytes) :
    (document bytes).isSome = true ↔ (parse maxdepth false bytes).map Prod.snd = some [] := by
  unfold document
  rcases parse maxdepth false bytes with _ | ⟨value, _ | ⟨byte, rest⟩⟩ <;> simp

/-- Missing items are made up. -/
theorem skip_nil (room : ℕ) (object : Bool) (pending : ℕ) :
    skip (parse room true) object pending [] = some [] := by
  have value : parse room true [] = some (.integer (-1), []) := by cases room <;> rfl
  have name : key [] = some (.integer (-1), []) := rfl
  induction pending with
  | zero => rfl
  | succ pending ih =>
      rw [skip]
      split
      · rw [name]
        exact ih
      · rw [value]
        exact ih

theorem finish_nil (frames : List Frame) : finish frames [] = some [] := by
  induction frames with
  | nil => rfl
  | cons frame frames ih => rw [finish, skip_nil, Option.bind_some, ih]

/-- In front of a part of an item the reader fails, or stops because nothing is missing. -/
theorem finish_broken {input : Bytes} (nonempty : input ≠ []) (broken : next input = none)
    (frames : List Frame) : finish frames input ≠ some [] := by
  have noKey : key input = none := by rw [key_eq, broken]; rfl
  have noValue (room : ℕ) : parse room true input = none := by
    cases room <;> rw [parse, parseWith, broken] <;> rfl
  induction frames with
  | nil => exact fun done => nonempty (Option.some.inj done)
  | cons frame frames ih =>
      obtain ⟨object, pending⟩ := frame
      cases pending with
      | zero => exact ih
      | succ pending =>
          rw [finish, skip]
          split
          · rw [noKey]
            exact fun absurd => by cases absurd
          · rw [noValue]
            exact fun absurd => by cases absurd

end PackReader

namespace PackWriter

open PackReader

/-- The end of a document that was cut off: nothing, or a part of an item. -/
def Torn (tail : Bytes) : Prop := tail ≠ [] → next tail = none

theorem Item.Readable.nonempty {item : Item} (readable : item.Readable) : item.bytes ≠ [] := by
  intro empty
  have unknown := readable [0xc1]
  rw [empty, List.nil_append] at unknown
  cases unknown

/-- The reader finishes the containers with these items exactly when they can be taken and
nothing is left behind them. -/
theorem finish_render {front : List Item} (readable : ∀ item ∈ front, item.Readable)
    {frames : List Frame} (bounded : frames.length ≤ maxdepth) {tail : Bytes} (torn : Torn tail) :
    finish frames (render front ++ tail) = some [] ↔
      (placeAll frames (front.map Item.token)).isSome = true ∧ tail = [] := by
  induction front generalizing frames with
  | nil =>
      rw [render, List.flatMap_nil, List.nil_append, List.map_nil, placeAll]
      by_cases empty : tail = []
      · subst empty
        exact iff_of_true (finish_nil frames) ⟨rfl, rfl⟩
      · exact iff_of_false (finish_broken empty (torn empty) frames) fun both => empty both.2
  | cons item front ih =>
      have first := readable item List.mem_cons_self
      have others := fun item member => readable item (List.mem_cons_of_mem _ member)
      have nonempty : item.bytes ++ (render front ++ tail) ≠ [] :=
        fun empty => first.nonempty (List.append_eq_nil_iff.mp empty).1
      rw [render_cons, List.append_assoc, finish_next bounded (first _) nonempty, List.map_cons,
        placeAll]
      cases placed : place frames item.token with
      | none =>
          rw [Option.bind_none]
          refine iff_of_false ?_ fun both => by cases both.1
          rintro ⟨frames', absurd, _⟩
          cases absurd
      | some frames' =>
          rw [Option.bind_some, ← ih others (length_place placed bounded)]
          constructor
          · rintro ⟨_, same, finished⟩
            obtain rfl := Option.some.inj same
            exact finished
          · exact fun finished => ⟨frames', rfl, finished⟩

/-- Items and a torn end make a document exactly when nothing was torn and the items fit. -/
theorem document_render {front : List Item} (readable : ∀ item ∈ front, item.Readable)
    {tail : Bytes} (torn : Torn tail) :
    (document (render front ++ tail)).isSome = true ↔
      fits (front.map Item.token) = true ∧ tail = [] := by
  rw [document_isSome]
  cases front with
  | nil =>
      refine iff_of_false ?_ fun both => by cases both.1
      rw [render, List.flatMap_nil, List.nil_append]
      by_cases empty : tail = []
      · subst empty
        exact fun absurd => by cases absurd
      · rw [show maxdepth = maxdepth - 1 + 1 from rfl, parse, parseWith, torn empty]
        exact fun absurd => by cases absurd
  | cons item front =>
      have first := readable item List.mem_cons_self
      have others := fun item member => readable item (List.mem_cons_of_mem _ member)
      rw [render_cons, List.append_assoc, parse_root (first _), List.map_cons, fits]
      cases opened : item.token.frame? with
      | none => simp
      | some frame =>
          have single : [frame].length ≤ maxdepth := show 1 ≤ maxdepth by decide
          rw [Option.bind_some, Option.bind_some]
          exact finish_render others single torn

/-! ## Prefixes of the items of a value -/

/-- What follows an input does not change what is decoded from it. -/
def Extends {α : Type} (decode : Bytes → Option (α × Bytes)) : Prop :=
  ∀ input value rest more, decode input = some (value, rest) →
    decode (input ++ more) = some (value, rest ++ more)

section Extends

variable {α β : Type} {decode : Bytes → Option (α × Bytes)}

theorem extends_some (value : α) : Extends fun rest => some (value, rest) := by
  intro input found rest more decoded
  obtain ⟨rfl, rfl⟩ := Prod.mk.inj (Option.some.inj decoded)
  rfl

theorem extends_none : Extends fun _ => (none : Option (α × Bytes)) := by
  intro input value rest more decoded
  cases decoded

theorem extends_field (size : ℕ) (convert : Bytes → α) : Extends (field size convert) := by
  intro input value rest more decoded
  unfold field at decoded
  split at decoded
  case isTrue enough =>
      obtain ⟨rfl, rfl⟩ := Prod.mk.inj (Option.some.inj decoded)
      rw [field, if_pos (by rw [List.length_append]; omega), List.take_append_of_le_length enough,
        List.drop_append_of_le_length enough]
  case isFalse => cases decoded

theorem Extends.map (extend : Extends decode) (convert : α → β) :
    Extends fun input => (decode input).map (Prod.map convert id) := by
  intro input value rest more decoded
  obtain ⟨found, first, same⟩ := Option.map_eq_some_iff.mp decoded
  obtain ⟨rfl, rfl⟩ := Prod.mk.inj same
  simp only [extend input found.1 found.2 more first, Option.map_some, Prod.map_apply, id]

theorem Extends.bind (extend : Extends decode) {next : α → Bytes → Option (β × Bytes)}
    (more : ∀ value, Extends (next value)) :
    Extends fun input => (decode input).bind fun (value, rest) => next value rest := by
  intro input value rest suffix decoded
  obtain ⟨found, first, second⟩ := Option.bind_eq_some_iff.mp decoded
  simp only [extend input found.1 found.2 suffix first, Option.bind_some]
  exact more found.1 found.2 value rest suffix second

theorem Extends.ite {condition : Prop} [Decidable condition]
    {other : Bytes → Option (α × Bytes)} (yes : Extends decode) (no : Extends other) :
    Extends fun input => if condition then decode input else other input := by
  by_cases holds : condition
  · simp only [if_pos holds]
    exact yes
  · simp only [if_neg holds]
    exact no

end Extends

theorem extends_number (head : UInt8) : Extends (number head) := by
  unfold Extends number
  refine (extends_some _).ite ((extends_some _).ite ?_)
  iterate 10 refine (extends_field _ _).ite ?_
  exact extends_none

theorem extends_characters {head : UInt8} {count : UInt8 → Bytes → Option (UInt32 × Bytes)}
    (extend : Extends (count head)) : Extends fun rest => characters (count head rest) :=
  extend.bind fun len => extends_field len.toNat id

theorem extends_scalar (head : UInt8) : Extends (scalar head) := by
  have count : Extends (stringCount head) :=
    (extends_field _ _).ite ((extends_field _ _).ite ((extends_field _ _).ite (extends_some _)))
  exact (extends_some _).ite ((extends_some _).ite ((extends_some _).ite
    (((extends_characters count).map _).ite ((extends_number head).ite extends_none))))

theorem extends_item (head : UInt8) : Extends (item head) := by
  have arrays : Extends (arrayCount head) :=
    (extends_field _ _).ite ((extends_field _ _).ite (extends_some _))
  have objects : Extends (objectCount head) :=
    (extends_field _ _).ite ((extends_field _ _).ite (extends_some _))
  have bins : Extends (binCount head) :=
    (extends_field _ _).ite ((extends_field _ _).ite (extends_field _ _))
  exact (arrays.map _).ite ((objects.map _).ite (((extends_characters bins).map _).ite
    ((extends_scalar head).map _)))

/-- A part of an item, but not nothing, is no item. -/
theorem next_part {item : Item} (readable : item.Readable) {part rest : Bytes}
    (whole : item.bytes = part ++ rest) (missing : rest ≠ []) : Torn part := by
  intro nonempty
  by_contra found
  obtain ⟨⟨token, remaining⟩, decoded⟩ := Option.ne_none_iff_exists'.mp found
  cases part with
  | nil => exact nonempty rfl
  | cons head part =>
      have longer := extends_item head part token remaining rest decoded
      have exactly := readable []
      rw [whole, List.append_nil] at exactly
      have same := Option.some.inj (longer.symm.trans exactly)
      have empty := (Prod.mk.inj same).2
      exact missing (List.append_eq_nil_iff.mp empty).2

/-- A prefix of the bytes of items ends between two of them or tears one. -/
theorem exists_torn {all : List Item} (readable : ∀ item ∈ all, item.Readable) {cut : Bytes}
    (front : cut <+: render all) :
    ∃ whole tail, whole <+: all ∧ Torn tail ∧ cut = render whole ++ tail := by
  induction all generalizing cut with
  | nil =>
      refine ⟨[], [], List.prefix_refl [], fun absurd => (absurd rfl).elim, ?_⟩
      exact List.prefix_nil.mp front
  | cons item all ih =>
      have first := readable item List.mem_cons_self
      have others := fun item member => readable item (List.mem_cons_of_mem _ member)
      rw [render_cons] at front
      rcases List.prefix_or_prefix_of_prefix front (List.prefix_append item.bytes _) with
        short | long
      · obtain ⟨rest, split⟩ := short
        by_cases complete : rest = []
        · subst complete
          refine ⟨[item], [], ⟨all, rfl⟩, fun absurd => (absurd rfl).elim, ?_⟩
          rw [render, List.flatMap_singleton, List.append_nil, ← split, List.append_nil]
        · exact ⟨[], cut, List.nil_prefix, next_part first split.symm complete, rfl⟩
      · obtain ⟨more, rfl⟩ := long
        obtain ⟨whole, tail, inside, torn, rfl⟩ :=
          ih others ((List.prefix_append_right_inj _).mp front)
        refine ⟨item :: whole, tail, List.cons_prefix_cons.mpr ⟨rfl, inside⟩, torn, ?_⟩
        rw [render_cons, List.append_assoc]

/-- A prefix of the items of a value is a document exactly when it ends behind whole items
that fit. -/
theorem document_front {value : Value} {cut : Bytes} (front : cut <+: render (items value)) :
    (document cut).isSome = true ↔
      ∃ whole, whole <+: items value ∧ cut = render whole ∧
        fits (whole.map Item.token) = true := by
  have readable {whole : List Item} (inside : whole <+: items value) :
      ∀ item ∈ whole, item.Readable :=
    fun item member => items_readable value item (inside.subset member)
  constructor
  · intro accepted
    obtain ⟨whole, tail, inside, torn, rfl⟩ := exists_torn (items_readable value) front
    obtain ⟨fit, rfl⟩ := (document_render (readable inside) torn).mp accepted
    exact ⟨whole, inside, List.append_nil _, fit⟩
  · rintro ⟨whole, inside, rfl, fit⟩
    have torn : Torn [] := fun absurd => (absurd rfl).elim
    have accepted := (document_render (readable inside) torn).mpr ⟨fit, rfl⟩
    rwa [List.append_nil] at accepted

/-- Behind any of the items but the last one, a value that is read back whole can be cut
without being refused. -/
theorem document_between_items {value : Value} (packable : Packable value)
    (container : value.isContainer = true) (shallow : value.depth ≤ maxdepth) {whole : List Item}
    (inside : whole <+: items value) (nonempty : whole ≠ []) :
    (document (render whole)).isSome = true := by
  have torn : Torn [] := fun absurd => (absurd rfl).elim
  have complete : (document (render (items value) ++ [])).isSome = true := by
    rw [List.append_nil, document_items packable container shallow]
    rfl
  have fit := ((document_render (items_readable value) torn).mp complete).1
  obtain ⟨rest, split⟩ := inside
  rw [← split, List.map_append] at fit
  have begins := fits_of_append (fun empty => nonempty (List.map_eq_nil_iff.mp empty)) fit
  refine (document_front ⟨render rest, ?_⟩).mpr ⟨whole, ⟨rest, split⟩, rfl, begins⟩
  rw [← render_append, split]

end PackWriter

open PackWriter in
/-- A prefix of the encoding of a value is refused exactly when it does not end behind
whole items that fit a document: when it is empty, when its last item is torn, or when
the items do not fit the counts that they announce within 19 levels. -/
theorem truncated_refused_iff (kind : ViewKind) (root : Value) {value : Value} {bytes cut : Bytes}
    (written : serialize value = (0, bytes)) (front : cut <+: bytes) :
    (PackReader.deserialize kind cut (.fresh root)).1 = -1 ↔
      ¬ ∃ whole, whole <+: items value ∧ cut = render whole ∧
        PackReader.fits (whole.map Item.token) = true := by
  have keys := keysScalar_of_serialize (show (serialize value).1 = 0 by rw [written])
  obtain rfl : render (items value) = bytes :=
    congrArg Prod.snd ((serialize_eq keys).symm.trans written)
  have returns := PackReader.deserialize_returns kind cut
    (rfl : (StreamReader.fresh root).stack = [])
  rw [← document_front front]
  cases found : PackReader.document cut with
  | none =>
      rw [found] at returns
      exact iff_of_true returns (by decide)
  | some result =>
      rw [found] at returns
      refine iff_of_false ?_ (fun refused => refused rfl)
      rw [returns.1]
      decide

/-- The encoding of `[1, 2]` is refused when it is cut inside its head, that is, when
nothing is left of it. -/
theorem truncated_refused_empty :
    PackWriter.serialize (.array [.integer 1, .integer 2]) = (0, [0x92, 0x01, 0x02]) ∧
      (PackReader.deserialize .string [] (.fresh .null)).1 = -1 := by
  have written : PackWriter.serialize (.array [.integer 1, .integer 2]) = (0, [0x92, 0x01, 0x02]) :=
    rfl
  refine ⟨written, (truncated_refused_iff .string .null written List.nil_prefix).mpr ?_⟩
  rintro ⟨whole, inside, empty, fit⟩
  cases whole with
  | nil => cases fit
  | cons item whole =>
      have readable := PackWriter.items_readable _ item (inside.subset List.mem_cons_self)
      rw [PackWriter.render_cons] at empty
      exact readable.nonempty (List.append_eq_nil_iff.mp empty.symm).1

/-- The encoding of `[1, 2]` without its last byte is read as `[1, -1]`. -/
theorem truncated_accepted :
    PackWriter.serialize (.array [.integer 1, .integer 2]) = (0, [0x92, 0x01, 0x02]) ∧
      (PackReader.deserialize .string [0x92, 0x01] (.fresh .null)).1 = 0 ∧
      (PackReader.deserialize .string [0x92, 0x01] (.fresh .null)).2.root.eq
        (.array [.integer 1, .integer (-1)]) = true := by
  refine ⟨rfl, ?_⟩
  decide +kernel

end Join
