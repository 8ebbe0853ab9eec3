import Join.Data.JsonScanner
import Join.Data.JsonStrings

/-!
# The events of a text

`events` is what a JSON text sends to the handler, read off its concrete syntax
tree. In front of the rendering of a tree the reader sends exactly these events
and stops behind it, whatever the handler makes of them: the gaps of the tree
matter only in one place, after an element or a member, where the reader does not
look for a comment unless white space comes first.
-/

set_option autoImplicit false
set_option maxRecDepth 1024

namespace Join.JsonReader

open Library Library.Json

/-- The dialect the reader takes in a mode. -/
def readerDialect (mode : JsonReadMode) : Dialect where
  filler filler := filler.Valid ∧ (mode.parseComments = false → filler.isWhite = true)
  number := Scannable
  word _ name := (wordValue name).isSome = true

/-! ## Events -/

def stringEvents (pieces : List Piece) : Program StreamReader Failure Unit :=
  match decode pieces with
  | some bytes => StreamReader.setValue (.string bytes)
  | none => Program.fail (.json .invalidEncoding)

def keyEvents (pieces : List Piece) : Program StreamReader Failure Unit :=
  match decode pieces with
  | some bytes => StreamReader.setKey (.string bytes)
  | none => Program.fail (.json .invalidEncoding)

/-- A word that begins with a small `n` is taken for `null`. -/
def takenForNull (negative : Bool) (name : Bytes) : Bool :=
  !negative && name.head? == some 0x6E

/-- After an element or a member only white space opens a gap. -/
def tailEvents (tail : Gap) : Program StreamReader Failure Unit :=
  if tail.startsWhite then pure () else Program.fail (.json .missingComma)

mutual
/-- What a value sends to the handler. -/
def events : Text → Program StreamReader Failure Unit
  | .null => StreamReader.setValue .null
  | .boolean value => StreamReader.setValue (.boolean value)
  | .number number => numberEvents number
  | .word negative name =>
      if takenForNull negative name then Program.fail (.sax .invalidValue)
      else wordEvents negative name
  | .string pieces => stringEvents pieces
  | .emptyArray _ => do
      StreamReader.startArray
      StreamReader.stopContainer
  | .array _ elements => do
      StreamReader.startArray
      elementEvents elements
  | .emptyObject _ => do
      StreamReader.startObject
      StreamReader.stopContainer
  | .object _ members => do
      StreamReader.startObject
      memberEvents members

def elementEvents : Elements → Program StreamReader Failure Unit
  | .last value tail => do
      events value
      tailEvents tail
      StreamReader.stopContainer
  | .more value tail _ rest => do
      events value
      tailEvents tail
      elementEvents rest

def memberEvents : Members → Program StreamReader Failure Unit
  | .last key _ _ value tail => do
      keyEvents key
      events value
      tailEvents tail
      StreamReader.stopContainer
  | .more key _ _ value tail _ rest => do
      keyEvents key
      events value
      tailEvents tail
      memberEvents rest
end

/-! ## Gaps -/

/-- What follows neither extends a gap nor opens a comment. -/
def Solid (rest : Bytes) : Prop :=
  ∀ byte, rest.head? = some byte → whitespaceLookup byte = false ∧ byte ≠ 0x2F

theorem whitespaceLookup_white : ∀ byte : UInt8, (Filler.white byte).Valid ↔
    whitespaceLookup byte = true := by
  decide

theorem skipBlock_body {body : Bytes} (inside : ¬ [0x2A, 0x2F] <:+: body) (rest : Bytes) :
    PlainView.skipBlock (body ++ 0x2A :: 0x2F :: rest) = PlainView.skipBetween rest := by
  induction body with
  | nil => simp only [List.nil_append, PlainView.skipBlock, and_self, if_true]
  | cons byte body ih =>
      have insideTail : ¬ [0x2A, 0x2F] <:+: body := fun infixed => inside (infixed.trans
        (List.suffix_cons byte body).isInfix)
      cases body with
      | nil =>
          have open_ : ¬ (byte = 0x2A ∧ (0x2A : UInt8) = 0x2F) := fun closes =>
            absurd closes.2 (by decide)
          simp only [List.cons_append, List.nil_append, PlainView.skipBlock, if_neg open_] at ih ⊢
          exact ih insideTail
      | cons next body =>
          have open_ : ¬ (byte = 0x2A ∧ next = 0x2F) := by
            rintro ⟨rfl, rfl⟩
            exact inside ⟨[], body, rfl⟩
          simp only [List.cons_append] at ih ⊢
          rw [PlainView.skipBlock, if_neg open_]
          exact ih insideTail

theorem skipLine_body {body : Bytes} (inside : (0x0A : UInt8) ∉ body) (rest : Bytes) :
    PlainView.skipLine (body ++ 0x0A :: rest) = PlainView.skipBetween rest := by
  induction body with
  | nil => simp only [List.nil_append, PlainView.skipLine, if_true]
  | cons byte body ih =>
      obtain ⟨notByte, notBody⟩ := not_or.mp (mt List.mem_cons.mpr inside)
      rw [List.cons_append, PlainView.skipLine, if_neg (Ne.symm notByte)]
      exact ih notBody

theorem skipBetween_gap {gap : Gap} (valid : ∀ filler ∈ gap, filler.Valid) (rest : Bytes) :
    PlainView.skipBetween (gap.render ++ rest) = PlainView.skipBetween rest := by
  induction gap with
  | nil => rfl
  | cons filler gap ih =>
      obtain ⟨first, others⟩ := List.forall_mem_cons.mp valid
      rw [Gap.render_cons, List.append_assoc]
      cases filler with
      | white byte =>
          rw [Filler.render, List.singleton_append, PlainView.skipBetween_cons,
            if_pos ((whitespaceLookup_white byte).mp first)]
          exact ih others
      | block body =>
          simp only [Filler.render, List.cons_append, List.nil_append, List.append_assoc]
          rw [PlainView.skipBetween_cons, if_neg (by decide), if_neg (by decide)]
          simp only [if_true, skipBlock_body first]
          exact ih others
      | line body =>
          simp only [Filler.render, List.cons_append, List.nil_append, List.append_assoc]
          rw [PlainView.skipBetween_cons, if_neg (by decide), if_neg (by decide)]
          simp only [if_neg (show ¬ (0x2F : UInt8) = 0x2A by decide), if_true, skipLine_body first]
          exact ih others

theorem skipBetween_solid {rest : Bytes} (solid : Solid rest) :
    PlainView.skipBetween rest = some rest := by
  cases rest with
  | nil => rfl
  | cons byte rest =>
      obtain ⟨notWhite, notSlash⟩ := solid byte rfl
      rw [PlainView.skipBetween_cons, notWhite, if_neg Bool.false_ne_true, if_pos notSlash]

theorem dropWhile_gap {gap : Gap} (white : ∀ filler ∈ gap, filler.Valid ∧ filler.isWhite = true)
    {rest : Bytes} (solid : Solid rest) :
    (gap.render ++ rest).dropWhile whitespaceLookup = rest := by
  induction gap with
  | nil =>
      cases rest with
      | nil => rfl
      | cons byte rest =>
          exact List.dropWhile_cons_of_neg (by rw [(solid byte rfl).1]; exact Bool.false_ne_true)
  | cons filler gap ih =>
      obtain ⟨⟨valid, isWhite⟩, others⟩ := List.forall_mem_cons.mp white
      cases filler with
      | white byte =>
          rw [Gap.render_cons, Filler.render, List.append_assoc, List.singleton_append,
            List.dropWhile_cons_of_pos ((whitespaceLookup_white byte).mp valid)]
          exact ih others
      | block _ => cases isWhite
      | line _ => cases isWhite

variable {mode : JsonReadMode}

/-- The reader skips a gap. -/
theorem skipWhitespaces_advances {gap : Gap} (conforms : gap.Conforms (readerDialect mode))
    {rest : Bytes} (solid : Solid rest) :
    Advances (gap.render ++ rest) rest (skipWhitespaces mode) () := by
  by_cases comments : mode.parseComments = true
  · have skipped : PlainView.skipBetween (gap.render ++ rest) = some rest := by
      rw [skipBetween_gap (fun filler member => (conforms filler member).1),
        skipBetween_solid solid]
    have skip : Advances (gap.render ++ rest) rest (Reader.doc View.skipWhitespacesAndComments)
        true := by
      intro handler
      simp only [Reader.doc, Program.act_apply, View.skipWhitespacesAndComments,
        PlainView.skipWhitespacesAndComments, skipped]
    exact .ifPos comments (skip.bind (.ifPos rfl (Advances.pure rest ())))
  · rw [Bool.not_eq_true] at comments
    have white : ∀ filler ∈ gap, filler.Valid ∧ filler.isWhite = true := fun filler member =>
      ⟨(conforms filler member).1, (conforms filler member).2 comments⟩
    refine .ifNeg (by rw [comments]; exact Bool.false_ne_true) ?_
    intro handler
    simp only [Reader.doc, Program.act_apply, View.skipWhitespaces, dropWhile_gap white solid]

/-- Behind a gap that opens with white space the reader finds the separator. -/
theorem getSeparator_white {tail : Gap} (conforms : tail.Conforms (readerDialect mode))
    (white : tail.startsWhite = true) {byte : UInt8} {rest : Bytes} (solid : Solid (byte :: rest)) :
    Advances (tail.render ++ byte :: rest) rest (getSeparator mode) (some byte) := by
  have notWhite : ¬ whitespaceLookup (Character.toByte (some byte)) = true := by
    rw [show Character.toByte (some byte) = byte from rfl, (solid byte rfl).1]
    exact Bool.false_ne_true
  cases tail with
  | nil => exact (Advances.get _).bind (.ifNeg notWhite (Advances.pure rest _))
  | cons filler tail =>
      obtain ⟨first, others⟩ := List.forall_mem_cons.mp conforms
      cases filler with
      | white blank =>
          have isWhite := (whitespaceLookup_white blank).mp first.1
          refine (Advances.get _).bind (.ifPos isWhite ?_)
          exact (skipWhitespaces_advances others solid).bind (Advances.get _)
      | block _ => cases white
      | line _ => cases white

/-- A comment directly behind a value is taken for the separator. -/
theorem getSeparator_comment (mode : JsonReadMode) {tail : Gap} (comment : tail.startsWhite = false) (rest : Bytes) :
    ∃ output, Advances (tail.render ++ rest) output (getSeparator mode) (some 0x2F) := by
  cases tail with
  | nil => cases comment
  | cons filler tail =>
      have slash : ¬ whitespaceLookup (Character.toByte (some 0x2F)) = true := by decide
      cases filler with
      | white _ => cases comment
      | block body => exact ⟨_, (Advances.get _).bind (.ifNeg slash (Advances.pure _ _))⟩
      | line body => exact ⟨_, (Advances.get _).bind (.ifNeg slash (Advances.pure _ _))⟩

/-! ## The first byte of a value -/

/-- The bytes a value can begin with. -/
def startsValue (byte : UInt8) : Bool :=
  isDigit byte || byte ∈ ([0x2D, 0x5B, 0x7B, 0x22, 0x6E, 0x74, 0x66, 0x69, 0x49, 0x4E] : Bytes)

theorem startsValue_digit : ∀ byte : UInt8, isDigit byte = true → startsValue byte = true := by
  decide

theorem startsValue_inf : ∀ byte : UInt8, byte ||| 32 = 0x69 ||| 32 → startsValue byte = true := by
  decide

theorem startsValue_nan : ∀ byte : UInt8, byte ||| 32 = 0x6E ||| 32 → startsValue byte = true := by
  decide

theorem startsValue_solid : ∀ byte : UInt8, startsValue byte = true →
    whitespaceLookup byte = false ∧ byte ≠ 0x2F ∧ byte ≠ 0x5D := by
  decide

theorem word_head {name : Bytes} (isWord : (wordValue name).isSome = true) :
    ∃ letter tail, name = letter :: tail ∧
      (letter ||| 32 = 0x69 ||| 32 ∨ letter ||| 32 = 0x6E ||| 32) := by
  rcases wordValue_cases isWord with nan | short | long
  · obtain ⟨letter, tail, same, first, _⟩ := nan.cons
    exact ⟨letter, tail, same, .inr first⟩
  · obtain ⟨letter, tail, same, first, _⟩ := short.cons
    exact ⟨letter, tail, same, .inl first⟩
  · obtain ⟨letter, tail, same, first, _⟩ := long.cons
    exact ⟨letter, tail, same, .inl first⟩

theorem text_head (text : Text) (conforms : text.Conforms (readerDialect mode)) :
    ∃ byte tail, text.render = byte :: tail ∧ startsValue byte = true := by
  cases text with
  | null => exact ⟨_, _, rfl, by decide⟩
  | boolean value => cases value <;> exact ⟨_, _, rfl, by decide⟩
  | number number =>
      obtain ⟨first, more, whole, digit, _⟩ := Scannable.whole_head conforms
      simp only [Text.render, Number.render, whole]
      cases number.negative with
      | true => exact ⟨_, _, rfl, by decide⟩
      | false => exact ⟨_, _, rfl, startsValue_digit first digit⟩
  | word negative name =>
      obtain ⟨letter, tail, rfl, first⟩ := word_head conforms
      cases negative with
      | true => exact ⟨_, _, rfl, by decide⟩
      | false => exact ⟨_, _, rfl, first.elim (startsValue_inf letter) (startsValue_nan letter)⟩
  | string pieces => exact ⟨_, _, rfl, by decide⟩
  | emptyArray gap => exact ⟨_, _, rfl, by decide⟩
  | array gap elements => exact ⟨_, _, rfl, by decide⟩
  | emptyObject gap => exact ⟨_, _, rfl, by decide⟩
  | object gap members => exact ⟨_, _, rfl, by decide⟩

theorem text_solid {text : Text} (conforms : text.Conforms (readerDialect mode)) (rest : Bytes) :
    Solid (text.render ++ rest) ∧ (text.render ++ rest).head? ≠ some 0x5D := by
  obtain ⟨byte, tail, render, starts⟩ := text_head text conforms
  obtain ⟨notWhite, notSlash, notBracket⟩ := startsValue_solid byte starts
  rw [render]
  refine ⟨?_, by simpa using notBracket⟩
  rintro _ ⟨⟩
  exact ⟨notWhite, notSlash⟩

theorem elements_solid {elements : Elements} (conforms : elements.Conforms (readerDialect mode))
    (rest : Bytes) :
    Solid (elements.render ++ rest) ∧ (elements.render ++ rest).head? ≠ some 0x5D := by
  cases elements with
  | last value tail =>
      simp only [Elements.render, List.append_assoc]
      exact text_solid conforms.1 _
  | more value tail gap others =>
      simp only [Elements.render, List.append_assoc]
      exact text_solid conforms.1 _

theorem members_head (members : Members) (rest : Bytes) :
    (members.render ++ rest).head? = some 0x22 := by
  cases members <;> simp only [Members.render, renderString, List.cons_append, List.head?_cons]

theorem members_solid (members : Members) (rest : Bytes) : Solid (members.render ++ rest) := by
  intro byte found
  rw [members_head] at found
  obtain rfl := Option.some.inj found
  decide

/-! ## Values -/

/-- What follows can not be taken for a part of a number or a word. -/
def EndsToken (rest : Bytes) : Prop :=
  ∀ byte, rest.head? = some byte →
    whitespaceLookup byte = true ∨ byte ∈ ([0x2C, 0x5D, 0x7D, 0x2F] : Bytes)

theorem endsToken_byte : ∀ byte : UInt8,
    whitespaceLookup byte = true ∨ byte ∈ ([0x2C, 0x5D, 0x7D, 0x2F] : Bytes) →
      isDigit byte = false ∧ byte ≠ 0x2E ∧ byte ≠ 0x65 ∧ byte ≠ 0x45 ∧ byte ||| 32 ≠ 0x69 ||| 32 := by
  decide

theorem EndsToken.number {rest : Bytes} (ends : EndsToken rest) : EndsNumber rest := by
  cases rest with
  | nil => exact ⟨rfl, by simp, by simp, by simp⟩
  | cons byte rest =>
      obtain ⟨digit, point, lower, upper, _⟩ := endsToken_byte byte (ends byte rfl)
      exact ⟨digit, by simpa using point, by simpa using lower, by simpa using upper⟩

theorem EndsToken.word {rest : Bytes} (ends : EndsToken rest) :
    ∀ byte, rest.head? = some byte → byte ||| 32 ≠ 0x69 ||| 32 :=
  fun byte found => (endsToken_byte byte (ends byte found)).2.2.2.2

theorem endsToken_cons {byte : UInt8} (separator : byte ∈ ([0x2C, 0x5D, 0x7D, 0x2F] : Bytes))
    (rest : Bytes) : EndsToken (byte :: rest) := by
  rintro _ ⟨⟩
  exact .inr separator

theorem comma : (0x2C : UInt8) ∈ ([0x2C, 0x5D, 0x7D, 0x2F] : Bytes) := by decide

theorem closingBracket : (0x5D : UInt8) ∈ ([0x2C, 0x5D, 0x7D, 0x2F] : Bytes) := by decide

theorem closingBrace : (0x7D : UInt8) ∈ ([0x2C, 0x5D, 0x7D, 0x2F] : Bytes) := by decide

/-- A gap in front of a separator ends a token. -/
theorem endsToken_gap {gap : Gap} (conforms : gap.Conforms (readerDialect mode)) {rest : Bytes}
    (ends : EndsToken rest) : EndsToken (gap.render ++ rest) := by
  cases gap with
  | nil => exact ends
  | cons filler gap =>
      have valid := (conforms filler List.mem_cons_self).1
      cases filler with
      | white byte =>
          rintro _ ⟨⟩
          exact .inl ((whitespaceLookup_white byte).mp valid)
      | block body => exact endsToken_cons (by decide) _
      | line body => exact endsToken_cons (by decide) _

variable {fuel : ℕ} {input output : Bytes} {sent : Program StreamReader Failure Unit}

/-- The bytes that `readValue` acts on by itself. -/
def dispatched : Bytes := [0x5B, 0x7B, 0x22, 0x6E, 0x74, 0x66]

theorem readValue_number (other : ∀ byte ∈ dispatched, input.head? ≠ some byte)
    (number : Follows input output (readNumber fuel) sent) :
    Follows input output (readValue mode (fuel + 1)) sent := by
  simp only [dispatched, List.forall_mem_cons] at other
  obtain ⟨array, object, string, null, yes, no, -⟩ := other
  exact (Advances.peek _).follows (.ifNeg array (.ifNeg object (.ifNeg string (.ifNeg null
    (.ifNeg yes (.ifNeg no number))))))

theorem readValue_array (array : Follows input output (readArray mode fuel) sent) :
    Follows (0x5B :: input) output (readValue mode (fuel + 1)) sent :=
  (Advances.peek _).follows (.ifPos rfl ((Advances.get _).follows array))

theorem readValue_object (object : Follows input output (readObject mode fuel) sent) :
    Follows (0x7B :: input) output (readValue mode (fuel + 1)) sent :=
  (Advances.peek _).follows (.ifNeg (by simp) (.ifPos rfl ((Advances.get _).follows object)))

theorem readValue_string (string : Follows input output (readString fuel) sent) :
    Follows (0x22 :: input) output (readValue mode (fuel + 1)) sent :=
  (Advances.peek _).follows (.ifNeg (by simp) (.ifNeg (by simp) (.ifPos rfl
    ((Advances.get _).follows string))))

theorem readValue_null (null : Follows input output readNull sent) :
    Follows (0x6E :: input) output (readValue mode (fuel + 1)) sent :=
  (Advances.peek _).follows (.ifNeg (by simp) (.ifNeg (by simp) (.ifNeg (by simp) (.ifPos rfl
    ((Advances.get _).follows null)))))

theorem readValue_true (yes : Follows input output readTrue sent) :
    Follows (0x74 :: input) output (readValue mode (fuel + 1)) sent :=
  (Advances.peek _).follows (.ifNeg (by simp) (.ifNeg (by simp) (.ifNeg (by simp)
    (.ifNeg (by simp) (.ifPos rfl ((Advances.get _).follows yes))))))

theorem readValue_false (no : Follows input output readFalse sent) :
    Follows (0x66 :: input) output (readValue mode (fuel + 1)) sent :=
  (Advances.peek _).follows (.ifNeg (by simp) (.ifNeg (by simp) (.ifNeg (by simp)
    (.ifNeg (by simp) (.ifNeg (by simp) (.ifPos rfl ((Advances.get _).follows no)))))))

theorem readNull_follows (rest : Bytes) :
    Follows ([0x75, 0x6C, 0x6C] ++ rest) rest readNull (StreamReader.setValue .null) :=
  (expect_advances _ rest).follows (Follows.event rest _)

theorem readTrue_follows (rest : Bytes) :
    Follows ([0x72, 0x75, 0x65] ++ rest) rest readTrue (StreamReader.setValue (.boolean true)) :=
  (expect_advances _ rest).follows (Follows.event rest _)

theorem readFalse_follows (rest : Bytes) :
    Follows ([0x61, 0x6C, 0x73, 0x65] ++ rest) rest readFalse
      (StreamReader.setValue (.boolean false)) :=
  (expect_advances _ rest).follows (Follows.event rest _)

theorem not_dispatched_digit : ∀ byte : UInt8, isDigit byte = true → byte ∉ dispatched := by
  decide

theorem head_not_dispatched {byte : UInt8} (other : byte ∉ dispatched) (rest : Bytes) :
    ∀ special ∈ dispatched, (byte :: rest).head? ≠ some special := by
  rintro special member ⟨⟩
  exact other member

theorem readValue_digits {number : Number} (scannable : Scannable number) {rest : Bytes}
    (ends : EndsNumber rest) (enough : (number.render ++ rest).length < fuel) :
    Follows (number.render ++ rest) rest (readValue mode (fuel + 1)) (numberEvents number) := by
  obtain ⟨first, more, whole, digit, _⟩ := scannable.whole_head
  have shape : number.render ++ rest = renderMinus number.negative ++ first ::
      (more ++ (renderFraction number.fraction ++ (renderExponent number.exponent ++ rest))) := by
    simp only [Number.render, whole, List.append_assoc, List.cons_append]
  have reads := readNumber_follows (number.render ++ rest) fuel enough
    (scannable.startsDigit rest)
  rw [takeNumber_render scannable ends] at reads
  refine readValue_number ?_ reads
  rw [shape]
  cases number.negative with
  | true => exact head_not_dispatched (by decide) _
  | false => exact head_not_dispatched (not_dispatched_digit first digit) _

theorem letter_cases : ∀ letter : UInt8,
    (letter ||| 32 = 0x69 ||| 32 ∨ letter ||| 32 = 0x6E ||| 32) →
      isDigit letter = false ∧ letter ≠ 0x2D ∧ (letter ≠ 0x6E → letter ∉ dispatched) := by
  decide

theorem splitMinus_other {byte : UInt8} (other : byte ≠ 0x2D) (rest : Bytes) :
    splitMinus (byte :: rest) = (false, byte :: rest) := by
  unfold splitMinus
  split
  case h_1 more same => exact (other (List.cons.inj same).1).elim
  case h_2 => rfl

theorem readNull_refuses : ∀ second : UInt8, second ||| 32 = 0x61 ||| 32 → second ≠ 0x75 := by
  decide

theorem readValue_word {negative : Bool} {name : Bytes} (isWord : (wordValue name).isSome = true)
    {rest : Bytes} (ends : ∀ byte, rest.head? = some byte → byte ||| 32 ≠ 0x69 ||| 32) :
    Follows (renderMinus negative ++ name ++ rest) rest (readValue mode (fuel + 1))
      (events (.word negative name)) := by
  obtain ⟨letter, tail, rfl, first⟩ := word_head isWord
  obtain ⟨notDigit, notMinus, notDispatched⟩ := letter_cases letter first
  have noDigit : ¬ isDigitCharacter (letter :: tail ++ rest).head? = true := by
    rw [show isDigitCharacter (letter :: tail ++ rest).head? = isDigit letter from rfl, notDigit]
    exact Bool.false_ne_true
  have reads := readWord_follows negative isWord ends
  cases negative with
  | true =>
      have spoken : events (.word true (letter :: tail)) = wordEvents true (letter :: tail) := rfl
      rw [spoken]
      refine readValue_number (head_not_dispatched (by decide) _) ?_
      have split : splitMinus (renderMinus true ++ letter :: tail ++ rest) =
          (true, letter :: tail ++ rest) := rfl
      refine readNumber_word fuel ?_ ?_
      · rw [split]
        exact noDigit
      · rw [split]
        exact reads
  | false =>
      by_cases small : letter = 0x6E
      · subst small
        have refused : events (.word false (0x6E :: tail)) =
            Program.fail (.sax .invalidValue) := rfl
        rw [refused]
        have nan : SameLetters (0x6E :: tail) [0x6E, 0x61, 0x6E] := by
          rcases wordValue_cases isWord with nan | short | long
          · exact nan
          · exact absurd (List.cons.inj short).1 (by decide)
          · exact absurd (List.cons.inj long).1 (by decide)
        obtain ⟨_, _, same, _, others⟩ := nan.cons
        obtain ⟨-, rfl⟩ := List.cons.inj same
        obtain ⟨second, third, rfl, sameSecond, _⟩ := others.cons
        refine readValue_null (Refuses.follows (Refuses.bind ?_ _) _)
        refine (Advances.get _).refuses (.ifNeg ?_ (Refuses.fail _ _))
        simpa using readNull_refuses second sameSecond
      · have spoken : events (.word false (letter :: tail)) = wordEvents false (letter :: tail) := by
          have notNull : takenForNull false (letter :: tail) = false := by
            simpa [takenForNull] using small
          simp only [events, notNull, Bool.false_eq_true, if_false]
        rw [spoken]
        refine readValue_number (head_not_dispatched (notDispatched small) _) ?_
        refine readNumber_word fuel ?_ ?_
        · rw [show renderMinus false ++ letter :: tail ++ rest = letter :: (tail ++ rest) from rfl,
            splitMinus_other notMinus]
          exact noDigit
        · rw [show renderMinus false ++ letter :: tail ++ rest = letter :: (tail ++ rest) from rfl,
            splitMinus_other notMinus]
          exact reads

theorem decoded_follows {pieces : List Piece} (valid : ValidPieces pieces)
    (enough : pieces.length < fuel) (rest : Bytes) {next : Bytes → Reader PlainView Unit}
    {send : Bytes → Program StreamReader Failure Unit}
    (follows : ∀ bytes, Follows rest rest (next bytes) (send bytes)) :
    Follows (renderPieces pieces ++ 0x22 :: rest) rest (stringLoop fuel [] >>= next)
      (match decode pieces with
      | some bytes => send bytes
      | none => Program.fail (.json .invalidEncoding)) := by
  have loop := stringLoop_decodes pieces valid fuel enough [] rest
  cases decoded : decode pieces with
  | none =>
      rw [decoded] at loop
      exact Refuses.follows (Refuses.bind loop _) rest
  | some bytes =>
      rw [decoded] at loop
      exact Advances.follows loop (follows bytes)

theorem readString_follows {pieces : List Piece} (valid : ValidPieces pieces)
    (enough : pieces.length < fuel) (rest : Bytes) :
    Follows (renderPieces pieces ++ 0x22 :: rest) rest (readString fuel) (stringEvents pieces) :=
  decoded_follows valid enough rest fun _ => Follows.event rest _

theorem readKey_follows {pieces : List Piece} (valid : ValidPieces pieces)
    (enough : pieces.length < fuel) (rest : Bytes) :
    Follows (renderPieces pieces ++ 0x22 :: rest) rest (readKey fuel) (keyEvents pieces) :=
  decoded_follows valid enough rest fun _ => Follows.event rest _

/-- A value is followed by a gap and a separator. -/
theorem separator_follows {tail : Gap} (conforms : tail.Conforms (readerDialect mode))
    {byte : UInt8} {rest : Bytes} (solid : Solid (byte :: rest))
    {next : Character → Reader PlainView Unit}
    (follows : Follows rest output (next (some byte)) sent)
    (refuses : ∀ input, Refuses input (next (some 0x2F)) (.json .missingComma)) :
    Follows (tail.render ++ byte :: rest) output (getSeparator mode >>= next)
      (tailEvents tail >>= fun _ => sent) := by
  cases white : tail.startsWhite with
  | true =>
      have skipped : tailEvents tail = pure () := by rw [tailEvents, if_pos white]
      rw [skipped]
      exact (getSeparator_white conforms white solid).follows follows
  | false =>
      have refused : tailEvents tail = Program.fail (.json .missingComma) := by
        rw [tailEvents, if_neg (by rw [white]; exact Bool.false_ne_true)]
      rw [refused]
      obtain ⟨after, advances⟩ := getSeparator_comment mode white (byte :: rest)
      exact (advances.refuses (refuses after)).follows output

theorem solid_cons {byte : UInt8} (solid : whitespaceLookup byte = false ∧ byte ≠ 0x2F)
    (rest : Bytes) : Solid (byte :: rest) := by
  rintro _ ⟨⟩
  exact solid

/-- A key with its colon. -/
theorem colon_advances {before : Gap} (conforms : before.Conforms (readerDialect mode))
    (rest : Bytes) :
    Advances (before.render ++ 0x3A :: rest) rest (getColon mode) (some 0x3A) := by
  have solid : Solid (0x3A :: rest) := solid_cons (by decide) rest
  refine (Advances.peek _).bind ?_
  by_cases here : (before.render ++ 0x3A :: rest).head? = some 0x3A
  · have empty : before = [] := by
      cases before with
      | nil => rfl
      | cons filler gap =>
          have valid := (conforms filler List.mem_cons_self).1
          cases filler with
          | white byte =>
              obtain rfl : byte = 0x3A := Option.some.inj here
              exact absurd ((whitespaceLookup_white 0x3A).mp valid) (by decide)
          | block body => exact absurd (Option.some.inj here) (by decide)
          | line body => exact absurd (Option.some.inj here) (by decide)
    subst empty
    exact .ifNeg (not_not.mpr here) (Advances.get _)
  · exact .ifPos here ((skipWhitespaces_advances conforms solid).bind (Advances.get _))

theorem length_le_renderPieces (pieces : List Piece) :
    pieces.length ≤ (renderPieces pieces).length := by
  induction pieces with
  | nil => exact le_rfl
  | cons piece pieces ih =>
      have one : 1 ≤ piece.render.length := by cases piece <;> simp [Piece.render]
      rw [renderPieces_cons, List.length_append, List.length_cons]
      omega

theorem readArray_empty {gap : Gap} (conforms : gap.Conforms (readerDialect mode)) (rest : Bytes) :
    Follows (gap.render ++ 0x5D :: rest) rest (readArray mode (fuel + 1))
      (events (.emptyArray gap)) := by
  refine (Follows.event _ _).bindSame fun _ => ?_
  refine (skipWhitespaces_advances conforms (solid_cons (by decide) rest)).follows ?_
  exact (Advances.getIf_true 0x5D rest).follows (.ifPos rfl (Follows.event rest _))

theorem readObject_empty {gap : Gap} (conforms : gap.Conforms (readerDialect mode)) (rest : Bytes) :
    Follows (gap.render ++ 0x7D :: rest) rest (readObject mode (fuel + 1))
      (events (.emptyObject gap)) := by
  refine (Follows.event _ _).bindSame fun _ => ?_
  refine (skipWhitespaces_advances conforms (solid_cons (by decide) rest)).follows ?_
  exact (Advances.getIf_true 0x7D rest).follows (.ifPos rfl (Follows.event rest _))

/-- What the reader does behind the value of a member. -/
def afterMember (mode : JsonReadMode) (fuel : ℕ) (character : Character) :
    Reader PlainView Unit :=
  if character = some 0x2C then do
    skipWhitespaces mode
    readMembers mode fuel
  else if character = some 0x7D then Reader.event StreamReader.stopContainer
  else Reader.jsonError .missingComma

/-- A member up to the end of its value. -/
theorem member_follows {key : List Piece} {before after : Gap} {value : Text}
    (validKey : ValidPieces key) (enough : key.length < fuel)
    (conformsBefore : before.Conforms (readerDialect mode))
    (conformsAfter : after.Conforms (readerDialect mode))
    (conformsValue : value.Conforms (readerDialect mode))
    (reads : Follows (value.render ++ input) input (readValue mode fuel) (events value))
    (next : Follows input output (getSeparator mode >>= afterMember mode fuel) sent) :
    Follows
      (0x22 :: (renderPieces key ++ 0x22 :: (before.render ++ 0x3A ::
        (after.render ++ (value.render ++ input)))))
      output (readMembers mode (fuel + 1))
      (do
        keyEvents key
        events value
        sent) := by
  refine (Advances.get _).follows (.ifNeg (by simp) ?_)
  refine (readKey_follows validKey enough _).bindSame fun _ => ?_
  refine (colon_advances conformsBefore _).follows (.ifNeg (by simp) ?_)
  refine (skipWhitespaces_advances conformsAfter (text_solid conformsValue _).1).follows ?_
  exact reads.bindSame fun _ => next

mutual
/-- In front of a text the reader sends its events and stops behind it. -/
theorem readValue_follows : ∀ (text : Text), text.Conforms (readerDialect mode) →
    ∀ (fuel : ℕ) (rest : Bytes), 3 * (text.render ++ rest).length + 1 ≤ fuel →
      (text.isContainer = false → EndsToken rest) →
      Follows (text.render ++ rest) rest (readValue mode fuel) (events text)
  | .null, _, fuel + 1, rest, _, _ => readValue_null (readNull_follows rest)
  | .boolean true, _, fuel + 1, rest, _, _ => readValue_true (readTrue_follows rest)
  | .boolean false, _, fuel + 1, rest, _, _ => readValue_false (readFalse_follows rest)
  | .number number, conforms, fuel + 1, rest, enough, ends => by
      refine readValue_digits conforms (ends rfl).number ?_
      obtain ⟨byte, tail, render, _⟩ := text_head (.number number) conforms
      simp only [Text.render] at enough render
      simp only [render, List.cons_append, List.length_cons] at enough ⊢
      omega
  | .word negative name, conforms, fuel + 1, rest, _, ends =>
      readValue_word conforms (ends rfl).word
  | .string pieces, conforms, fuel + 1, rest, enough, _ => by
      have bound := length_le_renderPieces pieces
      simp only [Text.render, renderString, List.cons_append, List.append_assoc, List.nil_append,
        List.length_cons, List.length_append] at enough ⊢
      exact readValue_string (readString_follows conforms (by omega) rest)
  | .emptyArray gap, conforms, fuel + 2, rest, enough, _ => by
      simp only [Text.render, List.cons_append, List.append_assoc, List.nil_append]
      exact readValue_array (readArray_empty conforms rest)
  | .array gap elements, conforms, fuel + 2, rest, enough, _ => by
      simp only [Text.render, List.cons_append, List.append_assoc, List.length_cons,
        List.length_append] at enough ⊢
      obtain ⟨solid, notClosed⟩ := elements_solid conforms.2 rest
      refine readValue_array ((Follows.event _ _).bindSame fun _ => ?_)
      refine (skipWhitespaces_advances conforms.1 solid).follows ?_
      refine (Advances.getIf_false notClosed).follows (.ifNeg Bool.false_ne_true ?_)
      refine readElements_follows elements conforms.2 fuel rest ?_
      rw [List.length_append]
      omega
  | .emptyObject gap, conforms, fuel + 2, rest, enough, _ => by
      simp only [Text.render, List.cons_append, List.append_assoc, List.nil_append]
      exact readValue_object (readObject_empty conforms rest)
  | .object gap members, conforms, fuel + 2, rest, enough, _ => by
      simp only [Text.render, List.cons_append, List.append_assoc, List.length_cons,
        List.length_append] at enough ⊢
      have notClosed : (members.render ++ rest).head? ≠ some 0x7D := by
        rw [members_head]
        simp
      refine readValue_object ((Follows.event _ _).bindSame fun _ => ?_)
      refine (skipWhitespaces_advances conforms.1 (members_solid members rest)).follows ?_
      refine (Advances.getIf_false notClosed).follows (.ifNeg Bool.false_ne_true ?_)
      refine readMembers_follows members conforms.2 fuel rest ?_
      rw [List.length_append]
      omega

theorem readElements_follows : ∀ (elements : Elements), elements.Conforms (readerDialect mode) →
    ∀ (fuel : ℕ) (rest : Bytes), 3 * (elements.render ++ rest).length + 2 ≤ fuel →
      Follows (elements.render ++ rest) rest (readElements mode fuel) (elementEvents elements)
  | .last value tail, conforms, fuel + 1, rest, enough => by
      obtain ⟨conformsValue, conformsTail⟩ := conforms
      simp only [Elements.render, List.append_assoc, List.singleton_append] at enough ⊢
      have ends := endsToken_gap conformsTail (endsToken_cons closingBracket rest)
      have reads := readValue_follows value conformsValue fuel _ (by omega) fun _ => ends
      refine reads.bindSame fun _ => ?_
      refine separator_follows conformsTail (solid_cons (by decide) rest) ?_ fun input => ?_
      · exact .ifNeg (by simp) (.ifPos rfl (Follows.event rest _))
      · exact .ifNeg (by simp) (.ifNeg (by simp) (Refuses.fail _ _))
  | .more value tail gap others, conforms, fuel + 1, rest, enough => by
      obtain ⟨conformsValue, conformsTail, conformsGap, conformsOthers⟩ := conforms
      simp only [Elements.render, List.append_assoc, List.cons_append] at enough ⊢
      have ends := endsToken_gap conformsTail
        (endsToken_cons comma (gap.render ++ (others.render ++ rest)))
      have reads := readValue_follows value conformsValue fuel _ (by omega) fun _ => ends
      refine reads.bindSame fun _ => ?_
      refine separator_follows conformsTail (solid_cons (by decide) _) ?_ fun input => ?_
      · refine .ifPos rfl ((skipWhitespaces_advances conformsGap
          (elements_solid conformsOthers rest).1).follows ?_)
        refine readElements_follows others conformsOthers fuel rest ?_
        simp only [List.length_append, List.length_cons] at enough ⊢
        omega
      · exact .ifNeg (by simp) (.ifNeg (by simp) (Refuses.fail _ _))

theorem readMembers_follows : ∀ (members : Members), members.Conforms (readerDialect mode) →
    ∀ (fuel : ℕ) (rest : Bytes), 3 * (members.render ++ rest).length + 2 ≤ fuel →
      Follows (members.render ++ rest) rest (readMembers mode fuel) (memberEvents members)
  | .last key before after value tail, conforms, fuel + 1, rest, enough => by
      obtain ⟨validKey, conformsBefore, conformsAfter, conformsValue, conformsTail⟩ := conforms
      have bound := length_le_renderPieces key
      simp only [Members.render, renderString, List.append_assoc, List.cons_append,
        List.nil_append, List.length_append, List.length_cons] at enough ⊢
      have ends := endsToken_gap conformsTail (endsToken_cons closingBrace rest)
      have reads := readValue_follows value conformsValue fuel _
        (by simp only [List.length_append, List.length_cons]; omega) fun _ => ends
      refine member_follows validKey (by omega) conformsBefore conformsAfter conformsValue reads ?_
      refine separator_follows conformsTail (solid_cons (by decide) rest) ?_ fun input => ?_
      · exact .ifNeg (by simp) (.ifPos rfl (Follows.event rest _))
      · exact .ifNeg (by simp) (.ifNeg (by simp) (Refuses.fail _ _))
  | .more key before after value tail gap others, conforms, fuel + 1, rest, enough => by
      obtain ⟨validKey, conformsBefore, conformsAfter, conformsValue, conformsTail, conformsGap,
        conformsOthers⟩ := conforms
      have bound := length_le_renderPieces key
      simp only [Members.render, renderString, List.append_assoc, List.cons_append,
        List.nil_append, List.length_append, List.length_cons] at enough ⊢
      have ends := endsToken_gap conformsTail
        (endsToken_cons comma (gap.render ++ (others.render ++ rest)))
      have reads := readValue_follows value conformsValue fuel _
        (by simp only [List.length_append, List.length_cons]; omega) fun _ => ends
      refine member_follows validKey (by omega) conformsBefore conformsAfter conformsValue reads ?_
      refine separator_follows conformsTail (solid_cons (by decide) _) ?_ fun input => ?_
      · refine .ifPos rfl ((skipWhitespaces_advances conformsGap
          (members_solid others rest)).follows ?_)
        refine readMembers_follows others conformsOthers fuel rest ?_
        rw [List.length_append]
        omega
      · exact .ifNeg (by simp) (.ifNeg (by simp) (Refuses.fail _ _))
end

/-! ## Documents -/

/-- The gap behind the root, up to the end of the document. -/
theorem skipEnd_advances {after : Gap} {unfinished : Option Bytes}
    (conformsAfter : after.Conforms (readerDialect mode))
    (conformsUnfinished : ∀ body, unfinished = some body → (readerDialect mode).filler (.line body)) :
    Advances (after.render ++ Document.renderUnfinished unfinished) [] (skipWhitespaces mode) () := by
  cases unfinished with
  | none => exact skipWhitespaces_advances conformsAfter fun _ absurd => by cases absurd
  | some body =>
      obtain ⟨valid, isWhite⟩ := conformsUnfinished body rfl
      have comments : mode.parseComments = true := by
        by_contra off
        exact Bool.false_ne_true (isWhite (Bool.not_eq_true _ ▸ off))
      have toEnd : ∀ text : Bytes, (0x0A : UInt8) ∉ text → PlainView.skipLine text = some [] := by
        intro text inside
        induction text with
        | nil => rfl
        | cons byte text ih =>
            obtain ⟨notByte, notText⟩ := not_or.mp (mt List.mem_cons.mpr inside)
            rw [PlainView.skipLine, if_neg (Ne.symm notByte)]
            exact ih notText
      have skipped : PlainView.skipBetween
          (after.render ++ Document.renderUnfinished (some body)) = some [] := by
        rw [skipBetween_gap fun filler member => (conformsAfter filler member).1]
        simp only [Document.renderUnfinished, List.cons_append, List.nil_append]
        rw [PlainView.skipBetween_cons, if_neg (by decide), if_neg (by decide)]
        simp only [if_neg (show ¬ (0x2F : UInt8) = 0x2A by decide), if_true]
        exact toEnd body valid
      have skip : Advances (after.render ++ Document.renderUnfinished (some body)) []
          (Reader.doc View.skipWhitespacesAndComments) true := by
        intro handler
        simp only [Reader.doc, Program.act_apply, View.skipWhitespacesAndComments,
          PlainView.skipWhitespacesAndComments, skipped]
      exact .ifPos comments (skip.bind (.ifPos rfl (Advances.pure [] ())))

/-- What the reader does behind the root. -/
theorem readEnd_advances (goesOn : mode.stopParsingOnDone = false) {after : Gap}
    {unfinished : Option Bytes} (conformsAfter : after.Conforms (readerDialect mode))
    (conformsUnfinished : ∀ body, unfinished = some body → (readerDialect mode).filler (.line body)) :
    Advances (after.render ++ Document.renderUnfinished unfinished) []
      (if mode.stopParsingOnDone then pure ()
      else do
        skipWhitespaces mode
        let character ← Reader.peek
        if character ≠ none then Reader.saxError .extraData else pure ()) () := by
  refine .ifNeg (by rw [goesOn]; exact Bool.false_ne_true) ?_
  refine (skipEnd_advances conformsAfter conformsUnfinished).bind ?_
  exact (Advances.peek []).bind (.ifNeg (not_not.mpr rfl) (Advances.pure [] ()))

/-- In front of a whole document the reader sends the events of its root. -/
theorem read_follows (goesOn : mode.stopParsingOnDone = false) {document : Document}
    (conforms : document.Conforms (readerDialect mode)) (fuel : ℕ)
    (enough : 3 * document.render.length + 1 ≤ fuel) :
    Follows document.render [] (JsonReader.read mode fuel) (events document.root) := by
  have ends : EndsToken (document.after.render ++
      Document.renderUnfinished document.unfinished) := by
    refine endsToken_gap conforms.after ?_
    cases document.unfinished with
    | none =>
        rintro _ ⟨⟩
    | some body => exact endsToken_cons (by decide) _
  simp only [Document.render, List.append_assoc, List.length_append] at enough ⊢
  have root := readValue_follows document.root conforms.root fuel _
    (by simp only [List.length_append]; omega) fun _ => ends
  refine (skipWhitespaces_advances conforms.before (text_solid conforms.root _).1).follows ?_
  exact Follows.thenAdvances root fun _ => readEnd_advances goesOn conforms.after conforms.unfinished

end Join.JsonReader
