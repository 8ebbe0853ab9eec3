import Join.Data.JsonGrammar
import Join.Data.JsonWriter

/-!
# What the writer writes is read back

The text that `JsonWriter` writes for a value is the rendering of a tree of the
JSON syntax, `written`, whose gaps are the line breaks of the writer. The tree is
one of the grammar of the reader and denotes the value again, up to the
alternative in which an integer is held.
-/

set_option autoImplicit false
set_option maxRecDepth 1024

namespace Join

open Library Library.Json JsonReader

namespace JsonWriter

/-! ## Integers -/

theorem digitValue_ofNat : ∀ digit < 10, digitValue (UInt8.ofNat (0x30 + digit)) = digit := by
  decide

theorem isDigit_ofNat : ∀ digit < 10, IsDigit (UInt8.ofNat (0x30 + digit)) := by decide

theorem ofNat_ne_zero : ∀ digit < 10, 0 < digit → UInt8.ofNat (0x30 + digit) ≠ 0x30 := by decide

theorem digitsValue_pair (start : ℕ) {number : ℕ} (small : number < 100) (buffer : Bytes) :
    digitsValue start (digitPair number ++ buffer) = digitsValue (start * 100 + number) buffer := by
  have high := digitValue_ofNat (number / 10) (by omega)
  have low := digitValue_ofNat (number % 10) (by omega)
  simp only [digitPair, List.cons_append, List.nil_append, digitsValue_cons, high, low]
  congr 1
  omega

/-- The digits that are filled in denote the number. -/
theorem digitsValue_fillDigits (value : ℕ) (buffer : Bytes) :
    digitsValue 0 (fillDigits value buffer) = digitsValue value buffer := by
  induction value, buffer using fillDigits.induct with
  | case1 value buffer large ih =>
      rw [fillDigits, if_pos large, ih, digitsValue_pair _ (Nat.mod_lt _ (by decide))]
      congr 1
      omega
  | case2 value buffer small large =>
      rw [fillDigits, if_neg small, if_pos large, digitsValue_pair _ (by omega)]
      congr 1
      omega
  | case3 value buffer _ small =>
      rw [fillDigits, if_neg (by omega), if_neg small, digitsValue_cons,
        digitValue_ofNat _ (by omega)]
      congr 1
      omega

theorem fillDigits_digits (value : ℕ) (buffer : Bytes) (digits : ∀ digit ∈ buffer, IsDigit digit) :
    ∀ digit ∈ fillDigits value buffer, IsDigit digit := by
  have pair {number : ℕ} (small : number < 100) {rest : Bytes}
      (others : ∀ digit ∈ rest, IsDigit digit) :
      ∀ digit ∈ digitPair number ++ rest, IsDigit digit := by
    refine List.forall_mem_cons.mpr ⟨isDigit_ofNat _ (by omega), ?_⟩
    exact List.forall_mem_cons.mpr ⟨isDigit_ofNat _ (by omega), others⟩
  induction value, buffer using fillDigits.induct with
  | case1 value buffer large ih =>
      rw [fillDigits, if_pos large]
      exact ih (pair (Nat.mod_lt _ (by decide)) digits)
  | case2 value buffer small large =>
      rw [fillDigits, if_neg small, if_pos large]
      exact pair (by omega) digits
  | case3 value buffer _ small =>
      rw [fillDigits, if_neg (by omega), if_neg small]
      exact List.forall_mem_cons.mpr ⟨isDigit_ofNat _ (by omega), digits⟩

/-- The first digit of a positive number is not zero. -/
theorem fillDigits_head {value : ℕ} (positive : 0 < value) (buffer : Bytes) :
    ∃ first rest, fillDigits value buffer = first :: rest ∧ first ≠ 0x30 := by
  induction value, buffer using fillDigits.induct with
  | case1 value buffer large ih =>
      rw [fillDigits, if_pos large]
      exact ih (by omega)
  | case2 value buffer small large =>
      rw [fillDigits, if_neg small, if_pos large]
      exact ⟨_, _, rfl, ofNat_ne_zero _ (by omega) (by omega)⟩
  | case3 value buffer _ small =>
      rw [fillDigits, if_neg (by omega), if_neg small]
      exact ⟨_, _, rfl, ofNat_ne_zero _ (by omega) positive⟩

theorem length_fillDigits {pairs value : ℕ} (bounded : value < 100 ^ (pairs + 1)) (buffer : Bytes) :
    (fillDigits value buffer).length ≤ 2 * (pairs + 1) + buffer.length := by
  induction pairs generalizing value buffer with
  | zero =>
      rw [fillDigits, if_neg (by omega)]
      split
      · simp only [digitPair, List.length_append, List.length_cons, List.length_nil]
        omega
      · rw [List.length_cons]
        omega
  | succ pairs ih =>
      rw [fillDigits]
      split
      · have smaller : value / 100 < 100 ^ (pairs + 1) := by
          rw [pow_succ] at bounded
          exact Nat.div_lt_of_lt_mul (by rw [mul_comm]; exact bounded)
        refine (ih smaller _).trans ?_
        simp only [digitPair, List.length_append, List.length_cons, List.length_nil]
        omega
      · split
        · simp only [digitPair, List.length_append, List.length_cons, List.length_nil]
          omega
        · rw [List.length_cons]
          omega

/-- The digits `writeUint64` writes. -/
def decimal (value : ℕ) : Bytes := if value = 0 then [0x30] else fillDigits value []

theorem digitsValue_decimal (value : ℕ) : digitsValue 0 (decimal value) = value := by
  unfold decimal
  split
  case isTrue zero => rw [zero]; rfl
  case isFalse => rw [digitsValue_fillDigits]; rfl

theorem wholePart_decimal (value : ℕ) : WholePart (decimal value) := by
  unfold decimal
  split
  case isTrue => exact .inl rfl
  case isFalse nonzero =>
      obtain ⟨first, rest, same, notZero⟩ := fillDigits_head (Nat.pos_of_ne_zero nonzero) []
      refine .inr ⟨?_, ?_, fillDigits_digits value [] (List.forall_mem_nil _)⟩
      · rw [same]
        exact List.cons_ne_nil _ _
      · rw [same, List.head?_cons]
        exact fun absurd => notZero (Option.some.inj absurd)

/-! ## Steps of the writer -/

/-- The writer with more output. -/
def emit (bytes : Bytes) (writer : JsonWriter) : JsonWriter :=
  { writer with out := writer.out ++ bytes }

@[simp] theorem emit_nil (writer : JsonWriter) : emit [] writer = writer := by
  simp only [emit, List.append_nil]

@[simp] theorem emit_emit (first second : Bytes) (writer : JsonWriter) :
    emit second (emit first writer) = emit (first ++ second) writer := by
  simp only [emit, List.append_assoc]

/-- The step appends these bytes and does nothing else. -/
def Emits (step : Step) (bytes : Bytes) (writer : JsonWriter) : Prop :=
  step writer = some (.ok (), emit bytes writer)

theorem emits_append (bytes : Bytes) (writer : JsonWriter) : Emits (append bytes) bytes writer := rfl

theorem emits_pure (writer : JsonWriter) : Emits (pure ()) [] writer := by
  rw [Emits, emit_nil, Program.pure_apply]

theorem emits_appendSized {bytes : Bytes} (short : bytes.length < 2 ^ 32) (writer : JsonWriter) :
    Emits (appendSized bytes) bytes writer := by
  rw [appendSized, Nat.mod_eq_of_lt short, List.take_length]
  exact emits_append bytes writer

theorem Emits.bind {first second : Step} {bytes more : Bytes} {writer : JsonWriter}
    (starts : Emits first bytes writer) (goesOn : Emits second more (emit bytes writer)) :
    Emits (first >>= fun _ => second) (bytes ++ more) writer := by
  rw [Emits, Program.bind_apply, starts, ← emit_emit]
  exact goesOn

/-- What a step does behind one that appends. -/
theorem Emits.then {first : Step} {bytes : Bytes} {writer : JsonWriter}
    (starts : Emits first bytes writer) (second : Step) :
    (first >>= fun _ => second) writer = second (emit bytes writer) := by
  rw [Program.bind_apply, starts]

theorem emits_writeUint64 (value : UInt64) (writer : JsonWriter) :
    Emits (writeUint64 value) (decimal value.toNat) writer := by
  unfold writeUint64 decimal
  by_cases zero : value = 0
  · rw [if_pos zero, if_pos (by rw [zero]; rfl)]
    exact emits_append _ writer
  · have nonzero : value.toNat ≠ 0 := fun absurd => zero (UInt64.toNat.inj absurd)
    rw [if_neg zero, if_neg nonzero]
    have bounded : value.toNat < 100 ^ (9 + 1) := lt_trans value.toNat_lt (by decide)
    have short := length_fillDigits bounded []
    exact emits_appendSized (by rw [List.length_nil] at short; omega) writer

/-- The text of an integer. -/
def integerText (value : ℤ) : Number := ⟨decide (value < 0), decimal value.natAbs, none, none⟩

theorem render_integerText (value : ℤ) :
    (integerText value).render = renderMinus (decide (value < 0)) ++ decimal value.natAbs := by
  simp only [Number.render, integerText, renderFraction, renderExponent, List.append_nil]

theorem toNat_ofInt {value : ℤ} (natural : 0 ≤ value) (small : value < 2 ^ 64) :
    (UInt64.ofInt value).toNat = value.natAbs := by
  rw [UInt64.ofInt, Int.emod_eq_of_lt natural small,
    UInt64.toNat_ofNat_of_lt' (show value.toNat < 2 ^ 64 by omega)]
  omega

/-- The shape of `writeInt` and `writeInt64`: the least integer apart, since it can not
be negated. -/
theorem emits_signed {isLeast isNegative : Prop} [Decidable isLeast] [Decidable isNegative]
    {value : ℤ} {least negated plain : UInt64}
    (onLeast : isLeast → value < 0 ∧ least.toNat = value.natAbs)
    (onNegative : ¬ isLeast → isNegative → value < 0 ∧ negated.toNat = value.natAbs)
    (onNatural : ¬ isNegative → 0 ≤ value ∧ plain.toNat = value.natAbs) (writer : JsonWriter) :
    Emits
      (if isLeast then do
        append [0x2D]
        writeUint64 least
      else if isNegative then do
        append [0x2D]
        writeUint64 negated
      else writeUint64 plain) (integerText value).render writer := by
  rw [render_integerText]
  split
  case isTrue isLeast =>
      obtain ⟨negative, same⟩ := onLeast isLeast
      rw [decide_eq_true negative, ← same]
      exact (emits_append _ writer).bind (emits_writeUint64 least _)
  case isFalse notLeast =>
      split
      case isTrue isNegative =>
          obtain ⟨negative, same⟩ := onNegative notLeast isNegative
          rw [decide_eq_true negative, ← same]
          exact (emits_append _ writer).bind (emits_writeUint64 negated _)
      case isFalse notNegative =>
          obtain ⟨natural, same⟩ := onNatural notNegative
          rw [decide_eq_false (not_lt.mpr natural), ← same]
          exact emits_writeUint64 plain writer

theorem emits_writeInt (value : Int32) (writer : JsonWriter) :
    Emits (writeInt value) (integerText value.toInt).render writer := by
  have lower := value.le_toInt
  have upper := value.toInt_lt
  have signed : value < 0 ↔ value.toInt < 0 := by
    rw [Int32.lt_iff_toInt_lt, Int32.toInt_zero]
  refine emits_signed (fun least => ?_) (fun notLeast negative => ?_) (fun natural => ?_) writer
  · rw [least]
    decide
  · have above : value.toInt ≠ -2 ^ 31 := fun same =>
      notLeast (Int32.toInt.inj (same.trans (by decide)))
    have negative := signed.mp negative
    rw [Int32.toInt_neg, Int.bmod_eq_of_le (by omega) (by omega),
      toNat_ofInt (by omega) (by omega), Int.natAbs_neg]
    exact ⟨negative, rfl⟩
  · have natural := not_lt.mp (mt signed.mpr natural)
    exact ⟨natural, toNat_ofInt natural (by omega)⟩

theorem emits_writeInt64 (value : Int64) (writer : JsonWriter) :
    Emits (writeInt64 value) (integerText value.toInt).render writer := by
  have lower := value.le_toInt
  have upper := value.toInt_lt
  have signed : value < 0 ↔ value.toInt < 0 := by
    rw [Int64.lt_iff_toInt_lt, Int64.toInt_zero]
  refine emits_signed (fun least => ?_) (fun notLeast negative => ?_) (fun natural => ?_) writer
  · rw [least]
    decide
  · have above : value.toInt ≠ -2 ^ 63 := fun same =>
      notLeast (Int64.toInt.inj (same.trans (by decide)))
    have negative := signed.mp negative
    rw [Int64.toInt_neg, Int.bmod_eq_of_le (by omega) (by omega),
      toNat_ofInt (by omega) (by omega), Int.natAbs_neg]
    exact ⟨negative, rfl⟩
  · have natural := not_lt.mp (mt signed.mpr natural)
    exact ⟨natural, toNat_ofInt natural (by omega)⟩

theorem emits_unsigned (value : UInt64) (writer : JsonWriter) :
    Emits (writeUint64 value) (integerText value.toNat).render writer := by
  rw [render_integerText, decide_eq_false (by omega), Int.natAbs_natCast]
  exact emits_writeUint64 value writer

/-! ## Strings -/

/-- How a byte of a string is written. -/
def escapePiece (byte : UInt8) : Piece :=
  if unescapedLookup byte = 0 then .plain byte
  else if unescapedLookup byte = 0x75 then
    .unicode 0x30 0x30 (hexLetter (byte.toNat / 16)) (hexLetter (byte.toNat % 16))
  else .escape (unescapedLookup byte)

theorem escapePiece_valid : ∀ byte : UInt8, (escapePiece byte).Valid := by decide

theorem render_plain : ∀ byte : UInt8, unescapedLookup byte = 0 →
    (escapePiece byte).render = [byte] := by decide

theorem render_unicode : ∀ byte : UInt8, unescapedLookup byte = 0x75 →
    byte < 0x80 ∧ (escapePiece byte).render = unicodeEscape byte.toNat := by decide

theorem render_letter : ∀ byte : UInt8, unescapedLookup byte ≠ 0 → unescapedLookup byte ≠ 0x75 →
    (escapePiece byte).render = [0x5C, unescapedLookup byte] := by decide

theorem renderPieces_append (first second : List Piece) :
    renderPieces (first ++ second) = renderPieces first ++ renderPieces second :=
  List.flatMap_append

theorem renderPieces_plain {bytes : Bytes} (plain : ∀ byte ∈ bytes, isPlain byte = true) :
    renderPieces (bytes.map escapePiece) = bytes := by
  induction bytes with
  | nil => rfl
  | cons byte bytes ih =>
      obtain ⟨first, others⟩ := List.forall_mem_cons.mp plain
      rw [List.map_cons, renderPieces_cons, render_plain byte (beq_iff_eq.mp first), ih others,
        List.singleton_append]

theorem emits_plain {plain : Bytes} (short : plain.length < 2 ^ 32) (writer : JsonWriter) :
    Emits (writePlain plain) plain writer := by
  unfold writePlain
  split
  case isTrue => exact emits_appendSized short writer
  case isFalse empty =>
      rw [not_not.mp empty]
      exact emits_pure writer

theorem emits_escapeLoop (fuel : ℕ) (value : Bytes) (enough : value.length < fuel)
    (short : value.length < 2 ^ 32) (writer : JsonWriter) :
    Emits (escapeLoop fuel value) (renderPieces (value.map escapePiece)) writer := by
  induction fuel generalizing value writer with
  | zero => cases enough
  | succ fuel ih =>
      rw [escapeLoop]
      by_cases empty : value = []
      · subst empty
        exact emits_pure writer
      · rw [if_neg empty]
        have split := List.takeWhile_append_dropWhile (p := isPlain) (l := value)
        have lengths := congrArg List.length split
        have stops := List.head?_dropWhile_not isPlain value
        have plain := renderPieces_plain fun byte member =>
          List.mem_takeWhile_imp (p := isPlain) (l := value) member
        revert split lengths stops plain
        generalize value.takeWhile isPlain = front
        generalize value.dropWhile isPlain = back
        rintro rfl lengths stops plain
        rw [List.length_append] at lengths enough short
        rw [List.map_append, renderPieces_append, plain]
        refine (emits_plain (show front.length < 2 ^ 32 by omega) writer).bind ?_
        cases back with
        | nil => exact emits_pure _
        | cons byte rest =>
            rw [List.length_cons] at enough short
            have notPlain : ¬ unescapedLookup byte = 0 := by
              simpa [isPlain] using stops
            rw [List.map_cons, renderPieces_cons]
            by_cases unicode : unescapedLookup byte = 0x75
            · obtain ⟨small, render⟩ := render_unicode byte unicode
              have point : utf8Codepoint (byte :: rest) = some (byte.toNat, rest) := by
                rw [utf8Codepoint.eq_def]
                exact if_pos small
              simp only [if_pos unicode, point, render]
              exact (emits_append _ _).bind (ih rest (by omega) (by omega) _)
            · simp only [if_neg unicode, render_letter byte notPlain unicode]
              exact (emits_append _ _).bind (ih rest (by omega) (by omega) _)

theorem emits_writeEscaped {value : Bytes} (short : value.length < 2 ^ 32) (writer : JsonWriter) :
    Emits (writeEscaped value) (renderPieces (value.map escapePiece)) writer :=
  emits_escapeLoop _ value (Nat.lt_succ_self _) short writer

/-- An escaped byte is decoded to itself. -/
theorem decode_escapePiece : ∀ byte : UInt8, decode [escapePiece byte] = some [byte] := by
  decide

theorem decode_escaped (value : Bytes) : decode (value.map escapePiece) = some value := by
  induction value with
  | nil => rfl
  | cons byte value ih =>
      rw [List.map_cons, decode_cons (decode_escapePiece byte), ih, Option.map_some,
        List.singleton_append]

/-! ## The tree that is written -/

/-- The pieces of a key, which is a string. -/
def keyPieces : Value → List Piece
  | .string name => name.map escapePiece
  | _ => []

/-- A line break with a number of spaces behind it; without indentation there is none. -/
def lineGap (indentation width : ℕ) : Gap :=
  if indentation = 0 then []
  else .white 0x0A :: List.replicate (width % 2 ^ 32) (.white 0x20)

/-- The space behind a colon. -/
def spaceGap (indentation : ℕ) : Gap := if indentation = 0 then [] else [.white 0x20]

mutual
/-- The text of a value in `level` containers. -/
def written (indentation : ℕ) : ℕ → Value → Text
  | _, .null => .null
  | _, .boolean value => .boolean value
  | _, .integer value => .number (integerText value.toInt)
  | _, .unsigned value => .number (integerText value.toNat)
  | _, .integer64 value => .number (integerText value.toInt)
  | _, .unsigned64 value => .number (integerText value.toNat)
  -- a text for real numbers is not described here
  | _, .real _ => .null
  | _, .string value => .string (value.map escapePiece)
  | _, .array [] => .emptyArray []
  | level, .array (first :: others) =>
      .array (lineGap indentation (indentation * (level + 1)))
        (writtenElements indentation level (first :: others))
  | _, .object [] => .emptyObject []
  | level, .object (first :: others) =>
      .object (lineGap indentation (indentation * (level + 1)))
        (writtenMembers indentation level (first :: others))

/-- The elements of an array in `level` containers; there is at least one. -/
def writtenElements (indentation : ℕ) : ℕ → List Value → Elements
  | _, [] => .last .null []
  | level, [value] =>
      .last (written indentation (level + 1) value) (lineGap indentation (indentation * level))
  | level, value :: next :: others =>
      .more (written indentation (level + 1) value) []
        (lineGap indentation (indentation * (level + 1)))
        (writtenElements indentation level (next :: others))

/-- The members of an object in `level` containers; there is at least one. -/
def writtenMembers (indentation : ℕ) : ℕ → List (Value × Value) → Members
  | _, [] => .last [] [] [] .null []
  | level, [(key, value)] =>
      .last (keyPieces key) [] (spaceGap indentation) (written indentation (level + 1) value)
        (lineGap indentation (indentation * level))
  | level, (key, value) :: next :: others =>
      .more (keyPieces key) [] (spaceGap indentation) (written indentation (level + 1) value) []
        (lineGap indentation (indentation * (level + 1)))
        (writtenMembers indentation level (next :: others))
end

/-! ## The writer writes the tree -/

mutual
/-- Strings are short enough for the writer, keys are strings, and there are no real
numbers. -/
def Writable : Value → Prop
  | .real _ => False
  | .string value => value.length < 2 ^ 32
  | .array elements => WritableElements elements
  | .object members => WritableMembers members
  | _ => True

def WritableElements : List Value → Prop
  | [] => True
  | element :: elements => Writable element ∧ WritableElements elements

def WritableMembers : List (Value × Value) → Prop
  | [] => True
  | (key, value) :: members =>
      (∃ name, key = .string name ∧ name.length < 2 ^ 32) ∧ Writable value ∧
        WritableMembers members
end

/-- The white space in front of a line is what the open containers ask for. -/
def Indented (writer : JsonWriter) : Prop :=
  writer.tab = List.replicate (writer.indentation * writer.stack.length) 0x20

/-- What `array` writes in front of a value. -/
def opening (writer : JsonWriter) : Bytes :=
  (if !writer.stack.isEmpty && !writer.first then [0x2C] else []) ++
    if writer.stack.head? = some true then
      (lineGap writer.indentation (writer.indentation * writer.stack.length)).render
    else []

/-- The writer behind a value. -/
def finish (bytes : Bytes) (writer : JsonWriter) : JsonWriter :=
  { writer with out := writer.out ++ bytes, first := false }

theorem render_replicate (count : ℕ) (byte : UInt8) :
    Gap.render (List.replicate count (.white byte)) = List.replicate count byte := by
  induction count with
  | zero => rfl
  | succ count ih =>
      rw [List.replicate_succ, Gap.render_cons, ih, List.replicate_succ]
      rfl

/-- A step that depends on the state of the writer. -/
theorem emits_when (condition : JsonWriter → Prop) [DecidablePred condition] {step : Step}
    {bytes : Bytes} {writer : JsonWriter} (emits : Emits step bytes writer) :
    Emits (do
      let writer ← Program.gets id
      if condition writer then step else pure ()) (if condition writer then bytes else [])
      writer := by
  rw [Emits, Program.bind_apply, Program.gets_apply]
  by_cases holds : condition writer
  · simp only [id_eq, if_pos holds]
    exact emits
  · simp only [id_eq, if_neg holds]
    exact emits_pure writer

theorem emits_endLine (writer : JsonWriter) :
    Emits endLine (if writer.indentation ≠ 0 then [0x0A] else []) writer :=
  emits_when (fun writer => writer.indentation ≠ 0) (emits_append _ writer)

theorem emits_space (writer : JsonWriter) :
    Emits space (spaceGap writer.indentation).render writer := by
  have render : (spaceGap writer.indentation).render =
      if writer.indentation ≠ 0 then [0x20] else [] := by
    unfold spaceGap
    by_cases zero : writer.indentation = 0
    · simp [zero]
    · simp [zero, Filler.render]
  rw [render]
  exact emits_when (fun writer => writer.indentation ≠ 0) (emits_append _ writer)

theorem emits_indent {writer : JsonWriter} {width : ℕ}
    (tab : writer.tab = List.replicate width 0x20) :
    Emits indent
      (if writer.indentation ≠ 0 then List.replicate (width % 2 ^ 32) 0x20 else []) writer := by
  have cut : writer.tab.take (writer.tab.length % 2 ^ 32) =
      List.replicate (width % 2 ^ 32) 0x20 := by
    rw [tab, List.length_replicate, List.take_replicate, min_eq_left (Nat.mod_le _ _)]
  rw [← cut]
  exact emits_when (fun writer => writer.indentation ≠ 0)
    (emits_append (writer.tab.take (writer.tab.length % 2 ^ 32)) writer)

theorem emits_line {writer : JsonWriter} {width : ℕ}
    (tab : writer.tab = List.replicate width 0x20) :
    Emits (do
      endLine
      indent) (lineGap writer.indentation width).render writer := by
  have behind : ∀ bytes, Emits indent
      (if writer.indentation ≠ 0 then List.replicate (width % 2 ^ 32) 0x20 else [])
      (emit bytes writer) := fun _ => emits_indent tab
  have both := (emits_endLine writer).bind (behind _)
  unfold lineGap
  by_cases zero : writer.indentation = 0
  · simpa [zero] using both
  · simpa [zero, Filler.render, render_replicate] using both

theorem emits_comma (writer : JsonWriter) :
    Emits comma (if !writer.stack.isEmpty && !writer.first then [0x2C] else []) writer :=
  emits_when (fun writer => !writer.stack.isEmpty && !writer.first) (emits_append _ writer)

theorem emits_array {writer : JsonWriter} (indented : Indented writer) :
    Emits array (opening writer) writer := by
  have line : ∀ bytes, Emits (do
      endLine
      indent) (lineGap writer.indentation (writer.indentation * writer.stack.length)).render
      (emit bytes writer) := fun _ => emits_line indented
  exact (emits_comma writer).bind
    (emits_when (fun writer => writer.stack.head? = some true) (line _))

/-- A scalar is written behind its opening. -/
theorem setScalar_writes {write : Step} {bytes : Bytes}
    (writes : ∀ writer, Emits write bytes writer) {writer : JsonWriter}
    (indented : Indented writer) :
    setScalar write writer = some (.ok (), finish (opening writer ++ bytes) writer) := by
  unfold setScalar
  rw [(emits_array indented).then, (writes _).then, emit_emit]
  rfl

theorem emits_writeQuoted {value : Bytes} (short : value.length < 2 ^ 32) (writer : JsonWriter) :
    Emits (writeQuoted value) (renderString (value.map escapePiece)) writer := by
  have quoted := (emits_append [0x22] writer).bind
    ((emits_writeEscaped short _).bind (emits_append [0x22] _))
  rwa [List.singleton_append, ← List.cons_append] at quoted

/-- The state in which the contents of a container are written. -/
def enter (bracket : UInt8) (isArray : Bool) (writer : JsonWriter) : JsonWriter :=
  { writer with
    out := writer.out ++ (opening writer ++ [bracket])
    tab := writer.tab ++ List.replicate writer.indentation 0x20
    first := true
    stack := isArray :: writer.stack }

theorem startContainer_writes {writer : JsonWriter} (indented : Indented writer) (bracket : UInt8)
    (isArray : Bool) :
    startContainer bracket isArray writer = some (.ok (), enter bracket isArray writer) := by
  unfold startContainer
  rw [(emits_array indented).then, (emits_append _ _).then, emit_emit]
  rfl

theorem indented_enter {writer : JsonWriter} (indented : Indented writer) (bracket : UInt8)
    (isArray : Bool) : Indented (enter bracket isArray writer) := by
  simp only [Indented, enter, List.length_cons, Nat.mul_succ, List.replicate_add] at indented ⊢
  rw [indented]

/-- The writer outside of the container on top of its stack. -/
def leave (bytes : Bytes) (writer : JsonWriter) : JsonWriter :=
  { writer with
    out := writer.out ++ bytes
    tab := writer.tab.take (writer.tab.length - writer.indentation)
    first := false
    stack := writer.stack.tail }

theorem leave_enter (bytes : Bytes) (bracket : UInt8) (isArray : Bool) (writer : JsonWriter) :
    leave bytes (enter bracket isArray writer) =
      finish (opening writer ++ bracket :: bytes) writer := by
  simp only [leave, enter, finish, List.length_append, List.length_replicate, Nat.add_sub_cancel,
    List.take_left', List.append_assoc, List.cons_append, List.nil_append, List.tail_cons]

/-- An empty container is closed on the line on which it was opened. -/
theorem stopContainer_empty {writer : JsonWriter} (first : writer.first = true) (bracket : UInt8) :
    stopContainer bracket writer = some (.ok (), leave [bracket] writer) := by
  simp [stopContainer, closeLine, Program.bind_apply, append, first, leave]

theorem stopContainer_writes {writer : JsonWriter} (indented : Indented writer)
    (first : writer.first = false) {isArray : Bool} {stack : List Bool}
    (inside : writer.stack = isArray :: stack) (bracket : UInt8) :
    stopContainer bracket writer = some (.ok (), leave
      ((lineGap writer.indentation (writer.indentation * stack.length)).render ++ [bracket])
      writer) := by
  have tab : writer.tab.take (writer.tab.length - writer.indentation) =
      List.replicate (writer.indentation * stack.length) 0x20 := by
    rw [indented, inside, List.length_cons, List.length_replicate, Nat.mul_succ,
      Nat.add_sub_cancel, List.take_replicate, min_eq_left (Nat.le_add_right _ _)]
  have close := emits_when (fun writer => (!writer.first) = true) (emits_line
    (show JsonWriter.tab { writer with
      tab := writer.tab.take (writer.tab.length - writer.indentation) } = _ from tab))
  simp only [first, Bool.not_false, if_true] at close
  unfold stopContainer closeLine
  rw [Program.bind_apply, Program.change_apply]
  simp only [first]
  rw [close.then, (emits_append _ _).then, emit_emit]
  rfl

variable {dtoa : Double → Bytes}

/-- The value is written behind its opening. -/
def WritesValue (dtoa : Double → Bytes) (value : Value) : Prop :=
  ∀ writer, Indented writer → StreamWriter.setValue (handler dtoa) value writer =
    some (.ok (), finish
      (opening writer ++ (written writer.indentation writer.stack.length value).render) writer)

theorem indented_finish {writer : JsonWriter} (indented : Indented writer) (bytes : Bytes) :
    Indented (finish bytes writer) := indented

theorem opening_finish {writer : JsonWriter} {stack : List Bool} (inside : writer.stack = true :: stack)
    (bytes : Bytes) :
    opening (finish bytes writer) =
      0x2C :: (lineGap writer.indentation (writer.indentation * (stack.length + 1))).render := by
  simp [opening, finish, inside]

/-- The elements of an array and its closing bracket. -/
def WritesElements (dtoa : Double → Bytes) (values : List Value) : Prop :=
  ∀ (writer : JsonWriter) (stack : List Bool), Indented writer → writer.stack = true :: stack →
    (StreamWriter.setElements (handler dtoa) values >>= fun _ => stopArray) writer =
      some (.ok (), leave
        (opening writer ++ (writtenElements writer.indentation stack.length values).render) writer)

theorem writesElements_last {value : Value} (writes : WritesValue dtoa value) :
    WritesElements dtoa [value] := by
  intro writer stack indented inside
  have depth : writer.stack.length = stack.length + 1 := by rw [inside, List.length_cons]
  rw [StreamWriter.setElements, StreamWriter.setElements, Program.bind_bind, Program.bind_apply,
    writes writer indented]
  have stop := stopContainer_writes (indented_finish indented (opening writer ++
    (written writer.indentation writer.stack.length value).render)) rfl inside 0x5D
  refine Eq.trans stop ?_
  simp only [leave, finish, writtenElements, Elements.render, depth, List.append_assoc]

theorem writesElements_more {value next : Value} {others : List Value}
    (writes : WritesValue dtoa value) (writesOthers : WritesElements dtoa (next :: others)) :
    WritesElements dtoa (value :: next :: others) := by
  intro writer stack indented inside
  have depth : writer.stack.length = stack.length + 1 := by rw [inside, List.length_cons]
  rw [StreamWriter.setElements, Program.bind_bind, Program.bind_apply, writes writer indented]
  refine Eq.trans (writesOthers _ stack (indented_finish indented _) inside) ?_
  rw [opening_finish inside]
  simp only [leave, finish, writtenElements, Elements.render, depth, List.append_assoc,
    Gap.render_nil, List.cons_append, List.nil_append]

/-- What `setKey` writes in front of a key. -/
def keyOpening (writer : JsonWriter) : Bytes :=
  (if !writer.stack.isEmpty && !writer.first then [0x2C] else []) ++
    (lineGap writer.indentation (writer.indentation * writer.stack.length)).render

/-- The writer behind a key and its colon. -/
def keyed (bytes : Bytes) (writer : JsonWriter) : JsonWriter :=
  { writer with out := writer.out ++ bytes, first := true }

theorem setKey_writes {name : Bytes} (short : name.length < 2 ^ 32) {writer : JsonWriter}
    (indented : Indented writer) :
    setKey (.string name) writer = some (.ok (), keyed
      (keyOpening writer ++ (renderString (name.map escapePiece) ++
        (0x3A :: (spaceGap writer.indentation).render))) writer) := by
  have line : ∀ bytes, Emits (do
      endLine
      indent) (lineGap writer.indentation (writer.indentation * writer.stack.length)).render
      (emit bytes writer) := fun _ => emits_line indented
  have spaced : ∀ bytes, Emits space (spaceGap writer.indentation).render (emit bytes writer) :=
    fun bytes => emits_space (emit bytes writer)
  have lines := line (if !writer.stack.isEmpty && !writer.first then [0x2C] else [])
  unfold setKey
  simp only
  rw [(emits_comma writer).then, ← Program.bind_bind endLine fun _ => indent, lines.then, emit_emit,
    (emits_writeQuoted short _).then, emit_emit, (emits_append _ _).then, emit_emit,
    (spaced _).then, emit_emit]
  simp only [setFirst, Program.change_apply, keyed, keyOpening, emit, List.append_assoc,
    List.cons_append, List.nil_append]

theorem opening_keyed {writer : JsonWriter} {stack : List Bool}
    (inside : writer.stack = false :: stack) (bytes : Bytes) : opening (keyed bytes writer) = [] := by
  simp [opening, keyed, inside]

theorem keyOpening_finish {writer : JsonWriter} {stack : List Bool}
    (inside : writer.stack = false :: stack) (bytes : Bytes) :
    keyOpening (finish bytes writer) =
      0x2C :: (lineGap writer.indentation (writer.indentation * (stack.length + 1))).render := by
  simp [keyOpening, finish, inside]

/-- The members of an object and its closing bracket. -/
def WritesMembers (dtoa : Double → Bytes) (members : List (Value × Value)) : Prop :=
  ∀ (writer : JsonWriter) (stack : List Bool), Indented writer → writer.stack = false :: stack →
    (StreamWriter.setMembers (handler dtoa) members >>= fun _ => stopObject) writer =
      some (.ok (), leave
        (keyOpening writer ++ (writtenMembers writer.indentation stack.length members).render)
        writer)

/-- A key, its value and what follows them. -/
theorem setMember_writes {name : Bytes} (short : name.length < 2 ^ 32) {value : Value}
    (writes : WritesValue dtoa value) {writer : JsonWriter} {stack : List Bool}
    (indented : Indented writer) (inside : writer.stack = false :: stack) (next : Step) :
    ((handler dtoa).setKey (.string name) >>= fun _ =>
        StreamWriter.setValue (handler dtoa) value >>= fun _ => next) writer =
      next (finish (keyOpening writer ++ (renderString (name.map escapePiece) ++
        (0x3A :: (spaceGap writer.indentation).render ++
          (written writer.indentation (stack.length + 1) value).render))) writer) := by
  have depth : writer.stack.length = stack.length + 1 := by rw [inside, List.length_cons]
  have key : (handler dtoa).setKey (.string name) writer = _ := setKey_writes short indented
  rw [Program.bind_apply, key]
  simp only
  rw [Program.bind_apply, writes (keyed _ writer) indented, opening_keyed inside]
  simp only [keyed, finish, depth, List.append_assoc, List.cons_append, List.nil_append]

theorem writesMembers_last {name : Bytes} (short : name.length < 2 ^ 32) {value : Value}
    (writes : WritesValue dtoa value) : WritesMembers dtoa [(.string name, value)] := by
  intro writer stack indented inside
  rw [StreamWriter.setMembers, StreamWriter.setMembers, Program.bind_bind]
  simp only [Program.bind_bind]
  rw [setMember_writes short writes indented inside, Program.bind_apply, Program.pure_apply]
  refine Eq.trans (stopContainer_writes (indented_finish indented _) rfl inside 0x7D) ?_
  simp only [leave, finish, writtenMembers, Members.render, keyPieces, List.append_assoc,
    Gap.render_nil, List.cons_append, List.nil_append]

theorem writesMembers_more {name : Bytes} (short : name.length < 2 ^ 32) {value : Value}
    {next : Value × Value} {others : List (Value × Value)} (writes : WritesValue dtoa value)
    (writesOthers : WritesMembers dtoa (next :: others)) :
    WritesMembers dtoa ((.string name, value) :: next :: others) := by
  intro writer stack indented inside
  rw [StreamWriter.setMembers, Program.bind_bind]
  simp only [Program.bind_bind]
  rw [setMember_writes short writes indented inside]
  refine Eq.trans (writesOthers _ stack (indented_finish indented _) inside) ?_
  rw [keyOpening_finish inside]
  simp only [leave, finish, writtenMembers, Members.render, keyPieces, List.append_assoc,
    Gap.render_nil, List.cons_append, List.nil_append]

theorem setValue_array (elements : List Value) {writer : JsonWriter} (indented : Indented writer) :
    StreamWriter.setValue (handler dtoa) (.array elements) writer =
      (StreamWriter.setElements (handler dtoa) elements >>= fun _ => stopArray)
        (enter 0x5B true writer) := by
  have start : startArray writer = _ := startContainer_writes indented 0x5B true
  rw [StreamWriter.setValue, Program.bind_apply]
  simp only [handler, start]

theorem setValue_object (members : List (Value × Value)) {writer : JsonWriter}
    (indented : Indented writer) :
    StreamWriter.setValue (handler dtoa) (.object members) writer =
      (StreamWriter.setMembers (handler dtoa) members >>= fun _ => stopObject)
        (enter 0x7B false writer) := by
  have start : startObject writer = _ := startContainer_writes indented 0x7B false
  rw [StreamWriter.setValue, Program.bind_apply]
  simp only [handler, start]

mutual
/-- The writer writes the tree of a value. -/
theorem setValue_writes : ∀ value : Value, Writable value → WritesValue dtoa value
  | .null, _ => fun _ => setScalar_writes fun _ => emits_append _ _
  | .boolean true, _ => fun _ => setScalar_writes fun _ => emits_append _ _
  | .boolean false, _ => fun _ => setScalar_writes fun _ => emits_append _ _
  | .integer value, _ => fun _ => setScalar_writes fun _ => emits_writeInt value _
  | .unsigned value, _ => fun _ => setScalar_writes fun _ => by
      have same : value.toNat = value.toUInt64.toNat := (UInt32.toNat_toUInt64 value).symm
      rw [written, Text.render, same]
      exact emits_unsigned value.toUInt64 _
  | .integer64 value, _ => fun _ => setScalar_writes fun _ => emits_writeInt64 value _
  | .unsigned64 value, _ => fun _ => setScalar_writes fun _ => emits_unsigned value _
  | .string value, writable => fun _ => setScalar_writes fun _ => emits_writeQuoted writable _
  | .array [], _ => fun writer indented => by
      rw [setValue_array _ indented, StreamWriter.setElements, Program.bind_apply,
        Program.pure_apply]
      refine Eq.trans
        (stopContainer_empty (show (enter 0x5B true writer).first = true from rfl) 0x5D) ?_
      rw [leave_enter]
      rfl
  | .array (first :: others), writable => fun writer indented => by
      rw [setValue_array _ indented]
      have elements := setElements_writes (first :: others) (List.cons_ne_nil _ _) writable
        (enter 0x5B true writer) writer.stack (indented_enter indented 0x5B true) rfl
      refine Eq.trans elements ?_
      rw [leave_enter]
      simp only [written, Text.render, opening, enter, List.isEmpty_cons, Bool.not_true,
        Bool.and_false, Bool.false_eq_true, if_false, List.head?_cons, if_true, List.length_cons,
        List.nil_append, List.append_assoc, List.cons_append]
  | .object [], _ => fun writer indented => by
      rw [setValue_object _ indented, StreamWriter.setMembers, Program.bind_apply,
        Program.pure_apply]
      refine Eq.trans
        (stopContainer_empty (show (enter 0x7B false writer).first = true from rfl) 0x7D) ?_
      rw [leave_enter]
      rfl
  | .object (first :: others), writable => fun writer indented => by
      rw [setValue_object _ indented]
      have members := setMembers_writes (first :: others) (List.cons_ne_nil _ _) writable
        (enter 0x7B false writer) writer.stack (indented_enter indented 0x7B false) rfl
      refine Eq.trans members ?_
      rw [leave_enter]
      simp only [written, Text.render, keyOpening, enter, List.isEmpty_cons, Bool.not_true,
        Bool.and_false, Bool.false_eq_true, if_false, List.length_cons, List.nil_append,
        List.cons_append]

theorem setElements_writes : ∀ values : List Value, values ≠ [] → WritableElements values →
    WritesElements dtoa values
  | [], absurd, _ => (absurd rfl).elim
  | [value], _, writable => writesElements_last (setValue_writes value writable.1)
  | value :: next :: others, _, writable =>
      writesElements_more (setValue_writes value writable.1)
        (setElements_writes (next :: others) (List.cons_ne_nil _ _) writable.2)

theorem setMembers_writes : ∀ members : List (Value × Value), members ≠ [] →
    WritableMembers members → WritesMembers dtoa members
  | [], absurd, _ => (absurd rfl).elim
  | [(key, value)], _, writable => by
      obtain ⟨⟨name, rfl, short⟩, writableValue, _⟩ := writable
      exact writesMembers_last short (setValue_writes value writableValue)
  | (key, value) :: next :: others, _, writable => by
      obtain ⟨⟨name, rfl, short⟩, writableValue, writableOthers⟩ := writable
      exact writesMembers_more short (setValue_writes value writableValue)
        (setMembers_writes (next :: others) (List.cons_ne_nil _ _) writableOthers)
end

/-! ## The tree is one of the grammar -/

theorem standard_integerText (value : ℤ) : (integerText value).Standard :=
  ⟨wholePart_decimal _, fun _ absurd => (by cases absurd), fun _ absurd => (by cases absurd)⟩

theorem conforms_lineGap (indentation width : ℕ) :
    (lineGap indentation width).Conforms joinJson := by
  unfold lineGap
  split
  · exact List.forall_mem_nil _
  · refine List.forall_mem_cons.mpr ⟨⟨rfl, by decide⟩, fun filler member => ?_⟩
    rw [List.eq_of_mem_replicate member]
    exact ⟨rfl, by decide⟩

theorem conforms_spaceGap (indentation : ℕ) : (spaceGap indentation).Conforms joinJson := by
  unfold spaceGap
  split
  · exact List.forall_mem_nil _
  · exact List.forall_mem_cons.mpr ⟨⟨rfl, by decide⟩, List.forall_mem_nil _⟩

theorem validPieces_escaped (value : Bytes) : ValidPieces (value.map escapePiece) := by
  intro piece member
  obtain ⟨byte, _, rfl⟩ := List.mem_map.mp member
  exact escapePiece_valid byte

theorem validPieces_key (key : Value) : ValidPieces (keyPieces key) := by
  cases key with
  | string name => exact validPieces_escaped name
  | _ => exact List.forall_mem_nil _

mutual
theorem conforms_written (indentation : ℕ) : ∀ (level : ℕ) (value : Value),
    (written indentation level value).Conforms joinJson
  | _, .null | _, .boolean _ | _, .real _ => trivial
  | _, .integer _ | _, .unsigned _ | _, .integer64 _ | _, .unsigned64 _ => standard_integerText _
  | _, .string value => validPieces_escaped value
  | _, .array [] | _, .object [] => List.forall_mem_nil _
  | level, .array (first :: others) =>
      ⟨conforms_lineGap _ _, conforms_writtenElements indentation level (first :: others)⟩
  | level, .object (first :: others) =>
      ⟨conforms_lineGap _ _, conforms_writtenMembers indentation level (first :: others)⟩

theorem conforms_writtenElements (indentation : ℕ) : ∀ (level : ℕ) (values : List Value),
    (writtenElements indentation level values).Conforms joinJson
  | _, [] => ⟨trivial, List.forall_mem_nil _⟩
  | level, [value] => ⟨conforms_written indentation (level + 1) value, conforms_lineGap _ _⟩
  | level, value :: next :: others =>
      ⟨conforms_written indentation (level + 1) value, List.forall_mem_nil _,
        conforms_lineGap _ _, conforms_writtenElements indentation level (next :: others)⟩

theorem conforms_writtenMembers (indentation : ℕ) : ∀ (level : ℕ) (members : List (Value × Value)),
    (writtenMembers indentation level members).Conforms joinJson
  | _, [] => ⟨List.forall_mem_nil _, List.forall_mem_nil _, List.forall_mem_nil _, trivial,
      List.forall_mem_nil _⟩
  | level, [(key, value)] =>
      ⟨validPieces_key key, List.forall_mem_nil _, conforms_spaceGap _,
        conforms_written indentation (level + 1) value, conforms_lineGap _ _⟩
  | level, (key, value) :: next :: others =>
      ⟨validPieces_key key, List.forall_mem_nil _, conforms_spaceGap _,
        conforms_written indentation (level + 1) value, List.forall_mem_nil _,
        conforms_lineGap _ _, conforms_writtenMembers indentation level (next :: others)⟩
end

mutual
theorem depth_written (indentation : ℕ) : ∀ (level : ℕ) (value : Value),
    (written indentation level value).depth = value.depth
  | _, .null | _, .boolean _ | _, .real _ | _, .integer _ | _, .unsigned _ | _, .integer64 _
  | _, .unsigned64 _ | _, .string _ | _, .array [] | _, .object [] => rfl
  | level, .array (first :: others) => by
      rw [written, Text.depth, depth_writtenElements indentation level (first :: others),
        Value.depth]
  | level, .object (first :: others) => by
      rw [written, Text.depth, depth_writtenMembers indentation level (first :: others),
        Value.depth]

theorem depth_writtenElements (indentation : ℕ) : ∀ (level : ℕ) (values : List Value),
    (writtenElements indentation level values).depth = Value.elementsDepth values
  | _, [] => rfl
  | level, [value] => by
      simp only [writtenElements, Elements.depth, depth_written indentation (level + 1) value,
        Value.elementsDepth, Nat.max_zero]
  | level, value :: next :: others => by
      rw [writtenElements, Elements.depth, depth_written indentation (level + 1) value,
        depth_writtenElements indentation level (next :: others)]
      simp only [Value.elementsDepth]

theorem depth_writtenMembers (indentation : ℕ) : ∀ (level : ℕ) (members : List (Value × Value)),
    (writtenMembers indentation level members).depth = Value.membersDepth members
  | _, [] => rfl
  | level, [(key, value)] => by
      simp only [writtenMembers, Members.depth, depth_written indentation (level + 1) value,
        Value.membersDepth, Nat.max_zero]
  | level, (key, value) :: next :: others => by
      rw [writtenMembers, Members.depth, depth_written indentation (level + 1) value,
        depth_writtenMembers indentation level (next :: others)]
      simp only [Value.membersDepth]
end

theorem isContainer_written (indentation level : ℕ) (value : Value) :
    (written indentation level value).isContainer = value.isContainer := by
  cases value with
  | array elements => cases elements <;> rfl
  | object members => cases members <;> rfl
  | _ => rfl

/-! ## The tree denotes the value -/

/-- The alternative in which the reader delivers an integer. -/
def readInteger (value : ℤ) : Value := integerValue (decide (value < 0)) value.natAbs

mutual
/-- The value that is read back. -/
def readBack : Value → Value
  | .integer value => readInteger value.toInt
  | .unsigned value => readInteger value.toNat
  | .integer64 value => readInteger value.toInt
  | .unsigned64 value => readInteger value.toNat
  | .array elements => .array (readBackElements elements)
  | .object members => .object (readBackMembers members)
  | other => other

def readBackElements : List Value → List Value
  | [] => []
  | element :: elements => readBack element :: readBackElements elements

def readBackMembers : List (Value × Value) → List (Value × Value)
  | [] => []
  | (key, value) :: members => (key, readBack value) :: readBackMembers members
end

theorem natAbs_within {value : ℤ} (lower : -2 ^ 63 ≤ value) (upper : value < 2 ^ 64) :
    value.natAbs ≤ max64 (decide (value < 0)) := by
  by_cases negative : value < 0
  · simp only [max64, negative, decide_true, if_true]
    omega
  · simp only [max64, negative, decide_false, Bool.false_eq_true, if_false]
    omega

theorem denote_integerText {value : ℤ} (lower : -2 ^ 63 ≤ value) (upper : value < 2 ^ 64) :
    denote (.number (integerText value)) = some (readInteger value) := by
  have digits := digitsValue_decimal value.natAbs
  have within : digitsValue 0 (integerText value).whole ≤ max64 (integerText value).negative :=
    digits.le.trans (natAbs_within lower upper)
  rw [denote, numberValue_within rfl rfl within]
  exact congrArg (fun size => some (integerValue (decide (value < 0)) size)) digits

theorem getInteger_readInteger {value : ℤ} (lower : -2 ^ 63 ≤ value) (upper : value < 2 ^ 64) :
    (readInteger value).isIntegral = true ∧ (readInteger value).getInteger = value := by
  refine ⟨?_, ?_⟩
  · unfold readInteger integerValue
    split <;> rfl
  · rw [readInteger, getInteger_integerValue (natAbs_within lower upper)]
    by_cases negative : value < 0
    · rw [decide_eq_true negative, if_pos rfl]
      omega
    · rw [decide_eq_false negative, if_neg Bool.false_ne_true]
      omega

theorem denote_integral (value : Value) (integral : value.isIntegral = true) :
    denote (.number (integerText value.getInteger)) = some (readInteger value.getInteger) :=
  denote_integerText (Value.getInteger_bounds integral).1 (Value.getInteger_bounds integral).2

mutual
theorem denote_written (indentation : ℕ) : ∀ (level : ℕ) (value : Value), Writable value →
    denote (written indentation level value) = some (readBack value)
  | _, .null, _ | _, .boolean _, _ | _, .array [], _ | _, .object [], _ => rfl
  | _, .integer value, _ => denote_integral (.integer value) rfl
  | _, .unsigned value, _ => denote_integral (.unsigned value) rfl
  | _, .integer64 value, _ => denote_integral (.integer64 value) rfl
  | _, .unsigned64 value, _ => denote_integral (.unsigned64 value) rfl
  | _, .string value, _ => by
      rw [written, denote, decode_escaped]
      rfl
  | level, .array (first :: others), writable => by
      rw [written, denote, denote_writtenElements indentation level (first :: others)
        (List.cons_ne_nil _ _) writable, Option.map_some, readBack]
  | level, .object (first :: others), writable => by
      rw [written, denote, denote_writtenMembers indentation level (first :: others)
        (List.cons_ne_nil _ _) writable, Option.map_some, readBack]

theorem denote_writtenElements (indentation : ℕ) : ∀ (level : ℕ) (values : List Value),
    values ≠ [] → WritableElements values →
    denoteElements (writtenElements indentation level values) = some (readBackElements values)
  | _, [], absurd, _ => (absurd rfl).elim
  | level, [value], _, writable => by
      rw [writtenElements, denoteElements, denote_written indentation (level + 1) value writable.1,
        Option.map_some, readBackElements, readBackElements]
  | level, value :: next :: others, _, writable => by
      rw [writtenElements, denoteElements, denote_written indentation (level + 1) value writable.1,
        Option.bind_some, denote_writtenElements indentation level (next :: others)
        (List.cons_ne_nil _ _) writable.2, Option.map_some]
      simp only [readBackElements]

theorem denote_writtenMembers (indentation : ℕ) : ∀ (level : ℕ) (members : List (Value × Value)),
    members ≠ [] → WritableMembers members →
    denoteMembers (writtenMembers indentation level members) = some (readBackMembers members)
  | _, [], absurd, _ => (absurd rfl).elim
  | level, [(key, value)], _, writable => by
      obtain ⟨⟨name, rfl, _⟩, writableValue, _⟩ := writable
      rw [writtenMembers, denoteMembers, keyPieces, decode_escaped, Option.bind_some,
        denote_written indentation (level + 1) value writableValue, Option.map_some,
        readBackMembers, readBackMembers]
  | level, (key, value) :: next :: others, _, writable => by
      obtain ⟨⟨name, rfl, _⟩, writableValue, writableOthers⟩ := writable
      rw [writtenMembers, denoteMembers, keyPieces, decode_escaped, Option.bind_some,
        denote_written indentation (level + 1) value writableValue, Option.bind_some,
        denote_writtenMembers indentation level (next :: others) (List.cons_ne_nil _ _)
        writableOthers, Option.map_some]
      simp only [readBackMembers]
end

theorem eq_readInteger (value : Value) (integral : value.isIntegral = true) :
    (readInteger value.getInteger).eq value = true := by
  obtain ⟨lower, upper⟩ := Value.getInteger_bounds integral
  obtain ⟨wide, same⟩ := getInteger_readInteger lower upper
  exact Value.eq_of_getInteger wide integral same

mutual
/-- What is read back equals the value. -/
theorem eq_readBack : ∀ value : Value, Writable value → (readBack value).eq value = true
  | .null, _ => rfl
  | .boolean value, _ => beq_self_eq_true value
  | .integer value, _ => eq_readInteger (.integer value) rfl
  | .unsigned value, _ => eq_readInteger (.unsigned value) rfl
  | .integer64 value, _ => eq_readInteger (.integer64 value) rfl
  | .unsigned64 value, _ => eq_readInteger (.unsigned64 value) rfl
  | .string value, _ => beq_self_eq_true value
  | .array elements, writable => eq_readBackElements elements writable
  | .object members, writable => eq_readBackMembers members writable

theorem eq_readBackElements : ∀ elements : List Value, WritableElements elements →
    Value.eqArray (readBackElements elements) elements = true
  | [], _ => rfl
  | element :: elements, ⟨writable, others⟩ => by
      rw [readBackElements, Value.eqArray, eq_readBack element writable,
        eq_readBackElements elements others, Bool.and_self]

theorem eq_readBackMembers : ∀ members : List (Value × Value), WritableMembers members →
    Value.eqObject (readBackMembers members) members = true
  | [], _ => rfl
  | (key, value) :: members, ⟨⟨name, same, _⟩, writable, others⟩ => by
      subst same
      have keys : (Value.string name).eq (.string name) = true := beq_self_eq_true name
      rw [readBackMembers, Value.eqObject, keys, eq_readBack value writable,
        eq_readBackMembers members others, Bool.and_self, Bool.and_self]
end

/-! ## Round trip -/

/-- The document that is written for a value. -/
def writtenDocument (indentation : ℕ) (value : Value) : Document :=
  ⟨[], written indentation 0 value, [], none⟩

theorem serialize_written (dtoa : Double → Bytes) (indentation : ℕ) {value : Value}
    (writable : Writable value) :
    serialize dtoa indentation value = (0, (writtenDocument indentation value).render) := by
  have indented : Indented (fresh indentation) := by
    simp [Indented, fresh]
  have writes : StreamWriter.setValue (handler dtoa) value (fresh indentation) = _ :=
    setValue_writes value writable (fresh indentation) indented
  rw [serialize, writes]
  simp [finish, opening, fresh, writtenDocument, Document.render, Document.renderUnfinished]

theorem accepted_written (indentation : ℕ) {value : Value} (writable : Writable value)
    (container : value.isContainer = true) (shallow : value.depth ≤ StreamReader.maxdepth) :
    Accepted (writtenDocument indentation value).render (writtenDocument indentation value) where
  conforms := ⟨List.forall_mem_nil _, conforms_written indentation 0 value, List.forall_mem_nil _,
    fun _ absurd => by cases absurd⟩
  render := rfl
  container := (isContainer_written indentation 0 value).trans container
  fits := (depth_written indentation 0 value).trans_le shallow
  paired := by
    refine (denote_isSome _ (conforms_written indentation 0 value)).symm.trans ?_
    exact Option.isSome_of_eq_some (denote_written indentation 0 value writable)

end JsonWriter

/-- A value without real numbers whose root is a container of at most 19 levels, written
with any indentation and read without a read mode, is read back equal to itself. -/
theorem json_round_trip (dtoa : Double → Bytes) (indentation : ℕ) (kind : ViewKind) (root : Value)
    {value : Value} (container : value.isContainer = true) (shallow : value.depth ≤ 19)
    (writable : JsonWriter.Writable value) :
    ∃ text, JsonWriter.serialize dtoa indentation value = (0, text) ∧
      (deserialize kind {} text (.fresh root)).1 = 0 ∧
      (deserialize kind {} text (.fresh root)).2.root.eq value = true := by
  have accepted := JsonWriter.accepted_written indentation writable container shallow
  obtain ⟨result, denotes, builds⟩ := accepted.builds
  have returns := deserialize_document rfl (joinJson_within.document accepted.conforms) builds kind
    (rfl : (StreamReader.fresh root).stack = [])
  refine ⟨_, JsonWriter.serialize_written dtoa indentation writable, returns.1, ?_⟩
  have same : result = JsonWriter.readBack value :=
    Option.some.inj (denotes.symm.trans (JsonWriter.denote_written indentation 0 value writable))
  rw [returns.2.1, same]
  exact JsonWriter.eq_readBack value writable

/-- An object with an escaped key, written with an indentation of two and read back. -/
theorem json_round_trip_nested :
    ∃ text, JsonWriter.serialize (fun _ => []) 2 (.object [(.string [0x22, 0x01],
        .array [.integer (-5), .unsigned64 18446744073709551615, .array []])]) = (0, text) ∧
      (deserialize .stream {} text (.fresh .null)).1 = 0 ∧
      (deserialize .stream {} text (.fresh .null)).2.root.eq (.object [(.string [0x22, 0x01],
        .array [.integer (-5), .unsigned64 18446744073709551615, .array []])]) = true :=
  json_round_trip _ 2 .stream .null rfl (by decide)
    ⟨⟨_, rfl, by decide⟩, ⟨trivial, trivial, trivial, trivial⟩, trivial⟩

end Join
