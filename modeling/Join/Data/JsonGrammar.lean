import Join.Data.JsonMeaning

/-!
# The language of JsonReader

`joinJson` is the grammar the reader is written for: RFC 8259 over bytes, with
words for the infinities and for NaN. Without a read mode the reader takes the
documents of this grammar whose root is a container, whose containers fit the
stack and whose surrogates are paired, and it builds the tree they denote.

The scanner lets a few spellings pass that the grammar does not have, and takes a
word that begins with a small `n` for `null`. `Regular` says that a byte string
holds none of these.
-/

set_option autoImplicit false

namespace Join

open Library Library.Json

namespace JsonReader

/-! ## Numbers have values -/

/-- The byte that opens what follows the fraction is no digit and no point. -/
theorem renderExponent_head {exponent : Option Exponent}
    (mark : ∀ found, exponent = some found → found.mark = 0x65 ∨ found.mark = 0x45) :
    isDigitCharacter (renderExponent exponent).head? = false ∧
      (renderExponent exponent).head? ≠ some 0x2E := by
  cases exponent with
  | none => decide
  | some found =>
      simp only [renderExponent, Exponent.render, List.cons_append, List.head?_cons]
      rcases mark found rfl with same | same
      · rw [same]
        decide
      · rw [same]
        decide

theorem splitFraction_render {fraction : Option Bytes} {tail : Bytes}
    (digits : ∀ found, fraction = some found → ∀ digit ∈ found, IsDigit digit)
    (stops : isDigitCharacter tail.head? = false) (noPoint : tail.head? ≠ some 0x2E) :
    splitFraction (renderFraction fraction ++ tail) = (fraction.getD [], tail) := by
  cases fraction with
  | some found =>
      have run : DigitRun found tail :=
        ⟨fun digit member => (isDigit_iff digit).mpr (digits found rfl digit member), stops⟩
      simp only [renderFraction, List.cons_append, splitFraction, run.takeWhile_eq,
        run.dropWhile_eq, Option.getD_some]
  | none =>
      simp only [renderFraction, List.nil_append]
      unfold splitFraction
      split
      case h_1 => exact (noPoint rfl).elim
      case h_2 => rfl

theorem splitSign_render {sign : Option UInt8} {digits : Bytes}
    (standard : sign = none ∨ sign = some 0x2B ∨ sign = some 0x2D)
    (opens : isDigitCharacter digits.head? = true) :
    (splitSign (sign.toList ++ digits)).2 = digits := by
  rcases standard with rfl | rfl | rfl
  · simp only [Option.toList_none, List.nil_append]
    unfold splitSign
    split
    case h_1 => exact absurd opens (by decide : ¬ isDigit 0x2D = true)
    case h_2 => exact absurd opens (by decide : ¬ isDigit 0x2B = true)
    case h_3 => rfl
  · rfl
  · rfl

theorem splitExponent_render {exponent : Option Exponent}
    (standard : ∀ found, exponent = some found → found.Standard) :
    (splitExponent (renderExponent exponent)).2 = [] := by
  cases exponent with
  | none => rfl
  | some found =>
      obtain ⟨isMark, isSign, nonempty, all⟩ := standard found rfl
      have run : DigitRun found.digits [] :=
        ⟨fun digit member => (isDigit_iff digit).mpr (all digit member), rfl⟩
      have taken := run.takeWhile_eq
      have dropped := run.dropWhile_eq
      rw [List.append_nil] at taken dropped
      have opens : isDigitCharacter found.digits.head? = true := by
        rw [isDigitCharacter_head?, taken]
        exact nonempty
      have some_ : ¬ found.digits.isEmpty = true := by
        rw [List.isEmpty_iff]
        exact nonempty
      simp only [renderExponent, Exponent.render, List.cons_append, splitExponent, if_pos isMark,
        splitSign_render isSign opens, taken, dropped, if_neg some_]

/-- `strtod` reads a number of RFC 8259 to its end. -/
theorem strtodSlow_standard {number : Number} (standard : number.Standard) :
    (strtodSlow number.render).isSome = true := by
  have scannable := Scannable.of_standard standard
  obtain ⟨first, more, whole, digit, digits⟩ := scannable.whole_head
  obtain ⟨stops, noPoint⟩ := renderExponent_head scannable.mark
  have fraction := splitFraction_render scannable.fraction stops noPoint
  have stopsWhole : isDigitCharacter
      (renderFraction number.fraction ++ renderExponent number.exponent).head? = false := by
    cases number.fraction with
    | some digits => exact (by decide : isDigit 0x2E = false)
    | none => exact stops
  have run : DigitRun (first :: more)
      (renderFraction number.fraction ++ renderExponent number.exponent) :=
    ⟨List.forall_mem_cons.mpr ⟨digit, digits⟩, stopsWhole⟩
  have shape : number.render = renderMinus number.negative ++ first ::
      (more ++ (renderFraction number.fraction ++ renderExponent number.exponent)) := by
    simp only [Number.render, whole, List.append_assoc, List.cons_append]
  have consumed : (strtod number.render).2 = [] := by
    have dropped := run.dropWhile_eq
    rw [List.cons_append] at dropped
    rw [strtod, shape, splitMinus_render _ digit]
    simp only [dropped, fraction]
    exact splitExponent_render standard.exponent
  simp only [strtodSlow, consumed, List.isEmpty_nil, if_true, Option.isSome_some]

/-- A number of RFC 8259 has a value. -/
theorem numberValue_standard {number : Number} (standard : number.Standard) :
    (numberValue number).isSome = true := by
  simp only [numberValue]
  split
  · split
    · rfl
    · rw [Option.isSome_map]
      exact strtodSlow_standard standard
  · rfl

/-- The integer that is written, for a number without fraction and exponent. -/
def writtenInteger (number : Number) : Option ℤ :=
  if number.fraction = none ∧ number.exponent = none then
    some (if number.negative then -(digitsValue 0 number.whole : ℤ) else digitsValue 0 number.whole)
  else none

/-- A value of one of the two alternatives in which the reader delivers integers. -/
def isWideInteger : Value → Bool
  | .integer64 _ | .unsigned64 _ => true
  | _ => false

theorem numberScan_integer {number : Number} (fraction : number.fraction = none)
    (exponent : number.exponent = none) :
    numberScan number = wholeScan number.negative number.whole := by
  simp only [numberScan, fraction, exponent, fractionScan, Option.isSome_none, Bool.or_false]

theorem wholeScan_u (negative : Bool) (whole : Bytes) :
    (wholeScan negative whole).u = digitsValue 0 whole % 2 ^ 64 := by
  unfold wholeScan
  split
  case isTrue zero => rw [zero]; decide
  case isFalse => rfl

theorem wholeScan_isDouble (negative : Bool) (whole : Bytes) :
    (wholeScan negative whole).isDouble = decide (max64 negative < digitsValue 0 whole) := by
  unfold wholeScan
  split
  case isTrue zero => rw [zero]; cases negative <;> decide
  case isFalse => rfl

/-- The two's complement negation of an accumulator within the limit. -/
theorem toInt_neg_toInt64 {size : ℕ} (bounded : size ≤ 2 ^ 63) :
    (-(UInt64.ofNat size).toInt64).toInt = -(size : ℤ) := by
  rw [UInt64.toInt64_ofNat']
  exact Int64.toInt_neg_ofNat_of_le bounded

/-- An integer within the limit is delivered as one. -/
theorem numberValue_within {number : Number} (fraction : number.fraction = none)
    (exponent : number.exponent = none)
    (within : digitsValue 0 number.whole ≤ max64 number.negative) :
    numberValue number = some (integerValue number.negative (digitsValue 0 number.whole)) := by
  have whole : (wholeScan number.negative number.whole).isDouble = false := by
    rw [wholeScan_isDouble, decide_eq_false_iff_not]
    exact not_lt.mpr within
  have small := within.trans_lt (max64_bounds number.negative).2
  simp only [numberValue, numberScan_integer fraction exponent, whole, wholeScan_u,
    Nat.mod_eq_of_lt small, Bool.false_eq_true, if_false]

/-- The integer that is delivered. -/
theorem getInteger_integerValue {negative : Bool} {size : ℕ} (within : size ≤ max64 negative) :
    (integerValue negative size).getInteger = if negative then -(size : ℤ) else size := by
  cases negative with
  | true => exact toInt_neg_toInt64 within
  | false =>
      have small : size < 2 ^ 64 := within.trans_lt (max64_bounds false).2
      exact congrArg Nat.cast (UInt64.toNat_ofNat_of_lt' small)

theorem isWideInteger_integerValue (negative : Bool) (size : ℕ) :
    isWideInteger (integerValue negative size) = true := by
  cases negative <;> rfl

/-- An integer of 64 bits is delivered exactly. -/
theorem numberValue_integer {number : Number} {integer : ℤ}
    (written : writtenInteger number = some integer) (lower : -2 ^ 63 ≤ integer)
    (upper : integer < 2 ^ 64) :
    ∃ value, numberValue number = some value ∧ isWideInteger value = true ∧
      value.getInteger = integer := by
  simp only [writtenInteger, Option.ite_none_right_eq_some, Option.some.injEq] at written
  obtain ⟨⟨fraction, exponent⟩, rfl⟩ := written
  have within : digitsValue 0 number.whole ≤ max64 number.negative := by
    simp only [max64]
    split
    case isTrue negative =>
      rw [if_pos negative] at lower
      omega
    case isFalse positive =>
      rw [if_neg positive] at upper
      omega
  exact ⟨_, numberValue_within fraction exponent within, isWideInteger_integerValue _ _,
    getInteger_integerValue within⟩

/-! ## The grammar -/

/-- RFC 8259 with words for numbers. A word that begins with a small `n` is left out:
the reader takes it for `null`. -/
def joinJson : Dialect where
  filler := rfc8259.filler
  number := rfc8259.number
  word negative name := (wordValue name).isSome = true ∧ takenForNull negative name = false

mutual
/-- Every surrogate of every string and key is paired. -/
def pairsSurrogates : Text → Bool
  | .string pieces => (decode pieces).isSome
  | .array _ elements => elementsPairSurrogates elements
  | .object _ members => membersPairSurrogates members
  | _ => true

def elementsPairSurrogates : Elements → Bool
  | .last value _ => pairsSurrogates value
  | .more value _ _ rest => pairsSurrogates value && elementsPairSurrogates rest

def membersPairSurrogates : Members → Bool
  | .last key _ _ value _ => (decode key).isSome && pairsSurrogates value
  | .more key _ _ value _ _ rest =>
      (decode key).isSome && pairsSurrogates value && membersPairSurrogates rest
end

mutual
/-- A text of the grammar denotes a value exactly when its surrogates are paired. -/
theorem denote_isSome : ∀ text : Text, text.Conforms joinJson →
    (denote text).isSome = pairsSurrogates text
  | .null, _ => rfl
  | .boolean _, _ => rfl
  | .number _, conforms => numberValue_standard conforms
  | .word _ _, conforms => by
      simp only [denote, conforms.2, Bool.false_eq_true, if_false, Option.isSome_map, conforms.1,
        pairsSurrogates]
  | .string _, _ => by simp only [denote, Option.isSome_map, pairsSurrogates]
  | .emptyArray _, _ => rfl
  | .array _ elements, conforms => by
      simp only [denote, Option.isSome_map, pairsSurrogates,
        denoteElements_isSome elements conforms.2]
  | .emptyObject _, _ => rfl
  | .object _ members, conforms => by
      simp only [denote, Option.isSome_map, pairsSurrogates,
        denoteMembers_isSome members conforms.2]

theorem denoteElements_isSome : ∀ elements : Elements, elements.Conforms joinJson →
    (denoteElements elements).isSome = elementsPairSurrogates elements
  | .last value _, conforms => by
      simp only [denoteElements, Option.isSome_map, elementsPairSurrogates,
        denote_isSome value conforms.1]
  | .more value _ _ rest, conforms => by
      simp only [denoteElements, elementsPairSurrogates, ← denote_isSome value conforms.1,
        ← denoteElements_isSome rest conforms.2.2.2]
      cases denote value <;> simp

theorem denoteMembers_isSome : ∀ members : Members, members.Conforms joinJson →
    (denoteMembers members).isSome = membersPairSurrogates members
  | .last key _ _ value _, conforms => by
      simp only [denoteMembers, membersPairSurrogates, ← denote_isSome value conforms.2.2.2.1]
      cases decode key <;> simp
  | .more key _ _ value _ _ rest, conforms => by
      simp only [denoteMembers, membersPairSurrogates, ← denote_isSome value conforms.2.2.2.1,
        ← denoteMembers_isSome rest conforms.2.2.2.2.2.2]
      cases decode key <;> cases denote value <;> simp
end

/-- A gap of white space opens with white space. -/
theorem startsWhite_of_conforms {gap : Gap} (conforms : gap.Conforms joinJson) :
    gap.startsWhite = true := by
  cases gap with
  | nil => rfl
  | cons filler gap => exact (conforms filler List.mem_cons_self).1

mutual
theorem tailsWhite_of_conforms : ∀ text : Text, text.Conforms joinJson → tailsWhite text = true
  | .null, _ | .boolean _, _ | .number _, _ | .word _ _, _ | .string _, _ | .emptyArray _, _
  | .emptyObject _, _ => rfl
  | .array _ elements, conforms => elementTailsWhite_of_conforms elements conforms.2
  | .object _ members, conforms => memberTailsWhite_of_conforms members conforms.2

theorem elementTailsWhite_of_conforms : ∀ elements : Elements, elements.Conforms joinJson →
    elementTailsWhite elements = true
  | .last value _, ⟨conforms, tail⟩ => by
      rw [elementTailsWhite, tailsWhite_of_conforms value conforms, startsWhite_of_conforms tail,
        Bool.and_self]
  | .more value _ _ rest, ⟨conforms, tail, _, others⟩ => by
      rw [elementTailsWhite, tailsWhite_of_conforms value conforms, startsWhite_of_conforms tail,
        elementTailsWhite_of_conforms rest others, Bool.and_self, Bool.and_self]

theorem memberTailsWhite_of_conforms : ∀ members : Members, members.Conforms joinJson →
    memberTailsWhite members = true
  | .last _ _ _ value _, ⟨_, _, _, conforms, tail⟩ => by
      rw [memberTailsWhite, tailsWhite_of_conforms value conforms, startsWhite_of_conforms tail,
        Bool.and_self]
  | .more _ _ _ value _ _ rest, ⟨_, _, _, conforms, tail, _, others⟩ => by
      rw [memberTailsWhite, tailsWhite_of_conforms value conforms, startsWhite_of_conforms tail,
        memberTailsWhite_of_conforms rest others, Bool.and_self, Bool.and_self]
end

/-- The grammar is part of what the scanner takes. -/
theorem joinJson_within : joinJson.Within (readerDialect {}) where
  filler _ allowed := ⟨allowed.2, fun _ => allowed.1⟩
  number _ standard := Scannable.of_standard standard
  word _ _ isWord := isWord.1

/-! ## The language -/

/-- The byte string is a document of the grammar that the reader has room for. -/
structure Accepted (bytes : Bytes) (document : Document) : Prop where
  conforms : document.Conforms joinJson
  render : document.render = bytes
  container : document.root.isContainer = true
  fits : document.root.depth ≤ StreamReader.maxdepth
  paired : pairsSurrogates document.root = true

/-- However the scanner can read the bytes as a document, it uses the grammar: no
fraction without digits, no sign of an exponent other than plus and minus, and no
word that begins with a small `n`. -/
def Regular (bytes : Bytes) : Prop :=
  ∀ document : Document, document.Conforms (readerDialect {}) → document.render = bytes →
    document.Conforms joinJson

theorem Accepted.builds {bytes : Bytes} {document : Document} (accepted : Accepted bytes document) :
    ∃ value, denote document.root = some value ∧ Builds 0 document.root value := by
  have some_ := accepted.paired
  rw [← denote_isSome document.root accepted.conforms.root] at some_
  obtain ⟨value, denotes⟩ := Option.isSome_iff_exists.mp some_
  exact ⟨value, denotes, denotes, tailsWhite_of_conforms document.root accepted.conforms.root,
    by rw [Nat.zero_add]; exact accepted.fits, fun _ => accepted.container⟩

theorem accepted_of_builds {bytes : Bytes} {document : Document}
    (conforms : document.Conforms joinJson) (render : document.render = bytes) {value : Value}
    (builds : Builds 0 document.root value) : Accepted bytes document := by
  refine ⟨conforms, render, builds.nested rfl, ?_, ?_⟩
  · have room := builds.room
    rwa [Nat.zero_add] at room
  · rw [← denote_isSome document.root conforms.root, builds.denotes, Option.isSome_some]

/-- Without a read mode the reader takes the documents of the grammar and builds the
trees they denote, with the integers of 64 bits exact; apart from what the scanner
spells differently it takes nothing else. -/
theorem deserialize_grammar (kind : ViewKind) (root : Value) (bytes : Bytes) :
    (∀ document, Accepted bytes document → ∃ value, denote document.root = some value ∧
      Returns (deserialize kind {} bytes (.fresh root)) (some value)) ∧
    (Regular bytes → (∀ document, ¬ Accepted bytes document) →
      Returns (deserialize kind {} bytes (.fresh root)) none) ∧
    (∀ (number : Number) (integer : ℤ), writtenInteger number = some integer →
      -2 ^ 63 ≤ integer → integer < 2 ^ 64 → ∃ value, denote (.number number) = some value ∧
        isWideInteger value = true ∧ value.getInteger = integer) := by
  refine ⟨fun document accepted => ?_, fun regular none => ?_, fun number integer written => ?_⟩
  · obtain ⟨value, denotes, builds⟩ := accepted.builds
    have conforms := joinJson_within.document accepted.conforms
    have returns := deserialize_document rfl conforms builds kind (rfl : (StreamReader.fresh root).stack = [])
    rw [accepted.render] at returns
    exact ⟨value, denotes, returns⟩
  · by_cases found : ∃ document : Document, document.Conforms (readerDialect {}) ∧
        document.render = bytes
    · obtain ⟨document, conforms, rfl⟩ := found
      refine deserialize_document_refused rfl conforms (fun value builds => ?_) kind rfl
      exact none document (accepted_of_builds (regular document conforms rfl) rfl builds)
    · refine deserialize_other rfl (fun document conforms render => ?_) kind _
      exact found ⟨document, conforms, render⟩
  · exact numberValue_integer written

/-- `[7]` as a document. -/
def sevenDocument : Document :=
  ⟨[], .array [] (.last (.number ⟨false, [0x37], none, none⟩) []), [], none⟩

theorem accepted_seven : Accepted [0x5B, 0x37, 0x5D] sevenDocument where
  conforms := by
    refine ⟨List.forall_mem_nil _, ⟨List.forall_mem_nil _, ?_, List.forall_mem_nil _⟩,
      List.forall_mem_nil _, fun _ absurd => (by cases absurd)⟩
    exact ⟨.inr ⟨by decide, by decide, List.forall_mem_singleton.2 (by decide)⟩,
      fun _ absurd => (by cases absurd), fun _ absurd => (by cases absurd)⟩
  render := rfl
  container := rfl
  fits := by decide
  paired := rfl

/-- No document begins with a closing bracket. -/
theorem render_ne_bracket {document : Document} (conforms : document.Conforms (readerDialect {})) :
    document.render ≠ [0x5D] := by
  intro same
  have solid := (text_solid conforms.root
    (document.after.render ++ Document.renderUnfinished document.unfinished)).2
  rcases before : document.before with _ | ⟨filler, gap⟩
  · rw [Document.render, before, Gap.render_nil, List.nil_append, List.append_assoc] at same
    rw [same] at solid
    exact solid rfl
  · obtain ⟨valid, white⟩ := conforms.before filler (by rw [before]; exact List.mem_cons_self)
    cases filler with
    | white byte =>
        rw [Document.render, before, Gap.render_cons, Filler.render, List.append_assoc,
          List.append_assoc, List.append_assoc, List.singleton_append] at same
        obtain ⟨rfl, _⟩ := List.cons.inj same
        exact absurd valid (by decide)
    | block _ => cases white rfl
    | line _ => cases white rfl

/-- `[7]` is read as the array of seven, and `]` is refused. -/
theorem deserialize_grammar_examples :
    (∃ value, denote sevenDocument.root = some value ∧
      Returns (deserialize .string {} [0x5B, 0x37, 0x5D] (.fresh .null)) (some value)) ∧
    Returns (deserialize .string {} [0x5D] (.fresh .null)) none :=
  ⟨(deserialize_grammar .string .null _).1 sevenDocument accepted_seven,
    (deserialize_grammar .string .null _).2.1
      (fun _ conforms render => (render_ne_bracket conforms render).elim)
      fun _ accepted => render_ne_bracket (joinJson_within.document accepted.conforms)
        accepted.render⟩

/-- The document `["\uD800"]`, with half of a surrogate pair. -/
def unpairedDocument : Document :=
  ⟨[], .array [] (.last (.string [.unicode 0x44 0x38 0x30 0x30]) []), [], none⟩

/-- A document of RFC 8259 is refused when a surrogate is not paired. -/
theorem unpaired_surrogate_refused :
    unpairedDocument.Conforms rfc8259 ∧ unpairedDocument.root.isContainer = true ∧
      unpairedDocument.root.depth ≤ 19 ∧
      (deserialize .string {} unpairedDocument.render (.fresh .null)).1 = -1 := by
  refine ⟨⟨List.forall_mem_nil _, ⟨List.forall_mem_nil _, ?_, List.forall_mem_nil _⟩,
    List.forall_mem_nil _, fun _ absurd => (by cases absurd)⟩, rfl, by decide, ?_⟩
  · exact List.forall_mem_cons.mpr ⟨by decide, List.forall_mem_nil _⟩
  · decide +kernel

end JsonReader

end Join
