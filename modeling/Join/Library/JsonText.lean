import Mathlib.Data.List.Basic
import Mathlib.Tactic.Common

/-!
# Concrete syntax of JSON texts

A JSON text as a tree that keeps every byte: the gaps between tokens, the digits
of a number, the escapes of a string. `render` gives the bytes back, so that a
text is grammatical when it is the rendering of some tree, and a position between
two tokens is a place in a gap of a tree.

The grammar of RFC 8259 is one `Dialect` of this syntax. A dialect says which
fillers a gap may have, which numbers are written well and which further words
stand for values; `Conforms` is the grammar of a dialect.
-/

set_option autoImplicit false

namespace Join.Library.Json

/-! ## Gaps -/

/-- What may stand between two tokens. -/
inductive Filler where
  | white (byte : UInt8)
  | block (body : List UInt8)
  | line (body : List UInt8)
deriving DecidableEq, Repr

/-- The fillers between two tokens. -/
abbrev Gap := List Filler

namespace Filler

def render : Filler → List UInt8
  | white byte => [byte]
  | block body => [0x2F, 0x2A] ++ body ++ [0x2A, 0x2F]
  | line body => [0x2F, 0x2F] ++ body ++ [0x0A]

/-- White space is one of four bytes; a block comment does not hold its own
terminator and a line comment does not hold the end of the line. -/
def Valid : Filler → Prop
  | white byte => byte ∈ ([0x09, 0x0A, 0x0D, 0x20] : List UInt8)
  | block body => ¬ [0x2A, 0x2F] <:+: body
  | line body => (0x0A : UInt8) ∉ body

instance : DecidablePred Valid := fun filler =>
  match filler with
  | white _ => inferInstanceAs (Decidable (_ ∈ _))
  | block _ => inferInstanceAs (Decidable (¬ _))
  | line _ => inferInstanceAs (Decidable (¬ _))

def isWhite : Filler → Bool
  | white _ => true
  | _ => false

end Filler

namespace Gap

def render (gap : Gap) : List UInt8 := gap.flatMap Filler.render

/-- The gap is empty or begins with white space. -/
def startsWhite : Gap → Bool
  | [] => true
  | filler :: _ => filler.isWhite

@[simp] theorem render_nil : render [] = [] := rfl

@[simp] theorem render_cons (filler : Filler) (gap : Gap) :
    render (filler :: gap) = filler.render ++ render gap := rfl

end Gap

/-! ## Numbers -/

/-- The exponent of a number: its mark, its sign and its digits. -/
structure Exponent where
  mark : UInt8
  sign : Option UInt8
  digits : List UInt8
deriving DecidableEq, Repr

/-- A number as it is written. -/
structure Number where
  negative : Bool
  whole : List UInt8
  fraction : Option (List UInt8)
  exponent : Option Exponent
deriving DecidableEq, Repr

/-- The minus sign of a negative number. -/
def renderMinus (negative : Bool) : List UInt8 := if negative then [0x2D] else []

def Exponent.render (exponent : Exponent) : List UInt8 :=
  exponent.mark :: exponent.sign.toList ++ exponent.digits

/-- A fraction with its point. -/
def renderFraction : Option (List UInt8) → List UInt8
  | none => []
  | some digits => 0x2E :: digits

def renderExponent : Option Exponent → List UInt8
  | none => []
  | some exponent => exponent.render

def Number.render (number : Number) : List UInt8 :=
  renderMinus number.negative ++ number.whole ++ renderFraction number.fraction ++
    renderExponent number.exponent

/-- A decimal digit. -/
def IsDigit (byte : UInt8) : Prop := 0x30 ≤ byte ∧ byte ≤ 0x39

instance : DecidablePred IsDigit := fun _ => inferInstanceAs (Decidable (_ ∧ _))

/-- The integer part: a zero, or digits that do not begin with a zero. -/
def WholePart (digits : List UInt8) : Prop :=
  digits = [0x30] ∨ (digits ≠ [] ∧ digits.head? ≠ some 0x30 ∧ ∀ digit ∈ digits, IsDigit digit)

instance : DecidablePred WholePart := fun _ => inferInstanceAs (Decidable (_ ∨ _))

/-- `exp = e [ minus / plus ] 1*DIGIT`. -/
structure Exponent.Standard (exponent : Exponent) : Prop where
  mark : exponent.mark = 0x65 ∨ exponent.mark = 0x45
  sign : exponent.sign = none ∨ exponent.sign = some 0x2B ∨ exponent.sign = some 0x2D
  nonempty : exponent.digits ≠ []
  digits : ∀ digit ∈ exponent.digits, IsDigit digit

/-- `number = [ minus ] int [ frac ] [ exp ]`. -/
structure Number.Standard (number : Number) : Prop where
  whole : WholePart number.whole
  fraction : ∀ digits, number.fraction = some digits →
    digits ≠ [] ∧ ∀ digit ∈ digits, IsDigit digit
  exponent : ∀ exponent, number.exponent = some exponent → exponent.Standard

/-! ## Strings -/

/-- A piece of a string: a byte that stands for itself, an escape of one letter, or
a code unit in four hexadecimal digits. -/
inductive Piece where
  | plain (byte : UInt8)
  | escape (letter : UInt8)
  | unicode (first second third fourth : UInt8)
deriving DecidableEq, Repr

/-- The value of a hexadecimal digit in either case. -/
def hexDigit? (byte : UInt8) : Option ℕ :=
  if 0x30 ≤ byte ∧ byte ≤ 0x39 then some (byte.toNat - 0x30)
  else if 0x41 ≤ byte ∧ byte ≤ 0x46 then some (byte.toNat - 0x41 + 10)
  else if 0x61 ≤ byte ∧ byte ≤ 0x66 then some (byte.toNat - 0x61 + 10)
  else none

/-- The byte a one-letter escape stands for. -/
def escape? (letter : UInt8) : Option UInt8 :=
  match letter with
  | 0x22 => some 0x22
  | 0x5C => some 0x5C
  | 0x2F => some 0x2F
  | 0x62 => some 0x08
  | 0x66 => some 0x0C
  | 0x6E => some 0x0A
  | 0x72 => some 0x0D
  | 0x74 => some 0x09
  | _ => none

namespace Piece

def render : Piece → List UInt8
  | plain byte => [byte]
  | escape letter => [0x5C, letter]
  | unicode first second third fourth => [0x5C, 0x75, first, second, third, fourth]

/-- `char = unescaped / escape (...)`, over bytes. -/
def Valid : Piece → Prop
  | plain byte => 0x20 ≤ byte ∧ byte ≠ 0x22 ∧ byte ≠ 0x5C
  | escape letter => (escape? letter).isSome
  | unicode first second third fourth =>
      (hexDigit? first).isSome ∧ (hexDigit? second).isSome ∧ (hexDigit? third).isSome ∧
        (hexDigit? fourth).isSome

instance : DecidablePred Valid := fun piece =>
  match piece with
  | plain _ => inferInstanceAs (Decidable (_ ∧ _))
  | escape _ => inferInstanceAs (Decidable (_ = _))
  | unicode .. => inferInstanceAs (Decidable (_ ∧ _))

end Piece

/-- The code unit of four hexadecimal digits. -/
def codeUnit (first second third fourth : UInt8) : ℕ :=
  (((hexDigit? first).getD 0 * 16 + (hexDigit? second).getD 0) * 16 +
    (hexDigit? third).getD 0) * 16 + (hexDigit? fourth).getD 0

def IsHighSurrogate (unit : ℕ) : Prop := 0xD800 ≤ unit ∧ unit ≤ 0xDBFF

def IsLowSurrogate (unit : ℕ) : Prop := 0xDC00 ≤ unit ∧ unit ≤ 0xDFFF

instance : DecidablePred IsHighSurrogate := fun _ => inferInstanceAs (Decidable (_ ∧ _))

instance : DecidablePred IsLowSurrogate := fun _ => inferInstanceAs (Decidable (_ ∧ _))

/-- The code point of a pair of surrogates. -/
def pairValue (high low : ℕ) : ℕ := 0x10000 + (high - 0xD800) * 0x400 + (low - 0xDC00)

/-- The UTF-8 encoding of a code point. -/
def utf8 (codepoint : ℕ) : List UInt8 := String.utf8EncodeChar (Char.ofNat codepoint)

mutual
/-- The bytes a string stands for; `none` when a surrogate is not paired. -/
def decode : List Piece → Option (List UInt8)
  | [] => some []
  | .plain byte :: pieces => (decode pieces).map ([byte] ++ ·)
  | .escape letter :: pieces => (decode pieces).map ((escape? letter).toList ++ ·)
  | .unicode first second third fourth :: pieces =>
      let unit := codeUnit first second third fourth
      if IsLowSurrogate unit then none
      else if IsHighSurrogate unit then decodeLow unit pieces
      else (decode pieces).map (utf8 unit ++ ·)

/-- `decode` after a high surrogate. -/
def decodeLow (high : ℕ) : List Piece → Option (List UInt8)
  | .unicode first second third fourth :: pieces =>
      let low := codeUnit first second third fourth
      if IsLowSurrogate low then (decode pieces).map (utf8 (pairValue high low) ++ ·) else none
  | _ => none
end

/-- A piece that stands for bytes by itself does so in front of others. -/
theorem decode_cons {piece : Piece} {bytes : List UInt8} (alone : decode [piece] = some bytes)
    (pieces : List Piece) : decode (piece :: pieces) = (decode pieces).map (bytes ++ ·) := by
  cases piece with
  | plain byte =>
      simp only [decode, Option.map_some, Option.some.injEq, List.append_nil] at alone
      rw [decode, alone]
  | escape letter =>
      simp only [decode, Option.map_some, Option.some.injEq, List.append_nil] at alone
      rw [decode, alone]
  | unicode first second third fourth =>
      simp only [decode, decodeLow] at alone ⊢
      split at alone
      · cases alone
      · split at alone
        · cases alone
        · rename_i notLow notHigh
          simp only [Option.map_some, Option.some.injEq, List.append_nil] at alone
          rw [if_neg notLow, if_neg notHigh, alone]

/-- The bytes between the quotes of a string. -/
def renderPieces (pieces : List Piece) : List UInt8 := pieces.flatMap Piece.render

/-- A string with its quotes. -/
def renderString (pieces : List Piece) : List UInt8 :=
  0x22 :: renderPieces pieces ++ [0x22]

@[simp] theorem renderPieces_nil : renderPieces [] = [] := rfl

@[simp] theorem renderPieces_cons (piece : Piece) (pieces : List Piece) :
    renderPieces (piece :: pieces) = piece.render ++ renderPieces pieces := rfl

/-! ## Values -/

mutual
/-- A value as it is written. A `word` is a name that stands for a value, after an
optional minus sign. -/
inductive Text where
  | null
  | boolean (value : Bool)
  | number (number : Number)
  | word (negative : Bool) (name : List UInt8)
  | string (pieces : List Piece)
  | emptyArray (gap : Gap)
  | array (gap : Gap) (elements : Elements)
  | emptyObject (gap : Gap)
  | object (gap : Gap) (members : Members)

/-- The elements of an array: each with the gap after it and, if another one follows,
the gap after the comma. -/
inductive Elements where
  | last (value : Text) (tail : Gap)
  | more (value : Text) (tail gap : Gap) (rest : Elements)

/-- The members of an object: the key, the gaps around the colon, the value and the
gaps as for elements. -/
inductive Members where
  | last (key : List Piece) (before after : Gap) (value : Text) (tail : Gap)
  | more (key : List Piece) (before after : Gap) (value : Text) (tail gap : Gap) (rest : Members)
end

mutual
def Text.render : Text → List UInt8
  | .null => [0x6E, 0x75, 0x6C, 0x6C]
  | .boolean true => [0x74, 0x72, 0x75, 0x65]
  | .boolean false => [0x66, 0x61, 0x6C, 0x73, 0x65]
  | .number number => number.render
  | .word negative name => renderMinus negative ++ name
  | .string pieces => renderString pieces
  | .emptyArray gap => 0x5B :: gap.render ++ [0x5D]
  | .array gap elements => 0x5B :: gap.render ++ elements.render
  | .emptyObject gap => 0x7B :: gap.render ++ [0x7D]
  | .object gap members => 0x7B :: gap.render ++ members.render

/-- The elements with the bracket that closes the array. -/
def Elements.render : Elements → List UInt8
  | .last value tail => value.render ++ tail.render ++ [0x5D]
  | .more value tail gap rest => value.render ++ tail.render ++ 0x2C :: gap.render ++ rest.render

/-- The members with the bracket that closes the object. -/
def Members.render : Members → List UInt8
  | .last key before after value tail =>
      renderString key ++ before.render ++ 0x3A :: after.render ++ value.render ++ tail.render ++
        [0x7D]
  | .more key before after value tail gap rest =>
      renderString key ++ before.render ++ 0x3A :: after.render ++ value.render ++ tail.render ++
        0x2C :: gap.render ++ rest.render
end

mutual
/-- How deep containers are nested. -/
def Text.depth : Text → ℕ
  | .emptyArray _ | .emptyObject _ => 1
  | .array _ elements => elements.depth + 1
  | .object _ members => members.depth + 1
  | _ => 0

def Elements.depth : Elements → ℕ
  | .last value _ => value.depth
  | .more value _ _ rest => max value.depth rest.depth

def Members.depth : Members → ℕ
  | .last _ _ _ value _ => value.depth
  | .more _ _ _ value _ _ rest => max value.depth rest.depth
end

/-- The value is an array or an object. -/
def Text.isContainer : Text → Bool
  | .emptyArray _ | .array .. | .emptyObject _ | .object .. => true
  | _ => false

/-! ## Dialects -/

/-- What a grammar leaves open. -/
structure Dialect where
  filler : Filler → Prop
  number : Number → Prop
  word : Bool → List UInt8 → Prop

/-- The grammar of RFC 8259. -/
def rfc8259 : Dialect where
  filler filler := filler.isWhite ∧ filler.Valid
  number := Number.Standard
  word _ _ := False

section Conforms

variable (dialect : Dialect)

/-- Every filler of the gap is allowed. -/
def Gap.Conforms (gap : Gap) : Prop := ∀ filler ∈ gap, dialect.filler filler

/-- Every piece of the string is well written. -/
def ValidPieces (pieces : List Piece) : Prop := ∀ piece ∈ pieces, piece.Valid

mutual
/-- The value is written in the dialect. -/
def Text.Conforms : Text → Prop
  | .null | .boolean _ => True
  | .number number => dialect.number number
  | .word negative name => dialect.word negative name
  | .string pieces => ValidPieces pieces
  | .emptyArray gap | .emptyObject gap => gap.Conforms dialect
  | .array gap elements => gap.Conforms dialect ∧ elements.Conforms
  | .object gap members => gap.Conforms dialect ∧ members.Conforms

def Elements.Conforms : Elements → Prop
  | .last value tail => value.Conforms ∧ tail.Conforms dialect
  | .more value tail gap rest =>
      value.Conforms ∧ tail.Conforms dialect ∧ gap.Conforms dialect ∧ rest.Conforms

def Members.Conforms : Members → Prop
  | .last key before after value tail =>
      ValidPieces key ∧ before.Conforms dialect ∧ after.Conforms dialect ∧ value.Conforms ∧
        tail.Conforms dialect
  | .more key before after value tail gap rest =>
      ValidPieces key ∧ before.Conforms dialect ∧ after.Conforms dialect ∧ value.Conforms ∧
        tail.Conforms dialect ∧ gap.Conforms dialect ∧ rest.Conforms
end

end Conforms

/-! ## Documents -/

/-- A text as a whole: a value with the gaps around it. A line comment at the very
end need not be terminated. -/
structure Document where
  before : Gap
  root : Text
  after : Gap
  unfinished : Option (List UInt8)

namespace Document

/-- A line comment that the end of the text terminates. -/
def renderUnfinished : Option (List UInt8) → List UInt8
  | none => []
  | some body => [0x2F, 0x2F] ++ body

def render (document : Document) : List UInt8 :=
  document.before.render ++ document.root.render ++ document.after.render ++
    renderUnfinished document.unfinished

/-- The document is written in the dialect. -/
structure Conforms (dialect : Dialect) (document : Document) : Prop where
  before : document.before.Conforms dialect
  root : document.root.Conforms dialect
  after : document.after.Conforms dialect
  unfinished : ∀ body, document.unfinished = some body → dialect.filler (.line body)

end Document

/-! ## Dialects compared -/

/-- Everything the first dialect allows is allowed by the second. -/
structure Dialect.Within (first second : Dialect) : Prop where
  filler : ∀ filler, first.filler filler → second.filler filler
  number : ∀ number, first.number number → second.number number
  word : ∀ negative name, first.word negative name → second.word negative name

section Within

variable {first second : Dialect} (within : first.Within second)

include within

theorem Dialect.Within.gap {gap : Gap} (conforms : gap.Conforms first) : gap.Conforms second :=
  fun filler member => within.filler filler (conforms filler member)

mutual
theorem Dialect.Within.text : ∀ text : Text, text.Conforms first → text.Conforms second
  | .null, _ => trivial
  | .boolean _, _ => trivial
  | .number number, conforms => within.number number conforms
  | .word negative name, conforms => within.word negative name conforms
  | .string _, conforms => conforms
  | .emptyArray _, conforms => within.gap conforms
  | .array _ elements, conforms => ⟨within.gap conforms.1, Dialect.Within.elements elements conforms.2⟩
  | .emptyObject _, conforms => within.gap conforms
  | .object _ members, conforms => ⟨within.gap conforms.1, Dialect.Within.members members conforms.2⟩

theorem Dialect.Within.elements : ∀ elements : Elements, elements.Conforms first →
    elements.Conforms second
  | .last value _, ⟨conforms, tail⟩ => ⟨Dialect.Within.text value conforms, within.gap tail⟩
  | .more value _ _ rest, ⟨conforms, tail, gap, others⟩ =>
      ⟨Dialect.Within.text value conforms, within.gap tail, within.gap gap, Dialect.Within.elements rest others⟩

theorem Dialect.Within.members : ∀ members : Members, members.Conforms first → members.Conforms second
  | .last _ _ _ value _, ⟨key, before, after, conforms, tail⟩ =>
      ⟨key, within.gap before, within.gap after, Dialect.Within.text value conforms, within.gap tail⟩
  | .more _ _ _ value _ _ rest, ⟨key, before, after, conforms, tail, gap, others⟩ =>
      ⟨key, within.gap before, within.gap after, Dialect.Within.text value conforms, within.gap tail,
        within.gap gap, Dialect.Within.members rest others⟩
end

theorem Dialect.Within.document {document : Document} (conforms : document.Conforms first) :
    document.Conforms second where
  before := within.gap conforms.before
  root := within.text document.root conforms.root
  after := within.gap conforms.after
  unfinished body found := within.filler _ (conforms.unfinished body found)

end Within

end Join.Library.Json
