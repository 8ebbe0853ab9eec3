import Join.Library.JsonText
import Mathlib.Data.List.Forall2

/-!
# Tokens and the gaps between them

The items of a text are its lexemes and the gaps between them, in the order in
which they are rendered. A position between two tokens is a place in one of the
gaps. The gaps can be filled in any other way: there is a text with the same
lexemes, the same value and these gaps.
-/

set_option autoImplicit false

namespace Join.Library.Json

/-- What a text is made of: lexemes, and the gaps between them. The flag of a gap says
whether it follows an element or the value of a member. -/
inductive Item where
  | lexeme (bytes : List UInt8)
  | gap (tail : Bool) (content : Gap)
deriving DecidableEq, Repr

namespace Item

def render : Item → List UInt8
  | .lexeme bytes => bytes
  | .gap _ content => content.render

/-- The items differ at most in what a gap holds. -/
inductive Alike : Item → Item → Prop where
  | lexeme (bytes : List UInt8) : Alike (.lexeme bytes) (.lexeme bytes)
  | gap (tail : Bool) (first second : Gap) : Alike (.gap tail first) (.gap tail second)

instance : Std.Refl Alike where
  refl item := by
    cases item with
    | lexeme bytes => exact .lexeme bytes
    | gap tail content => exact .gap tail content content

end Item

/-- The bytes of a row of items. -/
def renderItems (items : List Item) : List UInt8 := items.flatMap Item.render

mutual
/-- The items of a value, in order. -/
def Text.items : Text → List Item
  | .emptyArray gap => [.lexeme [0x5B], .gap false gap, .lexeme [0x5D]]
  | .array gap elements => .lexeme [0x5B] :: .gap false gap :: elements.items
  | .emptyObject gap => [.lexeme [0x7B], .gap false gap, .lexeme [0x7D]]
  | .object gap members => .lexeme [0x7B] :: .gap false gap :: members.items
  | scalar => [.lexeme scalar.render]

def Elements.items : Elements → List Item
  | .last value tail => value.items ++ [.gap true tail, .lexeme [0x5D]]
  | .more value tail gap rest =>
      value.items ++ .gap true tail :: .lexeme [0x2C] :: .gap false gap :: rest.items

def Members.items : Members → List Item
  | .last key before after value tail =>
      .lexeme (renderString key) :: .gap false before :: .lexeme [0x3A] :: .gap false after ::
        (value.items ++ [.gap true tail, .lexeme [0x7D]])
  | .more key before after value tail gap rest =>
      .lexeme (renderString key) :: .gap false before :: .lexeme [0x3A] :: .gap false after ::
        (value.items ++ .gap true tail :: .lexeme [0x2C] :: .gap false gap :: rest.items)
end

mutual
/-- The value with nothing in its gaps. -/
def Text.strip : Text → Text
  | .emptyArray _ => .emptyArray []
  | .array _ elements => .array [] elements.strip
  | .emptyObject _ => .emptyObject []
  | .object _ members => .object [] members.strip
  | scalar => scalar

def Elements.strip : Elements → Elements
  | .last value _ => .last value.strip []
  | .more value _ _ rest => .more value.strip [] [] rest.strip

def Members.strip : Members → Members
  | .last key _ _ value _ => .last key [] [] value.strip []
  | .more key _ _ value _ _ rest => .more key [] [] value.strip [] [] rest.strip
end

theorem renderItems_append (first second : List Item) :
    renderItems (first ++ second) = renderItems first ++ renderItems second :=
  List.flatMap_append

@[simp] theorem renderItems_nil : renderItems [] = [] := rfl

@[simp] theorem renderItems_cons (item : Item) (items : List Item) :
    renderItems (item :: items) = item.render ++ renderItems items := rfl

mutual
/-- The items of a value render as the value. -/
theorem Text.render_items : ∀ text : Text, renderItems text.items = text.render
  | .null | .number _ | .word _ _ | .string _ => by
      simp only [Text.items, renderItems_cons, Item.render, renderItems_nil, List.append_nil]
  | .boolean value => by
      simp only [Text.items, renderItems_cons, Item.render, renderItems_nil, List.append_nil]
  | .emptyArray _ | .emptyObject _ => rfl
  | .array gap elements => by
      simp only [Text.items, renderItems_cons, Item.render, Elements.render_items elements,
        Text.render, List.cons_append, List.nil_append]
  | .object gap members => by
      simp only [Text.items, renderItems_cons, Item.render, Members.render_items members,
        Text.render, List.cons_append, List.nil_append]

theorem Elements.render_items : ∀ elements : Elements,
    renderItems elements.items = elements.render
  | .last value tail => by
      simp only [Elements.items, renderItems_append, Text.render_items value, renderItems_cons,
        Item.render, renderItems_nil, List.append_nil, Elements.render, List.append_assoc]
  | .more value tail gap rest => by
      simp only [Elements.items, renderItems_append, Text.render_items value, renderItems_cons,
        Item.render, Elements.render_items rest, Elements.render, List.append_assoc,
        List.cons_append, List.nil_append]

theorem Members.render_items : ∀ members : Members, renderItems members.items = members.render
  | .last key before after value tail => by
      simp only [Members.items, renderItems_append, Text.render_items value, renderItems_cons,
        Item.render, renderItems_nil, List.append_nil, Members.render, List.append_assoc,
        List.cons_append, List.nil_append]
  | .more key before after value tail gap rest => by
      simp only [Members.items, renderItems_append, Text.render_items value, renderItems_cons,
        Item.render, Members.render_items rest, Members.render, List.append_assoc,
        List.cons_append, List.nil_append]
end

/-! ## Other gaps -/

/-- Rows of items that differ at most in what their gaps hold. -/
abbrev AlikeItems := List.Forall₂ Item.Alike

theorem AlikeItems.split {items first second : List Item} (alike : AlikeItems items (first ++ second)) :
    ∃ front back, items = front ++ back ∧ AlikeItems front first ∧ AlikeItems back second :=
  ⟨_, _, (List.take_append_drop first.length items).symm,
    List.forall₂_take_append _ _ _ alike, List.forall₂_drop_append _ _ _ alike⟩

theorem AlikeItems.lexeme {items rest : List Item} {bytes : List UInt8}
    (alike : AlikeItems items (.lexeme bytes :: rest)) :
    ∃ items', items = .lexeme bytes :: items' ∧ AlikeItems items' rest := by
  cases alike with
  | cons first others =>
      cases first
      exact ⟨_, rfl, others⟩

theorem AlikeItems.gap {items rest : List Item} {tail : Bool} {content : Gap}
    (alike : AlikeItems items (.gap tail content :: rest)) :
    ∃ content' items', items = .gap tail content' :: items' ∧ AlikeItems items' rest := by
  cases alike with
  | cons first others =>
      cases first
      exact ⟨_, _, rfl, others⟩

mutual
/-- The gaps of a value can be filled otherwise. -/
theorem Text.exists_refilled : ∀ (text : Text) (items : List Item), AlikeItems items text.items →
    ∃ text' : Text, text'.items = items ∧ text'.strip = text.strip
  | .null, _, alike | .number _, _, alike | .word _ _, _, alike | .string _, _, alike
  | .boolean _, _, alike => by
      obtain ⟨_, rfl, ⟨⟩⟩ := alike.lexeme
      exact ⟨_, rfl, rfl⟩
  | .emptyArray _, _, alike => by
      obtain ⟨_, rfl, afterFirst⟩ := alike.lexeme
      obtain ⟨gap, _, rfl, afterSecond⟩ := afterFirst.gap
      obtain ⟨_, rfl, ⟨⟩⟩ := afterSecond.lexeme
      exact ⟨.emptyArray gap, rfl, rfl⟩
  | .array _ elements, _, alike => by
      obtain ⟨_, rfl, afterFirst⟩ := alike.lexeme
      obtain ⟨gap, _, rfl, afterSecond⟩ := afterFirst.gap
      obtain ⟨elements', rfl, same⟩ := Elements.exists_refilled elements _ afterSecond
      exact ⟨.array gap elements', rfl, by simp only [Text.strip, same]⟩
  | .emptyObject _, _, alike => by
      obtain ⟨_, rfl, afterFirst⟩ := alike.lexeme
      obtain ⟨gap, _, rfl, afterSecond⟩ := afterFirst.gap
      obtain ⟨_, rfl, ⟨⟩⟩ := afterSecond.lexeme
      exact ⟨.emptyObject gap, rfl, rfl⟩
  | .object _ members, _, alike => by
      obtain ⟨_, rfl, afterFirst⟩ := alike.lexeme
      obtain ⟨gap, _, rfl, afterSecond⟩ := afterFirst.gap
      obtain ⟨members', rfl, same⟩ := Members.exists_refilled members _ afterSecond
      exact ⟨.object gap members', rfl, by simp only [Text.strip, same]⟩

theorem Elements.exists_refilled : ∀ (elements : Elements) (items : List Item),
    AlikeItems items elements.items →
    ∃ elements' : Elements, elements'.items = items ∧ elements'.strip = elements.strip
  | .last value _, _, alike => by
      obtain ⟨_, _, rfl, first, afterFirst⟩ := AlikeItems.split alike
      obtain ⟨value', rfl, same⟩ := Text.exists_refilled value _ first
      obtain ⟨tail, _, rfl, afterSecond⟩ := afterFirst.gap
      obtain ⟨_, rfl, ⟨⟩⟩ := afterSecond.lexeme
      exact ⟨.last value' tail, rfl, by simp only [Elements.strip, same]⟩
  | .more value _ _ rest, _, alike => by
      obtain ⟨_, _, rfl, first, afterFirst⟩ := AlikeItems.split alike
      obtain ⟨value', rfl, same⟩ := Text.exists_refilled value _ first
      obtain ⟨tail, _, rfl, afterSecond⟩ := afterFirst.gap
      obtain ⟨_, rfl, afterThird⟩ := afterSecond.lexeme
      obtain ⟨gap, _, rfl, afterFourth⟩ := afterThird.gap
      obtain ⟨rest', rfl, others⟩ := Elements.exists_refilled rest _ afterFourth
      exact ⟨.more value' tail gap rest', rfl, by simp only [Elements.strip, same, others]⟩

theorem Members.exists_refilled : ∀ (members : Members) (items : List Item),
    AlikeItems items members.items →
    ∃ members' : Members, members'.items = items ∧ members'.strip = members.strip
  | .last key _ _ value _, _, alike => by
      obtain ⟨_, rfl, afterFirst⟩ := alike.lexeme
      obtain ⟨before, _, rfl, afterSecond⟩ := afterFirst.gap
      obtain ⟨_, rfl, afterThird⟩ := afterSecond.lexeme
      obtain ⟨after, _, rfl, afterFourth⟩ := afterThird.gap
      obtain ⟨_, _, rfl, first, afterValue⟩ := AlikeItems.split afterFourth
      obtain ⟨value', rfl, same⟩ := Text.exists_refilled value _ first
      obtain ⟨tail, _, rfl, afterTail⟩ := afterValue.gap
      obtain ⟨_, rfl, ⟨⟩⟩ := afterTail.lexeme
      exact ⟨.last key before after value' tail, rfl, by simp only [Members.strip, same]⟩
  | .more key _ _ value _ _ rest, _, alike => by
      obtain ⟨_, rfl, afterFirst⟩ := alike.lexeme
      obtain ⟨before, _, rfl, afterSecond⟩ := afterFirst.gap
      obtain ⟨_, rfl, afterThird⟩ := afterSecond.lexeme
      obtain ⟨after, _, rfl, afterFourth⟩ := afterThird.gap
      obtain ⟨_, _, rfl, first, afterValue⟩ := AlikeItems.split afterFourth
      obtain ⟨value', rfl, same⟩ := Text.exists_refilled value _ first
      obtain ⟨tail, _, rfl, afterTail⟩ := afterValue.gap
      obtain ⟨_, rfl, afterComma⟩ := afterTail.lexeme
      obtain ⟨gap, _, rfl, afterGap⟩ := afterComma.gap
      obtain ⟨rest', rfl, others⟩ := Members.exists_refilled rest _ afterGap
      exact ⟨.more key before after value' tail gap rest', rfl,
        by simp only [Members.strip, same, others]⟩
end

/-! ## Grammar -/

section Conforms

variable {dialect : Dialect}

/-- Every gap of a row of items conforms. -/
def GapsConform (dialect : Dialect) (items : List Item) : Prop :=
  ∀ tail content, .gap tail content ∈ items → Gap.Conforms dialect content

theorem gapsConform_append {first second : List Item} :
    GapsConform dialect (first ++ second) ↔
      GapsConform dialect first ∧ GapsConform dialect second := by
  simp only [GapsConform, List.mem_append, or_imp, forall_and]

theorem gapsConform_lexeme {bytes : List UInt8} {items : List Item} :
    GapsConform dialect (.lexeme bytes :: items) ↔ GapsConform dialect items := by
  simp only [GapsConform, List.mem_cons, reduceCtorEq, false_or]

theorem gapsConform_gap {tail : Bool} {content : Gap} {items : List Item} :
    GapsConform dialect (.gap tail content :: items) ↔
      content.Conforms dialect ∧ GapsConform dialect items := by
  constructor
  · intro conform
    exact ⟨conform tail content List.mem_cons_self,
      fun tail' content' member => conform tail' content' (List.mem_cons_of_mem _ member)⟩
  · rintro ⟨first, others⟩ tail' content' member
    rcases List.mem_cons.mp member with same | member
    · cases same
      exact first
    · exact others tail' content' member

theorem gapsConform_nil : GapsConform dialect [] :=
  fun _ _ absurd => by cases absurd

theorem conforms_nil : Gap.Conforms dialect [] := List.forall_mem_nil _

mutual
/-- A text conforms when it does without its gaps, and the gaps conform. -/
theorem Text.conforms_iff : ∀ text : Text, text.Conforms dialect ↔
    text.strip.Conforms dialect ∧ GapsConform dialect text.items
  | .null | .number _ | .word _ _ | .string _ | .boolean _ => by
      simp only [Text.items, Text.strip, gapsConform_lexeme, gapsConform_nil, and_true]
  | .emptyArray _ | .emptyObject _ => by
      simp only [Text.items, Text.strip, Text.Conforms, gapsConform_lexeme, gapsConform_gap,
        gapsConform_nil, conforms_nil, and_true, true_and]
  | .array gap elements => by
      simp only [Text.items, Text.strip, Text.Conforms, gapsConform_lexeme, gapsConform_gap,
        Elements.conforms_iff elements, conforms_nil, true_and]
      exact and_left_comm
  | .object gap members => by
      simp only [Text.items, Text.strip, Text.Conforms, gapsConform_lexeme, gapsConform_gap,
        Members.conforms_iff members, conforms_nil, true_and]
      exact and_left_comm

theorem Elements.conforms_iff : ∀ elements : Elements, elements.Conforms dialect ↔
    elements.strip.Conforms dialect ∧ GapsConform dialect elements.items
  | .last value tail => by
      simp only [Elements.items, Elements.strip, Elements.Conforms, gapsConform_append,
        gapsConform_lexeme, gapsConform_gap, gapsConform_nil, Text.conforms_iff value,
        conforms_nil, and_true, and_assoc]
  | .more value tail gap rest => by
      simp only [Elements.items, Elements.strip, Elements.Conforms, gapsConform_append,
        gapsConform_lexeme, gapsConform_gap, Text.conforms_iff value,
        Elements.conforms_iff rest, conforms_nil, true_and]
      tauto

theorem Members.conforms_iff : ∀ members : Members, members.Conforms dialect ↔
    members.strip.Conforms dialect ∧ GapsConform dialect members.items
  | .last key before after value tail => by
      simp only [Members.items, Members.strip, Members.Conforms, gapsConform_append,
        gapsConform_lexeme, gapsConform_gap, gapsConform_nil, Text.conforms_iff value,
        conforms_nil, and_true, true_and]
      tauto
  | .more key before after value tail gap rest => by
      simp only [Members.items, Members.strip, Members.Conforms, gapsConform_append,
        gapsConform_lexeme, gapsConform_gap, Text.conforms_iff value,
        Members.conforms_iff rest, conforms_nil, true_and]
      tauto
end

end Conforms

/-! ## Documents -/

namespace Document

/-- The items of a document, up to a line comment that is not terminated. -/
def items (document : Document) : List Item :=
  .gap false document.before :: (document.root.items ++ [.gap false document.after])

theorem render_eq (document : Document) :
    document.render = renderItems document.items ++ renderUnfinished document.unfinished := by
  simp only [render, items, renderItems_cons, renderItems_append, Text.render_items, Item.render,
    renderItems_nil, List.append_nil, List.append_assoc]

theorem conforms_iff {dialect : Dialect} (document : Document) :
    document.Conforms dialect ↔ document.root.strip.Conforms dialect ∧
      GapsConform dialect document.items ∧
      ∀ body, document.unfinished = some body → dialect.filler (.line body) := by
  simp only [items, gapsConform_gap, gapsConform_append, gapsConform_nil, and_true]
  constructor
  · rintro ⟨before, root, after, unfinished⟩
    obtain ⟨root, gaps⟩ := (Text.conforms_iff document.root).mp root
    exact ⟨root, ⟨before, gaps, after⟩, unfinished⟩
  · rintro ⟨root, ⟨before, gaps, after⟩, unfinished⟩
    exact ⟨before, (Text.conforms_iff document.root).mpr ⟨root, gaps⟩, after, unfinished⟩

/-- The gaps of a document can be filled otherwise. -/
theorem exists_refilled (document : Document) {items' : List Item}
    (alike : AlikeItems items' document.items) :
    ∃ document' : Document, document'.items = items' ∧
      document'.root.strip = document.root.strip ∧
      document'.unfinished = document.unfinished := by
  obtain ⟨before, _, rfl, others⟩ := alike.gap
  obtain ⟨_, _, rfl, inner, last⟩ := AlikeItems.split others
  obtain ⟨root, rfl, same⟩ := Text.exists_refilled document.root _ inner
  obtain ⟨after, _, rfl, ⟨⟩⟩ := last.gap
  exact ⟨⟨before, root, after, document.unfinished⟩, rfl, same, rfl⟩

end Document

end Join.Library.Json
