import Join.Data.Reading
import Join.Data.ViewRefinement

/-!
# Readings through two views

A program over a lawful view and the same program over the plain view proceed in
step when they return the same value, have the same bytes still to come and hold
the same handler. The primitives do, and the rules of `Simulates` carry this to
every program made of them. Only the place where a failed document is abandoned
may differ.
-/

set_option autoImplicit false

namespace Join

open Library

/-- Two readings with the same bytes to come and the same handler. -/
def SameReading {V : Type} [View V] [LawfulView V] (left : Reading V) (right : Reading PlainView) :
    Prop :=
  LawfulView.Represents left.document right.document ∧ left.handler = right.handler

/-- Two readings that agree on the handler only. -/
def SameHandler {V : Type} (left : Reading V) (right : Reading PlainView) : Prop :=
  left.handler = right.handler

/-- The two sides produce the same value and stay in step. -/
abbrev InStep {V α : Type} [View V] [LawfulView V] (concrete : Reader V α)
    (abstract : Reader PlainView α) : Prop :=
  Simulates SameReading (Same SameReading) SameHandler concrete abstract

/-- In step, with marks that remember the same bytes. -/
def SameMark {V : Type} [View V] [LawfulView V] (mark : View.Mark V) (kept : Bytes)
    (left : Reading V) (right : Reading PlainView) : Prop :=
  SameReading left right ∧ LawfulView.Remembers mark left.document kept

/-- The same value and marks that remember the same bytes. -/
def SameMarked {V α : Type} [View V] [LawfulView V] (result : α × View.Mark V)
    (result' : α × Bytes) (left : Reading V) (right : Reading PlainView) : Prop :=
  result.1 = result'.1 ∧ SameMark result.2 result'.2 left right

/-- The same two values and marks that remember the same bytes. -/
def SameMarked₂ {V α β : Type} [View V] [LawfulView V] (result : α × β × View.Mark V)
    (result' : α × β × Bytes) (left : Reading V) (right : Reading PlainView) : Prop :=
  result.1 = result'.1 ∧ SameMarked result.2 result'.2 left right

namespace Reader

variable {V α : Type} [View V] [LawfulView V]

theorem sameHandler_of_sameReading (left : Reading V) (right : Reading PlainView)
    (same : SameReading left right) : SameHandler left right := same.2

theorem sameHandler_of_sameMark {mark : View.Mark V} {kept : Bytes} (left : Reading V)
    (right : Reading PlainView) (same : SameMark mark kept left right) : SameHandler left right :=
  same.1.2

theorem pure_inStep (value : α) : InStep (pure value : Reader V α) (pure value) :=
  .pure fun _ _ same => ⟨rfl, same⟩

theorem fail_inStep (failure : Failure) :
    InStep (Program.fail failure : Reader V α) (Program.fail failure) :=
  .fail sameHandler_of_sameReading failure

/-- A primitive that agrees with the plain view's keeps the readings in step. -/
theorem doc_inStep {primitive : V → α × V} {primitive' : PlainView → α × PlainView}
    (agrees : ∀ {view plain}, LawfulView.Represents view plain →
      (primitive view).1 = (primitive' plain).1 ∧
        LawfulView.Represents (primitive view).2 (primitive' plain).2) :
    InStep (doc primitive) (doc primitive') :=
  .act fun _ _ same => ⟨(agrees same.1).1, (agrees same.1).2, same.2⟩

theorem event_inStep (program : Program StreamReader Failure α) :
    InStep (event program : Reader V α) (event program) := by
  intro left right same
  have handler : left.handler = right.handler := same.2
  simp only [event, handler]
  rcases program right.handler with _ | ⟨failure | value, after⟩
  · trivial
  · exact ⟨rfl, rfl⟩
  · exact ⟨rfl, same.1, rfl⟩

theorem peek_inStep : InStep (peek : Reader V Character) peek :=
  .gets fun _ _ same => ⟨LawfulView.peek same.1, same⟩

theorem get_inStep : InStep (get : Reader V Character) get := doc_inStep LawfulView.get

theorem getIf_inStep (expected : UInt8) : InStep (getIf expected : Reader V Bool) (getIf expected) :=
  doc_inStep (LawfulView.getIf expected)

theorem getIfNoCase_inStep (expected : UInt8) :
    InStep (getIfNoCase expected : Reader V Bool) (getIfNoCase expected) :=
  doc_inStep (LawfulView.getIfNoCase expected)

theorem read_inStep (count : ℕ) : InStep (read count : Reader V Bytes) (read count) :=
  doc_inStep (LawfulView.read count)

theorem setValue_inStep (value : Value) : InStep (setValue value : Reader V Unit) (setValue value) :=
  event_inStep _

/-- A call does not depend on the view it reads through. -/
theorem outcome_eq {concrete : Reader V Unit} {abstract : Reader PlainView Unit}
    (inStep : InStep concrete abstract) {view : V} {plain : PlainView}
    (represents : LawfulView.Represents view plain) (handler : StreamReader) :
    outcome handler (concrete ⟨view, handler⟩) = outcome handler (abstract ⟨plain, handler⟩) := by
  have same : SameReading ⟨view, handler⟩ ⟨plain, handler⟩ := ⟨represents, rfl⟩
  have step := inStep same
  revert step
  rcases concrete ⟨view, handler⟩ with _ | ⟨failure | value, left⟩ <;>
    rcases abstract ⟨plain, handler⟩ with _ | ⟨failure' | value', right⟩ <;> intro step
  case none.none => rfl
  case some.error.some.error => exact congrArg (Prod.mk _) step.2
  case some.ok.some.ok => exact congrArg (Prod.mk _) step.2.2
  all_goals exact step.elim

/-! ### With a buffering view -/

variable {mark : View.Mark V} {kept : Bytes}

theorem peek_sameMark :
    Simulates (SameMark mark kept) (Same (SameMark mark kept)) SameHandler
      (peek : Reader V Character) peek :=
  .gets fun _ _ same => ⟨LawfulView.peek same.1.1, same⟩

theorem mark_simulates :
    Simulates SameReading (fun mark kept => SameMark mark kept) SameHandler
      (Reader.mark : Reader V (View.Mark V)) Reader.mark :=
  .gets fun _ _ same => ⟨same, LawfulView.mark same.1⟩

theorem bufferedGet_simulates :
    Simulates (SameMark mark kept) SameMarked SameHandler
      (buffered View.bufferedGet mark : Reader V (Character × View.Mark V))
      (buffered View.bufferedGet kept) := by
  refine .act fun left right same => ?_
  obtain ⟨value, represents, remembers⟩ := LawfulView.bufferedGet same.1.1 same.2
  exact ⟨value, ⟨represents, same.1.2⟩, remembers⟩

theorem bufferedGetIf_simulates (expected : UInt8) :
    Simulates (SameMark mark kept) SameMarked SameHandler
      (buffered (View.bufferedGetIf expected) mark : Reader V (Bool × View.Mark V))
      (buffered (View.bufferedGetIf expected) kept) := by
  refine .act fun left right same => ?_
  obtain ⟨value, represents, remembers⟩ := LawfulView.bufferedGetIf expected same.1.1 same.2
  exact ⟨value, ⟨represents, same.1.2⟩, remembers⟩

theorem snapshot_simulates :
    Simulates (SameMark mark kept) (Same SameReading) SameHandler
      (snapshot mark : Reader V Bytes) (snapshot kept) := by
  refine .act fun left right same => ?_
  obtain ⟨bytes, represents⟩ := LawfulView.snapshot same.1.1 same.2
  exact ⟨bytes, represents, same.1.2⟩

/-- After a marked step the values are the same and the marks are related. -/
theorem bindMarked {β β' : Type} {before : Reading V → Reading PlainView → Prop}
    {first : Reader V (α × View.Mark V)} {first' : Reader PlainView (α × Bytes)}
    {next : α × View.Mark V → Reader V β} {next' : α × Bytes → Reader PlainView β'}
    {final : β → β' → Reading V → Reading PlainView → Prop}
    (simulatesFirst : Simulates before SameMarked SameHandler first first')
    (simulatesNext : ∀ value mark kept, Simulates (SameMark mark kept) final SameHandler
      (next (value, mark)) (next' (value, kept))) :
    Simulates before final SameHandler (first >>= next) (first' >>= next') := by
  refine simulatesFirst.bind ?_
  rintro ⟨value, mark⟩ ⟨value', kept⟩ left right ⟨rfl, same⟩
  exact simulatesNext value mark kept same

theorem bindMarked₂ {β γ γ' : Type} {before : Reading V → Reading PlainView → Prop}
    {first : Reader V (α × β × View.Mark V)} {first' : Reader PlainView (α × β × Bytes)}
    {next : α × β × View.Mark V → Reader V γ} {next' : α × β × Bytes → Reader PlainView γ'}
    {final : γ → γ' → Reading V → Reading PlainView → Prop}
    (simulatesFirst : Simulates before SameMarked₂ SameHandler first first')
    (simulatesNext : ∀ value other mark kept, Simulates (SameMark mark kept) final SameHandler
      (next (value, other, mark)) (next' (value, other, kept))) :
    Simulates before final SameHandler (first >>= next) (first' >>= next') := by
  refine simulatesFirst.bind ?_
  rintro ⟨value, other, mark⟩ ⟨value', other', kept⟩ left right ⟨rfl, rfl, same⟩
  exact simulatesNext value other mark kept same

theorem pure_sameMarked (value : α) :
    Simulates (SameMark mark kept) SameMarked SameHandler
      (pure (value, mark) : Reader V (α × View.Mark V)) (pure (value, kept)) :=
  .pure fun _ _ same => ⟨rfl, same⟩

theorem pure_sameMarked₂ {β : Type} (value : α) (other : β) :
    Simulates (SameMark mark kept) SameMarked₂ SameHandler
      (pure (value, other, mark) : Reader V (α × β × View.Mark V)) (pure (value, other, kept)) :=
  .pure fun _ _ same => ⟨rfl, rfl, same⟩

theorem dropMark {after : α → α → Reading V → Reading PlainView → Prop} {concrete : Reader V α}
    {abstract : Reader PlainView α}
    (simulates : Simulates SameReading after SameHandler concrete abstract) :
    Simulates (SameMark mark kept) after SameHandler concrete abstract :=
  simulates.weakenBefore fun _ _ same => same.1

end Reader

end Join
