import Join.Data.JsonReader
import Join.Data.ReadingViews

/-!
# The reader does not see which view it reads

A reader over any lawful view and the same reader over the plain view proceed in
step: they call the same events in the same order, so they return the same code
and leave the same handler. Only the place where a failed document is abandoned
may differ.
-/

set_option autoImplicit false

namespace Join

open Library

namespace JsonReader

open Reader

variable {V : Type} [View V] [LawfulView V]

theorem expect_inStep : ∀ bytes : Bytes, InStep (expect bytes : Reader V Unit) (expect bytes)
  | [] => pure_inStep ()
  | _ :: bytes =>
      get_inStep.bindSame fun _ =>
        .ite (fun _ => expect_inStep bytes) fun _ => fail_inStep _

theorem expectNoCase_inStep :
    ∀ bytes : Bytes, InStep (expectNoCase bytes : Reader V Bool) (expectNoCase bytes)
  | [] => pure_inStep true
  | byte :: bytes =>
      (getIfNoCase_inStep byte).bindSame fun _ =>
        .ite (fun _ => expectNoCase_inStep bytes) fun _ => pure_inStep false

theorem readNull_inStep : InStep (readNull : Reader V Unit) readNull :=
  (expect_inStep _).bindSame fun _ => setValue_inStep _

theorem readTrue_inStep : InStep (readTrue : Reader V Unit) readTrue :=
  (expect_inStep _).bindSame fun _ => setValue_inStep _

theorem readFalse_inStep : InStep (readFalse : Reader V Unit) readFalse :=
  (expect_inStep _).bindSame fun _ => setValue_inStep _

theorem readInf_inStep (negative : Bool) :
    InStep (readInf negative : Reader V Unit) (readInf negative) := by
  refine (expectNoCase_inStep _).bindSame fun short => .ite (fun _ => ?_) fun _ => fail_inStep _
  refine (getIfNoCase_inStep _).bindSame fun long => .ite (fun _ => ?_) fun _ => setValue_inStep _
  refine (expectNoCase_inStep _).bindSame fun complete => ?_
  exact .ite (fun _ => setValue_inStep _) fun _ => fail_inStep _

theorem readNan_inStep (negative : Bool) :
    InStep (readNan negative : Reader V Unit) (readNan negative) :=
  (expectNoCase_inStep _).bindSame fun _ =>
    .ite (fun _ => setValue_inStep _) fun _ => fail_inStep _

/-! ## Numbers -/

theorem integerDigits_simulates (max64 fuel : ℕ) (scan : Scan) (mark : View.Mark V) (kept : Bytes) :
    Simulates (SameMark mark kept) SameMarked SameHandler
      (integerDigits max64 fuel scan mark : Reader V _) (integerDigits max64 fuel scan kept) := by
  induction fuel generalizing scan mark kept with
  | zero => exact .exhausted
  | succ fuel ih =>
      refine peek_sameMark.bindSame fun character => .ite (fun _ => ?_) fun _ => pure_sameMarked _
      refine .ite (fun _ => pure_sameMarked _) fun _ => ?_
      exact bindMarked bufferedGet_simulates fun _ mark kept => ih _ mark kept

theorem overflowDigits_simulates (fuel : ℕ) (scan : Scan) (mark : View.Mark V) (kept : Bytes) :
    Simulates (SameMark mark kept) SameMarked SameHandler
      (overflowDigits fuel scan mark : Reader V _) (overflowDigits fuel scan kept) := by
  induction fuel generalizing scan mark kept with
  | zero => exact .exhausted
  | succ fuel ih =>
      refine peek_sameMark.bindSame fun character => .ite (fun _ => ?_) fun _ => pure_sameMarked _
      exact bindMarked bufferedGet_simulates fun _ mark kept => ih _ mark kept

theorem fractionDigits_simulates (fuel : ℕ) (scan : Scan) (frac : ℤ) (mark : View.Mark V)
    (kept : Bytes) :
    Simulates (SameMark mark kept) SameMarked₂ SameHandler
      (fractionDigits fuel scan frac mark : Reader V _) (fractionDigits fuel scan frac kept) := by
  induction fuel generalizing scan frac mark kept with
  | zero => exact .exhausted
  | succ fuel ih =>
      refine peek_sameMark.bindSame fun character => .ite (fun _ => ?_) fun _ => pure_sameMarked₂ _ _
      exact bindMarked bufferedGet_simulates fun _ mark kept => ih _ _ mark kept

theorem exponentDigits_simulates (fuel : ℕ) (exponent : ℤ) (mark : View.Mark V) (kept : Bytes) :
    Simulates (SameMark mark kept) SameMarked SameHandler
      (exponentDigits fuel exponent mark : Reader V _) (exponentDigits fuel exponent kept) := by
  induction fuel generalizing exponent mark kept with
  | zero => exact .exhausted
  | succ fuel ih =>
      refine peek_sameMark.bindSame fun character => .ite (fun _ => ?_) fun _ => pure_sameMarked _
      exact bindMarked bufferedGet_simulates fun _ mark kept => ih _ mark kept

theorem readFraction_simulates (fuel : ℕ) (scan : Scan) (mark : View.Mark V) (kept : Bytes) :
    Simulates (SameMark mark kept) SameMarked₂ SameHandler
      (readFraction fuel scan mark : Reader V _) (readFraction fuel scan kept) := by
  refine bindMarked (bufferedGetIf_simulates _) fun point mark kept => ?_
  exact .ite (fun _ => fractionDigits_simulates fuel _ _ mark kept) fun _ => pure_sameMarked₂ _ _

theorem readExponentSign_simulates (mark : View.Mark V) (kept : Bytes) :
    Simulates (SameMark mark kept) SameMarked SameHandler
      (readExponentSign mark : Reader V _) (readExponentSign kept) := by
  refine peek_sameMark.bindSame fun character => .ite (fun _ => ?_) fun _ => pure_sameMarked _
  exact bindMarked bufferedGet_simulates fun _ _ _ => pure_sameMarked _

theorem readExponentBody_simulates (fuel : ℕ) (mark : View.Mark V) (kept : Bytes) :
    Simulates (SameMark mark kept) SameMarked SameHandler
      (readExponentBody fuel mark : Reader V _) (readExponentBody fuel kept) := by
  refine bindMarked (readExponentSign_simulates mark kept) fun negExp mark kept => ?_
  refine peek_sameMark.bindSame fun character => .ite (fun _ => ?_) fun _ =>
    .fail sameHandler_of_sameMark _
  refine bindMarked bufferedGet_simulates fun _ mark kept => ?_
  exact bindMarked (exponentDigits_simulates fuel _ mark kept) fun _ _ _ => pure_sameMarked _

theorem getExponentMark_simulates (mark : View.Mark V) (kept : Bytes) :
    Simulates (SameMark mark kept) SameMarked SameHandler
      (getExponentMark mark : Reader V _) (getExponentMark kept) := by
  refine bindMarked (bufferedGetIf_simulates _) fun lower mark kept => ?_
  exact .ite (fun _ => pure_sameMarked _) fun _ => bufferedGetIf_simulates _

theorem readExponent_simulates (fuel : ℕ) (scan : Scan) (mark : View.Mark V) (kept : Bytes) :
    Simulates (SameMark mark kept) SameMarked₂ SameHandler
      (readExponent fuel scan mark : Reader V _) (readExponent fuel scan kept) := by
  refine bindMarked (getExponentMark_simulates mark kept) fun found mark kept => ?_
  refine .ite (fun _ => ?_) fun _ => pure_sameMarked₂ _ _
  exact bindMarked (readExponentBody_simulates fuel mark kept) fun _ _ _ => pure_sameMarked₂ _ _

theorem finishNumber_simulates (negative : Bool) (scan : Scan) (exponent : ℤ) (mark : View.Mark V)
    (kept : Bytes) :
    Simulates (SameMark mark kept) (Same SameReading) SameHandler
      (finishNumber negative scan exponent mark : Reader V Unit)
      (finishNumber negative scan exponent kept) := by
  refine .ite (fun _ => ?_) fun _ => dropMark (setValue_inStep _)
  cases fastValue negative scan.u scan.digits exponent with
  | some value => exact dropMark (setValue_inStep value)
  | none =>
      refine snapshot_simulates.bindSame fun number => ?_
      cases strtodSlow number with
      | some value => exact setValue_inStep _
      | none => exact fail_inStep _

theorem readOverflow_simulates (fuel : ℕ) (scan : Scan) (mark : View.Mark V) (kept : Bytes) :
    Simulates (SameMark mark kept) SameMarked SameHandler
      (readOverflow fuel scan mark : Reader V _) (readOverflow fuel scan kept) :=
  .ite (fun _ => overflowDigits_simulates fuel scan mark kept) fun _ => pure_sameMarked _

theorem readScale_simulates (fuel : ℕ) (negative : Bool) (scan : Scan) (mark : View.Mark V)
    (kept : Bytes) :
    Simulates (SameMark mark kept) (Same SameReading) SameHandler
      (readScale fuel negative scan mark : Reader V Unit) (readScale fuel negative scan kept) := by
  refine bindMarked₂ (readFraction_simulates fuel scan mark kept) fun scan frac mark kept => ?_
  refine bindMarked₂ (readExponent_simulates fuel scan mark kept) fun scan exponent mark kept => ?_
  exact finishNumber_simulates negative scan _ mark kept

theorem readNumberTail_simulates (fuel : ℕ) (negative : Bool) (scan : Scan) (mark : View.Mark V)
    (kept : Bytes) :
    Simulates (SameMark mark kept) (Same SameReading) SameHandler
      (readNumberTail fuel negative scan mark : Reader V Unit)
      (readNumberTail fuel negative scan kept) := by
  refine bindMarked (readOverflow_simulates fuel scan mark kept) fun scan mark kept => ?_
  exact readScale_simulates fuel negative scan mark kept

theorem readWord_inStep (negative : Bool) :
    InStep (readWord negative : Reader V Unit) (readWord negative) := by
  refine (getIfNoCase_inStep _).bindSame fun inf => .ite (fun _ => readInf_inStep _) fun _ => ?_
  refine (getIfNoCase_inStep _).bindSame fun nan => .ite (fun _ => readNan_inStep _) fun _ => ?_
  exact fail_inStep _

theorem readDigits_simulates (fuel : ℕ) (negative : Bool) (mark : View.Mark V) (kept : Bytes) :
    Simulates (SameMark mark kept) (Same SameReading) SameHandler
      (readDigits fuel negative mark : Reader V Unit) (readDigits fuel negative kept) := by
  refine bindMarked (bufferedGetIf_simulates _) fun zero mark kept => .ite (fun _ => ?_) fun _ => ?_
  · refine peek_sameMark.bindSame fun character => .ite (fun _ => ?_) fun _ => ?_
    · exact .fail sameHandler_of_sameMark _
    · exact readNumberTail_simulates fuel negative _ mark kept
  · refine peek_sameMark.bindSame fun character => .ite (fun _ => ?_) fun _ => dropMark ?_
    · refine bindMarked bufferedGet_simulates fun _ mark kept => ?_
      refine bindMarked (integerDigits_simulates _ fuel _ mark kept) fun scan mark kept => ?_
      exact readNumberTail_simulates fuel negative scan mark kept
    · exact readWord_inStep negative

theorem readNumber_inStep (fuel : ℕ) :
    InStep (readNumber fuel : Reader V Unit) (readNumber fuel) := by
  refine mark_simulates.bind fun mark kept => ?_
  refine bindMarked (bufferedGetIf_simulates _) fun negative mark kept => ?_
  exact readDigits_simulates fuel negative mark kept

/-! ## Strings -/

theorem hexDigits_inStep (count u : ℕ) :
    InStep (hexDigits count u : Reader V ℕ) (hexDigits count u) := by
  induction count generalizing u with
  | zero => exact pure_inStep u
  | succ count ih =>
      refine get_inStep.bindSame fun character => ?_
      cases hexValue character.toByte with
      | some digit => exact ih _
      | none => exact fail_inStep _

theorem appendCodepoint_inStep (u : ℕ) :
    InStep (appendCodepoint u : Reader V Bytes) (appendCodepoint u) :=
  .ite (fun _ => fail_inStep _) fun _ => pure_inStep _

theorem readUnicode_inStep : InStep (readUnicode : Reader V Bytes) readUnicode := by
  refine (hexDigits_inStep 4 0).bindSame fun u => .ite (fun _ => fail_inStep _) fun _ => ?_
  refine .ite (fun _ => ?_) fun _ => appendCodepoint_inStep u
  refine get_inStep.bindSame fun backslash => .ite (fun _ => fail_inStep _) fun _ => ?_
  refine get_inStep.bindSame fun letter => .ite (fun _ => fail_inStep _) fun _ => ?_
  refine (hexDigits_inStep 4 0).bindSame fun v => .ite (fun _ => fail_inStep _) fun _ => ?_
  exact appendCodepoint_inStep _

theorem readEscaped_inStep : InStep (readEscaped : Reader V Bytes) readEscaped := by
  refine get_inStep.bindSame fun character => ?_
  cases character with
  | none => exact fail_inStep _
  | some letter =>
      simp only
      cases simpleEscape letter with
      | some byte => exact pure_inStep _
      | none => exact .ite (fun _ => readUnicode_inStep) fun _ => fail_inStep _

theorem stringLoop_inStep (fuel : ℕ) (output : Bytes) :
    InStep (stringLoop fuel output : Reader V Bytes) (stringLoop fuel output) := by
  induction fuel generalizing output with
  | zero => exact .exhausted
  | succ fuel ih =>
      refine (doc_inStep LawfulView.readUntilEscaped).bindSame fun plain =>
        peek_inStep.bindSame fun character => .ite (fun _ => ?_) fun _ => .ite (fun _ => ?_) fun _ => ?_
      · exact get_inStep.bindSame fun _ => pure_inStep _
      · exact get_inStep.bindSame fun _ => readEscaped_inStep.bindSame fun _ => ih _
      · cases character with
        | none => exact fail_inStep _
        | some byte => exact .ite (fun _ => fail_inStep _) fun _ => ih _

theorem readString_inStep (fuel : ℕ) : InStep (readString fuel : Reader V Unit) (readString fuel) :=
  (stringLoop_inStep fuel []).bindSame fun _ => setValue_inStep _

theorem readKey_inStep (fuel : ℕ) : InStep (readKey fuel : Reader V Unit) (readKey fuel) :=
  (stringLoop_inStep fuel []).bindSame fun _ => event_inStep _

/-! ## Values -/

variable (mode : JsonReadMode)

/-- A comment that cannot be skipped fails on both sides, wherever they stopped. -/
theorem skipWhitespaces_inStep :
    InStep (skipWhitespaces mode : Reader V Unit) (skipWhitespaces mode) := by
  refine .ite (fun _ => ?_) fun _ => ?_
  · intro left right same
    obtain ⟨flag, represents⟩ := LawfulView.skipWhitespacesAndComments same.1
    simp only [Program.bind_apply, doc, Program.act_apply, ← flag]
    cases skipped : (View.skipWhitespacesAndComments left.document).1 with
    | true => exact ⟨rfl, represents skipped, same.2⟩
    | false => exact ⟨rfl, same.2⟩
  · exact doc_inStep fun represents => ⟨rfl, LawfulView.skipWhitespaces represents⟩

theorem getSeparator_inStep :
    InStep (getSeparator mode : Reader V Character) (getSeparator mode) := by
  refine get_inStep.bindSame fun character => .ite (fun _ => ?_) fun _ => pure_inStep _
  exact (skipWhitespaces_inStep mode).bindSame fun _ => get_inStep

theorem getColon_inStep : InStep (getColon mode : Reader V Character) (getColon mode) := by
  refine peek_inStep.bindSame fun next => .ite (fun _ => ?_) fun _ => get_inStep
  exact (skipWhitespaces_inStep mode).bindSame fun _ => get_inStep

/-- The five mutually recursive functions proceed in step. -/
theorem value_inStep (fuel : ℕ) :
    InStep (readValue mode fuel : Reader V Unit) (readValue mode fuel) ∧
      InStep (readArray mode fuel : Reader V Unit) (readArray mode fuel) ∧
      InStep (readElements mode fuel : Reader V Unit) (readElements mode fuel) ∧
      InStep (readObject mode fuel : Reader V Unit) (readObject mode fuel) ∧
      InStep (readMembers mode fuel : Reader V Unit) (readMembers mode fuel) := by
  induction fuel with
  | zero => exact ⟨.exhausted, .exhausted, .exhausted, .exhausted, .exhausted⟩
  | succ fuel ih =>
      obtain ⟨value, array, elements, object, members⟩ := ih
      refine ⟨?_, ?_, ?_, ?_, ?_⟩
      · refine peek_inStep.bindSame fun character => .ite (fun _ => ?_) fun _ => .ite (fun _ => ?_)
          fun _ => .ite (fun _ => ?_) fun _ => .ite (fun _ => ?_) fun _ => .ite (fun _ => ?_)
          fun _ => .ite (fun _ => ?_) fun _ => readNumber_inStep fuel
        · exact get_inStep.bindSame fun _ => array
        · exact get_inStep.bindSame fun _ => object
        · exact get_inStep.bindSame fun _ => readString_inStep fuel
        · exact get_inStep.bindSame fun _ => readNull_inStep
        · exact get_inStep.bindSame fun _ => readTrue_inStep
        · exact get_inStep.bindSame fun _ => readFalse_inStep
      · refine (event_inStep _).bindSame fun _ => (skipWhitespaces_inStep mode).bindSame fun _ =>
          (getIf_inStep _).bindSame fun closed => ?_
        exact .ite (fun _ => event_inStep _) fun _ => elements
      · refine value.bindSame fun _ => (getSeparator_inStep mode).bindSame fun character =>
          .ite (fun _ => ?_) fun _ => .ite (fun _ => event_inStep _) fun _ => fail_inStep _
        exact (skipWhitespaces_inStep mode).bindSame fun _ => elements
      · refine (event_inStep _).bindSame fun _ => (skipWhitespaces_inStep mode).bindSame fun _ =>
          (getIf_inStep _).bindSame fun closed => ?_
        exact .ite (fun _ => event_inStep _) fun _ => members
      · refine get_inStep.bindSame fun quote => .ite (fun _ => fail_inStep _) fun _ => ?_
        refine (readKey_inStep fuel).bindSame fun _ => (getColon_inStep mode).bindSame fun colon =>
          .ite (fun _ => fail_inStep _) fun _ => ?_
        refine (skipWhitespaces_inStep mode).bindSame fun _ => value.bindSame fun _ =>
          (getSeparator_inStep mode).bindSame fun character =>
          .ite (fun _ => ?_) fun _ => .ite (fun _ => event_inStep _) fun _ => fail_inStep _
        exact (skipWhitespaces_inStep mode).bindSame fun _ => members

theorem read_inStep (fuel : ℕ) :
    InStep (JsonReader.read mode fuel : Reader V Unit) (JsonReader.read mode fuel) := by
  refine (skipWhitespaces_inStep mode).bindSame fun _ =>
    (value_inStep mode fuel).1.bindSame fun _ => .ite (fun _ => pure_inStep ()) fun _ => ?_
  refine (skipWhitespaces_inStep mode).bindSame fun _ => peek_inStep.bindSame fun character => ?_
  exact .ite (fun _ => fail_inStep _) fun _ => pure_inStep ()

/-- `deserialize` over the plain view. -/
def deserializePlain (bytes : Bytes) (handler : StreamReader) : ℤ × StreamReader :=
  Reader.outcome handler
    (JsonReader.read mode (fuelFor bytes.length) ⟨(⟨bytes⟩ : PlainView), handler⟩)

/-- The bytes behind a view are all that a call of `deserialize` depends on. -/
theorem deserialize_eq_plain (kind : ViewKind) (bytes : Bytes) (handler : StreamReader) :
    deserialize kind mode bytes handler = deserializePlain mode bytes handler := by
  cases kind with
  | string => exact outcome_eq (read_inStep mode _) (StringView.represents_ofBytes bytes) handler
  | seekableStream =>
      exact outcome_eq (read_inStep mode _) (SeekableStreamView.represents_ofBytes bytes) handler
  | stream => exact outcome_eq (read_inStep mode _) (StreamView.represents_ofBytes bytes) handler

end JsonReader

/-- Everything a script of calls gets to see of a byte string through a view. -/
def ViewKind.observe (script : List Primitive) (bytes : Bytes) : ViewKind → List Answer
  | .string => View.observe script (StringView.ofBytes bytes)
  | .seekableStream => View.observe script (⟨StreamBuf.ofBytes bytes⟩ : SeekableStreamView)
  | .stream => View.observe script (⟨StreamBuf.ofBytes bytes⟩ : StreamView)

theorem ViewKind.observe_eq_plain (script : List Primitive) (bytes : Bytes) (kind : ViewKind) :
    kind.observe script bytes = View.observe script (⟨bytes⟩ : PlainView) := by
  cases kind with
  | string => exact LawfulView.observe_agrees script (StringView.represents_ofBytes bytes)
  | seekableStream =>
      exact LawfulView.observe_agrees script (SeekableStreamView.represents_ofBytes bytes)
  | stream => exact LawfulView.observe_agrees script (StreamView.represents_ofBytes bytes)

/-- The three views are interchangeable: they answer every script of calls alike, and
`deserialize` returns the same code and leaves the same root through each of them. -/
theorem views_interchangeable (kind other : ViewKind) (mode : JsonReadMode) (bytes : Bytes)
    (handler : StreamReader) :
    (∀ script, kind.observe script bytes = other.observe script bytes) ∧
      (JsonReader.deserialize kind mode bytes handler).1 =
        (JsonReader.deserialize other mode bytes handler).1 ∧
      (JsonReader.deserialize kind mode bytes handler).2.root =
        (JsonReader.deserialize other mode bytes handler).2.root := by
  refine ⟨fun script => ?_, ?_⟩
  · rw [kind.observe_eq_plain, other.observe_eq_plain]
  · simp only [JsonReader.deserialize_eq_plain, and_self]

end Join
