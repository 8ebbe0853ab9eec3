import Join.Data.PackReader
import Join.Data.ReadingViews

/-!
# MessagePack through any view

The reader asks the views only for what they answer alike, so a call depends on the
bytes behind the view and not on the view.
-/

set_option autoImplicit false

namespace Join.PackReader

open Library Reader

variable {V α : Type} [View V] [LawfulView V]

theorem unpack_inStep (size : ℕ) (convert : Bytes → α) :
    InStep (unpack size convert : Reader V α) (unpack size convert) := by
  refine (read_inStep size).bindSame fun memory => ?_
  exact .ite (fun _ => fail_inStep _) fun _ => pure_inStep _

theorem deliver_inStep (isKey : Bool) (value : Value) :
    InStep (deliver isKey value : Reader V Unit) (deliver isKey value) :=
  .ite (fun _ => event_inStep _) fun _ => setValue_inStep value

/-- A character that is skipped in front of a scalar. -/
theorem getDeliver_inStep (isKey : Bool) (value : Value) :
    InStep (get >>= fun _ => deliver isKey value : Reader V Unit)
      (get >>= fun _ => deliver isKey value) :=
  get_inStep.bindSame fun _ => deliver_inStep isKey value

/-- A number that is converted and delivered. -/
theorem unpackDeliver_inStep (isKey : Bool) (size : ℕ) (convert : Bytes → α) (wrap : α → Value) :
    InStep (unpack size convert >>= fun number => deliver isKey (wrap number) : Reader V Unit)
      (unpack size convert >>= fun number => deliver isKey (wrap number)) :=
  (unpack_inStep size convert).bindSame fun _ => deliver_inStep isKey _

theorem unpackPure_inStep {β : Type} (size : ℕ) (convert : Bytes → α) (widen : α → β) :
    InStep (unpack size convert >>= fun number => pure (widen number) : Reader V β)
      (unpack size convert >>= fun number => pure (widen number)) :=
  (unpack_inStep size convert).bindSame fun _ => pure_inStep _

theorem readOutput_inStep (isKey : Bool) (len : UInt32) :
    InStep (readOutput isKey len : Reader V Unit) (readOutput isKey len) := by
  refine (read_inStep _).bindSame fun output => ?_
  exact .ite (fun _ => fail_inStep _) fun _ => deliver_inStep isKey _

theorem stringLength_inStep : InStep (stringLength : Reader V UInt32) stringLength := by
  refine (getIf_inStep _).bindSame fun wide => .ite (fun _ => unpack_inStep _ _) fun _ => ?_
  refine (getIf_inStep _).bindSame fun medium => .ite (fun _ => unpackPure_inStep _ _ _) fun _ => ?_
  refine (getIf_inStep _).bindSame fun narrow => ?_
  exact .ite (fun _ => unpackPure_inStep _ _ _) fun _ => unpackPure_inStep _ _ _

theorem binLength_inStep : InStep (binLength : Reader V UInt32) binLength := by
  refine (getIf_inStep _).bindSame fun wide => .ite (fun _ => unpack_inStep _ _) fun _ => ?_
  refine (getIf_inStep _).bindSame fun medium => .ite (fun _ => unpackPure_inStep _ _ _) fun _ => ?_
  refine (getIf_inStep _).bindSame fun narrow => ?_
  exact .ite (fun _ => unpackPure_inStep _ _ _) fun _ => pure_inStep _

theorem arrayLength_inStep : InStep (arrayLength : Reader V UInt32) arrayLength := by
  refine (getIf_inStep _).bindSame fun wide => .ite (fun _ => unpack_inStep _ _) fun _ => ?_
  refine (getIf_inStep _).bindSame fun medium => ?_
  exact .ite (fun _ => unpackPure_inStep _ _ _) fun _ => unpackPure_inStep _ _ _

theorem objectLength_inStep : InStep (objectLength : Reader V UInt32) objectLength := by
  refine (getIf_inStep _).bindSame fun wide => .ite (fun _ => unpack_inStep _ _) fun _ => ?_
  refine (getIf_inStep _).bindSame fun medium => ?_
  exact .ite (fun _ => unpackPure_inStep _ _ _) fun _ => unpackPure_inStep _ _ _

theorem readString_inStep (isKey : Bool) :
    InStep (readString isKey : Reader V Unit) (readString isKey) :=
  stringLength_inStep.bindSame fun len => readOutput_inStep isKey len

theorem readBin_inStep : InStep (readBin : Reader V Unit) readBin :=
  binLength_inStep.bindSame fun len => readOutput_inStep false len

theorem readNumber_inStep (isKey : Bool) :
    InStep (readNumber isKey : Reader V Unit) (readNumber isKey) := by
  refine get_inStep.bindSame fun character => ?_
  refine .ite (fun _ => deliver_inStep isKey _) fun _ => .ite (fun _ => deliver_inStep isKey _)
    fun _ => ?_
  -- ten formats with a payload, each of which is unpacked and delivered
  iterate 10 refine .ite (fun _ => unpackDeliver_inStep isKey _ _ _) fun _ => ?_
  exact fail_inStep _

theorem readKey_inStep : InStep (readKey : Reader V Unit) readKey := by
  refine peek_inStep.bindSame fun character => Simulates.mapFailure ?_ caught
  refine .ite (fun _ => getDeliver_inStep _ _) fun _ => .ite (fun _ => getDeliver_inStep _ _)
    fun _ => .ite (fun _ => getDeliver_inStep _ _) fun _ => ?_
  exact .ite (fun _ => readString_inStep true) fun _ => .ite (fun _ => readNumber_inStep true)
    fun _ => fail_inStep _

theorem times_inStep {round : Reader V Unit} {round' : Reader PlainView Unit}
    (inStep : InStep round round') (len : ℕ) : InStep (times round len) (times round' len) := by
  induction len with
  | zero => exact pure_inStep ()
  | succ len ih => exact inStep.bindSame fun _ => ih

theorem readValue_inStep (fuel : ℕ) :
    InStep (readValue fuel : Reader V Unit) (readValue fuel) := by
  induction fuel with
  | zero => exact Simulates.exhausted
  | succ fuel ih =>
      have array : InStep (readArray (readValue fuel) : Reader V Unit)
          (readArray (readValue fuel)) :=
        arrayLength_inStep.bindSame fun len => (event_inStep _).bindSame fun _ =>
          (times_inStep ih _).bindSame fun _ => event_inStep _
      have object : InStep (readObject (readValue fuel) : Reader V Unit)
          (readObject (readValue fuel)) :=
        objectLength_inStep.bindSame fun len => (event_inStep _).bindSame fun _ =>
          (times_inStep (readKey_inStep.bindSame fun _ => ih) _).bindSame fun _ => event_inStep _
      refine peek_inStep.bindSame fun character => Simulates.mapFailure ?_ caught
      refine .ite (fun _ => array) fun _ => .ite (fun _ => object) fun _ => ?_
      refine .ite (fun _ => getDeliver_inStep _ _) fun _ => .ite (fun _ => getDeliver_inStep _ _)
        fun _ => .ite (fun _ => getDeliver_inStep _ _) fun _ => ?_
      exact .ite (fun _ => readString_inStep false) fun _ => .ite (fun _ => readBin_inStep)
        fun _ => .ite (fun _ => readNumber_inStep false) fun _ => fail_inStep _

theorem read_inStep (fuel : ℕ) :
    InStep (PackReader.read fuel : Reader V Unit) (PackReader.read fuel) := by
  refine (readValue_inStep fuel).bindSame fun _ => peek_inStep.bindSame fun character => ?_
  exact .ite (fun _ => fail_inStep _) fun _ => pure_inStep ()

/-- `deserialize` over the plain view. -/
def deserializePlain (bytes : Bytes) (handler : StreamReader) : ℤ × StreamReader :=
  Reader.outcome handler (PackReader.read fuel ⟨(⟨bytes⟩ : PlainView), handler⟩)

/-- The bytes behind a view are all that a call of `deserialize` depends on. -/
theorem deserialize_eq_plain (kind : ViewKind) (bytes : Bytes) (handler : StreamReader) :
    deserialize kind bytes handler = deserializePlain bytes handler := by
  cases kind with
  | string => exact outcome_eq (read_inStep _) (StringView.represents_ofBytes bytes) handler
  | seekableStream =>
      exact outcome_eq (read_inStep _) (SeekableStreamView.represents_ofBytes bytes) handler
  | stream => exact outcome_eq (read_inStep _) (StreamView.represents_ofBytes bytes) handler

end Join.PackReader
