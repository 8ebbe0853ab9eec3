import Join.Data.PackItems
import Join.Data.PackViews

/-!
# Swapping on the two sides of MessagePack

The writer swaps unsigned values only, the reader swaps values of the type it returns.
A number that was packed unsigned and is unpacked as a signed one has gone through two
instances of `swap`, and it comes back when these undo each other.

`SwapRight` is what is expected of `swap` at a value. It holds at every value of every
integer type but the signed one of two bytes, where `SignKept` tells the values that
remain.
-/

set_option autoImplicit false

namespace Join

open Library

namespace PackWriter

/-- `pack<Type>` of an unsigned type. -/
def pack (size : IntegerSize) (value : BitVec size.bits) : Step :=
  match size with
  | .one => packUint8 ⟨value⟩
  | .two => packUint16 ⟨value⟩
  | .four => packUint32 ⟨value⟩
  | .eight => packUint64 ⟨value⟩

/-- A number is appended as its swapped bytes. -/
theorem pack_appends (size : IntegerSize) (value : BitVec size.bits) :
    Appends (pack size value) (leBytes size.bytes (swap size false value).toNat) := by
  cases size <;> exact append_appends _

/-- A step appends the same bytes whenever it runs. -/
theorem Appends.unique {step : Step} {bytes other : Bytes} (appends : Appends step bytes)
    (again : Appends step other) : bytes = other := by
  have runs := (appends ⟨[]⟩).symm.trans (again ⟨[]⟩)
  simp only [List.nil_append, Option.some.injEq, Prod.mk.injEq, PackWriter.mk.injEq,
    true_and] at runs
  exact runs

end PackWriter

namespace PackReader

section

variable {V : Type} [View V]

/-- `unpack<Type>` of an integer type. -/
def unpackInteger (size : IntegerSize) (signed : Bool) : Reader V (BitVec size.bits) :=
  match size with
  | .one => if signed then do pure (← unpackInt8).toBitVec else do pure (← unpackUint8).toBitVec
  | .two => if signed then do pure (← unpackInt16).toBitVec else do pure (← unpackUint16).toBitVec
  | .four => if signed then do pure (← unpackInt32).toBitVec else do pure (← unpackUint32).toBitVec
  | .eight =>
      if signed then do pure (← unpackInt64).toBitVec else do pure (← unpackUint64).toBitVec

/-- A number that is converted once more after it has been unpacked. -/
theorem unpack_convert {α β : Type} (size : ℕ) (convert : Bytes → α) (widen : α → β) :
    (unpack size convert >>= fun number => pure (widen number) : Reader V β) =
      unpack size fun memory => widen (convert memory) := by
  funext reading
  simp only [unpack, Reader.read, Reader.doc, Program.bind_apply, Program.act_apply]
  by_cases full : (View.read size reading.document).1.length = size
  · rw [if_neg (not_not.mpr full), if_neg (not_not.mpr full)]
    rfl
  · rw [if_pos full, if_pos full]
    rfl

/-- Every integer is read into memory, and what lies there is swapped as a value of the
type that is asked for. -/
theorem unpackInteger_eq (size : IntegerSize) (signed : Bool) :
    (unpackInteger size signed : Reader V (BitVec size.bits)) =
      unpack size.bytes fun memory => swap size signed (.ofNat _ (leValue memory)) := by
  cases size <;> cases signed
  case four.true =>
      refine (unpack_convert _ _ _).trans ?_
      simp only [swap, byteswap4Int_eq]
      rfl
  all_goals exact unpack_convert _ _ _

end

/-- A number that lies in front of a document. -/
theorem unpackInteger_advances {size : IntegerSize} (signed : Bool) (value : BitVec size.bits)
    (rest : Bytes) :
    Advances (leBytes size.bytes value.toNat ++ rest) rest (unpackInteger size signed)
      (swap size signed value) := by
  have spelled : BitVec.ofNat size.bits (leValue (leBytes size.bytes value.toNat)) = value := by
    rw [leValue_leBytes, size.pow_bytes, Nat.mod_eq_of_lt value.isLt, BitVec.ofNat_toNat,
      BitVec.setWidth_eq]
  have decodes := unpack_decodes size.bytes
    (fun memory => swap size signed (.ofNat _ (leValue memory)))
    (leBytes size.bytes value.toNat ++ rest)
  rw [PackWriter.field_append (length_leBytes _ _), spelled] at decodes
  rw [unpackInteger_eq]
  exact decodes

/-! ## What is expected of a swap -/

/-- What an integer is packed into unpacks to it, through any view of a document that
begins with it, and leaves what follows. -/
def ReadsBack (size : IntegerSize) (signed : Bool) (val : BitVec size.bits) : Prop :=
  ∃ bytes, PackWriter.Appends (PackWriter.pack size val) bytes ∧
    ∀ (V : Type) [View V] [LawfulView V] (view : V) (handler : StreamReader) (rest : Bytes),
      LawfulView.Represents view ⟨bytes ++ rest⟩ →
        ∃ after, unpackInteger size signed ⟨view, handler⟩ = some (.ok val, ⟨after, handler⟩) ∧
          LawfulView.Represents after ⟨rest⟩

/-- Unpacking through a lawful view is swapping what the view has in front. -/
theorem unpackInteger_view {V : Type} [View V] [LawfulView V] {size : IntegerSize} {signed : Bool}
    {value : BitVec size.bits} {view : V} {rest : Bytes}
    (represents : LawfulView.Represents view ⟨leBytes size.bytes value.toNat ++ rest⟩)
    (handler : StreamReader) :
    ∃ after, unpackInteger size signed ⟨view, handler⟩ =
        some (.ok (swap size signed value), ⟨after, handler⟩) ∧
      LawfulView.Represents after ⟨rest⟩ := by
  have inStep : InStep (unpackInteger size signed : Reader V (BitVec size.bits))
      (unpackInteger size signed) := by
    rw [unpackInteger_eq, unpackInteger_eq]
    exact unpack_inStep _ _
  have same : SameReading (⟨view, handler⟩ : Reading V)
      ⟨⟨leBytes size.bytes value.toNat ++ rest⟩, handler⟩ := ⟨represents, rfl⟩
  have step := inStep same
  rw [unpackInteger_advances signed value rest handler] at step
  revert step
  rcases unpackInteger size signed ⟨view, handler⟩ with _ | ⟨failure | result, left⟩ <;> intro step
  case some.ok =>
      obtain ⟨rfl, after, same⟩ := step
      cases left
      subst same
      exact ⟨_, rfl, after⟩
  all_goals exact step.elim

/-- An integer comes back when swapping it as it is read undoes swapping it as it is
written. -/
theorem readsBack_iff (size : IntegerSize) (signed : Bool) (val : BitVec size.bits) :
    ReadsBack size signed val ↔ swap size signed (swap size false val) = val := by
  have appends := PackWriter.pack_appends size val
  constructor
  · rintro ⟨bytes, same, reads⟩
    rw [← appends.unique same] at reads
    have represents : LawfulView.Represents
        (StringView.ofBytes (leBytes size.bytes (swap size false val).toNat))
        ⟨leBytes size.bytes (swap size false val).toNat ++ []⟩ := by
      rw [List.append_nil]
      exact StringView.represents_ofBytes _
    let handler : StreamReader := ⟨.null, [], .null⟩
    obtain ⟨after, run, _⟩ := reads StringView _ handler [] represents
    obtain ⟨other, again, _⟩ := @unpackInteger_view _ _ _ _ signed _ _ _ represents handler
    have results := run.symm.trans again
    simp only [Option.some.injEq, Prod.mk.injEq, Except.ok.injEq] at results
    exact results.1.symm
  · intro undone
    refine ⟨_, appends, ?_⟩
    intro V _ _ view handler rest represents
    have read := @unpackInteger_view _ _ _ _ signed _ _ _ represents handler
    rwa [undone] at read

end PackReader

open PackReader

/-- `swap` reverses the bytes of a value, undoes itself there, and lets the value through
from an unsigned write to a read of the type. -/
structure SwapRight (size : IntegerSize) (signed : Bool) (val : BitVec size.bits) : Prop where
  reversed : leBytes size.bytes (swap size signed val).toNat =
    (leBytes size.bytes val.toNat).reverse
  inverse : swap size signed (swap size signed val) = val
  readsBack : ReadsBack size signed val

/-- No byte of a signed value of two bytes may have its upper bit, unless every bit is
set. -/
def SignKept (size : IntegerSize) (signed : Bool) (val : BitVec size.bits) : Prop :=
  size = .two → signed = true →
    val.toNat < 0x8000 ∧ val.toNat % 256 < 0x80 ∨ val.toNat = 0xFFFF

/-- A type whose values all have their bytes reversed. -/
theorem swap_right_of_plain {size : IntegerSize} {signed : Bool}
    (plain : ¬ (size = .two ∧ signed = true)) (val : BitVec size.bits) :
    SwapRight size signed val := by
  have exempt {bound : Prop} (two : size = .two) (sign : signed = true) : bound :=
    (plain ⟨two, sign⟩).elim
  refine ⟨leBytes_swap exempt, swap_swap exempt exempt, ?_⟩
  rw [readsBack_iff]
  refine swap_swap ?_ exempt
  intro _ sign
  exact Bool.noConfusion sign

/-- Swapping reverses bytes, is its own inverse and brings back what the other side wrote
exactly for the values that `SignKept` allows: for all of them, unless the type is the
signed one of two bytes. -/
theorem swap_right_iff (size : IntegerSize) (signed : Bool) (val : BitVec size.bits) :
    SwapRight size signed val ↔ SignKept size signed val := by
  by_cases short : size = .two ∧ signed = true
  · obtain ⟨rfl, rfl⟩ := short
    constructor
    · intro right _ _
      exact (swap_swap_two_iff val).mp right.inverse
    · intro kept
      have values := kept rfl rfl
      refine ⟨?_, ?_, ?_⟩
      · refine (reversed_two_iff val).mpr ?_
        rcases values with ⟨positive, _⟩ | ones
        · exact .inl positive
        · exact .inr (by rw [ones])
      · exact (swap_swap_two_iff val).mpr values
      · rw [readsBack_iff, swap_swap_unsigned_iff]
        rcases values with ⟨_, low⟩ | ones
        · exact .inl low
        · exact .inr (by rw [ones]; decide)
  · refine ⟨?_, fun _ => swap_right_of_plain short val⟩
    intro _ two sign
    exact (short ⟨two, sign⟩).elim

/-- The negative number `-384` is not spared: `FE80` is swapped to `FFFE` instead of `80FE`,
and what was written for it is read as `-128`. -/
theorem swap_of_negative :
    ¬ ∀ (size : IntegerSize) (signed : Bool) (val : BitVec size.bits),
      SwapRight size signed val := by
  intro all
  have reversed := (all .two true 0xFE80).reversed
  revert reversed
  decide

end Join
