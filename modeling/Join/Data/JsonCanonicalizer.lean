import Join.Data.JsonWriter
import Join.Library.Unicode

/-!
# JsonCanonicalizer

The writer that sorts the members of an object by the UTF-16 code units of their
keys and prints numbers in one way. `std::sort` sorts pointers to the members and
is a parameter here: any function that permutes the members and leaves none in
front of one that the comparator puts before it.

The comparator converts a key from `getString ().data ()`, a C string, so it sees
a key only up to its first NUL.
-/

set_option autoImplicit false

namespace Join

open Library

namespace JsonCanonicalizer

open JsonWriter (Step)

/-! ## The comparator -/

/-- `wstring_convert::from_bytes`; `none` when it throws because the bytes are not
UTF-8. -/
def fromBytes (bytes : Bytes) : Option (List ℕ) :=
  bytes.toByteArray.utf8Decode?.map fun text => utf16 text.toList

/-- What a C string that starts at the data of a string holds. -/
def cString (name : Bytes) : Bytes := name.takeWhile (· ≠ 0)

/-- The code units by which a key is sorted; `none` when `getString` or the
conversion throws. -/
def keyUnits : Value → Option (List ℕ)
  | .string name => fromBytes (cString name)
  | _ => none

/-- The comparator of `setObject`, on keys that are converted without an exception. -/
def less (one other : Value) : Bool :=
  (keyUnits one).getD [] < (keyUnits other).getD []

/-- `std::sort` on the pointers to the members: each is given here by its key and by
what it writes. -/
structure Sorts (sort : List (Value × Step) → List (Value × Step)) : Prop where
  perm (members : List (Value × Step)) : (sort members).Perm members
  sorted (members : List (Value × Step)) :
    (sort members).Pairwise fun one other => less other.1 one.1 = false

/-! ## The writer -/

/-- A call whose return code is ignored; an exception is not. -/
def ignoreResult (step : Step) : Step := fun writer =>
  match step writer with
  | some (.error .thrown, after) => some (.error .thrown, after)
  | some (_, after) => some (.ok (), after)
  | none => none

/-- The text `writeDouble` makes of what `dtoa` prints: a plus sign goes before a
positive exponent. -/
def signExponent : Bytes → Bytes
  | [] => []
  | byte :: rest =>
      if byte = 0x65 ∧ rest.head? ≠ some 0x2D then byte :: 0x2B :: signExponent rest
      else byte :: signExponent rest

def setDouble (dtoa : Double → Bytes) (value : Double) : Step :=
  JsonWriter.setScalar (
    if value.isFinite then
      if value.trunc.eq value && (Double.ofInt 0).le value &&
          value.lt (Double.ofInt (2 ^ 64 - 1)) then
        JsonWriter.writeUint64 (UInt64.ofInt value.toInt)
      else if value.trunc.eq value && (Double.ofInt (-2 ^ 63)).le value &&
          value.lt (Double.ofInt (2 ^ 63 - 1)) then
        JsonWriter.writeInt64 (Int64.ofInt value.toInt)
      else JsonWriter.append (signExponent (dtoa value))
    else JsonWriter.append [0x6E, 0x75, 0x6C, 0x6C])

/-- The loop of `setObject` over the sorted members. -/
def writeMembers : List (Value × Step) → Step
  | [] => pure ()
  | (key, write) :: members => do
      ignoreResult (JsonWriter.setKey key)
      ignoreResult write
      writeMembers members

/-- Sorting compares every key when there are at least two. -/
def throws (keys : List Value) : Bool :=
  2 ≤ keys.length && keys.any fun key => (keyUnits key).isNone

/-- What `setObject` does with the members. -/
def setObject (sort : List (Value × Step) → List (Value × Step))
    (members : List (Value × Step)) : Step := do
  JsonWriter.startObject
  if throws (members.map Prod.fst) then Program.fail .thrown
  else do
    writeMembers (sort members)
    JsonWriter.stopObject

section Writing

variable (dtoa : Double → Bytes) (sort : List (Value × Step) → List (Value × Step))

mutual
/-- `setValue` with the overrides of the canonicalizer. -/
def setValue : Value → Step
  | .boolean value => JsonWriter.setBool value
  | .integer value => JsonWriter.setInt value
  | .unsigned value => JsonWriter.setUint value
  | .integer64 value => JsonWriter.setInt64 value
  | .unsigned64 value => JsonWriter.setUint64 value
  | .real value => setDouble dtoa value
  | .string value => JsonWriter.setString value
  | .array elements => do
      JsonWriter.startArray
      setElements elements
      JsonWriter.stopArray
  | .object members => setObject sort (memberSteps members)
  | .null => JsonWriter.setNull

def setElements : List Value → Step
  | [] => pure ()
  | element :: elements => do
      setValue element
      setElements elements

/-- The members of an object, each with what it writes. -/
def memberSteps : List (Value × Value) → List (Value × Step)
  | [] => []
  | (key, value) :: members => (key, setValue value) :: memberSteps members
end

/-- `serialize` with a new canonicalizer: how it ends and the bytes it has put on the
stream. -/
def serialize (value : Value) : Option (Except Failure Unit × Bytes) :=
  (setValue dtoa sort value (JsonWriter.fresh 0)).map fun outcome => (outcome.1, outcome.2.out)

theorem memberSteps_eq (members : List (Value × Value)) : memberSteps dtoa sort members =
    members.map fun member => (member.1, setValue dtoa sort member.2) := by
  induction members with
  | nil => rfl
  | cons member members ih =>
      obtain ⟨key, value⟩ := member
      rw [memberSteps, ih, List.map_cons]

end Writing

/-! ## Trees -/

mutual
/-- Two trees that differ only in the order of the members of objects. -/
inductive Reordered : Value → Value → Prop
  | refl (value : Value) : Reordered value value
  | array {elements others : List Value} (inside : ReorderedElements elements others) :
      Reordered (.array elements) (.array others)
  | object {members moved others : List (Value × Value)} (perm : members.Perm moved)
      (inside : ReorderedMembers moved others) : Reordered (.object members) (.object others)

inductive ReorderedElements : List Value → List Value → Prop
  | nil : ReorderedElements [] []
  | cons {element other : Value} {elements others : List Value} (first : Reordered element other)
      (rest : ReorderedElements elements others) :
      ReorderedElements (element :: elements) (other :: others)

inductive ReorderedMembers : List (Value × Value) → List (Value × Value) → Prop
  | nil : ReorderedMembers [] []
  | cons {key value other : Value} {members others : List (Value × Value)}
      (first : Reordered value other) (rest : ReorderedMembers members others) :
      ReorderedMembers ((key, value) :: members) ((key, other) :: others)
end

mutual
/-- A property of the keys of every object of a tree. -/
def EveryObject (P : List Value → Prop) : Value → Prop
  | .array elements => EveryElement P elements
  | .object members => P (members.map Prod.fst) ∧ EveryMember P members
  | _ => True

def EveryElement (P : List Value → Prop) : List Value → Prop
  | [] => True
  | element :: elements => EveryObject P element ∧ EveryElement P elements

def EveryMember (P : List Value → Prop) : List (Value × Value) → Prop
  | [] => True
  | (_, value) :: members => EveryObject P value ∧ EveryMember P members
end

section Everywhere

variable {P Q R : List Value → Prop}

theorem everyElement_iff (elements : List Value) :
    EveryElement P elements ↔ ∀ element ∈ elements, EveryObject P element := by
  induction elements with
  | nil => simp [EveryElement]
  | cons element elements ih => simp [EveryElement, ih]

theorem everyMember_iff (members : List (Value × Value)) :
    EveryMember P members ↔ ∀ member ∈ members, EveryObject P member.2 := by
  induction members with
  | nil => simp [EveryMember]
  | cons member members ih => simp [EveryMember, ih]

/-- Properties that agree on the keys of every object. -/
theorem everyObject_congr (agree : ∀ keys, P keys → (Q keys ↔ R keys)) (value : Value) :
    EveryObject P value → (EveryObject Q value ↔ EveryObject R value) := by
  induction value using Value.structural with
  | array elements inside =>
      intro holds
      simp only [EveryObject, everyElement_iff] at holds ⊢
      exact forall₂_congr fun element member => inside element member (holds element member)
  | object members inside =>
      intro holds
      simp only [EveryObject, everyMember_iff] at holds ⊢
      refine and_congr (agree _ holds.1) (forall₂_congr fun member held => ?_)
      exact (inside member held).2 (holds.2 member held)
  | _ => exact fun _ => Iff.rfl

end Everywhere

/-! ## Keys -/

/-- The keys of an object are distinct strings in UTF-8. -/
def KeysValid (keys : List Value) : Prop :=
  (∀ key ∈ keys, ∃ text, key = .string (utf8 text)) ∧ keys.Nodup

/-- What the comparator sees of a key. -/
def keyCString : Value → Bytes
  | .string name => cString name
  | _ => []

/-- The keys of an object differ before their first NUL. -/
def NulDistinct (keys : List Value) : Prop := (keys.map keyCString).Nodup

/-- The code units of a whole key. -/
def wholeUnits : Value → List ℕ
  | .string name => (fromBytes name).getD []
  | _ => []

/-- The comparator orders the keys of an object totally, by their code units. -/
structure TotallyOrdered (keys : List Value) : Prop where
  order : IsStrictTotalOrder { key // key ∈ keys } fun one other => less one.val other.val = true
  codeUnits (one : Value) (held : one ∈ keys) (other : Value) (heldOther : other ∈ keys) :
    less one other = true ↔ wholeUnits one < wholeUnits other

theorem fromBytes_utf8 (text : List Char) : fromBytes (utf8 text) = some (utf16 text) := by
  change (text.utf8Encode.utf8Decode?).map _ = _
  rw [List.utf8Decode?_utf8Encode, Option.map_some, List.toList_toArray]

theorem cString_utf8 (text : List Char) : cString (utf8 text) = utf8 (untilNul text) :=
  takeWhile_utf8 text

theorem keyUnits_utf8 (text : List Char) :
    keyUnits (.string (utf8 text)) = some (utf16 (untilNul text)) := by
  rw [keyUnits, cString_utf8, fromBytes_utf8]

theorem wholeUnits_utf8 (text : List Char) : wholeUnits (.string (utf8 text)) = utf16 text := by
  rw [wholeUnits, fromBytes_utf8, Option.getD_some]

/-- The comparator compares the keys up to their first NUL. -/
theorem less_iff (one other : List Char) :
    less (.string (utf8 one)) (.string (utf8 other)) = true ↔
      utf16 (untilNul one) < utf16 (untilNul other) := by
  rw [less, keyUnits_utf8, keyUnits_utf8, Option.getD_some, Option.getD_some, decide_eq_true_eq]

section Keys

variable {keys : List Value} {one other : Value}

/-- Of two keys that differ before their first NUL one comes first. -/
theorem eq_of_not_less (valid : KeysValid keys) (distinct : NulDistinct keys) (held : one ∈ keys)
    (heldOther : other ∈ keys) (forward : less one other = false)
    (backward : less other one = false) : one = other := by
  obtain ⟨text, rfl⟩ := valid.1 one held
  obtain ⟨text', rfl⟩ := valid.1 other heldOther
  rw [← Bool.not_eq_true, less_iff, not_lt] at forward backward
  have units : utf16 (untilNul text) = utf16 (untilNul text') := le_antisymm backward forward
  refine List.inj_on_of_nodup_map distinct held heldOther ?_
  rw [keyCString, keyCString, cString_utf8, cString_utf8, utf16_injective units]

/-- Keys that differ before their first NUL are ordered by all their code units. -/
theorem totallyOrdered_of_nulDistinct (valid : KeysValid keys) (distinct : NulDistinct keys) :
    TotallyOrdered keys := by
  have agree : ∀ one ∈ keys, ∀ other ∈ keys,
      (less one other = true ↔ wholeUnits one < wholeUnits other) := by
    intro one held other heldOther
    by_cases same : one = other
    · subst same
      obtain ⟨text, rfl⟩ := valid.1 one held
      rw [less_iff]
      exact iff_of_false (lt_irrefl _) (lt_irrefl _)
    · obtain ⟨text, rfl⟩ := valid.1 one held
      obtain ⟨text', rfl⟩ := valid.1 other heldOther
      rw [less_iff, wholeUnits_utf8, wholeUnits_utf8]
      refine (utf16_lt_iff fun prefixes => same ?_).symm
      refine List.inj_on_of_nodup_map distinct held heldOther ?_
      rw [keyCString, keyCString, cString_utf8, cString_utf8, prefixes]
  refine ⟨?_, agree⟩
  have units (one other : { key // key ∈ keys }) :
      less one.val other.val = true ↔ wholeUnits one.val < wholeUnits other.val :=
    agree one.val one.property other.val other.property
  refine { trichotomous := ?_, irrefl := ?_, trans := ?_ }
  · intro one other forward backward
    exact Subtype.ext (eq_of_not_less valid distinct one.property other.property
      (Bool.not_eq_true _ ▸ forward) (Bool.not_eq_true _ ▸ backward))
  · intro one
    rw [units]
    exact lt_irrefl _
  · intro one other third
    rw [units, units, units]
    exact lt_trans

/-- The comparator tells distinct keys apart only when they differ before their
first NUL. -/
theorem nulDistinct_of_totallyOrdered (valid : KeysValid keys) (total : TotallyOrdered keys) :
    NulDistinct keys := by
  refine valid.2.map_on fun one held other heldOther same => ?_
  have both : less one other = false ∧ less other one = false := by
    obtain ⟨text, rfl⟩ := valid.1 one held
    obtain ⟨text', rfl⟩ := valid.1 other heldOther
    rw [keyCString, keyCString, cString_utf8, cString_utf8] at same
    have prefixes := utf8_injective same
    rw [← Bool.not_eq_true, ← Bool.not_eq_true, less_iff, less_iff, prefixes]
    exact ⟨lt_irrefl _, lt_irrefl _⟩
  have trichotomy := total.order.trichotomous ⟨one, held⟩ ⟨other, heldOther⟩
  exact congrArg Subtype.val (trichotomy (by simp [both.1]) (by simp [both.2]))

theorem totallyOrdered_iff (valid : KeysValid keys) : TotallyOrdered keys ↔ NulDistinct keys :=
  ⟨nulDistinct_of_totallyOrdered valid, totallyOrdered_of_nulDistinct valid⟩

end Keys

/-! ## Sorting -/

section Sorting

variable {sort : List (Value × Step) → List (Value × Step)}

/-- What a correct sort makes of the members does not depend on their order. -/
theorem sort_perm (sorts : Sorts sort) {members others : List (Value × Step)}
    (valid : KeysValid (members.map Prod.fst)) (distinct : NulDistinct (members.map Prod.fst))
    (perm : members.Perm others) : sort others = sort members := by
  have order : (sort others).Perm (sort members) :=
    ((sorts.perm others).trans perm.symm).trans (sorts.perm members).symm
  refine order.eq_of_pairwise ?_ (sorts.sorted others) (sorts.sorted members)
  intro one other held heldOther forward backward
  have inside : one ∈ members := (order.trans (sorts.perm members)).mem_iff.mp held
  have insideOther : other ∈ members := (sorts.perm members).mem_iff.mp heldOther
  refine List.inj_on_of_nodup_map valid.2 inside insideOther ?_
  exact eq_of_not_less valid distinct (List.mem_map_of_mem inside) (List.mem_map_of_mem insideOther)
    backward forward

theorem setObject_perm (sorts : Sorts sort) {members others : List (Value × Step)}
    (valid : KeysValid (members.map Prod.fst)) (distinct : NulDistinct (members.map Prod.fst))
    (perm : members.Perm others) : setObject sort others = setObject sort members := by
  have keys := perm.map Prod.fst
  have same : throws (others.map Prod.fst) = throws (members.map Prod.fst) := by
    rw [throws, throws, keys.length_eq, keys.any_eq]
  rw [setObject, setObject, sort_perm sorts valid distinct perm, same]

end Sorting

/-! ## The order of members -/

section Canonical

variable (dtoa : Double → Bytes) {sort : List (Value × Step) → List (Value × Step)}

theorem setElements_reordered {elements others : List Value}
    (inside : ∀ element ∈ elements, ∀ other, Reordered element other →
      setValue dtoa sort other = setValue dtoa sort element)
    (reordered : ReorderedElements elements others) :
    setElements dtoa sort others = setElements dtoa sort elements := by
  induction elements generalizing others with
  | nil =>
      cases reordered
      rfl
  | cons element elements ih =>
      cases reordered with
      | cons first rest =>
          rw [setElements, setElements, inside element List.mem_cons_self _ first,
            ih (fun element member => inside element (List.mem_cons_of_mem _ member)) rest]

theorem memberSteps_reordered {members others : List (Value × Value)}
    (inside : ∀ member ∈ members, ∀ other, Reordered member.2 other →
      setValue dtoa sort other = setValue dtoa sort member.2)
    (reordered : ReorderedMembers members others) :
    memberSteps dtoa sort others = memberSteps dtoa sort members := by
  induction members generalizing others with
  | nil =>
      cases reordered
      rfl
  | cons member members ih =>
      cases reordered with
      | cons first rest =>
          rw [memberSteps, memberSteps, inside _ List.mem_cons_self _ first,
            ih (fun member held => inside member (List.mem_cons_of_mem _ held)) rest]

/-- Reordered trees are written alike. -/
theorem setValue_reordered (sorts : Sorts sort) (value : Value) :
    EveryObject KeysValid value → EveryObject NulDistinct value →
      ∀ other, Reordered value other → setValue dtoa sort other = setValue dtoa sort value := by
  induction value using Value.structural with
  | array elements inside =>
      intro valid distinct other reordered
      simp only [EveryObject, everyElement_iff] at valid distinct
      cases reordered with
      | refl => rfl
      | array rest =>
          have same := setElements_reordered dtoa (fun element member =>
            inside element member (valid element member) (distinct element member)) rest
          rw [setValue, setValue, same]
  | object members inside =>
      intro valid distinct other reordered
      simp only [EveryObject, everyMember_iff] at valid distinct
      cases reordered with
      | refl => rfl
      | @object _ moved others perm rest =>
          have steps := memberSteps_reordered dtoa (fun member held => by
            have held := perm.mem_iff.mpr held
            exact (inside member held).2 (valid.2 member held) (distinct.2 member held)) rest
          have keys : (memberSteps dtoa sort members).map Prod.fst = members.map Prod.fst := by
            rw [memberSteps_eq, List.map_map]
            rfl
          have moved : (memberSteps dtoa sort members).Perm (memberSteps dtoa sort moved) := by
            rw [memberSteps_eq, memberSteps_eq]
            exact perm.map _
          rw [setValue, setValue, steps]
          exact setObject_perm sorts (keys ▸ valid.1) (keys ▸ distinct.1) moved
  | _ =>
      intro _ _ other reordered
      cases reordered
      rfl

/-- Every correct sort gives the same bytes for every reordering of a tree. -/
def OrderIgnored (value : Value) : Prop :=
  ∀ sort, Sorts sort → ∀ other, Reordered value other →
    serialize dtoa sort other = serialize dtoa sort value

/-- The canonicalizer ignores the order of the members and sorts them by their code
units if and only if the keys of every object differ before their first NUL. -/
theorem order_ignored_iff (value : Value) (valid : EveryObject KeysValid value) :
    OrderIgnored dtoa value ∧ EveryObject TotallyOrdered value ↔
      EveryObject NulDistinct value := by
  have total := everyObject_congr (fun _ => totallyOrdered_iff) value valid
  refine ⟨fun holds => total.mp holds.2, fun distinct => ⟨?_, total.mpr distinct⟩⟩
  intro sort sorts other reordered
  rw [serialize, serialize, setValue_reordered dtoa sorts value valid distinct other reordered]

end Canonical

/-- The keys of two members, given by their texts. -/
theorem keysValid_pair {one other : List Char} (differ : one ≠ other) (value value' : Value) :
    KeysValid ([(Value.string (utf8 one), value), (.string (utf8 other), value')].map Prod.fst) := by
  refine ⟨fun key held => ?_, ?_⟩
  · simp only [List.map_cons, List.map_nil, List.mem_cons, List.not_mem_nil, or_false] at held
    rcases held with rfl | rfl
    · exact ⟨one, rfl⟩
    · exact ⟨other, rfl⟩
  · simp only [List.map_cons, List.map_nil, List.nodup_cons, List.mem_singleton,
      List.not_mem_nil, not_false_eq_true, List.nodup_nil, and_true]
    intro same
    exact differ (utf8_injective (Value.string.inj same))

/-- Two members in either order. -/
theorem order_ignored_pair : OrderIgnored (fun _ => [])
    (.object [(.string (utf8 ['b']), .boolean true), (.string (utf8 ['a']), .null)]) := by
  have valid : EveryObject KeysValid
      (.object [(.string (utf8 ['b']), .boolean true), (.string (utf8 ['a']), .null)]) :=
    ⟨keysValid_pair (by decide) _ _, trivial, trivial, trivial⟩
  refine ((order_ignored_iff (fun _ => []) _ valid).mpr ⟨?_, trivial, trivial, trivial⟩).1
  unfold NulDistinct
  decide

/-! ## A stable sort -/

/-- A stable sort of the members. -/
def stableSort (members : List (Value × Step)) : List (Value × Step) :=
  members.mergeSort fun one other => !less other.1 one.1

theorem sorts_stableSort : Sorts stableSort := by
  refine ⟨fun members => List.mergeSort_perm _ _, fun members => ?_⟩
  have ordered : (stableSort members).Pairwise fun one other =>
      (!less other.1 one.1) = true := by
    apply List.pairwise_mergeSort
    · intro one other third forward backward
      simp only [less, Bool.not_eq_true', decide_eq_false_iff_not, not_lt] at forward backward ⊢
      exact forward.trans backward
    · intro one other
      simp only [less, Bool.or_eq_true, Bool.not_eq_true', decide_eq_false_iff_not, not_lt]
      exact le_total _ _
  exact ordered.imp fun holds => by simpa using holds

/-- Members with keys that agree before a NUL stay in the order they are in. -/
theorem stableSort_pair {one other : Value × Step} (equal : less other.1 one.1 = false) :
    stableSort [one, other] = [one, other] := by
  apply List.mergeSort_of_pairwise
  simp [equal]

/-- What is written of two members whose keys agree before a NUL. -/
theorem serialize_pair {one other : List Char} (agree : untilNul one = untilNul other)
    (value value' : Value) : serialize (fun _ => []) stableSort
      (.object [(.string (utf8 one), value), (.string (utf8 other), value')]) =
    ((do JsonWriter.startObject
         writeMembers [(.string (utf8 one), setValue (fun _ => []) stableSort value),
           (.string (utf8 other), setValue (fun _ => []) stableSort value')]
         JsonWriter.stopObject : Step) (JsonWriter.fresh 0)).map
      fun outcome => (outcome.1, outcome.2.out) := by
  have equal : less (.string (utf8 other)) (.string (utf8 one)) = false := by
    rw [← Bool.not_eq_true, less_iff, agree]
    exact lt_irrefl _
  have converted : throws [.string (utf8 one), .string (utf8 other)] = false := by
    simp [throws, keyUnits_utf8]
  rw [serialize, setValue, memberSteps, memberSteps, memberSteps, setObject, stableSort_pair equal]
  simp only [List.map_cons, List.map_nil, converted, Bool.false_eq_true, if_false]

/-- Two keys that differ only behind a NUL come out in the order they are in. -/
theorem order_not_ignored : ¬∀ value, EveryObject KeysValid value →
    OrderIgnored (fun _ => []) value := by
  intro ignored
  have valid : EveryObject KeysValid (.object [(.string (utf8 ['a', '\x00', 'b']), .null),
      (.string (utf8 ['a', '\x00', 'c']), .null)]) :=
    ⟨keysValid_pair (by decide) _ _, trivial, trivial, trivial⟩
  have swapped : Reordered (.object [(.string (utf8 ['a', '\x00', 'b']), .null),
      (.string (utf8 ['a', '\x00', 'c']), .null)])
      (.object [(.string (utf8 ['a', '\x00', 'c']), .null),
        (.string (utf8 ['a', '\x00', 'b']), .null)]) :=
    .object (.swap _ _ _) (.cons (.refl _) (.cons (.refl _) .nil))
  have same := ignored _ valid stableSort sorts_stableSort _ swapped
  rw [serialize_pair (by decide), serialize_pair (by decide)] at same
  revert same
  simp only [setValue]
  decide +kernel

end JsonCanonicalizer

end Join
