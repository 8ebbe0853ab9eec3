import Mathlib.Data.Int.Basic
import Join.Library.Records

/-!
# Attributes inside attributes

A sequence of attributes, some of which hold sequences of attributes themselves, is a forest. It is
described by calls: one adds an attribute with its data, one starts an attribute that will hold
others, one stops it. A sequence of calls describes a forest exactly when every attribute that is
started is stopped, and nothing else is.

In memory an attribute is a record with the place behind it filled up, with whatever bytes. Its
reader walks over the records as long as what is left holds one. It gets the attributes of a
forest back, and gets those inside of an attribute back in the same way, and nothing is left.
-/

set_option autoImplicit false

namespace Join.Library

/-- A call that describes a part of a forest. -/
inductive AttributeCall
  | add (type : ℤ) (data : List UInt8)
  | start (type : ℤ)
  | stop
deriving DecidableEq

/-- Attributes one behind the other, each with data or with attributes inside. -/
inductive AttributeForest
  | nil
  | leaf (type : ℤ) (data : List UInt8) (rest : AttributeForest)
  | nest (type : ℤ) (children rest : AttributeForest)
deriving DecidableEq

namespace AttributeForest

/-! ## Calls -/

/-- The calls that describe a forest. -/
def calls : AttributeForest → List AttributeCall
  | nil => []
  | leaf type data rest => .add type data :: rest.calls
  | nest type children rest => .start type :: (children.calls ++ .stop :: rest.calls)

/-- The forests that calls describe: one, and one more for each attribute that is stopped without
having been started. -/
def forestsOf : List AttributeCall → Option (AttributeForest × List AttributeForest)
  | [] => some (nil, [])
  | .add type data :: calls =>
      (forestsOf calls).map fun given => (leaf type data given.1, given.2)
  | .start type :: calls =>
      match forestsOf calls with
      | some (children, rest :: forests) => some (nest type children rest, forests)
      | _ => none
  | .stop :: calls => (forestsOf calls).map fun given => (nil, given.1 :: given.2)

/-- The forest that calls describe. -/
def ofCalls (calls : List AttributeCall) : Option AttributeForest :=
  match forestsOf calls with
  | some (forest, []) => some forest
  | _ => none

/-- How many attributes are started and not stopped after some calls. -/
def depthAfter : ℕ → List AttributeCall → Option ℕ
  | depth, [] => some depth
  | depth, .add _ _ :: calls => depthAfter depth calls
  | depth, .start _ :: calls => depthAfter (depth + 1) calls
  | 0, .stop :: _ => none
  | depth + 1, .stop :: calls => depthAfter depth calls

/-- Every attribute that is started is stopped, and nothing else is. -/
def Balanced (calls : List AttributeCall) : Prop := depthAfter 0 calls = some 0

theorem calls_of_forestsOf {calls : List AttributeCall}
    {forests : AttributeForest × List AttributeForest}
    (described : forestsOf calls = some forests) :
    calls = forests.1.calls ++ forests.2.flatMap fun forest => .stop :: forest.calls := by
  induction calls generalizing forests with
  | nil =>
      cases described
      rfl
  | cons call calls inductionHypothesis =>
      cases call with
      | add type data =>
          obtain ⟨given, before, rfl⟩ := Option.map_eq_some_iff.mp described
          rw [inductionHypothesis before]
          rfl
      | start type =>
          rw [forestsOf] at described
          split at described
          · rename_i given
            cases described
            rw [inductionHypothesis given, AttributeForest.calls, List.flatMap_cons]
            simp only [List.cons_append, List.append_assoc]
          · cases described
      | stop =>
          obtain ⟨given, before, rfl⟩ := Option.map_eq_some_iff.mp described
          rw [inductionHypothesis before]
          rfl

/-- The calls that a forest was taken from are the calls that describe it. -/
theorem calls_of_ofCalls {calls : List AttributeCall} {forest : AttributeForest}
    (described : ofCalls calls = some forest) : forest.calls = calls := by
  rw [ofCalls] at described
  split at described
  · rename_i given
    cases described
    rw [calls_of_forestsOf given]
    exact (List.append_nil _).symm
  · cases described

theorem depthAfter_append (forest : AttributeForest) (depth : ℕ) (calls : List AttributeCall) :
    depthAfter depth (forest.calls ++ calls) = depthAfter depth calls := by
  induction forest generalizing depth calls with
  | nil => rfl
  | leaf type data rest inductionHypothesis => exact inductionHypothesis depth calls
  | nest type children rest inside behind =>
      rw [AttributeForest.calls, List.cons_append, List.append_assoc, depthAfter, inside,
        List.cons_append, depthAfter, behind]

theorem forestsOf_of_depthAfter {calls : List AttributeCall} {depth : ℕ}
    (closes : depthAfter depth calls = some 0) :
    ∃ forests, forestsOf calls = some forests ∧ forests.2.length = depth := by
  induction calls generalizing depth with
  | nil =>
      cases closes
      exact ⟨(nil, []), rfl, rfl⟩
  | cons call calls inductionHypothesis =>
      cases call with
      | add type data =>
          obtain ⟨forests, given, length⟩ := inductionHypothesis closes
          exact ⟨(leaf type data forests.1, forests.2), by rw [forestsOf, given]; rfl, length⟩
      | start type =>
          obtain ⟨⟨children, others⟩, given, length⟩ := inductionHypothesis closes
          cases others with
          | nil => cases length
          | cons rest forests =>
              exact ⟨(nest type children rest, forests), by rw [forestsOf, given],
                Nat.succ.inj length⟩
      | stop =>
          cases depth with
          | zero => cases closes
          | succ depth =>
              obtain ⟨forests, given, length⟩ := inductionHypothesis closes
              refine ⟨(nil, forests.1 :: forests.2), by rw [forestsOf, given]; rfl, ?_⟩
              exact congrArg (· + 1) length

/-- Calls describe a forest exactly when they are balanced. -/
theorem isSome_ofCalls_iff (calls : List AttributeCall) :
    (ofCalls calls).isSome = true ↔ Balanced calls := by
  constructor
  · intro some
    obtain ⟨forest, described⟩ := Option.isSome_iff_exists.mp some
    rw [Balanced, ← calls_of_ofCalls described, ← List.append_nil forest.calls,
      depthAfter_append]
    rfl
  · intro balanced
    obtain ⟨⟨forest, others⟩, given, length⟩ := forestsOf_of_depthAfter balanced
    cases others with
    | nil =>
        rw [ofCalls, given]
        rfl
    | cons other others => cases length

/-! ## Bytes -/

/-- The header of an attribute. -/
def header (type : ℤ) (size : ℕ) : List UInt8 :=
  leBytes 2 size ++ leBytes 2 (UInt16.ofInt type).toNat

/-- How many bytes a forest takes. -/
def size : AttributeForest → ℕ
  | nil => 0
  | leaf _ data rest => aligned (data.length + 4) + rest.size
  | nest _ children rest => children.size + 4 + rest.size

/-- The size of every attribute fits into its header. -/
def Fits : AttributeForest → Prop
  | nil => True
  | leaf _ data rest => data.length + 4 < 65536 ∧ rest.Fits
  | nest _ children rest => children.size + 4 < 65536 ∧ children.Fits ∧ rest.Fits

/-- Some bytes are the attributes of a forest, filled up somehow. -/
def Encodes : AttributeForest → List UInt8 → Prop
  | nil, bytes => bytes = []
  | leaf type data rest, bytes => ∃ filling behind,
      bytes = header type (data.length + 4) ++ (data ++ (filling ++ behind)) ∧
        data.length + 4 + filling.length = aligned (data.length + 4) ∧ rest.Encodes behind
  | nest type children rest, bytes => ∃ inside behind,
      bytes = header type (inside.length + 4) ++ (inside ++ behind) ∧
        children.Encodes inside ∧ rest.Encodes behind

@[simp]
theorem length_header (type : ℤ) (size : ℕ) : (header type size).length = 4 := by
  rw [header, List.length_append, length_leBytes, length_leBytes]

/-- A forest ends at an aligned place. -/
theorem aligned_size (forest : AttributeForest) : aligned forest.size = forest.size := by
  induction forest with
  | nil => rfl
  | leaf type data rest inductionHypothesis =>
      rw [size]
      rw [aligned] at inductionHypothesis ⊢
      rw [aligned]
      omega
  | nest type children rest inside behind =>
      rw [size]
      rw [aligned] at inside behind ⊢
      omega

theorem Encodes.length_eq {forest : AttributeForest} {bytes : List UInt8}
    (encodes : forest.Encodes bytes) : bytes.length = forest.size := by
  induction forest generalizing bytes with
  | nil =>
      cases encodes
      rfl
  | leaf type data rest inductionHypothesis =>
      obtain ⟨filling, behind, rfl, filled, encodes⟩ := encodes
      simp only [List.length_append, length_header, inductionHypothesis encodes, size]
      omega
  | nest type children rest inside behind =>
      obtain ⟨within, after, rfl, encodesInside, encodesBehind⟩ := encodes
      simp only [List.length_append, length_header, inside encodesInside, behind encodesBehind,
        size]
      omega

/-! ## Walking -/

/-- There is a whole attribute in front of what is left: `RTA_OK`. -/
def RtaOk (bytes : List UInt8) (len : ℤ) : Prop :=
  4 ≤ len ∧ 4 ≤ statedSize 2 bytes ∧ (statedSize 2 bytes : ℤ) ≤ len

instance (bytes : List UInt8) (len : ℤ) : Decidable (RtaOk bytes len) :=
  inferInstanceAs (Decidable (_ ∧ _ ∧ _))

/-- The type and the data in front: `rta_type`, and `RTA_DATA` with the length `RTA_PAYLOAD`. -/
def frontAttribute (bytes : List UInt8) : Attribute where
  type := UInt16.ofNat (leValue ((bytes.drop 2).take 2))
  data := (bytes.drop 4).take (statedSize 2 bytes - 4)

/-- The loop over attributes, for a number of them at most, in the memory from a place on: what
it has seen, and the length that is left. Its step is `RTA_NEXT`. -/
def walk : ℕ → List UInt8 → ℤ → List Attribute × ℤ
  | 0, _, len => ([], len)
  | fuel + 1, bytes, len =>
      if RtaOk bytes len then
        let next := aligned (statedSize 2 bytes)
        let rest := walk fuel (bytes.drop next) (len - next)
        (frontAttribute bytes :: rest.1, rest.2)
      else ([], len)

/-- The attributes are those of a forest, and a walk over the data of one that holds others sees
these and leaves nothing. -/
def Matches : AttributeForest → List Attribute → Prop
  | nil, list => list = []
  | leaf type data rest, list => ∃ others,
      list = ⟨UInt16.ofInt type, data⟩ :: others ∧ rest.Matches others
  | nest type children rest, list => ∃ data inside others,
      list = ⟨UInt16.ofInt type, data⟩ :: others ∧
        (∀ fuel, data.length ≤ fuel → walk fuel data data.length = (inside, 0)) ∧
          children.Matches inside ∧ rest.Matches others

/-- An attribute in front. -/
theorem walk_cons (type : ℤ) {data filling : List UInt8} (behind : List UInt8)
    (fits : data.length + 4 < 65536)
    (filled : data.length + 4 + filling.length = aligned (data.length + 4)) (fuel : ℕ)
    {len : ℤ} (enough : (data.length + 4 : ℕ) ≤ len) :
    walk (fuel + 1) (header type (data.length + 4) ++ (data ++ (filling ++ behind))) len =
      (⟨UInt16.ofInt type, data⟩ :: (walk fuel behind (len - aligned (data.length + 4))).1,
        (walk fuel behind (len - aligned (data.length + 4))).2) := by
  have stated : statedSize 2 (header type (data.length + 4) ++ (data ++ (filling ++ behind))) =
      data.length + 4 := by
    rw [statedSize, header, List.append_assoc, List.take_left' (length_leBytes _ _),
      leValue_leBytes]
    exact Nat.mod_eq_of_lt fits
  have ok : RtaOk (header type (data.length + 4) ++ (data ++ (filling ++ behind))) len := by
    rw [RtaOk, stated]
    omega
  have front : frontAttribute (header type (data.length + 4) ++ (data ++ (filling ++ behind))) =
      ⟨UInt16.ofInt type, data⟩ := by
    have small : (UInt16.ofInt type).toNat < 256 ^ 2 := (UInt16.ofInt type).toNat_lt
    rw [frontAttribute, stated, List.drop_left' (length_header _ _), header, List.append_assoc,
      List.drop_left' (length_leBytes _ _), List.take_left' (length_leBytes _ _),
      leValue_leBytes, Nat.mod_eq_of_lt small, UInt16.ofNat_toNat, Nat.add_sub_cancel,
      List.take_left]
  have next : (header type (data.length + 4) ++ (data ++ (filling ++ behind))).drop
      (aligned (data.length + 4)) = behind := by
    rw [← List.append_assoc data, ← List.append_assoc (header _ _)]
    apply List.drop_left'
    simp only [List.length_append, length_header]
    omega
  rw [walk, if_pos ok, stated, front]
  dsimp only
  rw [next]

/-- Nothing is left. -/
theorem walk_zero (fuel : ℕ) (bytes : List UInt8) : walk fuel bytes 0 = ([], 0) := by
  cases fuel with
  | zero => rfl
  | succ fuel =>
      rw [walk, if_neg]
      rintro ⟨long, -⟩
      omega

/-- A walk over an attribute and what is behind it. -/
theorem walk_front {type : ℤ} {data filling behind tail : List UInt8} {others : List Attribute}
    (fits : data.length + 4 < 65536)
    (filled : data.length + 4 + filling.length = aligned (data.length + 4))
    (rest : ∀ fuel, behind.length ≤ fuel → walk fuel (behind ++ tail) behind.length = (others, 0))
    {fuel : ℕ}
    (enough : (header type (data.length + 4) ++ (data ++ (filling ++ behind))).length ≤ fuel) :
    walk fuel (header type (data.length + 4) ++ (data ++ (filling ++ behind)) ++ tail)
        (header type (data.length + 4) ++ (data ++ (filling ++ behind))).length =
      (⟨UInt16.ofInt type, data⟩ :: others, 0) := by
  have length : (header type (data.length + 4) ++ (data ++ (filling ++ behind))).length =
      aligned (data.length + 4) + behind.length := by
    simp only [List.length_append, length_header]
    omega
  have whole : header type (data.length + 4) ++ (data ++ (filling ++ behind)) ++ tail =
      header type (data.length + 4) ++ (data ++ (filling ++ (behind ++ tail))) := by
    simp only [List.append_assoc]
  obtain ⟨more, rfl⟩ : ∃ more, fuel = more + 1 := ⟨fuel - 1, by omega⟩
  have left : ((aligned (data.length + 4) + behind.length : ℕ) : ℤ) -
      (aligned (data.length + 4) : ℕ) = behind.length := by
    push_cast
    omega
  rw [length, whole, walk_cons type (behind ++ tail) fits filled more (by omega), left,
    rest more (by omega)]

/-- A walk over the bytes of a forest sees its attributes and leaves nothing. -/
theorem Encodes.walk {forest : AttributeForest} {bytes : List UInt8}
    (encodes : forest.Encodes bytes) (fits : forest.Fits) (tail : List UInt8) :
    ∃ list, (∀ fuel, bytes.length ≤ fuel →
      AttributeForest.walk fuel (bytes ++ tail) bytes.length = (list, 0)) ∧
        forest.Matches list := by
  induction forest generalizing bytes tail with
  | nil =>
      cases encodes
      exact ⟨[], fun fuel _ => walk_zero fuel _, rfl⟩
  | leaf type data rest inductionHypothesis =>
      obtain ⟨filling, behind, rfl, filled, encodes⟩ := encodes
      obtain ⟨others, walked, found⟩ := inductionHypothesis encodes fits.2 tail
      refine ⟨⟨UInt16.ofInt type, data⟩ :: others, ?_, others, rfl, found⟩
      intro fuel enough
      exact walk_front fits.1 filled walked enough
  | nest type children rest insideHypothesis behindHypothesis =>
      obtain ⟨inside, behind, rfl, encodesInside, encodesBehind⟩ := encodes
      obtain ⟨within, walkedInside, foundInside⟩ := insideHypothesis encodesInside fits.2.1 []
      obtain ⟨others, walked, found⟩ := behindHypothesis encodesBehind fits.2.2 tail
      have length := encodesInside.length_eq
      have filled : inside.length + 4 + ([] : List UInt8).length = aligned (inside.length + 4) := by
        have whole := aligned_size children
        rw [← length, aligned] at whole
        rw [aligned, List.length_nil]
        omega
      refine ⟨⟨UInt16.ofInt type, inside⟩ :: others, ?_, inside, within, others, rfl, ?_,
        foundInside, found⟩
      · intro fuel enough
        exact walk_front (length ▸ fits.1) filled walked enough
      · intro fuel enough
        have seen := walkedInside fuel enough
        rwa [List.append_nil] at seen

end AttributeForest

end Join.Library
