import Join.Library.AttributeForest

/-!
# Attributes of a netlink message

`addAttributes` writes an attribute behind what a message holds, `startNestedAttributes` one
without data, and `stopNestedAttributes` gives it the size of everything that has been written
since. The length of the message is filled up to a multiple of four before an attribute and
behind it, and the size that an attribute gives is not.

Whoever walks over the message gets the attributes that were written, those inside of others too,
and nothing is left.
-/

set_option autoImplicit false

namespace Join

open Library Library.AttributeForest

/-! ## Writing -/

/-- A message in its buffer, with its length: `nlmsg_len`. -/
structure NetlinkBuffer where
  bytes : List UInt8
  nlmsgLen : ℕ
deriving DecidableEq

/-- `NLMSG_ALIGN`, with 32 bits. -/
def nlmsgAlign (len : ℕ) : ℕ := aligned len % 4294967296

/-- Bytes are written at a place. -/
def storeAt (bytes : List UInt8) (place : ℕ) (data : List UInt8) : List UInt8 :=
  bytes.take place ++ (data ++ bytes.drop (place + data.length))

namespace NetlinkBuffer

/-- `NetlinkManager::addAttributes`. -/
def addAttributes (message : NetlinkBuffer) (type : ℤ) (data : List UInt8) : NetlinkBuffer :=
  let len := 4 + data.length
  let rta := nlmsgAlign message.nlmsgLen
  let typed := storeAt message.bytes (rta + 2) (leBytes 2 (UInt16.ofInt type).toNat)
  let sized := storeAt typed rta (leBytes 2 len)
  { bytes := storeAt sized (rta + 4) data
    nlmsgLen := (nlmsgAlign message.nlmsgLen + aligned len) % 4294967296 }

/-- `NetlinkManager::startNestedAttributes`, with the place that it returns. -/
def startNestedAttributes (message : NetlinkBuffer) (type : ℤ) : NetlinkBuffer × ℕ :=
  (message.addAttributes type [], nlmsgAlign message.nlmsgLen)

/-- `NetlinkManager::stopNestedAttributes`. -/
def stopNestedAttributes (message : NetlinkBuffer) (nested : ℕ) : NetlinkBuffer :=
  { message with
    bytes := storeAt message.bytes nested (leBytes 2 (nlmsgAlign message.nlmsgLen - nested)) }

/-- A call, with the places of the attributes that are started and not stopped. -/
def call (state : NetlinkBuffer × List ℕ) :
    AttributeCall → Option (NetlinkBuffer × List ℕ)
  | .add type data => some (state.1.addAttributes type data, state.2)
  | .start type =>
      let started := state.1.startNestedAttributes type
      some (started.1, started.2 :: state.2)
  | .stop =>
      match state.2 with
      | [] => none
      | nested :: places => some (state.1.stopNestedAttributes nested, places)

/-- Some calls, one after the other. -/
def build (state : NetlinkBuffer × List ℕ) (calls : List AttributeCall) :
    Option (NetlinkBuffer × List ℕ) :=
  calls.foldlM call state

theorem build_append (state : NetlinkBuffer × List ℕ) (calls more : List AttributeCall) :
    build state (calls ++ more) = (build state calls).bind fun state => build state more :=
  List.foldlM_append ..

theorem build_start (message : NetlinkBuffer) (places : List ℕ) (type : ℤ)
    (calls : List AttributeCall) :
    build (message, places) (.start type :: calls) =
      build (message.addAttributes type [], nlmsgAlign message.nlmsgLen :: places) calls :=
  rfl

/-! ## What is written -/

theorem storeAt_append (front room data : List UInt8) :
    storeAt (front ++ room) front.length data = front ++ (data ++ room.drop data.length) := by
  rw [storeAt, List.take_left, List.drop_append, List.drop_eq_nil_of_le (Nat.le_add_right _ _),
    List.nil_append, Nat.add_sub_cancel_left]

/-- A place behind what has been written. -/
theorem storeAt_behind (front more room data : List UInt8) :
    storeAt (front ++ (more ++ room)) (front.length + more.length) data =
      front ++ (more ++ (data ++ room.drop data.length)) := by
  have whole := storeAt_append (front ++ more) room data
  rwa [List.append_assoc, List.append_assoc, List.length_append] at whole

/-- A message that holds some bytes and has room for more. -/
structure Holds (message : NetlinkBuffer) (front room : List UInt8) : Prop where
  bytes : message.bytes = front ++ room
  place : nlmsgAlign message.nlmsgLen = front.length
  whole : aligned front.length = front.length
  small : message.bytes.length < 4294967296

theorem aligned_add {left right : ℕ} (first : aligned left = left) (second : aligned right = right) :
    aligned (left + right) = left + right := by
  rw [aligned] at first second ⊢
  omega

theorem aligned_aligned (size : ℕ) : aligned (aligned size) = aligned size := by
  rw [aligned, aligned]
  omega

theorem nlmsgAlign_of_whole {size : ℕ} (whole : aligned size = size) (small : size < 4294967296) :
    nlmsgAlign size = size := by
  rw [nlmsgAlign, whole]
  exact Nat.mod_eq_of_lt small

/-- What is behind a place, as far as another one and from there on. -/
theorem drop_split (room : List UInt8) {near far : ℕ} (before : near ≤ far)
    (inside : far ≤ room.length) :
    room.drop near = (room.take far).drop near ++ room.drop far := by
  have whole := congrArg (List.drop near) (List.take_append_drop far room)
  rw [List.drop_append_of_le_length (by rw [List.length_take]; omega)] at whole
  exact whole.symm

/-- The bytes that `addAttributes` leaves. -/
theorem bytes_addAttributes {message : NetlinkBuffer} {front room : List UInt8}
    (holds : message.Holds front room) (type : ℤ) (data : List UInt8) (enough : 4 ≤ room.length) :
    (message.addAttributes type data).bytes =
      front ++ (header type (data.length + 4) ++ (data ++ room.drop (data.length + 4))) := by
  have two : (leBytes 2 (UInt16.ofInt type).toNat).length = 2 := length_leBytes _ _
  have typed : storeAt (front ++ room) (front.length + 2) (leBytes 2 (UInt16.ofInt type).toNat) =
      front ++ (room.take 2 ++ (leBytes 2 (UInt16.ofInt type).toNat ++ room.drop 4)) := by
    have stored := storeAt_behind front (room.take 2) (room.drop 2)
      (leBytes 2 (UInt16.ofInt type).toNat)
    rw [List.take_append_drop, List.length_take, Nat.min_eq_left (by omega), two,
      List.drop_drop] at stored
    exact stored
  have sized : storeAt (front ++ (room.take 2 ++
      (leBytes 2 (UInt16.ofInt type).toNat ++ room.drop 4))) front.length
        (leBytes 2 (4 + data.length)) =
      front ++ (header type (4 + data.length) ++ room.drop 4) := by
    have short : (room.take 2).length = 2 := by
      rw [List.length_take]
      omega
    rw [storeAt_append, length_leBytes, List.drop_left' short, header, List.append_assoc]
  have written := storeAt_behind front (header type (4 + data.length)) (room.drop 4) data
  rw [length_header, List.drop_drop] at written
  rw [addAttributes, holds.place]
  dsimp only
  rw [holds.bytes, typed, sized, written, Nat.add_comm 4]

/-- An attribute is written behind what a message holds. -/
theorem Holds.addAttributes {message : NetlinkBuffer} {front room : List UInt8}
    (holds : message.Holds front room) (type : ℤ) (data : List UInt8)
    (enough : aligned (data.length + 4) ≤ room.length) :
    ∃ filling, data.length + 4 + filling.length = aligned (data.length + 4) ∧
      (message.addAttributes type data).Holds
        (front ++ (header type (data.length + 4) ++ (data ++ filling)))
        (room.drop (aligned (data.length + 4))) ∧
      (message.addAttributes type data).nlmsgLen =
        (front ++ (header type (data.length + 4) ++ (data ++ filling))).length := by
  have inside := le_aligned (data.length + 4)
  have bytes := bytes_addAttributes holds type data (by omega)
  have total : message.bytes.length = front.length + room.length := by
    rw [holds.bytes, List.length_append]
  have small := holds.small
  obtain ⟨filling, split, filled⟩ : ∃ filling,
      room.drop (data.length + 4) = filling ++ room.drop (aligned (data.length + 4)) ∧
        data.length + 4 + filling.length = aligned (data.length + 4) := by
    refine ⟨_, drop_split room inside enough, ?_⟩
    rw [List.length_drop, List.length_take]
    omega
  have length : (front ++ (header type (data.length + 4) ++ (data ++ filling))).length =
      front.length + aligned (data.length + 4) := by
    simp only [List.length_append, length_header]
    omega
  have nlmsgLen : (message.addAttributes type data).nlmsgLen =
      front.length + aligned (data.length + 4) := by
    rw [NetlinkBuffer.addAttributes, holds.place]
    dsimp only
    rw [Nat.add_comm 4]
    exact Nat.mod_eq_of_lt (by omega)
  have whole := aligned_add holds.whole (aligned_aligned (data.length + 4))
  refine ⟨filling, filled, ⟨?_, ?_, ?_, ?_⟩, nlmsgLen.trans length.symm⟩
  · rw [bytes, split]
    simp only [List.append_assoc]
  · rw [nlmsgLen, length]
    exact nlmsgAlign_of_whole whole (by omega)
  · rw [length]
    exact whole
  · rw [bytes]
    simp only [List.length_append, length_header, List.length_drop]
    omega

/-- An attribute is given the size of what has been written since it was started. -/
theorem Holds.stopNestedAttributes {message : NetlinkBuffer}
    {front inside room : List UInt8} {type : ℤ}
    (holds : message.Holds (front ++ (header type 4 ++ inside)) room) :
    (message.stopNestedAttributes front.length).Holds
      (front ++ (header type (inside.length + 4) ++ inside)) room := by
  have place : nlmsgAlign message.nlmsgLen - front.length = inside.length + 4 := by
    rw [holds.place, List.length_append, List.length_append, length_header]
    omega
  have bytes : (message.stopNestedAttributes front.length).bytes =
      front ++ (header type (inside.length + 4) ++ inside) ++ room := by
    rw [NetlinkBuffer.stopNestedAttributes]
    dsimp only
    rw [place, holds.bytes, List.append_assoc, storeAt_append, length_leBytes, header, header]
    simp only [List.append_assoc]
    rw [List.drop_left' (length_leBytes _ _)]
  have length : (front ++ (header type (inside.length + 4) ++ inside)).length =
      (front ++ (header type 4 ++ inside)).length := by
    simp only [List.length_append, length_header]
  refine ⟨bytes, ?_, ?_, ?_⟩
  · rw [length]
    exact holds.place
  · rw [length]
    exact holds.whole
  · have small := holds.small
    rw [holds.bytes, List.length_append] at small
    rw [bytes, List.length_append, length]
    exact small

/-- An attribute without data is written behind what a message holds. -/
theorem Holds.startNestedAttributes {message : NetlinkBuffer} {front room : List UInt8}
    (holds : message.Holds front room) (type : ℤ) (enough : 4 ≤ room.length) :
    (message.addAttributes type []).Holds (front ++ (header type 4 ++ [])) (room.drop 4) ∧
      (message.addAttributes type []).nlmsgLen = (front ++ (header type 4 ++ [])).length := by
  obtain ⟨filling, filled, added, length⟩ := holds.addAttributes type [] enough
  have four : 4 + filling.length = 4 := filled
  have nothing : filling = [] := List.eq_nil_of_length_eq_zero (by omega)
  rw [nothing] at added length
  exact ⟨added, length⟩

/-- The calls of a forest write its attributes behind what a message holds. -/
theorem Holds.build {message : NetlinkBuffer} {front room : List UInt8}
    (holds : message.Holds front room) (forest : AttributeForest)
    (enough : forest.size ≤ room.length) (places : List ℕ) :
    ∃ built bytes, NetlinkBuffer.build (message, places) forest.calls = some (built, places) ∧
      forest.Encodes bytes ∧ built.Holds (front ++ bytes) (room.drop forest.size) ∧
        (message.nlmsgLen = front.length ∨ forest.calls ≠ [] →
          built.nlmsgLen = (front ++ bytes).length) := by
  induction forest generalizing message front room places with
  | nil =>
      refine ⟨message, [], rfl, rfl, ?_, ?_⟩
      · rw [List.append_nil]
        exact holds
      · rintro (tight | some)
        · rw [List.append_nil]
          exact tight
        · exact absurd rfl some
  | leaf type data rest inductionHypothesis =>
      rw [size] at enough
      obtain ⟨filling, filled, added, length⟩ := holds.addAttributes type data (by omega)
      obtain ⟨built, behind, built_eq, encodes, holdsBuilt, tight⟩ :=
        inductionHypothesis added (by rw [List.length_drop]; omega) places
      have whole : front ++ (header type (data.length + 4) ++ (data ++ (filling ++ behind))) =
          front ++ (header type (data.length + 4) ++ (data ++ filling)) ++ behind := by
        simp only [List.append_assoc]
      refine ⟨built, _, built_eq, ⟨filling, behind, rfl, filled, encodes⟩, ?_, fun _ => ?_⟩
      · rw [whole, size, ← List.drop_drop]
        exact holdsBuilt
      · rw [whole]
        exact tight (Or.inl length)
  | nest type children rest insideHypothesis behindHypothesis =>
      rw [size] at enough
      obtain ⟨started, length⟩ := holds.startNestedAttributes type (by omega)
      obtain ⟨filled, inside, filled_eq, encodesInside, holdsFilled, tightFilled⟩ :=
        insideHypothesis started (by rw [List.length_drop]; omega) (front.length :: places)
      rw [List.append_assoc, List.append_assoc, List.nil_append] at holdsFilled
      have stopped := holdsFilled.stopNestedAttributes
      obtain ⟨built, behind, built_eq, encodesBehind, holdsBuilt, tight⟩ :=
        behindHypothesis stopped (by simp only [List.length_drop]; omega) places
      have whole : front ++ (header type (inside.length + 4) ++ (inside ++ behind)) =
          front ++ (header type (inside.length + 4) ++ inside) ++ behind := by
        simp only [List.append_assoc]
      refine ⟨built, _, ?_, ⟨inside, behind, rfl, encodesInside, encodesBehind⟩, ?_, fun _ => ?_⟩
      · rw [calls, build_start, build_append, holds.place, filled_eq]
        exact built_eq
      · rw [whole, size, Nat.add_comm children.size, ← List.drop_drop, ← List.drop_drop]
        exact holdsBuilt
      · rw [whole]
        apply tight
        left
        have same := tightFilled (Or.inl length)
        refine same.trans ?_
        simp only [List.length_append, length_header, List.length_nil]
        omega

/-- Balanced calls describe a forest. When its attributes fit into their headers and the buffer
has room for them, the calls write them, nothing that was in front of them is changed, and a walk
over the message gets them back and leaves nothing. -/
theorem attributes_read_back (message : NetlinkBuffer) (calls : List AttributeCall)
    (forest : AttributeForest) (described : ofCalls calls = some forest) (fits : forest.Fits)
    (room : aligned message.nlmsgLen + forest.size ≤ message.bytes.length)
    (addressable : message.bytes.length < 4294967296) :
    ∃ built list left, build (message, []) calls = some (built, []) ∧
      built.bytes.take (aligned message.nlmsgLen) =
        message.bytes.take (aligned message.nlmsgLen) ∧
      (∀ fuel, message.bytes.length ≤ fuel →
        walk fuel (built.bytes.drop (aligned message.nlmsgLen))
          (built.nlmsgLen - aligned message.nlmsgLen) = (list, left)) ∧
      forest.Matches list ∧ left ≤ 0 ∧ (calls ≠ [] → left = 0) := by
  have base : (message.bytes.take (aligned message.nlmsgLen)).length =
      aligned message.nlmsgLen := by
    rw [List.length_take]
    omega
  have holds : message.Holds (message.bytes.take (aligned message.nlmsgLen))
      (message.bytes.drop (aligned message.nlmsgLen)) := by
    refine ⟨(List.take_append_drop _ _).symm, ?_, ?_, addressable⟩
    · rw [base, nlmsgAlign]
      exact Nat.mod_eq_of_lt (by omega)
    · rw [base]
      exact aligned_aligned _
  obtain ⟨built, bytes, built_eq, encodes, holdsBuilt, tight⟩ :=
    holds.build forest (by rw [List.length_drop]; omega) []
  rw [calls_of_ofCalls described] at built_eq tight
  have front : built.bytes.take (aligned message.nlmsgLen) =
      message.bytes.take (aligned message.nlmsgLen) := by
    rw [holdsBuilt.bytes, List.append_assoc, List.take_left' base]
  have behind : built.bytes.drop (aligned message.nlmsgLen) =
      bytes ++ (message.bytes.drop (aligned message.nlmsgLen)).drop forest.size := by
    rw [holdsBuilt.bytes, List.append_assoc, List.drop_left' base]
  by_cases some : calls = []
  · cases some
    cases described
    cases built_eq
    have short := le_aligned message.nlmsgLen
    refine ⟨message, [], message.nlmsgLen - aligned message.nlmsgLen, rfl, rfl, ?_, rfl,
      by omega, fun some => absurd rfl some⟩
    intro fuel _
    cases fuel with
    | zero => rfl
    | succ fuel =>
        rw [walk, if_neg]
        rintro ⟨long, -⟩
        omega
  · obtain ⟨list, walked, found⟩ := encodes.walk fits
      ((message.bytes.drop (aligned message.nlmsgLen)).drop forest.size)
    refine ⟨built, list, 0, built_eq, front, ?_, found, Int.le_refl 0, fun _ => rfl⟩
    intro fuel enough
    have left : (built.nlmsgLen : ℤ) - aligned message.nlmsgLen = bytes.length := by
      rw [tight (Or.inr some), List.length_append, base]
      push_cast
      omega
    rw [left, behind]
    apply walked
    rw [encodes.length_eq]
    omega

/-! ## A message -/

/-- A message with a header of 32 bytes and room for 24 more. -/
def roomy : NetlinkBuffer := ⟨List.replicate 56 0, 32⟩

/-- A name inside of an attribute, and a byte behind it. -/
def nameInside : List AttributeCall :=
  [.start 18, .add 1 [118, 101, 116, 104, 0], .stop, .add 3 [7]]

/-- The name and the byte are read back. -/
theorem attributes_read_back_name : ∃ built list left,
    build (roomy, []) nameInside = some (built, []) ∧
      built.bytes.take (aligned 32) = roomy.bytes.take (aligned 32) ∧
      (∀ fuel, roomy.bytes.length ≤ fuel →
        walk fuel (built.bytes.drop (aligned 32)) (built.nlmsgLen - aligned 32) = (list, left)) ∧
      (nest 18 (leaf 1 [118, 101, 116, 104, 0] nil) (leaf 3 [7] nil)).Matches list ∧ left ≤ 0 ∧
        (nameInside ≠ [] → left = 0) :=
  attributes_read_back roomy nameInside
    (nest 18 (leaf 1 [118, 101, 116, 104, 0] nil) (leaf 3 [7] nil)) (by decide)
    ⟨by decide, ⟨by decide, trivial⟩, by decide, trivial⟩ (by decide) (by decide)

end NetlinkBuffer

end Join
