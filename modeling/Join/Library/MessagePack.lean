import Join.Library.Byte
import Join.Library.ByteOrder

/-!
# The MessagePack format

The specification of the format, read as a decoder. The first byte of an object names
its format; numbers and sizes behind it are big-endian, and signed integers are in
two's complement.

Several formats hold the same integer, and several hold a string, an array or a map
of the same size. `shortest` is the number of bytes of the shortest encoding of an
object, and no encoding that the decoder takes is shorter.
-/

set_option autoImplicit false
set_option maxRecDepth 1024

namespace Join.Library.MessagePack

/-- A decoded object. Floating-point numbers are given by their bit patterns. -/
inductive Object where
  | nil
  | boolean (value : Bool)
  | integer (value : ℤ)
  | float32 (pattern : ℕ)
  | float64 (pattern : ℕ)
  | string (bytes : List UInt8)
  | binary (bytes : List UInt8)
  | array (elements : List Object)
  | map (entries : List (Object × Object))
  | extension (type : ℤ) (data : List UInt8)
deriving Repr

/-- Where the size of an object stands: in the first byte, or in a field behind it. -/
inductive Size where
  | fixed (size : ℕ)
  | field (width : ℕ)
deriving DecidableEq, Repr

/-- A format, with the width of its fields in bytes. -/
inductive Format where
  | fixint (value : ℤ)
  | nil
  | boolean (value : Bool)
  | natural (width : ℕ)
  | signed (width : ℕ)
  | float32
  | float64
  | string (size : Size)
  | binary (size : Size)
  | array (size : Size)
  | map (size : Size)
  | extension (size : Size)
  | unused
deriving DecidableEq, Repr

/-- The format that a first byte names. -/
def formatOf (head : UInt8) : Format :=
  if head < 0x80 then .fixint head.toNat
  else if head < 0x90 then .map (.fixed (head.toNat - 0x80))
  else if head < 0xA0 then .array (.fixed (head.toNat - 0x90))
  else if head < 0xC0 then .string (.fixed (head.toNat - 0xA0))
  else if head = 0xC0 then .nil
  else if head = 0xC1 then .unused
  else if head = 0xC2 then .boolean false
  else if head = 0xC3 then .boolean true
  else if head = 0xC4 then .binary (.field 1)
  else if head = 0xC5 then .binary (.field 2)
  else if head = 0xC6 then .binary (.field 4)
  else if head = 0xC7 then .extension (.field 1)
  else if head = 0xC8 then .extension (.field 2)
  else if head = 0xC9 then .extension (.field 4)
  else if head = 0xCA then .float32
  else if head = 0xCB then .float64
  else if head = 0xCC then .natural 1
  else if head = 0xCD then .natural 2
  else if head = 0xCE then .natural 4
  else if head = 0xCF then .natural 8
  else if head = 0xD0 then .signed 1
  else if head = 0xD1 then .signed 2
  else if head = 0xD2 then .signed 4
  else if head = 0xD3 then .signed 8
  else if head = 0xD4 then .extension (.fixed 1)
  else if head = 0xD5 then .extension (.fixed 2)
  else if head = 0xD6 then .extension (.fixed 4)
  else if head = 0xD7 then .extension (.fixed 8)
  else if head = 0xD8 then .extension (.fixed 16)
  else if head = 0xD9 then .string (.field 1)
  else if head = 0xDA then .string (.field 2)
  else if head = 0xDB then .string (.field 4)
  else if head = 0xDC then .array (.field 2)
  else if head = 0xDD then .array (.field 4)
  else if head = 0xDE then .map (.field 2)
  else if head = 0xDF then .map (.field 4)
  else .fixint ((head.toNat : ℤ) - 0x100)

/-! ## Decoding -/

section Decoding

variable {α : Type}

/-- The next bytes of an input. -/
def take (count : ℕ) (input : List UInt8) : Option (List UInt8 × List UInt8) :=
  if count ≤ input.length then some (input.take count, input.drop count) else none

/-- A big-endian number. -/
def number (width : ℕ) (input : List UInt8) : Option (ℕ × List UInt8) :=
  (take width input).map (Prod.map beValue id)

/-- The number that a pattern of some width stands for in two's complement. -/
def twosComplement (width pattern : ℕ) : ℤ :=
  if pattern < 2 ^ (8 * width - 1) then pattern else (pattern : ℤ) - 2 ^ (8 * width)

def size : Size → List UInt8 → Option (ℕ × List UInt8)
  | .fixed size, input => some (size, input)
  | .field width, input => number width input

/-- As many bytes as a size says. -/
def sized (place : Size) (input : List UInt8) : Option (List UInt8 × List UInt8) :=
  (size place input).bind fun (count, rest) => take count rest

/-- Some number of things in a row. -/
def many (one : List UInt8 → Option (α × List UInt8)) :
    ℕ → List UInt8 → Option (List α × List UInt8)
  | 0, input => some ([], input)
  | count + 1, input =>
      (one input).bind fun (first, rest) =>
        (many one count rest).map fun (others, rest) => (first :: others, rest)

/-- Two things in a row. -/
def pair (one : List UInt8 → Option (α × List UInt8)) (input : List UInt8) :
    Option ((α × α) × List UInt8) :=
  (one input).bind fun (first, rest) =>
    (one rest).map fun (second, rest) => ((first, second), rest)

/-- The object at the front of an input and what follows it, in which containers are
nested less than `depth` deep. -/
def decode : ℕ → List UInt8 → Option (Object × List UInt8)
  | 0, _ => none
  | _ + 1, [] => none
  | depth + 1, head :: input =>
      match formatOf head with
      | .fixint value => some (.integer value, input)
      | .nil => some (.nil, input)
      | .boolean value => some (.boolean value, input)
      | .natural width => (number width input).map (Prod.map (fun (pattern : ℕ) => .integer pattern) id)
      | .signed width =>
          (number width input).map
            (Prod.map (fun pattern => .integer (twosComplement width pattern)) id)
      | .float32 => (number 4 input).map (Prod.map .float32 id)
      | .float64 => (number 8 input).map (Prod.map .float64 id)
      | .string place => (sized place input).map (Prod.map .string id)
      | .binary place => (sized place input).map (Prod.map .binary id)
      | .array place =>
          (size place input).bind fun (count, rest) =>
            (many (decode depth) count rest).map (Prod.map .array id)
      | .map place =>
          (size place input).bind fun (count, rest) =>
            (many (pair (decode depth)) count rest).map (Prod.map .map id)
      | .extension place =>
          (size place input).bind fun (count, rest) =>
            (number 1 rest).bind fun (type, rest) =>
              (take count rest).map (Prod.map (.extension (twosComplement 1 type)) id)
      | .unused => none

/-- The object at the front of a document. Every container takes a byte, so none is nested
deeper than there are bytes. -/
def decodeDocument (input : List UInt8) : Option (Object × List UInt8) :=
  decode (input.length + 1) input

end Decoding

/-! ## The shortest encoding -/

def shortestInteger (value : ℤ) : ℕ :=
  if -2 ^ 5 ≤ value ∧ value < 2 ^ 7 then 1
  else if -2 ^ 7 ≤ value ∧ value < 2 ^ 8 then 2
  else if -2 ^ 15 ≤ value ∧ value < 2 ^ 16 then 3
  else if -2 ^ 31 ≤ value ∧ value < 2 ^ 32 then 5
  else 9

def shortestStringHead (count : ℕ) : ℕ :=
  if count < 2 ^ 5 then 1 else if count < 2 ^ 8 then 2 else if count < 2 ^ 16 then 3 else 5

def shortestBinaryHead (count : ℕ) : ℕ :=
  if count < 2 ^ 8 then 2 else if count < 2 ^ 16 then 3 else 5

/-- The head of an array or of a map. -/
def shortestContainerHead (count : ℕ) : ℕ :=
  if count < 2 ^ 4 then 1 else if count < 2 ^ 16 then 3 else 5

def shortestExtensionHead (count : ℕ) : ℕ :=
  if count = 1 ∨ count = 2 ∨ count = 4 ∨ count = 8 ∨ count = 16 then 2
  else if count < 2 ^ 8 then 3 else if count < 2 ^ 16 then 4 else 6

mutual
/-- The number of bytes of the shortest encoding of an object. -/
def shortest : Object → ℕ
  | .nil => 1
  | .boolean _ => 1
  | .integer value => shortestInteger value
  | .float32 _ => 5
  | .float64 _ => 9
  | .string bytes => shortestStringHead bytes.length + bytes.length
  | .binary bytes => shortestBinaryHead bytes.length + bytes.length
  | .array elements => shortestContainerHead elements.length + shortestElements elements
  | .map entries => shortestContainerHead entries.length + shortestEntries entries
  | .extension _ data => shortestExtensionHead data.length + data.length

def shortestElements : List Object → ℕ
  | [] => 0
  | element :: elements => shortest element + shortestElements elements

def shortestEntries : List (Object × Object) → ℕ
  | [] => 0
  | (key, value) :: entries => shortest key + shortest value + shortestEntries entries
end

/-! ## No encoding is shorter -/

def Size.within (place : Size) (fixed : ℕ → Bool) (widths : List ℕ) : Bool :=
  match place with
  | .fixed size => fixed size
  | .field width => widths.contains width

/-- What a first byte can hold, and how wide the fields of the formats are. -/
def Format.bounded : Format → Bool
  | .fixint value => -2 ^ 5 ≤ value && value < 2 ^ 7
  | .natural width => [1, 2, 4, 8].contains width
  | .signed width => [1, 2, 4, 8].contains width
  | .string place => place.within (· < 2 ^ 5) [1, 2, 4]
  | .binary place => place.within (fun _ => false) [1, 2, 4]
  | .array place => place.within (· < 2 ^ 4) [2, 4]
  | .map place => place.within (· < 2 ^ 4) [2, 4]
  | .extension place => place.within ([1, 2, 4, 8, 16].contains ·) [1, 2, 4]
  | _ => true

theorem bounded_formatOf : ∀ head : UInt8, (formatOf head).bounded = true := by
  decide

section Shortest

variable {α : Type} {count width value : ℕ} {place : Size} {input rest bytes : List UInt8}

theorem take_eq_some (taken : take count input = some (bytes, rest)) :
    bytes.length = count ∧ input.length = count + rest.length := by
  unfold take at taken
  split at taken
  case isTrue enough =>
      obtain ⟨rfl, rfl⟩ := Prod.mk.inj (Option.some.inj taken)
      rw [List.length_take, List.length_drop]
      omega
  case isFalse => cases taken

theorem number_eq_some (read : number width input = some (value, rest)) :
    value < 256 ^ width ∧ input.length = width + rest.length := by
  unfold number at read
  obtain ⟨⟨bytes, behind⟩, taken, same⟩ := Option.map_eq_some_iff.mp read
  obtain ⟨rfl, rfl⟩ := Prod.mk.inj same
  obtain ⟨length, split⟩ := take_eq_some taken
  exact ⟨length ▸ beValue_lt bytes, split⟩

/-- A size in the first byte takes no further byte, a field takes its width and bounds
the size. -/
theorem size_eq_some (read : size place input = some (count, rest)) :
    (place = .fixed count ∧ rest = input) ∨
      ∃ width, place = .field width ∧ count < 256 ^ width ∧ input.length = width + rest.length := by
  cases place with
  | fixed size =>
      obtain ⟨rfl, rfl⟩ := Prod.mk.inj (Option.some.inj read)
      exact .inl ⟨rfl, rfl⟩
  | field width => exact .inr ⟨width, rfl, number_eq_some read⟩

theorem sized_eq_some (read : sized place input = some (bytes, rest)) :
    ∃ middle, size place input = some (bytes.length, middle) ∧
      middle.length = bytes.length + rest.length := by
  obtain ⟨⟨count, middle⟩, found, taken⟩ := Option.bind_eq_some_iff.mp read
  obtain ⟨rfl, split⟩ := take_eq_some taken
  exact ⟨middle, found, split⟩

theorem shortestInteger_le (wide : width ∈ [1, 2, 4, 8]) {value : ℤ}
    (range : (0 ≤ value ∧ value < 256 ^ width) ∨
      (-2 ^ (8 * width - 1) ≤ value ∧ value < 2 ^ (8 * width - 1))) :
    shortestInteger value ≤ 1 + width := by
  unfold shortestInteger
  simp only [List.mem_cons, List.not_mem_nil, or_false] at wide
  rcases wide with rfl | rfl | rfl | rfl <;> norm_num at range <;> split_ifs <;> omega

theorem twosComplement_range (wide : width ∈ [1, 2, 4, 8]) (small : value < 256 ^ width) :
    -2 ^ (8 * width - 1) ≤ twosComplement width value ∧
      twosComplement width value < 2 ^ (8 * width - 1) := by
  unfold twosComplement
  simp only [List.mem_cons, List.not_mem_nil, or_false] at wide
  rcases wide with rfl | rfl | rfl | rfl <;> norm_num at small ⊢ <;> split_ifs <;> omega

/-- A head is no shorter than the shortest that holds the size. -/
theorem head_le (head : ℕ → ℕ) {fixed : ℕ → Bool} {widths : List ℕ}
    (within : place.within fixed widths = true) (read : size place input = some (count, rest))
    (first : fixed count = true → head count ≤ 1)
    (field : ∀ width ∈ widths, count < 256 ^ width → head count ≤ 1 + width) :
    head count + rest.length ≤ 1 + input.length := by
  rcases size_eq_some read with ⟨rfl, rfl⟩ | ⟨width, rfl, small, split⟩
  · exact Nat.add_le_add_right (first within) _
  · have bound := field width (by simpa [Size.within] using within) small
    omega

theorem stringHead_le (within : place.within (· < 2 ^ 5) [1, 2, 4] = true)
    (read : size place input = some (count, rest)) :
    shortestStringHead count + rest.length ≤ 1 + input.length := by
  refine head_le shortestStringHead within read (fun first => ?_) (fun width wide small => ?_)
  · rw [shortestStringHead, if_pos (of_decide_eq_true first)]
  · unfold shortestStringHead
    simp only [List.mem_cons, List.not_mem_nil, or_false] at wide
    rcases wide with rfl | rfl | rfl <;> norm_num at small <;> split_ifs <;> omega

theorem binaryHead_le (within : place.within (fun _ => false) [1, 2, 4] = true)
    (read : size place input = some (count, rest)) :
    shortestBinaryHead count + rest.length ≤ 1 + input.length := by
  refine head_le shortestBinaryHead within read (fun first => ?_) (fun width wide small => ?_)
  · cases first
  · unfold shortestBinaryHead
    simp only [List.mem_cons, List.not_mem_nil, or_false] at wide
    rcases wide with rfl | rfl | rfl <;> norm_num at small <;> split_ifs <;> omega

theorem containerHead_le (within : place.within (· < 2 ^ 4) [2, 4] = true)
    (read : size place input = some (count, rest)) :
    shortestContainerHead count + rest.length ≤ 1 + input.length := by
  refine head_le shortestContainerHead within read (fun first => ?_) (fun width wide small => ?_)
  · rw [shortestContainerHead, if_pos (of_decide_eq_true first)]
  · unfold shortestContainerHead
    simp only [List.mem_cons, List.not_mem_nil, or_false] at wide
    rcases wide with rfl | rfl <;> norm_num at small <;> split_ifs <;> omega

/-- An extension has one byte more than its head, its type. -/
theorem extensionHead_le (within : place.within ([1, 2, 4, 8, 16].contains ·) [1, 2, 4] = true)
    (read : size place input = some (count, rest)) :
    shortestExtensionHead count + rest.length ≤ 2 + input.length := by
  have bound := head_le (fun count => shortestExtensionHead count - 1) within read
    (fun first => ?_) (fun width wide small => ?_)
  · have least : 2 ≤ shortestExtensionHead count := by
      unfold shortestExtensionHead
      split_ifs <;> omega
    omega
  · have known : shortestExtensionHead count = 2 := if_pos (by simpa using first)
    rw [known]
  · unfold shortestExtensionHead
    simp only [List.mem_cons, List.not_mem_nil, or_false] at wide
    rcases wide with rfl | rfl | rfl <;> norm_num at small <;> split_ifs <;> omega

theorem many_le {one : List UInt8 → Option (α × List UInt8)} {cost : α → ℕ}
    (each : ∀ input found rest, one input = some (found, rest) →
      cost found + rest.length ≤ input.length) {list : List α}
    (read : many one count input = some (list, rest)) :
    list.length = count ∧ (list.map cost).sum + rest.length ≤ input.length := by
  induction count generalizing input list with
  | zero =>
      obtain ⟨rfl, rfl⟩ := Prod.mk.inj (Option.some.inj read)
      exact ⟨rfl, by simp⟩
  | succ count ih =>
      obtain ⟨⟨first, middle⟩, found, more⟩ := Option.bind_eq_some_iff.mp read
      obtain ⟨⟨others, behind⟩, following, same⟩ := Option.map_eq_some_iff.mp more
      obtain ⟨rfl, rfl⟩ := Prod.mk.inj same
      obtain ⟨length, bound⟩ := ih following
      have start := each input first middle found
      rw [List.length_cons, List.map_cons, List.sum_cons]
      exact ⟨by rw [length], by omega⟩

theorem pair_le {one : List UInt8 → Option (α × List UInt8)} {cost : α → ℕ}
    (each : ∀ input found rest, one input = some (found, rest) →
      cost found + rest.length ≤ input.length) (input : List UInt8) (found : α × α)
    (rest : List UInt8) (read : pair one input = some (found, rest)) :
    (cost found.1 + cost found.2) + rest.length ≤ input.length := by
  obtain ⟨⟨first, middle⟩, start, more⟩ := Option.bind_eq_some_iff.mp read
  obtain ⟨⟨second, behind⟩, following, same⟩ := Option.map_eq_some_iff.mp more
  obtain ⟨rfl, rfl⟩ := Prod.mk.inj same
  have one := each input first middle start
  have two := each middle second behind following
  change (cost first + cost second) + behind.length ≤ input.length
  omega

end Shortest

theorem shortestElements_eq (elements : List Object) :
    shortestElements elements = (elements.map shortest).sum := by
  induction elements with
  | nil => rfl
  | cons element elements ih => rw [shortestElements, ih, List.map_cons, List.sum_cons]

theorem shortestEntries_eq (entries : List (Object × Object)) : shortestEntries entries =
    (entries.map fun entry => shortest entry.1 + shortest entry.2).sum := by
  induction entries with
  | nil => rfl
  | cons entry entries ih =>
      obtain ⟨key, value⟩ := entry
      rw [shortestEntries, ih, List.map_cons, List.sum_cons]

/-- No encoding that the decoder takes is shorter than the shortest. -/
theorem shortest_le {depth : ℕ} {input rest : List UInt8} {object : Object}
    (read : decode depth input = some (object, rest)) :
    shortest object + rest.length ≤ input.length := by
  induction depth generalizing input object rest with
  | zero => cases read
  | succ depth ih =>
      have each : ∀ input found rest, decode depth input = some (found, rest) →
          shortest found + rest.length ≤ input.length := fun _ _ _ found => ih found
      cases input with
      | nil => cases read
      | cons head input =>
          have bounded := bounded_formatOf head
          rw [decode] at read
          rw [List.length_cons, Nat.add_comm input.length 1]
          cases format : formatOf head with
          | fixint value =>
              simp only [format, Format.bounded, Bool.and_eq_true, decide_eq_true_eq] at read bounded
              obtain ⟨rfl, rfl⟩ := Prod.mk.inj (Option.some.inj read)
              rw [shortest, shortestInteger, if_pos bounded]
          | nil =>
              simp only [format] at read
              obtain ⟨rfl, rfl⟩ := Prod.mk.inj (Option.some.inj read)
              exact le_rfl
          | boolean value =>
              simp only [format] at read
              obtain ⟨rfl, rfl⟩ := Prod.mk.inj (Option.some.inj read)
              exact le_rfl
          | natural width =>
              simp only [format, Format.bounded, List.contains_iff_mem] at read bounded
              obtain ⟨⟨pattern, behind⟩, found, same⟩ := Option.map_eq_some_iff.mp read
              obtain ⟨rfl, rfl⟩ := Prod.mk.inj same
              obtain ⟨small, split⟩ := number_eq_some found
              have bound := shortestInteger_le bounded
                (.inl ⟨Int.natCast_nonneg pattern, by exact_mod_cast small⟩)
              rw [shortest, split]
              simp only [id]
              omega
          | signed width =>
              simp only [format, Format.bounded, List.contains_iff_mem] at read bounded
              obtain ⟨⟨pattern, behind⟩, found, same⟩ := Option.map_eq_some_iff.mp read
              obtain ⟨rfl, rfl⟩ := Prod.mk.inj same
              obtain ⟨small, split⟩ := number_eq_some found
              have bound := shortestInteger_le bounded (.inr (twosComplement_range bounded small))
              rw [shortest, split]
              simp only [id]
              omega
          | float32 =>
              simp only [format] at read
              obtain ⟨⟨pattern, behind⟩, found, same⟩ := Option.map_eq_some_iff.mp read
              obtain ⟨rfl, rfl⟩ := Prod.mk.inj same
              rw [shortest, (number_eq_some found).2]
              simp only [id]
              omega
          | float64 =>
              simp only [format] at read
              obtain ⟨⟨pattern, behind⟩, found, same⟩ := Option.map_eq_some_iff.mp read
              obtain ⟨rfl, rfl⟩ := Prod.mk.inj same
              rw [shortest, (number_eq_some found).2]
              simp only [id]
              omega
          | string place =>
              simp only [format, Format.bounded] at read bounded
              obtain ⟨⟨bytes, behind⟩, found, same⟩ := Option.map_eq_some_iff.mp read
              obtain ⟨rfl, rfl⟩ := Prod.mk.inj same
              obtain ⟨middle, length, split⟩ := sized_eq_some found
              have bound := stringHead_le bounded length
              rw [shortest]
              simp only [id]
              omega
          | binary place =>
              simp only [format, Format.bounded] at read bounded
              obtain ⟨⟨bytes, behind⟩, found, same⟩ := Option.map_eq_some_iff.mp read
              obtain ⟨rfl, rfl⟩ := Prod.mk.inj same
              obtain ⟨middle, length, split⟩ := sized_eq_some found
              have bound := binaryHead_le bounded length
              rw [shortest]
              simp only [id]
              omega
          | array place =>
              simp only [format, Format.bounded] at read bounded
              obtain ⟨⟨count, middle⟩, length, more⟩ := Option.bind_eq_some_iff.mp read
              dsimp only at more
              obtain ⟨⟨elements, behind⟩, found, same⟩ := Option.map_eq_some_iff.mp more
              obtain ⟨rfl, rfl⟩ := Prod.mk.inj same
              have bound := containerHead_le bounded length
              obtain ⟨total, parts⟩ := many_le each found
              rw [shortest, shortestElements_eq, total]
              simp only [id]
              omega
          | map place =>
              simp only [format, Format.bounded] at read bounded
              obtain ⟨⟨count, middle⟩, length, more⟩ := Option.bind_eq_some_iff.mp read
              dsimp only at more
              obtain ⟨⟨entries, behind⟩, found, same⟩ := Option.map_eq_some_iff.mp more
              obtain ⟨rfl, rfl⟩ := Prod.mk.inj same
              have bound := containerHead_le bounded length
              obtain ⟨total, parts⟩ := many_le (pair_le each) found
              rw [shortest, shortestEntries_eq, total]
              simp only [id]
              omega
          | extension place =>
              simp only [format, Format.bounded] at read bounded
              obtain ⟨⟨count, middle⟩, length, more⟩ := Option.bind_eq_some_iff.mp read
              dsimp only at more
              obtain ⟨⟨type, behind⟩, named, taken⟩ := Option.bind_eq_some_iff.mp more
              dsimp only at taken
              obtain ⟨⟨bytes, last⟩, found, same⟩ := Option.map_eq_some_iff.mp taken
              obtain ⟨rfl, rfl⟩ := Prod.mk.inj same
              have bound := extensionHead_le bounded length
              have typed := (number_eq_some named).2
              obtain ⟨rfl, split⟩ := take_eq_some found
              rw [shortest]
              simp only [id]
              omega
          | unused =>
              simp only [format] at read
              cases read

end Join.Library.MessagePack
