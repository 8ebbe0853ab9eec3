import Join.Library.WordSum

/-!
# The checksum of sockets

`Socket::checksum` adds up the words of some bytes in thirty-two bits, adds what does not fit in
sixteen bits, twice, and takes the complement. For bytes that the sum has room for, this is the
complement of their sum in one's complement. So a word that is stored where zero was, at an even
place, makes the checksum of all of them zero when it was their checksum.
-/

set_option autoImplicit false

namespace Join

open Library

/-- The loop of `Socket::checksum` over a sum of 32 bits. -/
def checksumLoop (little : Bool) : ℕ → List UInt8 → ℕ
  | sum, [] => sum
  | sum, [last] => (sum + hostWord little last 0) % 2 ^ 32
  | sum, first :: second :: rest =>
      checksumLoop little ((sum + hostWord little first second) % 2 ^ 32) rest

/-- `Socket::checksum`. -/
def checksum (little : Bool) (data : List UInt8) (current : UInt16) : ℕ :=
  2 ^ 16 - 1 - foldSum (checksumLoop little current.toNat data)

variable {little : Bool}

theorem checksumLoop_eq (data : List UInt8) {sum : ℕ} (small : sum < 2 ^ 32) :
    checksumLoop little sum data = (sum + wordSum little data) % 2 ^ 32 := by
  induction data using wordSum.induct generalizing sum with
  | case1 => rw [checksumLoop, wordSum, Nat.add_zero, Nat.mod_eq_of_lt small]
  | case2 last => rfl
  | case3 first second rest inductionHypothesis =>
      rw [checksumLoop, inductionHypothesis (Nat.mod_lt _ (by decide)), wordSum,
        Nat.mod_add_mod, Nat.add_assoc]

theorem checksum_lt (data : List UInt8) (current : UInt16) :
    checksum little data current < 2 ^ 16 := by
  unfold checksum
  omega

/-- The sum of so many bytes has thirty-two bits. -/
theorem wordSum_lt {data : List UInt8} (short : data.length ≤ 131072) :
    wordSum little data < 2 ^ 32 := by
  have bound := @wordSum_le_hostWords little data
  omega

/-- The loop adds up the words. -/
theorem checksumLoop_of_short {data : List UInt8} (short : data.length ≤ 131072) :
    checksumLoop little 0 data = wordSum little data := by
  rw [checksumLoop_eq data (by decide), Nat.zero_add, Nat.mod_eq_of_lt (wordSum_lt short)]

/-- The checksum is the complement of the word that stands for the sum. -/
theorem checksum_of_short {data : List UInt8} (short : data.length ≤ 131072) :
    checksum little data 0 = 2 ^ 16 - 1 - endAround (wordSum little data) := by
  have zero : (0 : UInt16).toNat = 0 := rfl
  rw [checksum, zero, checksumLoop_of_short short, foldSum_eq (wordSum_lt short)]

/-- The sum of the words in thirty-two bits is the sum of the words, and the checksum is the
complement of their sum in one's complement. The checksum, stored where zero was at an even place,
makes the checksum of the whole zero. -/
theorem checksum_exact (little : Bool) :
    (∀ data : List UInt8, data.length ≤ 131072 →
      checksumLoop little 0 data = wordSum little data ∧ wordSum little data < 2 ^ 32 ∧
        checksum little data 0 = 2 ^ 16 - 1 - onesSum (hostWords little data)) ∧
    ∀ front back : List UInt8, front.length % 2 = 0 →
      (front ++ ([0, 0] ++ back)).length ≤ 131072 →
        checksum little (front ++ (hostBytes little
          (checksum little (front ++ ([0, 0] ++ back)) 0) ++ back)) 0 = 0 := by
  constructor
  · intro data short
    refine ⟨checksumLoop_of_short short, wordSum_lt short, ?_⟩
    rw [checksum_of_short short, onesSum_hostWords]
  · intro front back even short
    have short' : (front ++ (hostBytes little
        (checksum little (front ++ ([0, 0] ++ back)) 0) ++ back)).length ≤ 131072 := by
      rw [List.length_append, List.length_append, length_hostBytes]
      rwa [List.length_append, List.length_append] at short
    have zero : wordSum little [0, 0] = 0 := by
      cases little with
      | true => rfl
      | false => rfl
    have without : wordSum little (front ++ ([0, 0] ++ back)) =
        wordSum little front + wordSum little back := by
      rw [wordSum_append even, wordSum_append rfl, zero, Nat.zero_add]
    have stored := @wordSum_hostBytes little _
      (@checksum_lt little (front ++ ([0, 0] ++ back)) 0)
    have complete := endAround_complete (wordSum little (front ++ ([0, 0] ++ back)))
    rw [← checksum_of_short short] at complete
    have whole : wordSum little (front ++ (hostBytes little
        (checksum little (front ++ ([0, 0] ++ back)) 0) ++ back)) =
          wordSum little (front ++ ([0, 0] ++ back)) +
            checksum little (front ++ ([0, 0] ++ back)) 0 := by
      have two := length_hostBytes little (checksum little (front ++ ([0, 0] ++ back)) 0)
      rw [wordSum_append even, wordSum_append (by rw [two]), stored, without]
      omega
    rw [checksum_of_short short', whole, complete, Nat.sub_self]

/-- An odd number of bytes, and a field in front of one of them. -/
theorem checksum_exact_odd :
    checksum true [1, 2, 255] 0 = 2 ^ 16 - 1 - onesSum (hostWords true [1, 2, 255]) ∧
      checksum true ([] ++ (hostBytes true (checksum true ([] ++ ([0, 0] ++ [8])) 0) ++ [8])) 0 =
        0 :=
  ⟨((checksum_exact true).1 [1, 2, 255] (by decide)).2.2,
    (checksum_exact true).2 [] [8] rfl (by decide)⟩

end Join
