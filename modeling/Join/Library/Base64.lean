import Mathlib.Data.List.TakeWhile
import Mathlib.Tactic.Common
import Join.Library.Byte

/-!
# Base64

The encoding of bytes in groups of four characters, three bytes in a group, with padding in the
last group, and the bytes that a text denotes. A text denotes bytes when it consists of whole
groups of characters of the alphabet, with at most two padding characters, at its end.
-/

set_option autoImplicit false

namespace Join.Library.Base64

/-! ## The alphabet -/

/-- The padding character. -/
def pad : UInt8 := 61

/-- The character of a number below 64. -/
def symbol (index : ℕ) : UInt8 :=
  UInt8.ofNat (if index < 26 then 65 + index else if index < 52 then 71 + index
    else if index < 62 then index - 4 else if index = 62 then 43 else 47)

/-- The number that a character of the alphabet stands for. -/
def value (byte : UInt8) : Option ℕ :=
  if 65 ≤ byte ∧ byte ≤ 90 then some (byte.toNat - 65)
  else if 97 ≤ byte ∧ byte ≤ 122 then some (byte.toNat - 71)
  else if 48 ≤ byte ∧ byte ≤ 57 then some (byte.toNat + 4)
  else if byte = 43 then some 62
  else if byte = 47 then some 63
  else none

theorem value_symbol {index : ℕ} (small : index < 64) : value (symbol index) = some index := by
  have all : ∀ index : Fin 64, value (symbol index) = some index.val := by decide
  exact all ⟨index, small⟩

@[simp] theorem value_pad : value pad = none := by decide

/-! ## Encoding -/

/-- The text of some bytes. -/
def encode : List UInt8 → List UInt8
  | [] => []
  | [a] => [symbol (a.toNat / 4), symbol (a.toNat % 4 * 16), pad, pad]
  | [a, b] =>
      [symbol (a.toNat / 4), symbol (a.toNat % 4 * 16 + b.toNat / 16), symbol (b.toNat % 16 * 4),
        pad]
  | a :: b :: c :: rest =>
      symbol (a.toNat / 4) :: symbol (a.toNat % 4 * 16 + b.toNat / 16) ::
        symbol (b.toNat % 16 * 4 + c.toNat / 64) :: symbol (c.toNat % 64) :: encode rest

/-- The three bytes of four numbers below 64. -/
def group (v w x y : ℕ) : List UInt8 :=
  [UInt8.ofNat (v * 4 + w / 16), UInt8.ofNat (w % 16 * 16 + x / 4), UInt8.ofNat (x % 4 * 64 + y)]

/-- The bytes of the last group, in which padding may stand. -/
def denoteLast (a b c d : UInt8) : Option (List UInt8) :=
  match value a, value b with
  | some v, some w =>
      if c = pad ∧ d = pad then some ((group v w 0 0).take 1)
      else
        match value c with
        | some x =>
            if d = pad then some ((group v w x 0).take 2)
            else (value d).map fun y => group v w x y
        | none => none
  | _, _ => none

/-- The bytes that a text denotes. -/
def denote : List UInt8 → Option (List UInt8)
  | [] => some []
  | a :: b :: c :: d :: rest =>
      if rest.isEmpty then denoteLast a b c d
      else
        match value a, value b, value c, value d with
        | some v, some w, some x, some y => (denote rest).map fun more => group v w x y ++ more
        | _, _, _, _ => none
  | _ => none

/-- Characters of the alphabet with at most two padding characters behind them. -/
def Orderly (text : List UInt8) : Prop :=
  text.dropWhile (fun byte => (value byte).isSome) ∈ [[], [pad], [pad, pad]]

instance (text : List UInt8) : Decidable (Orderly text) :=
  inferInstanceAs (Decidable (_ ∈ _))

/-- The bytes of whole groups, with padding for zero. -/
def decodeBlock : List UInt8 → List UInt8
  | a :: b :: c :: d :: rest =>
      group ((value a).getD 0) ((value b).getD 0) ((value c).getD 0) ((value d).getD 0) ++
        decodeBlock rest
  | _ => []

/-- The bytes of whole groups, one less for each padding character. -/
def unpadded (text : List UInt8) : List UInt8 :=
  (decodeBlock text).take ((decodeBlock text).length - text.count pad)

/-! ## Groups -/

/-- Induction over groups of four characters, with a rest of at most three. -/
theorem groups_induction {motive : List UInt8 → Prop} (nil : motive [])
    (one : ∀ a, motive [a]) (two : ∀ a b, motive [a, b]) (three : ∀ a b c, motive [a, b, c])
    (group : ∀ a b c d rest, motive rest → motive (a :: b :: c :: d :: rest))
    (text : List UInt8) : motive text := by
  induction size : text.length using Nat.strong_induction_on generalizing text with
  | h size' ih =>
      rcases text with - | ⟨a, - | ⟨b, - | ⟨c, - | ⟨d, rest⟩⟩⟩⟩
      · exact nil
      · exact one a
      · exact two a b
      · exact three a b c
      · apply group
        apply ih rest.length _ rest rfl
        simp only [List.length_cons] at size
        omega

theorem orderly_cons_symbol {byte : UInt8} {index : ℕ} (known : value byte = some index)
    (rest : List UInt8) : Orderly (byte :: rest) ↔ Orderly rest := by
  rw [Orderly, Orderly, List.dropWhile_cons_of_pos (by rw [known]; rfl)]

theorem orderly_cons_other {byte : UInt8} (unknown : value byte = none) (rest : List UInt8) :
    Orderly (byte :: rest) ↔ byte = pad ∧ (rest = [] ∨ rest = [pad]) := by
  rw [Orderly, List.dropWhile_cons_of_neg (by rw [unknown]; exact Bool.false_ne_true)]
  simp only [List.mem_cons, List.not_mem_nil, or_false, List.cons.injEq, reduceCtorEq, false_or]
  constructor
  · rintro (⟨same, empty⟩ | ⟨same, one⟩)
    · exact ⟨same, Or.inl empty⟩
    · exact ⟨same, Or.inr one⟩
  · rintro ⟨same, empty | one⟩
    · exact Or.inl ⟨same, empty⟩
    · exact Or.inr ⟨same, one⟩

theorem orderly_nil : Orderly [] := List.mem_cons_self

/-- A group in the alphabet before other groups. -/
theorem denote_group {a b c d : UInt8} {v w x y : ℕ} (first : value a = some v)
    (second : value b = some w) (third : value c = some x) (fourth : value d = some y)
    (rest : List UInt8) :
    denote (a :: b :: c :: d :: rest) = (denote rest).map fun more => group v w x y ++ more := by
  have unpaddedThird : c ≠ pad := by
    rintro rfl
    cases value_pad.symm.trans third
  have unpaddedFourth : d ≠ pad := by
    rintro rfl
    cases value_pad.symm.trans fourth
  rw [denote]
  by_cases last : rest = []
  · rw [last, List.isEmpty_nil, if_pos rfl, denoteLast, first, second, third, fourth]
    simp only [unpaddedThird, unpaddedFourth, false_and, if_false, denote, Option.map_some,
      List.append_nil]
  · rw [if_neg fun empty => last (List.isEmpty_iff.mp empty), first, second, third, fourth]

/-! ## Decoding what was encoded -/

theorem denote_encode (data : List UInt8) : denote (encode data) = some data := by
  induction data using encode.induct with
  | case1 => rfl
  | case2 a =>
      have low := a.toNat_lt
      rw [encode, denote, List.isEmpty_nil, if_pos rfl, denoteLast, value_symbol (by omega),
        value_symbol (by omega)]
      simp only [and_self, if_true, group, List.take_succ_cons, List.take_zero]
      have back : a.toNat / 4 * 4 + a.toNat % 4 * 16 / 16 = a.toNat := by omega
      rw [back, UInt8.ofNat_toNat]
  | case3 a b =>
      have lowA := a.toNat_lt
      have lowB := b.toNat_lt
      have third : value (symbol (b.toNat % 16 * 4)) = some (b.toNat % 16 * 4) :=
        value_symbol (by omega)
      have unpadded : symbol (b.toNat % 16 * 4) ≠ pad := by
        intro same
        rw [same, value_pad] at third
        cases third
      rw [encode, denote, List.isEmpty_nil, if_pos rfl, denoteLast, value_symbol (by omega),
        value_symbol (by omega)]
      simp only [unpadded, false_and, if_false, third, if_true, group, List.take_succ_cons,
        List.take_zero]
      have backA : a.toNat / 4 * 4 + (a.toNat % 4 * 16 + b.toNat / 16) / 16 = a.toNat := by omega
      have backB : (a.toNat % 4 * 16 + b.toNat / 16) % 16 * 16 + b.toNat % 16 * 4 / 4 =
          b.toNat := by omega
      rw [backA, backB, UInt8.ofNat_toNat, UInt8.ofNat_toNat]
  | case4 a b c rest ih =>
      have lowA := a.toNat_lt
      have lowB := b.toNat_lt
      have lowC := c.toNat_lt
      rw [encode, denote_group (value_symbol (by omega)) (value_symbol (by omega))
        (value_symbol (by omega)) (value_symbol (by omega)), ih, Option.map_some, group]
      have backA : a.toNat / 4 * 4 + (a.toNat % 4 * 16 + b.toNat / 16) / 16 = a.toNat := by omega
      have backB : (a.toNat % 4 * 16 + b.toNat / 16) % 16 * 16 +
          (b.toNat % 16 * 4 + c.toNat / 64) / 4 = b.toNat := by omega
      have backC : (b.toNat % 16 * 4 + c.toNat / 64) % 4 * 64 + c.toNat % 64 = c.toNat := by omega
      rw [backA, backB, backC, UInt8.ofNat_toNat, UInt8.ofNat_toNat, UInt8.ofNat_toNat]
      rfl

/-! ## What was encoded -/

/-- Whole groups of three bytes are encoded on their own. -/
theorem encode_append {first : List UInt8} (whole : 3 ∣ first.length) (second : List UInt8) :
    encode (first ++ second) = encode first ++ encode second := by
  induction first using encode.induct with
  | case1 => rfl
  | case2 a => exact absurd whole (by simp)
  | case3 a b => exact absurd whole (by simp)
  | case4 a b c rest ih =>
      have part : 3 ∣ rest.length := by
        simp only [List.length_cons] at whole
        omega
      simp only [List.cons_append, encode, ih part]

theorem length_encode (data : List UInt8) :
    (encode data).length = 4 * ((data.length + 2) / 3) := by
  induction data using encode.induct with
  | case1 => rfl
  | case2 a => simp [encode]
  | case3 a b => simp [encode]
  | case4 a b c rest ih =>
      simp only [encode, List.length_cons, ih]
      omega

/-- Only empty data has an empty text. -/
theorem encode_eq_nil {data : List UInt8} : encode data = [] ↔ data = [] := by
  constructor
  · intro empty
    have length := length_encode data
    rw [empty, List.length_nil] at length
    exact List.length_eq_zero_iff.mp (by omega)
  · rintro rfl
    rfl

/-- An encoded text consists of characters of the alphabet and padding. -/
theorem mem_encode {data : List UInt8} {byte : UInt8} (member : byte ∈ encode data) :
    (value byte).isSome = true ∨ byte = pad := by
  have known : ∀ index < 64, (value (symbol index)).isSome = true := fun index small => by
    rw [value_symbol small]
    rfl
  induction data using encode.induct with
  | case1 => exact absurd member List.not_mem_nil
  | case2 a =>
      have low := a.toNat_lt
      simp only [encode, List.mem_cons, List.not_mem_nil, or_false] at member
      rcases member with rfl | rfl | rfl | rfl
      · exact Or.inl (known _ (by omega))
      · exact Or.inl (known _ (by omega))
      · exact Or.inr rfl
      · exact Or.inr rfl
  | case3 a b =>
      have lowA := a.toNat_lt
      have lowB := b.toNat_lt
      simp only [encode, List.mem_cons, List.not_mem_nil, or_false] at member
      rcases member with rfl | rfl | rfl | rfl
      · exact Or.inl (known _ (by omega))
      · exact Or.inl (known _ (by omega))
      · exact Or.inl (known _ (by omega))
      · exact Or.inr rfl
  | case4 a b c rest ih =>
      have lowA := a.toNat_lt
      have lowB := b.toNat_lt
      have lowC := c.toNat_lt
      simp only [encode, List.mem_cons] at member
      rcases member with rfl | rfl | rfl | rfl | inside
      · exact Or.inl (known _ (by omega))
      · exact Or.inl (known _ (by omega))
      · exact Or.inl (known _ (by omega))
      · exact Or.inl (known _ (by omega))
      · exact ih inside

/-! ## Well-formed texts -/

theorem ne_pad {byte : UInt8} {index : ℕ} (known : value byte = some index) : byte ≠ pad := by
  rintro rfl
  cases value_pad.symm.trans known

/-- The groups of an orderly text: the first is in the alphabet, or it is the last and padded. -/
theorem orderly_group {a b c d : UInt8} {rest : List UInt8} (whole : 4 ∣ rest.length)
    (orderly : Orderly (a :: b :: c :: d :: rest)) :
    ∃ v w, value a = some v ∧ value b = some w ∧
      ((∃ x y, value c = some x ∧ value d = some y ∧ Orderly rest) ∨
        (rest = [] ∧ d = pad ∧ ((∃ x, value c = some x) ∨ c = pad))) := by
  cases first : value a with
  | none =>
      obtain ⟨-, empty | one⟩ := (orderly_cons_other first _).mp orderly
      · cases empty
      · cases one
  | some v =>
      rw [orderly_cons_symbol first] at orderly
      cases second : value b with
      | none =>
          obtain ⟨-, empty | one⟩ := (orderly_cons_other second _).mp orderly
          · cases empty
          · cases one
      | some w =>
          rw [orderly_cons_symbol second] at orderly
          refine ⟨v, w, rfl, rfl, ?_⟩
          cases third : value c with
          | none =>
              obtain ⟨padded, empty | one⟩ := (orderly_cons_other third _).mp orderly
              · cases empty
              · cases one
                exact Or.inr ⟨rfl, rfl, Or.inr padded⟩
          | some x =>
              rw [orderly_cons_symbol third] at orderly
              cases fourth : value d with
              | none =>
                  obtain ⟨padded, empty | one⟩ := (orderly_cons_other fourth _).mp orderly
                  · exact Or.inr ⟨empty, padded, Or.inl ⟨x, rfl⟩⟩
                  · rw [one] at whole
                    exact absurd whole (by decide)
              | some y =>
                  rw [orderly_cons_symbol fourth] at orderly
                  exact Or.inl ⟨x, y, rfl, rfl, orderly⟩

/-- At most two characters of an orderly text are padding. -/
theorem count_pad_le {text : List UInt8} (orderly : Orderly text) : text.count pad ≤ 2 := by
  induction text with
  | nil => exact Nat.zero_le 2
  | cons byte rest ih =>
      cases known : value byte with
      | some index =>
          rw [List.count_cons_of_ne (ne_pad known)]
          exact ih ((orderly_cons_symbol known rest).mp orderly)
      | none =>
          obtain ⟨rfl, rfl | rfl⟩ := (orderly_cons_other known rest).mp orderly
          · decide
          · decide

theorem length_decodeBlock (text : List UInt8) :
    (decodeBlock text).length = 3 * (text.length / 4) := by
  induction text using groups_induction with
  | nil => rfl
  | one a => simp [decodeBlock]
  | two a b => simp [decodeBlock]
  | three a b c => simp [decodeBlock]
  | group a b c d rest ih =>
      rw [decodeBlock, List.length_append, ih]
      simp only [group, List.length_cons, List.length_nil]
      omega

/-- A group in the alphabet before other groups. -/
theorem unpadded_group {a b c d : UInt8} {v w x y : ℕ} (first : value a = some v)
    (second : value b = some w) (third : value c = some x) (fourth : value d = some y)
    {rest : List UInt8} (orderly : Orderly rest) (whole : 4 ∣ rest.length) :
    unpadded (a :: b :: c :: d :: rest) = group v w x y ++ unpadded rest := by
  have few : rest.count pad ≤ (decodeBlock rest).length := by
    rw [length_decodeBlock]
    have padded := count_pad_le orderly
    have inside := @List.count_le_length _ _ pad rest
    omega
  have length : (group v w x y).length = 3 := rfl
  rw [unpadded, unpadded, decodeBlock, first, second, third, fourth,
    List.count_cons_of_ne (ne_pad first), List.count_cons_of_ne (ne_pad second),
    List.count_cons_of_ne (ne_pad third), List.count_cons_of_ne (ne_pad fourth)]
  simp only [Option.getD_some]
  rw [List.length_append, Nat.add_sub_assoc few, List.take_length_add_append]

/-- Orderly whole groups denote their bytes without the padding. -/
theorem denote_of_orderly (text : List UInt8) (orderly : Orderly text) (whole : 4 ∣ text.length) :
    denote text = some (unpadded text) := by
  induction text using groups_induction with
  | nil => rfl
  | one a => exact absurd whole (by simp)
  | two a b => exact absurd whole (by simp)
  | three a b c => exact absurd whole (by simp)
  | group a b c d rest ih =>
      have part : 4 ∣ rest.length := by
        simp only [List.length_cons] at whole
        omega
      obtain ⟨v, w, first, second, ⟨x, y, third, fourth, more⟩ | ⟨rfl, rfl, last⟩⟩ :=
        orderly_group part orderly
      · rw [denote_group first second third fourth, ih more part, Option.map_some,
          unpadded_group first second third fourth more part]
      · rcases last with ⟨x, third⟩ | rfl
        · simp [denote, denoteLast, unpadded, decodeBlock, group, first, second, third,
            ne_pad first, ne_pad second, ne_pad third]
        · simp [denote, denoteLast, unpadded, decodeBlock, group, first, second, ne_pad first,
            ne_pad second]

/-- A last group that denotes bytes is orderly. -/
theorem orderly_of_denoteLast {a b c d : UInt8} (known : (denoteLast a b c d).isSome = true) :
    Orderly [a, b, c, d] := by
  rw [denoteLast] at known
  cases first : value a with
  | none =>
      rw [first] at known
      cases known
  | some v =>
      cases second : value b with
      | none =>
          rw [first, second] at known
          cases known
      | some w =>
          rw [first, second] at known
          rw [orderly_cons_symbol first, orderly_cons_symbol second]
          dsimp only at known
          by_cases both : c = pad ∧ d = pad
          · rw [both.1, both.2]
            decide
          · rw [if_neg both] at known
            cases third : value c with
            | none =>
                rw [third] at known
                cases known
            | some x =>
                rw [third] at known
                rw [orderly_cons_symbol third]
                dsimp only at known
                by_cases last : d = pad
                · rw [last]
                  decide
                · rw [if_neg last, Option.isSome_map] at known
                  obtain ⟨y, fourth⟩ := Option.isSome_iff_exists.mp known
                  rw [orderly_cons_symbol fourth]
                  exact orderly_nil

/-- A text that denotes bytes consists of orderly whole groups. -/
theorem orderly_of_denote {text : List UInt8} (known : (denote text).isSome = true) :
    Orderly text ∧ 4 ∣ text.length := by
  induction text using groups_induction with
  | nil => exact ⟨orderly_nil, ⟨0, rfl⟩⟩
  | one a => cases known
  | two a b => cases known
  | three a b c => cases known
  | group a b c d rest ih =>
      rw [denote] at known
      by_cases last : rest = []
      · rw [last, List.isEmpty_nil, if_pos rfl] at known
        rw [last]
        exact ⟨orderly_of_denoteLast known, ⟨1, rfl⟩⟩
      · rw [if_neg fun empty => last (List.isEmpty_iff.mp empty)] at known
        cases first : value a with
        | none => simp [first] at known
        | some v =>
            cases second : value b with
            | none => simp [first, second] at known
            | some w =>
                cases third : value c with
                | none => simp [first, second, third] at known
                | some x =>
                    cases fourth : value d with
                    | none => simp [first, second, third, fourth] at known
                    | some y =>
                        rw [first, second, third, fourth] at known
                        dsimp only at known
                        rw [Option.isSome_map] at known
                        obtain ⟨orderly, count, whole⟩ := ih known
                        rw [orderly_cons_symbol first, orderly_cons_symbol second,
                          orderly_cons_symbol third, orderly_cons_symbol fourth]
                        refine ⟨orderly, count + 1, ?_⟩
                        simp only [List.length_cons, whole]
                        omega

/-! ## Parts of orderly texts -/

/-- What stands at the end of an orderly text is orderly. -/
theorem orderly_back {first second : List UInt8} (orderly : Orderly (first ++ second)) :
    Orderly second := by
  induction first with
  | nil => exact orderly
  | cons byte rest ih =>
      rw [List.cons_append] at orderly
      cases known : value byte with
      | some index => exact ih ((orderly_cons_symbol known _).mp orderly)
      | none =>
          obtain ⟨-, empty | one⟩ := (orderly_cons_other known _).mp orderly
          · rw [(List.append_eq_nil_iff.mp empty).2]
            exact orderly_nil
          · apply ih
            rw [one]
            decide

/-- What stands at the start of an orderly text is orderly. -/
theorem orderly_front {first second : List UInt8} (orderly : Orderly (first ++ second)) :
    Orderly first := by
  induction first with
  | nil => exact orderly_nil
  | cons byte rest ih =>
      rw [List.cons_append] at orderly
      cases known : value byte with
      | some index =>
          rw [orderly_cons_symbol known] at orderly ⊢
          exact ih orderly
      | none =>
          obtain ⟨padded, empty | one⟩ := (orderly_cons_other known _).mp orderly
          · rw [orderly_cons_other known]
            exact ⟨padded, Or.inl (List.append_eq_nil_iff.mp empty).1⟩
          · rw [orderly_cons_other known]
            refine ⟨padded, ?_⟩
            obtain ⟨nothing, -⟩ | ⟨all, -⟩ := List.append_eq_singleton_iff.mp one
            · exact Or.inl nothing
            · exact Or.inr all

/-- The characters of an orderly text. -/
theorem mem_orderly {text : List UInt8} (orderly : Orderly text) {byte : UInt8}
    (member : byte ∈ text) : (value byte).isSome = true ∨ byte = pad := by
  induction text with
  | nil => exact absurd member List.not_mem_nil
  | cons first rest ih =>
      cases known : value first with
      | some index =>
          obtain rfl | inside := List.mem_cons.mp member
          · exact Or.inl (by rw [known]; rfl)
          · exact ih ((orderly_cons_symbol known rest).mp orderly) inside
      | none =>
          obtain ⟨rfl, rfl | rfl⟩ := (orderly_cons_other known rest).mp orderly
          · exact Or.inr (List.mem_singleton.mp member)
          · right
            simpa using member

/-- Whole groups give their bytes on their own. -/
theorem unpadded_append {first second : List UInt8} (orderly : Orderly (first ++ second))
    (wholeFirst : 4 ∣ first.length) (wholeSecond : 4 ∣ second.length) :
    unpadded (first ++ second) = unpadded first ++ unpadded second := by
  induction first using groups_induction with
  | nil => rfl
  | one a => exact absurd wholeFirst (by simp)
  | two a b => exact absurd wholeFirst (by simp)
  | three a b c => exact absurd wholeFirst (by simp)
  | group a b c d rest ih =>
      have part : 4 ∣ rest.length := by
        simp only [List.length_cons] at wholeFirst
        omega
      have both : 4 ∣ (rest ++ second).length := by
        rw [List.length_append]
        omega
      obtain ⟨v, w, first, second', ⟨x, y, third, fourth, more⟩ | ⟨empty, -, -⟩⟩ :=
        orderly_group both orderly
      · simp only [List.cons_append]
        rw [unpadded_group first second' third fourth more both,
          unpadded_group first second' third fourth (orderly_front more) part, ih more part,
          List.append_assoc]
      · obtain ⟨rfl, rfl⟩ := List.append_eq_nil_iff.mp empty
        simp [unpadded, decodeBlock]

theorem length_unpadded_le (text : List UInt8) : (unpadded text).length ≤ 3 * (text.length / 4) := by
  rw [unpadded, List.length_take, length_decodeBlock]
  exact Nat.min_le_right _ _

end Join.Library.Base64
