import Join.Services.HttpMessage
import Mathlib.Algebra.Order.Ring.Nat

/-!
# Percent decoding at positions

`HttpRequest::decodeUrl` goes through a string by its positions. Behind a percent sign it
takes two characters without a look at the length. The character behind the end of a string
is a zero byte, so that a string may end one character behind a percent sign; one that ends
with the percent sign itself has the second character taken from behind its end.

`decodeLoop` is the loop with the positions at which it reads, and `decodeUrl` is what it
puts out. Every way of writing a text with percent signs is decoded to the text.
-/

set_option autoImplicit false
set_option maxRecDepth 1024

namespace Join.HttpRequest

open Library

/-- A digit that is extracted from the character at a position into an uninitialised variable.
Nothing is known of what stands behind the zero byte at the end. -/
def digitAt (unset : ℕ → UInt32) (url : List UInt8) (index : ℕ) : UInt32 :=
  match url[index]? with
  | some byte => extractDigit (unset index) byte
  | none => if index = url.length then extractDigit (unset index) 0 else unset index

/-- The loop of `decodeUrl` from a position on: what it puts out and the positions that it
reads. -/
def decodeLoop (unset : ℕ → UInt32) (url : List UInt8) (pos : ℕ) : List UInt8 × List ℕ :=
  if inside : pos < url.length then
    if url[pos] = percent then
      let dec1 := digitAt unset url (pos + 1)
      let dec2 := digitAt unset url (pos + 2)
      let rest := decodeLoop unset url (pos + 3)
      (decoded dec1 dec2 :: rest.1, [pos, pos + 1, pos + 2] ++ rest.2)
    else
      let rest := decodeLoop unset url (pos + 1)
      (url[pos] :: rest.1, [pos, pos] ++ rest.2)
  else ([], [])
termination_by url.length - pos

/-- From the front on, with two characters taken for each percent sign, the last character is
a percent sign. -/
inductive LonePercent : List UInt8 → Prop
  | last : LonePercent [percent]
  | plain {byte : UInt8} {url : List UInt8} : byte ≠ percent → LonePercent url →
      LonePercent (byte :: url)
  | escape {high low : UInt8} {url : List UInt8} : LonePercent url →
      LonePercent (percent :: high :: low :: url)

/-- A text with some of its bytes written as a percent sign and two hexadecimal digits, and
every percent sign among them. -/
inductive Encodes : List UInt8 → List UInt8 → Prop
  | nil : Encodes [] []
  | plain {byte : UInt8} {text url : List UInt8} : byte ≠ percent → Encodes text url →
      Encodes (byte :: text) (byte :: url)
  | escape {byte high low : UInt8} {first second : ℕ} {text url : List UInt8} :
      hexValue high = some first → hexValue low = some second →
      byte.toNat = 16 * first + second → Encodes text url →
      Encodes (byte :: text) (percent :: high :: low :: url)

/-! ## Rounds of the loop -/

variable {unset : ℕ → UInt32} {url : List UInt8} {pos : ℕ}

theorem decodeLoop_end (behind : url.length ≤ pos) : decodeLoop unset url pos = ([], []) := by
  rw [decodeLoop, dif_neg (not_lt.mpr behind)]

/-- A position inside the string has a character, and the others behind it. -/
theorem drop_inside (inside : pos < url.length) :
    url.drop pos = url[pos] :: url.drop (pos + 1) := List.drop_eq_getElem_cons inside

theorem decodeLoop_plain (inside : pos < url.length) (plain : url[pos] ≠ percent) :
    decodeLoop unset url pos =
      (url[pos] :: (decodeLoop unset url (pos + 1)).1,
        [pos, pos] ++ (decodeLoop unset url (pos + 1)).2) := by
  rw [decodeLoop, dif_pos inside, if_neg plain]

theorem decodeLoop_escape (inside : pos < url.length) (escape : url[pos] = percent) :
    decodeLoop unset url pos =
      (decoded (digitAt unset url (pos + 1)) (digitAt unset url (pos + 2)) ::
        (decodeLoop unset url (pos + 3)).1,
        [pos, pos + 1, pos + 2] ++ (decodeLoop unset url (pos + 3)).2) := by
  rw [decodeLoop, dif_pos inside, if_pos escape]

/-! ## The positions that are read -/

/-- Every position read is that of a character or of the zero byte behind the last one. -/
def ReadsInside (unset : ℕ → UInt32) (url : List UInt8) (pos : ℕ) : Prop :=
  ∀ index ∈ (decodeLoop unset url pos).2, index ≤ url.length

theorem readsInside_end (behind : url.length ≤ pos) : ReadsInside unset url pos := by
  intro index member
  rw [decodeLoop_end behind] at member
  cases member

theorem readsInside_plain (inside : pos < url.length) (plain : url[pos] ≠ percent) :
    ReadsInside unset url pos ↔ ReadsInside unset url (pos + 1) := by
  rw [ReadsInside, ReadsInside, decodeLoop_plain inside plain]
  simp only [List.mem_append, List.mem_cons, List.not_mem_nil, or_false, or_self]
  constructor
  · intro all index member
    exact all index (.inr member)
  · rintro all index (rfl | member)
    · exact inside.le
    · exact all index member

theorem readsInside_escape (inside : pos < url.length) (escape : url[pos] = percent) :
    ReadsInside unset url pos ↔ pos + 2 ≤ url.length ∧ ReadsInside unset url (pos + 3) := by
  rw [ReadsInside, ReadsInside, decodeLoop_escape inside escape]
  simp only [List.mem_append, List.mem_cons, List.not_mem_nil, or_false]
  constructor
  · intro all
    exact ⟨all _ (.inl (.inr (.inr rfl))), fun index member => all index (.inr member)⟩
  · rintro ⟨room, all⟩ index ((rfl | rfl | rfl) | member)
    · exact inside.le
    · exact inside
    · exact room
    · exact all index member

theorem lonePercent_plain {byte : UInt8} {rest : List UInt8} (plain : byte ≠ percent) :
    LonePercent (byte :: rest) ↔ LonePercent rest := by
  constructor
  · intro lone
    generalize whole : byte :: rest = text at lone
    cases lone with
    | last => exact absurd (List.cons.inj whole).1 plain
    | plain _ later =>
      obtain ⟨rfl, rfl⟩ := List.cons.inj whole
      exact later
    | escape _ => exact absurd (List.cons.inj whole).1 plain
  · exact .plain plain

theorem lonePercent_escape {rest : List UInt8} :
    LonePercent (percent :: rest) ↔ rest = [] ∨ LonePercent (rest.drop 2) := by
  constructor
  · intro lone
    cases lone with
    | last => exact .inl rfl
    | plain other _ => exact absurd rfl other
    | escape later => exact .inr later
  · rintro (rfl | lone)
    · exact .last
    · match rest, lone with
      | _ :: _ :: _, later => exact .escape later

/-- From a position on the loop stays inside exactly when no percent sign is the last
character that it meets. -/
theorem readsInside_iff (unset : ℕ → UInt32) (url : List UInt8) (pos : ℕ) :
    ReadsInside unset url pos ↔ ¬ LonePercent (url.drop pos) := by
  induction left : url.length - pos using Nat.strong_induction_on generalizing pos with
  | _ count ih =>
    by_cases inside : pos < url.length
    · have next := drop_inside inside
      by_cases escape : url[pos] = percent
      · rw [readsInside_escape inside escape, ih _ (by omega) (pos + 3) rfl, next, escape,
          lonePercent_escape, List.drop_drop, List.drop_eq_nil_iff, not_or, not_le]
        exact Iff.rfl
      · rw [readsInside_plain inside escape, ih _ (by omega) (pos + 1) rfl, next,
          lonePercent_plain escape]
    · rw [List.drop_eq_nil_of_le (not_lt.mp inside)]
      refine iff_of_true (readsInside_end (not_lt.mp inside)) ?_
      intro lone
      cases lone

/-! ## What is put out -/

theorem isSpace_of_hexValue {byte : UInt8} {digit : ℕ} (found : hexValue byte = some digit) :
    isSpace byte = false := by
  have digits : ∀ byte, hexValue byte ≠ none → isSpace byte = false := by decide
  apply digits
  rw [found]
  exact Option.some_ne_none _

theorem hexValue_lt {byte : UInt8} {digit : ℕ} (found : hexValue byte = some digit) :
    digit < 16 := by
  have small : ∀ byte, (hexValue byte).getD 0 < 16 := by decide
  have bound := small byte
  rwa [found] at bound

/-- Two digits give the byte that they spell. -/
theorem decoded_digits {byte : UInt8} {first second : ℕ} (high : first < 16) (low : second < 16)
    (spelled : byte.toNat = 16 * first + second) :
    decoded (UInt32.ofNat first) (UInt32.ofNat second) = byte := by
  have all : ∀ first second : Fin 16,
      (decoded (UInt32.ofNat first) (UInt32.ofNat second)).toNat = 16 * first + second := by
    decide
  apply UInt8.toNat.inj
  rw [spelled]
  exact all ⟨first, high⟩ ⟨second, low⟩

/-- A digit in the string is extracted, whatever the variable held before. -/
theorem digitAt_digit {front rest : List UInt8} {byte : UInt8} {digit : ℕ}
    (found : hexValue byte = some digit) :
    digitAt unset (front ++ byte :: rest) front.length = UInt32.ofNat digit := by
  rw [digitAt, List.getElem?_append_right (le_refl _), Nat.sub_self, List.getElem?_cons_zero]
  simp only [extractDigit, isSpace_of_hexValue found, found]
  rfl

/-- Behind any front the loop puts out the text that is encoded there. -/
theorem decodeLoop_encodes {text rest : List UInt8} (encodes : Encodes text rest)
    (front : List UInt8) : (decodeLoop unset (front ++ rest) front.length).1 = text := by
  induction encodes generalizing front with
  | nil =>
    rw [decodeLoop_end (by rw [List.append_nil])]
  | @plain byte text rest plain _ ih =>
    have inside : front.length < (front ++ byte :: rest).length := by
      rw [List.length_append, List.length_cons]
      omega
    have here : (front ++ byte :: rest)[front.length] = byte := by simp
    have later := ih (front ++ [byte])
    rw [List.append_assoc, List.singleton_append, List.length_append,
      List.length_singleton] at later
    rw [decodeLoop_plain inside (by rw [here]; exact plain), here, later]
  | @escape byte high low first second text rest isHigh isLow spelled _ ih =>
    have inside : front.length < (front ++ percent :: high :: low :: rest).length := by
      rw [List.length_append, List.length_cons]
      omega
    have here : (front ++ percent :: high :: low :: rest)[front.length] = percent := by simp
    have dec1 : digitAt unset (front ++ percent :: high :: low :: rest) (front.length + 1) =
        UInt32.ofNat first := by
      have digit := @digitAt_digit unset (front ++ [percent]) (low :: rest) high first isHigh
      rwa [List.append_assoc, List.length_append] at digit
    have dec2 : digitAt unset (front ++ percent :: high :: low :: rest) (front.length + 2) =
        UInt32.ofNat second := by
      have digit := @digitAt_digit unset (front ++ [percent, high]) rest low second isLow
      rwa [List.append_assoc, List.length_append] at digit
    have later := ih (front ++ [percent, high, low])
    rw [List.append_assoc, List.length_append] at later
    rw [decodeLoop_escape inside here, dec1, dec2,
      decoded_digits (hexValue_lt isHigh) (hexValue_lt isLow) spelled]
    exact congrArg (List.cons byte) later

/-- The variables of `decodeUrl`, which are counted by the characters that are left, among
those of the loop, which are counted by positions. -/
def variableAt (length : ℕ) (unset : ℕ → UInt32) (count : ℕ) : UInt32 :=
  if count = 0 then unset (length + 1)
  else if count = 1 then unset (length - 1)
  else if count % 2 = 0 then unset (length - count / 2)
  else unset (length + 1 - count / 2)

theorem decodeUrl_cons {byte : UInt8} (plain : byte ≠ percent) (rest : List UInt8) :
    decodeUrl unset (byte :: rest) = byte :: decodeUrl unset rest := by
  match rest with
  | [] => simp only [decodeUrl, if_neg plain]
  | [high] => simp only [decodeUrl, if_neg plain]
  | high :: low :: rest => simp only [decodeUrl, if_neg plain]

/-- The zero byte behind the end is no digit. -/
theorem extractDigit_zero (value : UInt32) : extractDigit value 0 = 0 := rfl

/-- What the loop puts out is what `decodeUrl` gives. -/
theorem decodeLoop_eq_decodeUrl (unset : ℕ → UInt32) (url : List UInt8) (pos : ℕ) :
    (decodeLoop unset url pos).1 =
      decodeUrl (variableAt url.length unset) (url.drop pos) := by
  induction left : url.length - pos using Nat.strong_induction_on generalizing pos with
  | _ count ih =>
    by_cases inside : pos < url.length
    · have next := drop_inside inside
      have at1 : url[pos + 1]? = (url.drop (pos + 1))[0]? := by rw [List.getElem?_drop]
      have at2 : url[pos + 2]? = (url.drop (pos + 1))[1]? := by rw [List.getElem?_drop]
      have behind : url.drop (pos + 3) = (url.drop (pos + 1)).drop 2 := by rw [List.drop_drop]
      have size : (url.drop (pos + 1)).length = url.length - (pos + 1) := List.length_drop
      by_cases escape : url[pos] = percent
      · have later := ih _ (by omega) (pos + 3) rfl
        rw [decodeLoop_escape inside escape, next, escape, later, behind, digitAt, digitAt, at1,
          at2]
        generalize url.drop (pos + 1) = rest at size
        match rest with
        | [] =>
          have stop : pos + 1 = url.length := by rw [List.length_nil] at size; omega
          have beyond : pos + 2 = url.length + 1 := by omega
          simp only [List.getElem?_nil, if_pos stop, extractDigit_zero, beyond,
            if_neg (Nat.succ_ne_self url.length), List.drop_nil]
          rfl
        | [high] =>
          have stop : pos + 2 = url.length := by
            rw [List.length_singleton] at size
            omega
          have first : pos + 1 = url.length - 1 := by omega
          simp only [List.getElem?_cons_zero, List.getElem?_cons_succ, List.getElem?_nil,
            if_pos stop, extractDigit_zero, first]
          rfl
        | high :: low :: rest =>
          rw [List.length_cons, List.length_cons] at size
          have first : variableAt url.length unset (2 * rest.length + 4) = unset (pos + 1) := by
            have half : url.length - (2 * rest.length + 4) / 2 = pos + 1 := by omega
            rw [variableAt, if_neg (by omega), if_neg (by omega), if_pos (by omega), half]
          have second : variableAt url.length unset (2 * rest.length + 5) = unset (pos + 2) := by
            have half : url.length + 1 - (2 * rest.length + 5) / 2 = pos + 2 := by omega
            rw [variableAt, if_neg (by omega), if_neg (by omega), if_neg (by omega), half]
          rw [decodeUrl, if_pos rfl, first, second]
          rfl
      · have later := ih _ (by omega) (pos + 1) rfl
        rw [decodeLoop_plain inside escape, next, later, decodeUrl_cons escape]
    · rw [decodeLoop_end (not_lt.mp inside), List.drop_eq_nil_of_le (not_lt.mp inside)]
      rfl

/-- The loop of `decodeUrl` reads nothing behind the zero byte at the end, and decodes every
text that is encoded, exactly when the string does not end with a percent sign that starts
an escape. -/
theorem decode_exact_iff (url : List UInt8) :
    (∀ unset : ℕ → UInt32, (∀ index ∈ (decodeLoop unset url 0).2, index ≤ url.length) ∧
      ∀ text, Encodes text url → (decodeLoop unset url 0).1 = text) ↔ ¬ LonePercent url := by
  constructor
  · intro exact
    exact (readsInside_iff (fun _ => 0) url 0).mp (exact fun _ => 0).1
  · intro closed unset
    refine ⟨(readsInside_iff unset url 0).mpr closed, ?_⟩
    intro text encodes
    exact decodeLoop_encodes encodes []

/-- A string that is a percent sign: the second digit is read behind the zero byte. -/
theorem lone_percent_reads_behind :
    ¬ ∀ (unset : ℕ → UInt32) (url : List UInt8),
      (∀ index ∈ (decodeLoop unset url 0).2, index ≤ url.length) ∧
        ∀ text, Encodes text url → (decodeLoop unset url 0).1 = text := by
  intro exact
  have inside := (exact (fun _ => 0) [percent]).1
  exact (readsInside_iff (fun _ => 0) [percent] 0).mp inside .last

end Join.HttpRequest
