import Mathlib.Data.List.Forall2
import Join.Library.Byte
import Join.Library.CString
import Join.Library.ShellPattern

/-!
# Host names in certificates

`BasicTls::checkHostname`: the name of the server is compared with the alternative names of the
certificate, as shell patterns on terminated strings. A certificate is meant to be compared label
by label: ignoring the case of letters, with a star for one whole label, the leftmost.

The two agree on a name without special characters as long as the letters have the same case, and
on a name whose leftmost label is a star as long as the server has no further labels before the
others.
-/

set_option autoImplicit false
set_option maxRecDepth 1024

namespace Join.Certificate

open Library Library.ShellPattern

/-! ## The comparison of the code -/

/-- An alternative name of a certificate. -/
inductive GeneralName
  | dns (data : List UInt8)
  | other

/-- `'.'` -/
def labelDot : UInt8 := 46

/-- A name without the dot at its end. -/
def stripDot (name : List UInt8) : List UInt8 :=
  if name.getLast? = some labelDot then name.dropLast else name

variable (brackets : Brackets)

/-- The shell pattern of a name matches the server name. -/
def accepts (server name : List UInt8) : Bool :=
  fnmatch brackets (cString (stripDot name)) (cString (stripDot server))

/-- `BasicTls::checkHostname`, with the alternative names of the certificate, if it has any. -/
def checkHostname (server : List UInt8) (altnames : Option (List GeneralName)) : Bool :=
  match altnames with
  | some names => names.any fun name =>
      match name with
      | .dns data => accepts brackets server data
      | .other => false
  | none => false

/-- `BasicTls::verifyCert`. -/
def verifyCert (server : List UInt8) (depth : ℕ) (altnames : Option (List GeneralName)) : Bool :=
  if depth = 0 then checkHostname brackets server altnames else true

/-- `BasicTls::verifyCallback`. -/
def verifyCallback (server : List UInt8) (maxDepth : ℤ) (depth : ℕ) (preverified : Bool)
    (altnames : Option (List GeneralName)) : Bool :=
  let preverified := if 0 ≤ maxDepth ∧ maxDepth < depth then false else preverified
  if !preverified then false else verifyCert brackets server depth altnames

/-- The names that are compared. -/
def dnsNames (altnames : Option (List GeneralName)) : List (List UInt8) :=
  (altnames.getD []).filterMap fun name =>
    match name with
    | .dns data => some data
    | .other => none

/-! ## The comparison of labels -/

/-- A letter in lower case. -/
def lower (byte : UInt8) : UInt8 := if 65 ≤ byte ∧ byte ≤ 90 then byte + 32 else byte

/-- The labels of a name. -/
def labels (name : List UInt8) : List (List UInt8) := name.splitOn labelDot

/-- Two labels are equal, ignoring the case of letters. -/
def SameLabel (left right : List UInt8) : Prop := left.map lower = right.map lower

/-- A name certifies a server by its labels, of which the leftmost may be a star. -/
def Certifies (server name : List UInt8) : Prop :=
  0 ∉ name ∧ ∃ first rest first' rest', labels name = first :: rest ∧
    labels server = first' :: rest' ∧ (first = [star] ∨ SameLabel first first') ∧
    List.Forall₂ SameLabel rest rest'

/-- A certificate is meant for a server. -/
def Certified (server : List UInt8) (altnames : Option (List GeneralName)) : Prop :=
  ∃ name ∈ dnsNames altnames, Certifies (stripDot server) (stripDot name)

/-! ## Labels and texts -/

theorem lower_eq_dot (byte : UInt8) : lower byte = labelDot ↔ byte = labelDot := by
  revert byte
  decide

/-- Labels in lower case. -/
theorem labels_map_lower (name : List UInt8) :
    labels (name.map lower) = (labels name).map (List.map lower) := by
  induction name with
  | nil => rfl
  | cons byte rest ih =>
      rw [labels] at ih
      rw [List.map_cons, labels, labels, List.splitOn_cons_eq_if_modifyHead,
        List.splitOn_cons_eq_if_modifyHead, ih]
      by_cases separator : byte = labelDot
      · rw [if_pos (by rw [(lower_eq_dot byte).mpr separator]; rfl), if_pos (by rw [separator]; rfl)]
        rfl
      · rw [if_neg (mt beq_iff_eq.mp (mt (lower_eq_dot byte).mp separator)),
          if_neg (mt beq_iff_eq.mp separator), labels]
        cases rest.splitOn labelDot with
        | nil => rfl
        | cons first others => rfl

/-- Names with equal labels are equal. -/
theorem labels_injective {left right : List UInt8} (same : labels left = labels right) :
    left = right := by
  have back : ∀ name : List UInt8, [labelDot].intercalate (labels name) = name :=
    fun _ => List.intercalate_splitOn labelDot
  rw [← back left, same, back]

/-- The first label of a name, and what comes behind it. -/
structure Leads (name first tail : List UInt8) : Prop where
  whole : name = first ++ tail
  plain : labelDot ∉ first
  behind : tail = [] ∨ tail.head? = some labelDot

/-- The labels of what comes behind the first. -/
def others : List UInt8 → List (List UInt8)
  | [] => []
  | _ :: tail => labels tail

theorem labels_of_leads {name first tail : List UInt8} (leads : Leads name first tail) :
    labels name = first :: others tail := by
  obtain ⟨rfl, plain, rfl | behind⟩ := leads
  · rw [List.append_nil, labels, List.splitOn_eq_singleton plain]
    rfl
  · cases tail with
    | nil => cases behind
    | cons separator tail =>
        cases behind
        exact List.splitOn_append_cons_self_of_not_mem plain tail

theorem exists_leads (name : List UInt8) : ∃ first tail, Leads name first tail := by
  induction name with
  | nil => exact ⟨[], [], rfl, List.not_mem_nil, Or.inl rfl⟩
  | cons byte rest ih =>
      by_cases separator : byte = labelDot
      · exact ⟨[], byte :: rest, rfl, List.not_mem_nil, Or.inr (congrArg some separator)⟩
      · obtain ⟨first, tail, rfl, plain, behind⟩ := ih
        refine ⟨byte :: first, tail, rfl, ?_, behind⟩
        rw [List.mem_cons, not_or]
        exact ⟨fun same => separator same.symm, plain⟩

/-- The first label and what comes behind it are determined. -/
theorem Leads.unique {name first tail first' tail' : List UInt8} (leads : Leads name first tail)
    (again : Leads name first' tail') : first = first' ∧ tail = tail' := by
  have labelled := (labels_of_leads leads).symm.trans (labels_of_leads again)
  have same : first = first' := (List.cons.inj labelled).1
  refine ⟨same, ?_⟩
  have parts := leads.whole.symm.trans again.whole
  rw [same] at parts
  exact List.append_cancel_left parts

/-- What comes behind the first labels agrees label by label when it agrees as a text. -/
theorem sameOthers_iff {tail tail' : List UInt8} (behind : tail = [] ∨ tail.head? = some labelDot)
    (behind' : tail' = [] ∨ tail'.head? = some labelDot) :
    List.Forall₂ SameLabel (others tail) (others tail') ↔ tail.map lower = tail'.map lower := by
  have all : ∀ left right : List UInt8, List.Forall₂ SameLabel (labels left) (labels right) ↔
      left.map lower = right.map lower := by
    intro left right
    have mapped : List.Forall₂ SameLabel (labels left) (labels right) ↔
        (labels left).map (List.map lower) = (labels right).map (List.map lower) := by
      rw [← List.forall₂_eq_eq_eq, List.forall₂_map_left_iff, List.forall₂_map_right_iff]
      rfl
    rw [mapped, ← labels_map_lower, ← labels_map_lower]
    exact ⟨labels_injective, congrArg labels⟩
  cases tail with
  | nil =>
      cases tail' with
      | nil => exact iff_of_true List.Forall₂.nil rfl
      | cons separator rest =>
          refine iff_of_false ?_ (by intro same; cases same)
          intro agree
          have none : labels rest = [] := List.forall₂_nil_left_iff.mp agree
          exact List.splitOn_ne_nil _ _ none
  | cons separator rest =>
      cases tail' with
      | nil =>
          refine iff_of_false ?_ (by intro same; cases same)
          intro agree
          have none : labels rest = [] := List.forall₂_nil_right_iff.mp agree
          exact List.splitOn_ne_nil _ _ none
      | cons separator' rest' =>
          have first : separator = labelDot := by
            rcases behind with empty | head
            · cases empty
            · exact Option.some.inj head
          have first' : separator' = labelDot := by
            rcases behind' with empty | head
            · cases empty
            · exact Option.some.inj head
          rw [first, first', List.map_cons, List.map_cons, List.cons.injEq]
          exact (all rest rest').trans (and_iff_right rfl).symm

/-- A name certifies a server by the first labels and the texts behind them. -/
theorem certifies_iff {server name first tail first' tail' : List UInt8}
    (leads : Leads name first tail) (leads' : Leads server first' tail') :
    Certifies server name ↔ 0 ∉ name ∧ (first = [star] ∨ SameLabel first first') ∧
      tail.map lower = tail'.map lower := by
  rw [← sameOthers_iff leads.behind leads'.behind]
  constructor
  · rintro ⟨clean, _, _, _, _, labelled, labelled', head, rest⟩
    rw [labels_of_leads leads] at labelled
    rw [labels_of_leads leads'] at labelled'
    cases labelled
    cases labelled'
    exact ⟨clean, head, rest⟩
  · rintro ⟨clean, head, rest⟩
    exact ⟨clean, first, others tail, first', others tail', labels_of_leads leads,
      labels_of_leads leads', head, rest⟩

/-! ## Usual names -/

/-- A character that stands for itself in a pattern and does not end a string. -/
def Usual (byte : UInt8) : Prop := Ordinary byte ∧ byte ≠ 0

instance (byte : UInt8) : Decidable (Usual byte) := inferInstanceAs (Decidable (_ ∧ _))

/-- A name without special characters. -/
def Plain (name : List UInt8) : Prop := ∀ byte ∈ name, Usual byte

instance (name : List UInt8) : Decidable (Plain name) :=
  inferInstanceAs (Decidable (∀ byte ∈ name, Usual byte))

/-- A name whose leftmost label is a star, with no other special characters. -/
def Starred (name : List UInt8) : Prop :=
  name.head? = some star ∧ (name.tail = [] ∨ name.tail.head? = some labelDot) ∧ Plain name.tail

instance (name : List UInt8) : Decidable (Starred name) :=
  inferInstanceAs (Decidable (_ ∧ (_ ∨ _) ∧ _))

/-- The server has further labels where the name has its star. -/
def Spanned (server name : List UInt8) : Prop :=
  ∃ rest front, name = star :: rest ∧ server = front ++ rest ∧ labelDot ∈ front

/-- The name certifies the server, but some letter that is compared has another case. -/
def Recased (server name : List UInt8) : Prop :=
  (star ∉ name ∧ name.map lower = server.map lower ∧ name ≠ server) ∨
    ∃ rest label tail, name = star :: rest ∧ server = label ++ tail ∧ labelDot ∉ label ∧
      rest.map lower = tail.map lower ∧ rest ≠ tail

theorem notMem_of_plain {name : List UInt8} (plain : Plain name) : 0 ∉ name ∧ star ∉ name := by
  constructor
  · exact fun member => (plain 0 member).2 rfl
  · exact fun member => (plain star member).1.1 rfl

theorem ordinary_of_plain {name : List UInt8} (plain : Plain name) :
    ∀ byte ∈ name, Ordinary byte := fun byte member => (plain byte member).1

variable {brackets}

/-- A plain name is compared with the case of its letters. -/
theorem fnmatch_plain {server name : List UInt8} (plain : Plain name) (clean : 0 ∉ server) :
    fnmatch brackets (cString name) (cString server) = true ↔ server = name := by
  rw [cString_of_notMem (notMem_of_plain plain).1, cString_of_notMem clean]
  exact fnmatch_ordinary (ordinary_of_plain plain) server

/-- A star accepts every server name that ends like the name. -/
theorem fnmatch_starred {server rest : List UInt8} (plain : Plain rest) (clean : 0 ∉ server) :
    fnmatch brackets (cString (star :: rest)) (cString server) = true ↔ rest <:+ server := by
  have whole : 0 ∉ star :: rest := by
    rw [List.mem_cons, not_or]
    exact ⟨by decide, (notMem_of_plain plain).1⟩
  rw [cString_of_notMem whole, cString_of_notMem clean]
  exact fnmatch_star (ordinary_of_plain plain) server

/-- A name without a star certifies what it is equal to, ignoring the case of letters. -/
theorem certifies_plain {server name : List UInt8} (plain : Plain name) :
    Certifies server name ↔ name.map lower = server.map lower := by
  obtain ⟨first, tail, leads⟩ := exists_leads name
  obtain ⟨first', tail', leads'⟩ := exists_leads server
  obtain ⟨clean, noStar⟩ := notMem_of_plain plain
  have literal : first ≠ [star] := by
    rintro rfl
    rw [leads.whole] at noStar
    exact noStar List.mem_cons_self
  rw [certifies_iff leads leads', and_iff_right clean, or_iff_right literal, SameLabel]
  constructor
  · rintro ⟨head, rest⟩
    rw [leads.whole, leads'.whole, List.map_append, List.map_append, head, rest]
  · intro same
    have labelled := congrArg labels same
    rw [labels_map_lower, labels_map_lower, labels_of_leads leads, labels_of_leads leads',
      List.map_cons, List.map_cons] at labelled
    have head := (List.cons.inj labelled).1
    rw [leads.whole, leads'.whole, List.map_append, List.map_append, head] at same
    exact ⟨head, List.append_cancel_left same⟩

/-- What is equal to the end of a name behind its first label starts with a dot as well. -/
theorem behind_of_same {rest tail : List UInt8} (behind : rest = [] ∨ rest.head? = some labelDot)
    (same : rest.map lower = tail.map lower) : tail = [] ∨ tail.head? = some labelDot := by
  cases tail with
  | nil => exact Or.inl rfl
  | cons byte tail =>
      right
      rcases behind with rfl | head
      · cases same
      · cases rest with
        | nil => cases head
        | cons separator rest =>
            cases head
            have equal := (List.cons.inj same).1
            rw [(lower_eq_dot labelDot).mpr rfl] at equal
            rw [List.head?_cons, (lower_eq_dot byte).mp equal.symm]

/-- A star certifies one label before what the rest is equal to, ignoring the case of letters. -/
theorem certifies_starred {server rest : List UInt8} (plain : Plain rest)
    (behind : rest = [] ∨ rest.head? = some labelDot) :
    Certifies server (star :: rest) ↔ ∃ label tail, server = label ++ tail ∧ labelDot ∉ label ∧
      rest.map lower = tail.map lower := by
  have leads : Leads (star :: rest) [star] rest := ⟨rfl, by decide, behind⟩
  have clean : 0 ∉ star :: rest := by
    rw [List.mem_cons, not_or]
    exact ⟨by decide, (notMem_of_plain plain).1⟩
  obtain ⟨first', tail', leads'⟩ := exists_leads server
  rw [certifies_iff leads leads', and_iff_right clean, and_iff_right (Or.inl rfl)]
  constructor
  · intro same
    exact ⟨first', tail', leads'.whole, leads'.plain, same⟩
  · rintro ⟨label, tail, whole, plainLabel, same⟩
    rw [(leads'.unique ⟨whole, plainLabel, behind_of_same behind same⟩).2]
    exact same

/-! ## Names that are judged wrongly -/

/-- A plain name is never accepted wrongly, and it is rejected wrongly for the case of a letter. -/
theorem plain_judged {server name : List UInt8} (plain : Plain name) (clean : 0 ∉ server) :
    ((fnmatch brackets (cString name) (cString server) = true ∧ ¬ Certifies server name) ↔
        Spanned server name) ∧
      ((¬ fnmatch brackets (cString name) (cString server) = true ∧ Certifies server name) ↔
        Recased server name) := by
  have noStar := (notMem_of_plain plain).2
  have notStarred : ∀ rest, name ≠ star :: rest := by
    rintro rest rfl
    exact noStar List.mem_cons_self
  rw [fnmatch_plain plain clean, certifies_plain plain]
  constructor
  · apply iff_of_false
    · rintro ⟨rfl, other⟩
      exact other rfl
    · rintro ⟨rest, front, starred, -⟩
      exact notStarred rest starred
  · constructor
    · rintro ⟨other, same⟩
      exact Or.inl ⟨noStar, same, fun equal => other equal.symm⟩
    · rintro (⟨-, same, other⟩ | ⟨rest, label, tail, starred, -⟩)
      · exact ⟨fun equal => other equal.symm, same⟩
      · exact absurd starred (notStarred rest)

/-- A name with a star is accepted wrongly for further labels of the server, and rejected wrongly
for the case of a letter. -/
theorem starred_judged {server rest : List UInt8} (plain : Plain rest)
    (behind : rest = [] ∨ rest.head? = some labelDot) (clean : 0 ∉ server) :
    ((fnmatch brackets (cString (star :: rest)) (cString server) = true ∧
          ¬ Certifies server (star :: rest)) ↔ Spanned server (star :: rest)) ∧
      ((¬ fnmatch brackets (cString (star :: rest)) (cString server) = true ∧
          Certifies server (star :: rest)) ↔ Recased server (star :: rest)) := by
  rw [fnmatch_starred plain clean, certifies_starred plain behind]
  constructor
  · constructor
    · rintro ⟨⟨front, whole⟩, other⟩
      refine ⟨rest, front, rfl, whole.symm, ?_⟩
      by_contra absent
      exact other ⟨front, rest, whole.symm, absent, rfl⟩
    · rintro ⟨rest, front, same, rfl, member⟩
      cases same
      refine ⟨⟨front, rfl⟩, ?_⟩
      rintro ⟨label, tail, whole, absent, same⟩
      have length : rest.length = tail.length := by
        rw [← List.length_map lower, same, List.length_map]
      rw [(List.append_inj_left' whole length)] at member
      exact absent member
  · constructor
    · rintro ⟨other, label, tail, rfl, absent, same⟩
      refine Or.inr ⟨rest, label, tail, rfl, rfl, absent, same, ?_⟩
      rintro rfl
      exact other ⟨label, rfl⟩
    · rintro (⟨absent, -⟩ | ⟨rest, label, tail, equal, rfl, absent, same, other⟩)
      · exact absurd List.mem_cons_self absent
      · cases equal
        refine ⟨?_, label, tail, rfl, absent, same⟩
        rintro ⟨front, whole⟩
        have length : rest.length = tail.length := by
          rw [← List.length_map lower, same, List.length_map]
        exact other (List.append_inj_right' whole length)

/-- A name is accepted wrongly. Shell patterns with other special characters, and strings that are
cut at a zero byte, can match anything. -/
def Misled (brackets : Brackets) (server name : List UInt8) : Prop :=
  if (Plain (stripDot name) ∨ Starred (stripDot name)) ∧ 0 ∉ stripDot server then
    Spanned (stripDot server) (stripDot name)
  else accepts brackets server name = true ∧ ¬ Certifies (stripDot server) (stripDot name)

/-- A name is rejected wrongly. -/
def Missed (brackets : Brackets) (server name : List UInt8) : Prop :=
  if (Plain (stripDot name) ∨ Starred (stripDot name)) ∧ 0 ∉ stripDot server then
    Recased (stripDot server) (stripDot name)
  else ¬ accepts brackets server name = true ∧ Certifies (stripDot server) (stripDot name)

variable (brackets)

theorem misled_missed_iff (server name : List UInt8) :
    (Misled brackets server name ↔
        accepts brackets server name = true ∧ ¬ Certifies (stripDot server) (stripDot name)) ∧
      (Missed brackets server name ↔
        ¬ accepts brackets server name = true ∧ Certifies (stripDot server) (stripDot name)) := by
  rw [Misled, Missed]
  by_cases usual : (Plain (stripDot name) ∨ Starred (stripDot name)) ∧ 0 ∉ stripDot server
  · rw [if_pos usual, if_pos usual, accepts]
    obtain ⟨plain | starred, clean⟩ := usual
    · obtain ⟨accepted, rejected⟩ := @plain_judged brackets _ _ plain clean
      exact ⟨accepted.symm, rejected.symm⟩
    · obtain ⟨first, behind, plain⟩ := starred
      cases text : stripDot name with
      | nil =>
          rw [text] at first
          cases first
      | cons byte rest =>
          rw [text] at first behind plain
          cases first
          obtain ⟨accepted, rejected⟩ := @starred_judged brackets _ _ plain behind clean
          exact ⟨accepted.symm, rejected.symm⟩
  · rw [if_neg usual, if_neg usual]
    exact ⟨Iff.rfl, Iff.rfl⟩

/-- The dot at the end of a name with a zero byte stands behind that. -/
theorem stripDot_zero (front back : List UInt8) :
    ∃ rest, stripDot (front ++ 0 :: back) = front ++ 0 :: rest := by
  rw [stripDot]
  by_cases last : (front ++ 0 :: back).getLast? = some labelDot
  · rw [if_pos last, List.dropLast_append_of_ne_nil (List.cons_ne_nil _ _)]
    cases back with
    | nil =>
        rw [List.getLast?_concat, Option.some.injEq] at last
        exact absurd last (by decide)
    | cons byte rest => exact ⟨(byte :: rest).dropLast, rfl⟩
  · rw [if_neg last]
    exact ⟨back, rfl⟩

/-- A name is accepted for what stands before its first zero byte, and it certifies nothing. -/
theorem zero_byte_misleads {server front back : List UInt8} (plain : Plain front)
    (clean : 0 ∉ stripDot server) (same : stripDot server = front) :
    Misled brackets server (front ++ 0 :: back) := by
  apply Exists.elim (stripDot_zero front back)
  intro rest whole
  have inside : (0 : UInt8) ∈ front ++ 0 :: rest :=
    List.mem_append_right _ List.mem_cons_self
  have absent : 0 ∉ front := (notMem_of_plain plain).1
  rw [(misled_missed_iff brackets server _).1, accepts, whole, cString_append_zero absent]
  constructor
  · have seen := @fnmatch_plain brackets (stripDot server) front plain clean
    rw [cString_of_notMem absent] at seen
    exact seen.mpr same
  · exact fun certified => certified.1 inside

/-! ## Certificates -/

/-- A certificate is accepted when one of its names is. -/
theorem checkHostname_iff (server : List UInt8) (altnames : Option (List GeneralName)) :
    checkHostname brackets server altnames = true ↔
      ∃ name ∈ dnsNames altnames, accepts brackets server name = true := by
  cases altnames with
  | none => exact iff_of_false Bool.false_ne_true fun ⟨_, member, _⟩ => List.not_mem_nil member
  | some names =>
      rw [checkHostname, List.any_eq_true, dnsNames, Option.getD_some]
      constructor
      · rintro ⟨name, member, accepted⟩
        cases name with
        | dns data => exact ⟨data, List.mem_filterMap.mpr ⟨.dns data, member, rfl⟩, accepted⟩
        | other => cases accepted
      · rintro ⟨data, member, accepted⟩
        obtain ⟨name, inside, same⟩ := List.mem_filterMap.mp member
        refine ⟨name, inside, ?_⟩
        cases name with
        | dns found =>
            cases same
            exact accepted
        | other => cases same

/-- The certificate of the server itself is only accepted when its names are. -/
theorem checkHostname_of_verifyCallback {server : List UInt8} {maxDepth : ℤ} {preverified : Bool}
    {altnames : Option (List GeneralName)}
    (verified : verifyCallback brackets server maxDepth 0 preverified altnames = true) :
    checkHostname brackets server altnames = true := by
  rw [verifyCallback] at verified
  by_cases rejected : (!(if 0 ≤ maxDepth ∧ maxDepth < (0 : ℕ) then false else preverified)) = true
  · rw [if_pos rejected] at verified
    cases verified
  · rw [if_neg rejected] at verified
    exact verified

end Join.Certificate
