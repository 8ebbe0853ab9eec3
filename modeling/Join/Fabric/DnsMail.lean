import Join.Fabric.DnsNames

/-!
# The mailbox of a start of authority

`encodeMail` writes a mailbox as a name: the first `@` becomes a dot, and the dots of the
local part are label boundaries like it. `decodeMail` puts the `@` back in place of the first
dot of the name. A local part with a dot is therefore read back with the `@` at that dot and
a dot where the `@` was.
-/

set_option autoImplicit false

namespace Join.DnsMessage

open Library

/-- A mailbox: a local part, and the labels of a domain. -/
structure Mailbox where
  localPart : List UInt8
  labels : List (List UInt8)
  filled : localPart ≠ []
  some : labels ≠ []
  proper : ∀ label ∈ labels, dot ∉ label ∧ 1 ≤ label.length ∧ label.length ≤ 63

/-- The text of a mailbox, `local@domain`. -/
def Mailbox.text (mailbox : Mailbox) : List UInt8 :=
  mailbox.localPart ++ atSign :: [dot].intercalate mailbox.labels

/-- What `encodeMail` writes for the text behind some bytes is read back by `decodeMail`,
whatever follows. -/
def ReadBack (text before rest : List UInt8) : Prop :=
  ∃ written, encodeMail text (.ending before) = .ending (before ++ written) ∧
    (decodeMail (.between before (written ++ rest))).1 = text

/-- A text is read back exactly when it is a proper mail address. -/
theorem readBack_iff_mailNamed (text before rest : List UInt8) :
    ReadBack text before rest ↔ MailNamed 191 text := by
  constructor
  · rintro ⟨written, encoded, back⟩
    rw [encodeMail, encodeName_ending] at encoded
    have same := congrArg OutStream.bytes encoded
    rw [← List.append_cancel_left same] at back
    exact mailNamed_of_decodeMail back
  · intro named
    refine ⟨nameBytes (replaceFirst atSign dot text), ?_, ?_⟩
    · rw [encodeMail, encodeName_ending]
    · rw [decodeMail_named named]

/-- The labels of a domain, behind the label of a local part without a dot. -/
theorem Mailbox.getlines_name (mailbox : Mailbox) (plain : dot ∉ mailbox.localPart) :
    getlines [] (mailbox.localPart ++ dot :: [dot].intercalate mailbox.labels) =
      mailbox.localPart :: mailbox.labels := by
  have domain : getlines [] ([dot].intercalate mailbox.labels) = mailbox.labels := by
    apply getlines_intercalate
    intro label member
    obtain ⟨clean, long, -⟩ := mailbox.proper label member
    exact ⟨clean, List.ne_nil_of_length_pos long⟩
  rw [getlines_append plain, List.nil_append, getlines_dot, domain]

/-- With the one `@` between its parts, a mailbox is a proper mail address exactly when its
local part has no dot and is short enough for a label. -/
theorem Mailbox.mailNamed_iff (mailbox : Mailbox) (one : atSign ∉ mailbox.localPart) :
    MailNamed 191 mailbox.text ↔
      dot ∉ mailbox.localPart ∧ mailbox.localPart.length ≤ 191 := by
  rw [MailNamed, Mailbox.text, replaceFirst_append one, takeWhile_at one, and_comm]
  apply and_congr_right
  intro plain
  constructor
  · rintro ⟨labels, joined, proper⟩
    have tokens := mailbox.getlines_name plain
    rw [joined, getlines_intercalate fun label member =>
      ⟨(proper label member).1, List.ne_nil_of_length_pos (proper label member).2.1⟩] at tokens
    apply (proper mailbox.localPart _).2.2
    rw [tokens]
    exact List.mem_cons_self
  · intro short
    refine ⟨mailbox.localPart :: mailbox.labels, (intercalate_cons mailbox.some).symm, ?_⟩
    intro label member
    rcases List.mem_cons.mp member with rfl | later
    · exact ⟨plain, List.length_pos_of_ne_nil mailbox.filled, short⟩
    · obtain ⟨clean, long, small⟩ := mailbox.proper label later
      exact ⟨clean, long, small.trans (by decide)⟩

/-- A mailbox is read back exactly when its text is a proper mail address: with no other
`@` in the local part, when that part has no dot and at most 191 bytes. -/
theorem mailbox_read_back_iff (mailbox : Mailbox) (before rest : List UInt8) :
    (ReadBack mailbox.text before rest ↔ MailNamed 191 mailbox.text) ∧
      (atSign ∉ mailbox.localPart →
        (ReadBack mailbox.text before rest ↔
          dot ∉ mailbox.localPart ∧ mailbox.localPart.length ≤ 191)) := by
  have general := readBack_iff_mailNamed mailbox.text before rest
  refine ⟨general, ?_⟩
  intro one
  rw [general, mailbox.mailNamed_iff one]

/-- `john.doe@example.com`. -/
def johnDoe : Mailbox where
  localPart := [106, 111, 104, 110, 46, 100, 111, 101]
  labels := [[101, 120, 97, 109, 112, 108, 101], [99, 111, 109]]
  filled := by decide
  some := by decide
  proper := by decide

/-- The mailbox with a dot in its local part is not read back. -/
theorem johnDoe_not_read_back :
    ¬ ∀ (mailbox : Mailbox) (before rest : List UInt8), ReadBack mailbox.text before rest := by
  intro back
  obtain ⟨-, plain⟩ := (readBack_iff_mailNamed johnDoe.text [] []).mp (back johnDoe [] [])
  exact absurd plain (by decide)

end Join.DnsMessage
