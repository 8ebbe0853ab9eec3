import Join.Core.Utils
import Join.Library.CString
import Join.Library.DotStuffing

/-!
# Mail messages

`SmtpMessage`: what a message holds and how its headers and its content are written to the
stream of a client. The content goes out as it is, and a line with a dot ends it.

A receiver looks for the first such line and takes a dot away in front of each line that
begins with one. So it gets the content that was sent exactly when no line of it begins with
a dot.
-/

set_option autoImplicit false

namespace Join

open Library.DotStuffing

/-! ## The message -/

/-- `SmtpSender` -/
structure SmtpSender where
  address : List UInt8
  realName : List UInt8
deriving DecidableEq, Repr

/-- `SmtpRecipient::Type` -/
inductive RecipientType where
  | recipient
  | ccRecipient
  | bccRecipient
deriving DecidableEq, Repr

/-- `SmtpRecipient` -/
structure SmtpRecipient extends SmtpSender where
  type : RecipientType
deriving DecidableEq, Repr

/-- `SmtpMessage` -/
structure SmtpMessage where
  sender : SmtpSender
  recipients : List SmtpRecipient
  subject : List UInt8
  content : List UInt8
deriving DecidableEq, Repr

/-- `operator<<` for an `SmtpSender`. -/
def SmtpSender.written (sender : SmtpSender) : List UInt8 :=
  sender.realName ++ ascii "<" ++ sender.address ++ ascii ">"

namespace SmtpMessage

/-- The line for the recipients of a type, if there are some. -/
def recipientLine (name : String) (type : RecipientType) (recipients : List SmtpRecipient) :
    List UInt8 :=
  let chosen := recipients.filter fun recipient => recipient.type = type
  if chosen = [] then []
  else
    ascii name ++
      (ascii ",").intercalate (chosen.map fun recipient => recipient.toSmtpSender.written) ++ crlf

/-- `SmtpMessage::writeHeaders`, with the date that `put_time` writes. -/
def writeHeaders (date : List UInt8) (message : SmtpMessage) : List UInt8 :=
  ascii "Date: " ++ date ++ crlf ++
    (ascii "From: " ++ message.sender.written ++ crlf) ++
    recipientLine "To: " .recipient message.recipients ++
    recipientLine "Cc: " .ccRecipient message.recipients ++
    recipientLine "Bcc: " .bccRecipient message.recipients ++
    (ascii "Subject: " ++ message.subject ++ crlf) ++
    (ascii "MIME-Version: 1.0" ++ crlf) ++
    (ascii "Content-type: text/plain; charset=iso-8859-1" ++ crlf) ++
    (ascii "Content-Transfer-Encoding: 7bit" ++ crlf) ++
    crlf

/-- `SmtpMessage::writeContent` -/
def writeContent (message : SmtpMessage) : List UInt8 :=
  message.content ++ crlf ++ (ascii "." ++ crlf)

/-- What `BasicSmtpClient::sendData` puts on the stream behind the reply to `DATA`. -/
def data (date : List UInt8) (message : SmtpMessage) : List UInt8 :=
  message.writeHeaders date ++ message.writeContent

/-- The end of the data of a message stands at its end only, and a receiver gets the headers
and the content. -/
def Transparent (date : List UInt8) (message : SmtpMessage) : Prop :=
  (∀ front back, message.data date = front ++ endOfData ++ back → back = []) ∧
    receive (message.data date) =
      some (unstuff .lineStart (message.writeHeaders date) ++ message.content)

/-! ## What is received -/

variable {date : List UInt8} {message : SmtpMessage}

theorem data_eq (date : List UInt8) (message : SmtpMessage) :
    message.data date = message.writeHeaders date ++ message.content ++ endOfData := by
  rw [data, writeContent, List.append_assoc, List.append_assoc]
  rfl

/-- The headers are lines. -/
theorem writeHeaders_lines (date : List UInt8) (message : SmtpMessage) :
    endOfLine <:+ message.writeHeaders date := ⟨_, rfl⟩

/-- The content is unstuffed on its own, since it begins a line. -/
theorem unstuff_writeHeaders_append (date : List UInt8) (message : SmtpMessage) :
    unstuff .lineStart (message.writeHeaders date ++ message.content) =
      unstuff .lineStart (message.writeHeaders date) ++ unstuff .lineStart message.content := by
  rw [unstuff_append, (after_eq_lineStart_iff _).mpr (.inr (writeHeaders_lines date message))]

end SmtpMessage

open SmtpMessage in
/-- Behind headers that do not end the data, a content is received as it was given exactly
when none of its lines begins with a dot. -/
theorem content_transparent_iff (date : List UInt8) (message : SmtpMessage)
    (noEnd : ¬ endOfData <:+: message.writeHeaders date) :
    message.Transparent date ↔ NoDotLine message.content := by
  rw [Transparent, data_eq, ← unstuff_eq_self_iff_noDotLine]
  constructor
  · rintro ⟨last, received⟩
    rw [receive_of_last last, unstuff_writeHeaders_append, Option.some.injEq] at received
    exact List.append_cancel_left received
  · intro same
    have plain := (unstuff_eq_self_iff_noDotLine message.content).mp same
    have last : ∀ front back, message.writeHeaders date ++ message.content ++ endOfData =
        front ++ endOfData ++ back → back = [] := fun front back split =>
      end_is_last (writeHeaders_lines date message) noEnd plain split
    refine ⟨last, ?_⟩
    rw [receive_of_last last, unstuff_writeHeaders_append, same]

/-- A message from nobody to nobody. -/
def plainMessage (content : List UInt8) : SmtpMessage := ⟨⟨[], []⟩, [], [], content⟩

/-- A content whose only dots stand inside and at the end of a line. -/
theorem content_transparent_iff_inner :
    (plainMessage (ascii "a.b\r\nc.")).Transparent (ascii "today") ↔
      NoDotLine (ascii "a.b\r\nc.") :=
  content_transparent_iff (ascii "today") (plainMessage (ascii "a.b\r\nc.")) (by decide +kernel)

/-- What stands behind a line with a dot is not received as content. -/
theorem dot_line_ends_content : ¬ ∀ (date : List UInt8) (message : SmtpMessage),
    ¬ endOfData <:+: message.writeHeaders date → message.Transparent date := by
  intro transparent
  have all := transparent (ascii "today") (plainMessage (ascii "a\r\n.\r\nQUIT")) (by decide +kernel)
  exact absurd all.2 (by decide +kernel)

end Join
