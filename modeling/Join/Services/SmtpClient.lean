import Join.Core.SocketStreamLines
import Join.Library.Program
import Join.Services.SmtpMessage

/-!
# The mail client

`BasicSmtpClient::send`: the dialogue with a server over a socket stream, which goes on over
TLS when the server offers it. A function that returns `-1` is a program that fails. A reply
may have any number of lines and a server may offer TLS again and again, so the loops take
fuel.

What a connect and a handshake lead to is given from outside: the peer that the client then
talks to. The handshake changes what the socket reads and writes; the areas of the stream are
none of its business. `Base64::encode`, the name of the host and the date are given too.
-/

set_option autoImplicit false

namespace Join

open Library

/-- A `BasicSmtpClient` and what it is asked to send. -/
structure SmtpClient where
  hostname : List UInt8
  login : List UInt8
  password : List UInt8
  encode : List UInt8 → List UInt8
  date : List UInt8
  message : SmtpMessage

/-- The state of the dialogue: the stream, whether it is encrypted, and the lines that were
read since the connection was made, or since the handshake. -/
structure SmtpSession where
  stream : SocketStream
  encrypted : Bool
  heard : List (List UInt8)
deriving DecidableEq, Repr

/-- A part of the dialogue. -/
abbrev Smtp (α : Type) : Type := Program SmtpSession Unit α

namespace SmtpClient

/-! ## The stream -/

/-- Fail unless the stream is good. -/
def unlessFailed : Smtp Unit := do
  if (← Program.gets fun session => session.stream.good) then pure () else .fail ()

/-- Do something with the stream. -/
def onStream (act : SocketStream → SocketStream) : Smtp Unit :=
  .change fun session => { session with stream := act session.stream }

/-- `BasicSmtpClient::connect` -/
def connect (server : Option Peer) : Smtp Unit := do
  onStream fun stream => stream.connect server
  unlessFailed

/-- What `BasicTlsStream::handshake` makes of the session. A stream that is encrypted stays
as it is. -/
def shakeHands (secured : Option Peer) (session : SmtpSession) : SmtpSession :=
  if session.encrypted then session
  else
    let stream := { session.stream with wire := [] }
    match secured with
    | none => ⟨{ stream with good := false }, false, []⟩
    | some peer => ⟨{ stream with reads := peer.reads, writes := peer.writes }, true, []⟩

/-- `BasicSmtpClient::sendMessage` -/
def sendMessage (message : List UInt8) : Smtp Unit := do
  onStream fun stream => (stream.write message).2
  onStream fun stream => (stream.write crlf).2
  onStream SocketStream.flush
  unlessFailed

/-- `join::getline`; a line that was read has been heard. -/
def getline : Smtp (Option (List UInt8)) :=
  .act fun session =>
    let result := session.stream.getline
    (result.1, { session with stream := result.2, heard := session.heard ++ result.1.toList })

/-! ## Replies -/

/-- Whether the first such character of a line stands behind a code. -/
def behindCode (ch : UInt8) (reply : List UInt8) : Bool :=
  reply.findIdx? (fun other => other == ch) == some 3

/-- A round of `BasicSmtpClient::readReplies` behind its `join::getline`, with the code and
the replies so far and the rounds to come. There is no code when it fails. -/
def takeReply (go : List UInt8 → List (List UInt8) → Smtp (List UInt8 × List (List UInt8)))
    (code : List UInt8) (replies : List (List UInt8)) :
    Option (List UInt8) → Smtp (List UInt8 × List (List UInt8))
  | none => pure ([], replies)
  | some reply =>
      if behindCode 45 reply || behindCode 32 reply then
        let code := if code = [] then reply.take 3 else code
        let replies := replies ++ [reply.drop 4]
        if reply[3]? = some 32 then pure (code, replies) else go code replies
      else pure ([], replies)

/-- The loop of `BasicSmtpClient::readReplies`. -/
def readRepliesFrom : ℕ → List UInt8 → List (List UInt8) → Smtp (List UInt8 × List (List UInt8))
  | 0, _, _ => .exhausted
  | fuel + 1, code, replies => getline >>= takeReply (readRepliesFrom fuel) code replies

/-- Fail unless replies have a code. -/
def checked (code : String) (result : List UInt8 × List (List UInt8)) :
    Smtp (List (List UInt8)) :=
  if result.1 = ascii code then pure result.2 else .fail ()

/-- Read replies and fail unless they have a code. -/
def expect (fuel : ℕ) (code : String) : Smtp (List (List UInt8)) :=
  readRepliesFrom fuel [] [] >>= checked code

/-- Send a message and expect a code. -/
def request (fuel : ℕ) (message : List UInt8) (code : String) : Smtp Unit := do
  sendMessage message
  let _ ← expect fuel code
  pure ()

/-! ## The dialogue -/

/-- `BasicSmtpClient::greeting` -/
def greeting (fuel : ℕ) : Smtp Unit := do
  let _ ← expect fuel "220"
  pure ()

/-- `BasicSmtpClient::initialize` -/
def clientInit (client : SmtpClient) (fuel : ℕ) : Smtp (List (List UInt8)) := do
  sendMessage (ascii "EHLO " ++ client.hostname)
  expect fuel "250"

/-- `BasicSmtpClient::startTls` -/
def startTls (fuel : ℕ) (secured : Option Peer) : Smtp Unit := do
  request fuel (ascii "STARTTLS") "220"
  .change (shakeHands secured)
  unlessFailed

/-- Whether the server offers TLS. -/
def offersTls (replies : List (List UInt8)) : Bool := replies.contains (ascii "STARTTLS")

/-- A round of the loop of `BasicSmtpClient::send` behind its `initialize`, with the rounds to
come. -/
def upgrade (fuel : ℕ) (secured : Option Peer) (go : Smtp (List (List UInt8)))
    (replies : List (List UInt8)) : Smtp (List (List UInt8)) := do
  if offersTls replies then
    startTls fuel secured
    go
  else pure replies

/-- The loop of `BasicSmtpClient::send`. -/
def negotiate (client : SmtpClient) (fuel : ℕ) (secured : Option Peer) :
    ℕ → Smtp (List (List UInt8))
  | 0 => .exhausted
  | rounds + 1 =>
      client.clientInit fuel >>= upgrade fuel secured (client.negotiate fuel secured rounds)

/-- `BasicSmtpClient::loginAuthenticate` -/
def loginAuthenticate (client : SmtpClient) (fuel : ℕ) : Smtp Unit := do
  request fuel (ascii "AUTH LOGIN") "334"
  request fuel (client.encode client.login) "334"
  request fuel (client.encode client.password) "235"

/-- `BasicSmtpClient::plainAuthenticate` -/
def plainAuthenticate (client : SmtpClient) (fuel : ℕ) : Smtp Unit := do
  request fuel (ascii "AUTH PLAIN") "334"
  request fuel (client.encode ([0] ++ client.login ++ [0] ++ client.password)) "235"

/-- The part of `BasicSmtpClient::send` that chooses how to authenticate. -/
def authenticate (client : SmtpClient) (fuel : ℕ) (replies : List (List UInt8)) : Smtp Unit :=
  match replies.find? fun reply => decide (ascii "AUTH" <:+: reply) with
  | none => pure ()
  | some auth =>
      if ascii "LOGIN" <:+: auth then client.loginAuthenticate fuel
      else if ascii "PLAIN" <:+: auth then client.plainAuthenticate fuel
      else pure ()

/-- `BasicSmtpClient::sendFrom` -/
def sendFrom (client : SmtpClient) (fuel : ℕ) : Smtp Unit :=
  request fuel (ascii "MAIL FROM: <" ++ client.message.sender.address ++ ascii ">") "250"

/-- `BasicSmtpClient::sendTo` -/
def sendTo (fuel : ℕ) : List SmtpRecipient → Smtp Unit
  | [] => pure ()
  | recipient :: recipients => do
      request fuel (ascii "RCPT TO: <" ++ recipient.address ++ ascii ">") "250"
      sendTo fuel recipients

/-- `SmtpMessage::writeHeaders` and `SmtpMessage::writeContent` on the stream. -/
def writeOut (text : List UInt8) : Smtp Unit := do
  onStream fun stream => (stream.write text).2
  onStream SocketStream.flush
  unlessFailed

/-- `BasicSmtpClient::sendData` -/
def sendData (client : SmtpClient) (fuel : ℕ) : Smtp Unit := do
  request fuel (ascii "DATA") "354"
  writeOut (client.message.writeHeaders client.date)
  writeOut client.message.writeContent
  let _ ← expect fuel "250"
  pure ()

/-- `BasicSmtpClient::quit` -/
def quit (fuel : ℕ) : Smtp Unit := request fuel (ascii "QUIT") "221"

/-- What `BasicSmtpClient::send` does behind its loop. -/
def deliver (client : SmtpClient) (fuel : ℕ) (replies : List (List UInt8)) : Smtp Unit := do
  client.authenticate fuel replies
  client.sendFrom fuel
  sendTo fuel client.message.recipients
  client.sendData fuel
  quit fuel

/-- `BasicSmtpClient::send` up to its last `close`. -/
def dialogue (client : SmtpClient) (fuel : ℕ) (server secured : Option Peer) : Smtp Unit := do
  connect server
  greeting fuel
  let replies ← client.negotiate fuel secured fuel
  client.deliver fuel replies

/-- `BasicSmtpClient::close` -/
def close (session : SmtpSession) : SmtpSession :=
  { session with stream := session.stream.disconnect.close.clear }

/-- What is seen of a dialogue since the handshake: the result, the lines that were read and
the bytes that were put on the socket. -/
structure Report where
  sent : Bool
  heard : List (List UInt8)
  wire : List UInt8
deriving DecidableEq, Repr

/-- What is seen of a dialogue that has ended. -/
def report (ended : Except Unit Unit × SmtpSession) : Report :=
  let session := close ended.2
  ⟨ended.1.isOk, session.heard, session.stream.wire⟩

/-- `BasicSmtpClient::send` on a stream of a client comes to a report. -/
def Reports (client : SmtpClient) (stream : SocketStream) (server secured : Option Peer)
    (seen : Report) : Prop :=
  ∃ fuel ended, client.dialogue fuel server secured ⟨stream, false, []⟩ = some ended ∧
    report ended = seen

end SmtpClient

end Join
