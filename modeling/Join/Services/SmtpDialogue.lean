import Join.Services.SmtpClient

/-!
# The mail dialogue goes on and ends

Each part of the dialogue of a mail client reads on in its stream and keeps the lines that it
has heard. A round of a loop reads at least a line, so with more fuel than there are bytes the
dialogue ends, and with still more it ends in the same way.
-/

set_option autoImplicit false

namespace Join

open Library Library.Program

/-! ## What a dialogue does to a session -/

/-- The session goes on: no byte comes back, and what was heard stays. -/
structure SmtpSession.Talks (before after : SmtpSession) : Prop where
  encrypted : after.encrypted = before.encrypted
  shorter : after.stream.remaining.length ≤ before.stream.remaining.length
  heard : before.heard <+: after.heard

/-- The bytes that a session can still read, those behind a handshake included. -/
def SmtpSession.size (secured : Option Peer) (session : SmtpSession) : ℕ :=
  session.stream.remaining.length +
    if session.encrypted then 0 else (secured.elim [] Peer.sent).length

/-- The session goes on, and there may be a handshake. -/
structure SmtpSession.Goes (secured : Option Peer) (before after : SmtpSession) : Prop where
  shorter : after.size secured ≤ before.size secured
  heard : before.encrypted = true → after.encrypted = true ∧ before.heard <+: after.heard

namespace SmtpClient

variable {client : SmtpClient} {secured server : Option Peer} {fuel more rounds : ℕ}
  {session next : SmtpSession}

theorem talks_lasting (fuel : ℕ) : Lasting SmtpSession.Talks
    fun session => session.stream.remaining.length < fuel where
  refl _ := ⟨rfl, Nat.le_refl _, List.prefix_rfl⟩
  trans first second := ⟨second.encrypted.trans first.encrypted,
    Nat.le_trans second.shorter first.shorter, first.heard.trans second.heard⟩
  fits moved fits := Nat.lt_of_le_of_lt moved.shorter fits

theorem goes_lasting (secured : Option Peer) (fuel : ℕ) :
    Lasting (SmtpSession.Goes secured) fun session => session.size secured < fuel where
  refl _ := ⟨Nat.le_refl _, fun encrypted => ⟨encrypted, List.prefix_rfl⟩⟩
  trans first second := ⟨Nat.le_trans second.shorter first.shorter, fun encrypted =>
    have between := first.heard encrypted
    have after := second.heard between.1
    ⟨after.1, between.2.trans after.2⟩⟩
  fits moved fits := Nat.lt_of_le_of_lt moved.shorter fits

/-- A part of the dialogue without a handshake. -/
abbrev Speaks {α : Type} (fuel : ℕ) (program more : Smtp α) : Prop :=
  Steady SmtpSession.Talks (fun session => session.stream.remaining.length < fuel) program more

/-- A part of the dialogue. -/
abbrev Converses {α : Type} (secured : Option Peer) (fuel : ℕ) (program more : Smtp α) : Prop :=
  Steady (SmtpSession.Goes secured) (fun session => session.size secured < fuel) program more

theorem Speaks.converses {α : Type} {program more : Smtp α} (speaks : Speaks fuel program more)
    (secured : Option Peer) : Converses secured fuel program more := by
  refine speaks.mono (fun talks => ⟨?_, fun encrypted => ⟨?_, talks.heard⟩⟩) fun fits => ?_
  · rw [SmtpSession.size, SmtpSession.size, talks.encrypted]
    exact Nat.add_le_add_right talks.shorter _
  · rw [talks.encrypted]
    exact encrypted
  · exact Nat.lt_of_le_of_lt (Nat.le_add_right _ _) fits

/-! ## Messages and replies -/

theorem onStream_speaks (act : SocketStream → SocketStream)
    (written : ∀ stream : SocketStream, stream.Written (act stream)) :
    Speaks fuel (onStream act) (onStream act) := by
  refine .change _ fun session => ⟨rfl, ?_, List.prefix_rfl⟩
  rw [(written session.stream).remaining_eq]

theorem unlessFailed_speaks : Speaks fuel unlessFailed unlessFailed :=
  .bind (talks_lasting fuel) (.gets (talks_lasting fuel) _) fun _ =>
    .ite (.pure (talks_lasting fuel) ()) (.fail (talks_lasting fuel) ())

theorem sendMessage_speaks (message : List UInt8) :
    Speaks fuel (sendMessage message) (sendMessage message) :=
  have lasting := talks_lasting fuel
  .bind lasting (onStream_speaks _ (SocketStream.write_written message)) fun _ =>
    .bind lasting (onStream_speaks _ (SocketStream.write_written crlf)) fun _ =>
      .bind lasting (onStream_speaks _ SocketStream.flush_written) fun _ => unlessFailed_speaks

theorem writeOut_speaks (text : List UInt8) : Speaks fuel (writeOut text) (writeOut text) :=
  have lasting := talks_lasting fuel
  .bind lasting (onStream_speaks _ (SocketStream.write_written text)) fun _ =>
    .bind lasting (onStream_speaks _ SocketStream.flush_written) fun _ => unlessFailed_speaks

theorem getline_talks (session : SmtpSession) :
    session.Talks { session with
      stream := session.stream.getline.2
      heard := session.heard ++ session.stream.getline.1.toList } :=
  ⟨rfl, SocketStream.getlineFrom_length _ _ _, List.prefix_append _ _⟩

theorem takeReply_speaks
    {go go' : List UInt8 → List (List UInt8) → Smtp (List UInt8 × List (List UInt8))}
    (speaks : ∀ code replies, Speaks fuel (go code replies) (go' code replies))
    (code : List UInt8) (replies : List (List UInt8)) (reply : Option (List UInt8)) :
    Speaks fuel (takeReply go code replies reply) (takeReply go' code replies reply) := by
  have lasting := talks_lasting fuel
  cases reply with
  | none => exact .pure lasting _
  | some reply =>
      rw [takeReply, takeReply]
      exact .ite (.ite (.pure lasting _) (speaks _ _)) (.pure lasting _)

/-- Each round of the loop reads at least a byte. -/
theorem readRepliesFrom_speaks (code : List UInt8) (replies : List (List UInt8))
    (enough : fuel ≤ more) :
    Speaks fuel (readRepliesFrom fuel code replies) (readRepliesFrom more code replies) := by
  induction fuel generalizing more code replies with
  | zero => exact .exhausted (fun _ => Nat.not_lt_zero _) _
  | succ fuel ih =>
      obtain ⟨more, rfl⟩ := Nat.exists_eq_add_of_le' (Nat.one_le_of_lt enough)
      have round := takeReply_speaks
        (fun code replies => ih code replies (Nat.le_of_succ_le_succ enough)) code replies
      constructor
      · refine Moves.bind (talks_lasting fuel).trans ?_ fun reply => (round reply).moves
        intro state outcome after ended
        cases ended
        exact getline_talks state
      · refine Ends.bind (fun _ _ => ⟨_, _, rfl⟩) ?_
        intro state value after fits ended
        cases ended
        dsimp only
        rcases taken : state.stream.getline with ⟨_ | reply, after⟩
        · exact ⟨_, _, rfl⟩
        · have shorter := (SocketStream.getlineFrom_some taken).2.2
          exact (round (some reply)).ends (by dsimp only; omega)
      · exact Within.bind (fun _ _ ended => ended) fun reply => (round reply).within

theorem checked_speaks (code : String) (result : List UInt8 × List (List UInt8)) :
    Speaks fuel (checked code result) (checked code result) :=
  .ite (.pure (talks_lasting fuel) _) (.fail (talks_lasting fuel) _)

theorem expect_speaks (code : String) (enough : fuel ≤ more) :
    Speaks fuel (expect fuel code) (expect more code) :=
  .bind (talks_lasting fuel) (readRepliesFrom_speaks _ _ enough) (checked_speaks code)

theorem request_speaks (message : List UInt8) (code : String) (enough : fuel ≤ more) :
    Speaks fuel (request fuel message code) (request more message code) :=
  have lasting := talks_lasting fuel
  .bind lasting (sendMessage_speaks message) fun _ =>
    .bind lasting (expect_speaks code enough) fun _ => .pure lasting ()

/-! ## The dialogue -/

theorem greeting_speaks (enough : fuel ≤ more) : Speaks fuel (greeting fuel) (greeting more) :=
  .bind (talks_lasting fuel) (expect_speaks _ enough) fun _ => .pure (talks_lasting fuel) ()

theorem clientInit_speaks (enough : fuel ≤ more) :
    Speaks fuel (client.clientInit fuel) (client.clientInit more) :=
  .bind (talks_lasting fuel) (sendMessage_speaks _) fun _ => expect_speaks _ enough

theorem authenticate_speaks (replies : List (List UInt8)) (enough : fuel ≤ more) :
    Speaks fuel (client.authenticate fuel replies) (client.authenticate more replies) := by
  have lasting := talks_lasting fuel
  rw [authenticate, authenticate]
  cases replies.find? fun reply => decide (ascii "AUTH" <:+: reply) with
  | none => exact .pure lasting ()
  | some auth =>
      refine .ite ?_ (.ite ?_ (.pure lasting ()))
      · rw [loginAuthenticate, loginAuthenticate]
        exact .bind lasting (request_speaks _ _ enough) fun _ =>
          .bind lasting (request_speaks _ _ enough) fun _ => request_speaks _ _ enough
      · rw [plainAuthenticate, plainAuthenticate]
        exact .bind lasting (request_speaks _ _ enough) fun _ => request_speaks _ _ enough

theorem sendTo_speaks (recipients : List SmtpRecipient) (enough : fuel ≤ more) :
    Speaks fuel (sendTo fuel recipients) (sendTo more recipients) := by
  induction recipients with
  | nil => exact .pure (talks_lasting fuel) ()
  | cons recipient recipients ih =>
      rw [sendTo, sendTo]
      exact .bind (talks_lasting fuel) (request_speaks _ _ enough) fun _ => ih

theorem sendData_speaks (enough : fuel ≤ more) :
    Speaks fuel (client.sendData fuel) (client.sendData more) :=
  have lasting := talks_lasting fuel
  .bind lasting (request_speaks _ _ enough) fun _ =>
    .bind lasting (writeOut_speaks _) fun _ =>
      .bind lasting (writeOut_speaks _) fun _ =>
        .bind lasting (expect_speaks _ enough) fun _ => .pure lasting ()

theorem deliver_speaks (replies : List (List UInt8)) (enough : fuel ≤ more) :
    Speaks fuel (client.deliver fuel replies) (client.deliver more replies) :=
  have lasting := talks_lasting fuel
  .bind lasting (authenticate_speaks replies enough) fun _ =>
    .bind lasting (request_speaks _ _ enough) fun _ =>
      .bind lasting (sendTo_speaks _ enough) fun _ =>
        .bind lasting (sendData_speaks enough) fun _ => request_speaks _ _ enough

/-! ## The handshake -/

/-- A handshake brings what comes over TLS, once. -/
theorem shakeHands_goes (session : SmtpSession) :
    session.Goes secured (shakeHands secured session) := by
  rw [shakeHands]
  split_ifs with encrypted
  · exact (goes_lasting secured 0).refl session
  · refine ⟨?_, fun is => absurd is encrypted⟩
    rw [SmtpSession.size, SmtpSession.size, if_neg encrypted]
    cases secured with
    | none => exact Nat.le_refl _
    | some peer =>
        simp only [SocketStream.remaining, List.length_append, if_true, Option.elim_some,
          Peer.sent]
        omega

theorem startTls_converses (enough : fuel ≤ more) :
    Converses secured fuel (startTls fuel secured) (startTls more secured) :=
  have lasting := goes_lasting secured fuel
  .bind lasting ((request_speaks _ _ enough).converses secured) fun _ =>
    .bind lasting (.change _ shakeHands_goes) fun _ => unlessFailed_speaks.converses secured

/-! ## What has succeeded -/

/-- A line refuses the reply, ends it, or is followed by another. -/
theorem takeReply_cases
    (go : List UInt8 → List (List UInt8) → Smtp (List UInt8 × List (List UInt8)))
    (code : List UInt8) (replies : List (List UInt8)) (reply : List UInt8) :
    takeReply go code replies (some reply) = pure ([], replies) ∨
      ∃ code' replies', takeReply go code replies (some reply) = pure (code', replies') ∨
        takeReply go code replies (some reply) = go code' replies' := by
  rw [takeReply]
  by_cases known : behindCode 45 reply || behindCode 32 reply
  · rw [if_pos known]
    refine .inr ⟨if code = [] then reply.take 3 else code, replies ++ [reply.drop 4], ?_⟩
    by_cases last : reply[3]? = some 32
    · exact .inl (if_pos last)
    · exact .inr (if_neg last)
  · rw [if_neg known]
    exact .inl rfl

/-- Replies that have a code were read, from at least one line. -/
theorem readRepliesFrom_found {code found : List UInt8} {replies all : List (List UInt8)}
    (ended : readRepliesFrom fuel code replies session = some (.ok (found, all), next))
    (known : found ≠ []) : session.stream.Read next.stream ∧
      next.stream.remaining.length < session.stream.remaining.length := by
  induction fuel generalizing code replies session with
  | zero => cases ended
  | succ fuel ih =>
      obtain ⟨reply, between, taken, answered⟩ := bind_eq_ok.mp ended
      cases taken
      dsimp only at answered
      rcases line : session.stream.getline with ⟨_ | reply, after⟩
      · rw [line] at answered
        cases answered
        exact absurd rfl known
      · obtain ⟨-, read, shorter⟩ := SocketStream.getlineFrom_some line
        rw [line] at answered
        rcases takeReply_cases (readRepliesFrom fuel) code replies reply with
          refused | ⟨code', replies', last | followed⟩
        · rw [refused] at answered
          cases answered
          exact absurd rfl known
        · rw [last] at answered
          cases answered
          exact ⟨read, shorter⟩
        · rw [followed] at answered
          obtain ⟨later, less⟩ := ih answered
          exact ⟨read.trans later, Nat.lt_trans less shorter⟩

theorem expect_ok {code : String} {replies : List (List UInt8)}
    (ended : expect fuel code session = some (.ok replies, next)) (known : ascii code ≠ []) :
    session.stream.Read next.stream ∧
      next.stream.remaining.length < session.stream.remaining.length := by
  obtain ⟨⟨found, all⟩, between, read, compared⟩ := bind_eq_ok.mp ended
  rw [checked] at compared
  dsimp only at compared
  split_ifs at compared with same
  · cases compared
    exact readRepliesFrom_found read (same ▸ known)
  · cases compared

theorem unlessFailed_ok (ended : unlessFailed session = some (.ok (), next)) :
    next = session ∧ session.stream.good = true := by
  obtain ⟨good, between, looked, checked⟩ := bind_eq_ok.mp ended
  cases looked
  split_ifs at checked with is
  · cases checked
    exact ⟨rfl, is⟩
  · cases checked

/-- A message that was sent has left the stream, which is read as before. -/
theorem sendMessage_ok {message : List UInt8}
    (ended : sendMessage message session = some (.ok (), next)) :
    next.stream.Settled ∧ session.stream.Written next.stream ∧
      next.encrypted = session.encrypted ∧ next.heard = session.heard := by
  obtain ⟨_, first, wrote, ended⟩ := bind_eq_ok.mp ended
  cases wrote
  obtain ⟨_, second, wrote, ended⟩ := bind_eq_ok.mp ended
  cases wrote
  obtain ⟨_, third, flushed, ended⟩ := bind_eq_ok.mp ended
  cases flushed
  obtain ⟨rfl, good⟩ := unlessFailed_ok ended
  exact ⟨SocketStream.flush_settled good, (SocketStream.write_written message _).trans
    ((SocketStream.write_written crlf _).trans (SocketStream.flush_written _)), rfl, rfl⟩

/-- A request that was answered has left the stream. -/
theorem request_ok {message : List UInt8} {code : String}
    (ended : request fuel message code session = some (.ok (), next)) (known : ascii code ≠ []) :
    next.stream.Settled := by
  obtain ⟨_, between, sent, ended⟩ := bind_eq_ok.mp ended
  obtain ⟨replies, last, answered, ended⟩ := bind_eq_ok.mp ended
  cases ended
  exact (sendMessage_ok sent).1.read (expect_ok answered known).1

/-- The server has answered `EHLO` with at least one line. -/
theorem clientInit_ok {replies : List (List UInt8)}
    (ended : client.clientInit fuel session = some (.ok replies, next)) :
    next.stream.remaining.length < session.stream.remaining.length := by
  obtain ⟨_, between, sent, answered⟩ := bind_eq_ok.mp ended
  rw [← (sendMessage_ok sent).2.1.remaining_eq]
  exact (expect_ok answered (by decide)).2

/-! ## The whole dialogue -/

theorem upgrade_converses {go go' : Smtp (List (List UInt8))} {bound : ℕ} (few : bound ≤ fuel)
    (enough : fuel ≤ more) (converses : Converses secured bound go go')
    (replies : List (List UInt8)) : Converses secured bound (upgrade fuel secured go replies)
      (upgrade more secured go' replies) :=
  have lasting := goes_lasting secured bound
  .ite (.bind lasting ((startTls_converses enough).mono id fun fits =>
    Nat.lt_of_lt_of_le fits few) fun _ => converses) (.pure lasting replies)

/-- Each round of the loop reads at least a line. -/
theorem negotiate_converses {rounds' : ℕ} (few : rounds ≤ fuel) (enough : fuel ≤ more)
    (longer : rounds ≤ rounds') : Converses secured rounds
      (client.negotiate fuel secured rounds) (client.negotiate more secured rounds') := by
  induction rounds generalizing rounds' with
  | zero => exact .exhausted (fun _ => Nat.not_lt_zero _) _
  | succ rounds ih =>
      obtain ⟨rounds', rfl⟩ := Nat.exists_eq_add_of_le' (Nat.one_le_of_lt longer)
      have lasting := goes_lasting secured rounds
      have first := (@clientInit_speaks client fuel more enough).converses secured
      have round := upgrade_converses (Nat.le_of_succ_le few) enough
        (ih (Nat.le_of_succ_le few) (Nat.le_of_succ_le_succ longer))
      constructor
      · exact first.moves.bind lasting.trans fun replies => (round replies).moves
      · refine Ends.bind (fun _ fits => first.ends (Nat.lt_of_lt_of_le fits few)) ?_
        intro state replies after fits ended
        have talks := (@clientInit_speaks client fuel fuel (Nat.le_refl fuel)).moves ended
        have shorter := clientInit_ok ended
        refine (round replies).ends ?_
        rw [SmtpSession.size] at fits ⊢
        rw [talks.encrypted]
        omega
      · exact first.within.bind fun replies => (round replies).within

/-- What follows the handshake: the rounds to come and the mail. -/
def resume (client : SmtpClient) (fuel : ℕ) (secured : Option Peer) (rounds : ℕ) : Smtp Unit :=
  client.negotiate fuel secured rounds >>= client.deliver fuel

/-- What is left of a round and what follows. -/
theorem upgrade_deliver_converses {go go' : Smtp (List (List UInt8))} {bound : ℕ}
    (few : bound ≤ fuel) (enough : fuel ≤ more) (converses : Converses secured bound go go')
    (replies : List (List UInt8)) : Converses secured bound
      (upgrade fuel secured go replies >>= client.deliver fuel)
      (upgrade more secured go' replies >>= client.deliver more) :=
  .bind (goes_lasting secured bound) (upgrade_converses few enough converses replies)
    fun replies => ((deliver_speaks replies enough).converses secured).mono id fun fits =>
      Nat.lt_of_lt_of_le fits few

theorem resume_converses {rounds' : ℕ} (few : rounds ≤ fuel) (enough : fuel ≤ more)
    (longer : rounds ≤ rounds') : Converses secured rounds
      (client.resume fuel secured rounds) (client.resume more secured rounds') :=
  .bind (goes_lasting secured rounds) (negotiate_converses few enough longer) fun replies =>
    ((deliver_speaks replies enough).converses secured).mono id fun fits =>
      Nat.lt_of_lt_of_le fits few

theorem connect_ends : (connect server).Ends fun _ => True :=
  Ends.bind (fun _ _ => ⟨_, _, rfl⟩) fun _ _ after _ _ =>
    unlessFailed_speaks.ends (Nat.lt_succ_self after.stream.remaining.length)

/-- A dialogue ends. -/
theorem exists_report (client : SmtpClient) (stream : SocketStream) (server secured : Option Peer) :
    ∃ seen, client.Reports stream server secured seen := by
  obtain ⟨failure | done, session, connected⟩ :=
    @connect_ends server ⟨stream, false, []⟩ trivial
  · refine ⟨_, 0, (.error failure, session), ?_, rfl⟩
    rw [dialogue, bind_apply, connected]
  · have enough := Nat.le_refl (session.size secured + 1)
    have follows : Converses secured (session.size secured + 1)
        (greeting (session.size secured + 1) >>= fun _ =>
          client.resume (session.size secured + 1) secured (session.size secured + 1)) _ :=
      .bind (goes_lasting secured _) ((greeting_speaks enough).converses secured) fun _ =>
        resume_converses enough enough enough
    obtain ⟨outcome, last, run⟩ := follows.ends (Nat.lt_succ_self _)
    refine ⟨_, session.size secured + 1, (outcome, last), ?_, rfl⟩
    rw [dialogue, bind_apply, connected]
    exact run

/-! ## The data of a message -/

theorem writeOut_ok {text : List UInt8} (settled : session.stream.Settled)
    (ended : writeOut text session = some (.ok (), next)) :
    next.stream.Settled ∧ next.stream.wire = session.stream.wire ++ text := by
  obtain ⟨_, first, wrote, ended⟩ := bind_eq_ok.mp ended
  cases wrote
  obtain ⟨_, second, flushed, ended⟩ := bind_eq_ok.mp ended
  cases flushed
  obtain ⟨rfl, good⟩ := unlessFailed_ok ended
  exact ⟨SocketStream.flush_settled good, settled.wire_write_flush good⟩

/-- The data of a message that has been sent stands on the socket behind `DATA`. -/
theorem sendData_ok (ended : client.sendData fuel session = some (.ok (), next)) :
    ∃ between, request fuel (ascii "DATA") "354" session = some (.ok (), between) ∧
      next.stream.wire = between.stream.wire ++ client.message.data client.date := by
  obtain ⟨_, between, requested, ended⟩ := bind_eq_ok.mp ended
  obtain ⟨_, headed, wroteHeaders, ended⟩ := bind_eq_ok.mp ended
  obtain ⟨_, filled, wroteContent, ended⟩ := bind_eq_ok.mp ended
  obtain ⟨_, answered, expected, ended⟩ := bind_eq_ok.mp ended
  cases ended
  obtain ⟨settled, headers⟩ := writeOut_ok (request_ok requested (by decide)) wroteHeaders
  obtain ⟨-, content⟩ := writeOut_ok settled wroteContent
  refine ⟨between, requested, ?_⟩
  rw [(expect_ok expected (by decide)).1.wire_eq, content, headers, List.append_assoc,
    SmtpMessage.data]

end SmtpClient

end Join
