import Join.Services.SmtpDialogue

/-!
# What is left of the clear text

When the server has agreed to go on over TLS, the client shakes hands and begins anew. The
reads that follow take their bytes from the socket, which is encrypted now, but only when the
get area is empty: what a server, or whoever speaks in its place, has sent in clear behind its
reply is still there and is read first.

Two dialogues that have read the same clear text reach the handshake. The one has nothing left
in its get area. Then the other is seen to go on in the same way, whatever comes over TLS,
exactly when it has nothing left either.
-/

set_option autoImplicit false

namespace Join

open Library Library.Program

namespace SmtpClient

variable {client : SmtpClient} {secured server : Option Peer} {fuel more rounds : ℕ}
  {session next : SmtpSession} {stream : SocketStream}

/-! ## Reaching the handshake -/

/-- The dialogue up to the reply to `STARTTLS`. -/
def untilHandshake (client : SmtpClient) (fuel : ℕ) (server : Option Peer) : Smtp Unit := do
  connect server
  greeting fuel
  let replies ← client.clientInit fuel
  if offersTls replies then request fuel (ascii "STARTTLS") "220" else .fail ()

/-- A dialogue with a server shakes hands in a session. -/
def Reaches (client : SmtpClient) (stream : SocketStream) (server : Peer) (session : SmtpSession) :
    Prop :=
  ∃ fuel, client.untilHandshake fuel (some server) ⟨stream, false, []⟩ = some (.ok (), session)

/-- Two dialogues shake hands when they have read the same clear text. -/
structure AgreeUntilHandshake (client : SmtpClient) (stream : SocketStream)
    (server server' : Peer) (session session' : SmtpSession) : Prop where
  reaches : client.Reaches stream server session
  reaches' : client.Reaches stream server' session'
  read : ∃ clear, stream.getArea ++ server.sent = clear ++ session.stream.remaining ∧
    stream.getArea ++ server'.sent = clear ++ session'.stream.remaining

theorem untilHandshake_within (enough : fuel ≤ more) :
    (client.untilHandshake fuel server).Within (client.untilHandshake more server) :=
  Within.bind (fun _ _ ended => ended) fun _ => (greeting_speaks enough).within.bind fun _ =>
    (clientInit_speaks enough).within.bind fun _ =>
      (Steady.ite (request_speaks _ _ enough) (.fail (talks_lasting fuel) ())).within

/-- What a dialogue does from the handshake on. -/
theorem dialogue_of_untilHandshake
    (reached : client.untilHandshake (fuel + 1) server session = some (.ok (), next)) :
    client.dialogue (fuel + 1) server secured session =
      (Program.change (shakeHands secured) >>= fun _ => unlessFailed >>= fun _ =>
        client.resume (fuel + 1) secured fuel) next := by
  obtain ⟨_, first, connected, reached⟩ := bind_eq_ok.mp reached
  obtain ⟨_, second, greeted, reached⟩ := bind_eq_ok.mp reached
  obtain ⟨replies, third, answered, reached⟩ := bind_eq_ok.mp reached
  split_ifs at reached with offered
  · rw [dialogue, bind_apply, connected]
    dsimp only
    rw [bind_apply, greeted]
    dsimp only
    rw [negotiate, bind_bind, bind_apply, answered]
    dsimp only
    rw [upgrade, if_pos offered, startTls, bind_bind, bind_bind, bind_apply, reached]
    rfl
  · cases reached

/-- A dialogue that reaches the handshake has sent what it had to, and is not encrypted. -/
theorem untilHandshake_ok (reached : client.untilHandshake fuel server session = some (.ok (), next))
    (plain : session.encrypted = false) :
    next.stream.Settled ∧ next.encrypted = false := by
  obtain ⟨_, first, connected, reached⟩ := bind_eq_ok.mp reached
  obtain ⟨_, second, greeted, reached⟩ := bind_eq_ok.mp reached
  obtain ⟨replies, third, answered, reached⟩ := bind_eq_ok.mp reached
  split_ifs at reached with offered
  · have same : first.encrypted = session.encrypted := by
      obtain ⟨_, between, changed, checked⟩ := bind_eq_ok.mp connected
      cases changed
      rw [(unlessFailed_ok checked).1]
    have enough := Nat.le_refl fuel
    refine ⟨request_ok reached (by decide), ?_⟩
    rw [((request_speaks _ _ enough).moves reached).encrypted,
      ((clientInit_speaks enough).moves answered).encrypted,
      ((greeting_speaks enough).moves greeted).encrypted, same, plain]
  · cases reached

/-! ## The handshake -/

/-- The session behind a handshake: what was in the get area still is. -/
def secure (peer : Peer) (area : List UInt8) : SmtpSession :=
  ⟨⟨.connected, peer.reads, peer.writes, [], area, [], true, true⟩, true, []⟩

theorem shakeHands_some {peer : Peer} (settled : session.stream.Settled)
    (plain : session.encrypted = false) :
    shakeHands (some peer) session = secure peer session.stream.getArea := by
  obtain ⟨stream, encrypted, heard⟩ := session
  obtain ⟨state, reads, writes, wire, getArea, putArea, hasPutArea, good⟩ := stream
  obtain ⟨connected, isGood, ready, sent⟩ := settled
  dsimp only at plain connected isGood ready sent
  subst plain connected isGood ready sent
  rfl

/-- Behind a handshake that has succeeded the client begins anew. -/
theorem dialogue_secured {peer : Peer}
    (reached : client.untilHandshake (fuel + 1) server session = some (.ok (), next))
    (plain : session.encrypted = false) :
    client.dialogue (fuel + 1) server (some peer) session =
      client.resume (fuel + 1) (some peer) fuel (secure peer next.stream.getArea) := by
  obtain ⟨settled, still⟩ := untilHandshake_ok reached plain
  rw [dialogue_of_untilHandshake reached, bind_apply, change_apply, shakeHands_some settled still]
  rfl

/-- Nothing is seen behind a handshake that has failed. -/
theorem dialogue_refused
    (reached : client.untilHandshake (fuel + 1) server session = some (.ok (), next))
    (plain : session.encrypted = false) :
    ∃ ended, client.dialogue (fuel + 1) server none session = some ended ∧
      report ended = ⟨false, [], []⟩ := by
  obtain ⟨settled, still⟩ := untilHandshake_ok reached plain
  obtain ⟨stream, encrypted, heard⟩ := next
  obtain ⟨state, reads, writes, wire, getArea, putArea, hasPutArea, good⟩ := stream
  obtain ⟨connected, isGood, ready, sent⟩ := settled
  dsimp only at still connected isGood ready sent
  subst still connected isGood ready sent
  rw [dialogue_of_untilHandshake reached]
  refine ⟨(.error (), ⟨⟨.connected, reads, writes, [], getArea, [], true, false⟩, false, []⟩), rfl, ?_⟩
  cases writes <;> rfl

/-! ## The first line behind the handshake -/

theorem sendMessage_obliging {message : List UInt8} {times : ℕ}
    (obliging : session.stream.Obliging (times + 1 + crlf.length + message.length)) :
    ∃ stream, sendMessage message session = some (.ok (), { session with stream }) ∧
      session.stream.Written stream ∧ stream.Obliging times := by
  have wrote := (obliging.write message).write crlf
  have flushed := SocketStream.Obliging.flush wrote
  refine ⟨_, ?_, (SocketStream.write_written message _).trans
    ((SocketStream.write_written crlf _).trans (SocketStream.flush_written _)), flushed⟩
  rw [sendMessage, unlessFailed]
  simp only [bind_apply, onStream, change_apply, gets_apply, flushed.good]
  rfl

/-- Replies that are expected are heard from their first line on; without one they are
refused. -/
theorem expect_heard {code : String} {outcome : Except Unit (List (List UInt8))}
    (connected : session.stream.state = .connected) (good : session.stream.good = true)
    (known : ascii code ≠ [])
    (ended : expect fuel code session = some (outcome, next)) :
    ((Join.getline 1024 session.stream.input).1 = none ∧ outcome = .error () ∧
        next.heard = session.heard) ∨
      ∃ line, (Join.getline 1024 session.stream.input).1 = some line ∧
        session.heard ++ [line] <+: next.heard := by
  cases fuel with
  | zero => cases ended
  | succ fuel =>
      have same : session.stream.getline.1 = (Join.getline 1024 session.stream.input).1 :=
        SocketStream.getlineFrom_input 1024 [] good connected
      rw [← same]
      rw [expect, readRepliesFrom, bind_bind] at ended
      change (takeReply (readRepliesFrom fuel) [] [] session.stream.getline.1 >>= checked code)
          { session with
            stream := session.stream.getline.2
            heard := session.heard ++ session.stream.getline.1.toList } =
        some (outcome, next) at ended
      rcases taken : session.stream.getline with ⟨_ | line, after⟩
      · rw [taken] at ended
        change checked code ([], []) _ = _ at ended
        rw [checked, if_neg known.symm] at ended
        cases ended
        exact .inl ⟨rfl, rfl, List.append_nil _⟩
      · rw [taken] at ended
        refine .inr ⟨line, rfl, ?_⟩
        have enough := Nat.le_refl fuel
        have replied := takeReply_speaks (fun code replies =>
          readRepliesFrom_speaks code replies enough) [] [] (some line)
        have speaks := Steady.bind (talks_lasting fuel) replied (checked_speaks code)
        exact (speaks.moves ended).heard

/-- The first line that is heard behind a handshake with a server that takes what is written
is the first line of what the stream reads; when there is none, nothing is heard. -/
theorem resume_heard {ended : Except Unit Unit × SmtpSession}
    (obliging : session.stream.Obliging
      (1 + crlf.length + (ascii "EHLO " ++ client.hostname).length))
    (encrypted : session.encrypted = true) (silent : session.heard = []) (few : rounds ≤ fuel)
    (resumed : client.resume fuel secured rounds session = some ended) :
    ((Join.getline 1024 session.stream.input).1 = none ∧ ended.2.heard = []) ∨
      ∃ line, (Join.getline 1024 session.stream.input).1 = some line ∧
        [line] <+: ended.2.heard := by
  cases rounds with
  | zero => cases resumed
  | succ rounds =>
      obtain ⟨stream, sent, written, connected, good, -⟩ :=
        @sendMessage_obliging session (ascii "EHLO " ++ client.hostname) 0 (by rwa [Nat.zero_add])
      rw [resume, negotiate, bind_bind, clientInit, bind_bind, bind_apply, sent] at resumed
      dsimp only at resumed
      rw [bind_apply] at resumed
      rcases answered : expect fuel "250" { session with stream } with _ | ⟨outcome, between⟩
      · rw [answered] at resumed
        cases resumed
      · rw [answered] at resumed
        have heard := expect_heard connected good (by decide) answered
        rw [written.input_eq, silent] at heard
        rcases heard with ⟨none, rfl, same⟩ | ⟨line, some, first⟩
        · cases resumed
          exact .inl ⟨none, same⟩
        · refine .inr ⟨line, some, ?_⟩
          rcases outcome with failure | replies
          · cases resumed
            exact first
          · have within := Nat.le_of_succ_le few
            have enough := Nat.le_refl fuel
            have rest := @upgrade_deliver_converses client _ _ _ _ _ rounds within enough
              (@negotiate_converses client secured _ _ _ _ within enough (Nat.le_refl rounds)) replies
            have still : between.encrypted = true := by
              rw [((expect_speaks "250" enough).moves answered).encrypted]
              exact encrypted
            exact first.trans ((rest.moves resumed).heard still).2

/-! ## What is seen behind the handshake -/

/-- Two servers are seen to do the same behind the handshake, whatever comes over TLS. -/
def SeenAlike (client : SmtpClient) (stream : SocketStream) (server server' : Peer) : Prop :=
  ∀ secured seen, client.Reports stream (some server) secured seen ↔
    client.Reports stream (some server') secured seen

theorem dialogue_within (enough : fuel ≤ more) :
    (client.dialogue fuel server secured).Within (client.dialogue more server secured) :=
  Within.bind (fun _ _ ended => ended) fun _ => (greeting_speaks enough).within.bind fun _ =>
    (resume_converses (Nat.le_refl fuel) enough enough).within

/-- A dialogue that reaches the handshake is seen to do what it does from there. -/
theorem reports_secured_iff {peer host : Peer} {seen : Report}
    (reaches : client.Reaches stream host session) :
    client.Reports stream (some host) (some peer) seen ↔
      ∃ fuel rounds ended, rounds ≤ fuel ∧
        client.resume fuel (some peer) rounds (secure peer session.stream.getArea) =
          some ended ∧ report ended = seen := by
  obtain ⟨least, reached⟩ := reaches
  constructor
  · rintro ⟨fuel, ended, run, rfl⟩
    have later := dialogue_within (Nat.le_succ_of_le (Nat.le_max_left fuel least)) run
    rw [dialogue_secured (untilHandshake_within
      (Nat.le_succ_of_le (Nat.le_max_right fuel least)) reached) rfl] at later
    exact ⟨_, _, ended, Nat.le_succ _, later, rfl⟩
  · rintro ⟨fuel, rounds, ended, few, run, rfl⟩
    have enough : fuel ≤ max fuel least := Nat.le_max_left _ _
    refine ⟨max fuel least + 1, ended, ?_, rfl⟩
    rw [dialogue_secured (untilHandshake_within
      (Nat.le_succ_of_le (Nat.le_max_right fuel least)) reached) rfl]
    exact (resume_converses few (Nat.le_succ_of_le enough) (Nat.le_trans few enough)).within run

theorem reports_refused_iff {host : Peer} {seen : Report}
    (reaches : client.Reaches stream host session) :
    client.Reports stream (some host) none seen ↔ seen = ⟨false, [], []⟩ := by
  obtain ⟨least, reached⟩ := reaches
  constructor
  · rintro ⟨fuel, ended, run, rfl⟩
    have later := dialogue_within (Nat.le_succ_of_le (Nat.le_max_left fuel least)) run
    obtain ⟨ended', same, refused⟩ := dialogue_refused (untilHandshake_within
      (Nat.le_succ_of_le (Nat.le_max_right fuel least)) reached) rfl
    rw [same] at later
    cases later
    exact refused
  · rintro rfl
    obtain ⟨ended, run, refused⟩ := dialogue_refused (untilHandshake_within
      (Nat.le_succ least) reached) rfl
    exact ⟨least + 1, ended, run, refused⟩

/-- Without anything left in the get areas nothing of the clear text is seen. -/
theorem alike_of_empty {host host' : Peer} {session' : SmtpSession}
    (agree : client.AgreeUntilHandshake stream host host' session session')
    (empty : session.stream.getArea = []) (empty' : session'.stream.getArea = []) :
    client.SeenAlike stream host host' := by
  intro secured seen
  cases secured with
  | none => rw [reports_refused_iff agree.reaches, reports_refused_iff agree.reaches']
  | some peer =>
      rw [reports_secured_iff agree.reaches, reports_secured_iff agree.reaches', empty, empty']

/-- A server that takes what is written and answers with a line of the greatest length. -/
def longAnswer (ch : UInt8) (times : ℕ) : Peer :=
  ⟨[.bytes (List.replicate 1023 ch ++ [lineFeed])], List.replicate times (.accepted bufsize)⟩

theorem secure_obliging (ch : UInt8) (times : ℕ) (area : List UInt8) :
    (secure (longAnswer ch times) area).stream.Obliging times :=
  ⟨rfl, rfl, Nat.zero_le _, times, Nat.le_refl _, rfl⟩

theorem secure_input (ch : UInt8) (times : ℕ) (area : List UInt8) :
    (secure (longAnswer ch times) area).stream.input =
      area ++ (List.replicate 1023 ch ++ [lineFeed]) := by
  have some : List.replicate 1023 ch ++ [lineFeed] ≠ [] :=
    List.append_ne_nil_of_right_ne_nil _ (List.cons_ne_nil _ _)
  rw [SocketStream.input, secure, longAnswer, SocketStream.arrives, if_neg some,
    SocketStream.arrives_nil, List.append_nil]

/-- A line of the greatest length is not read behind anything that does not begin like it. -/
theorem getline_behind {first ch : UInt8} (other : first ≠ ch) (area : List UInt8) :
    (Join.getline 1024 (first :: area ++ (List.replicate 1023 ch ++ [lineFeed]))).1 ≠
      some (List.replicate 1023 ch) := by
  intro read
  rcases taken : Join.getline 1024 (first :: area ++ (List.replicate 1023 ch ++ [lineFeed])) with
    ⟨line, rest⟩
  rw [taken] at read
  dsimp only at read
  subst read
  obtain ⟨used, split, short, kept⟩ := getlineFrom_used taken
  rw [List.nil_append] at kept
  have long := congrArg List.length kept
  rw [List.length_replicate] at long
  have all : used.filter (fun ch => ch != carriageReturn) = used :=
    List.filter_sublist.eq_of_length_le (by omega)
  rw [all] at kept
  subst kept
  exact other (List.cons.inj split).1

/-- What is left of the clear text is seen behind the handshake. -/
theorem empty_of_alike {host host' : Peer} {session' : SmtpSession}
    (agree : client.AgreeUntilHandshake stream host host' session session')
    (empty' : session'.stream.getArea = []) (alike : client.SeenAlike stream host host') :
    session.stream.getArea = [] := by
  by_contra left
  obtain ⟨first, area, split⟩ := List.exists_cons_of_ne_nil left
  obtain ⟨ch, other, plain⟩ : ∃ ch : UInt8, first ≠ ch ∧ ch ≠ carriageReturn ∧ ch ≠ lineFeed := by
    by_cases same : first = 97
    · exact ⟨98, by rw [same]; decide, by decide, by decide⟩
    · exact ⟨97, same, by decide, by decide⟩
  have oneLine : OnOneLine (List.replicate 1023 ch) := by
    intro byte member
    rw [List.eq_of_mem_replicate member]
    exact plain
  -- the clean dialogue hears the long line first
  let times := 1 + crlf.length + (ascii "EHLO " ++ client.hostname).length
  let clean := secure (longAnswer ch times) []
  let enough := clean.size (some (longAnswer ch times)) + 1
  obtain ⟨outcome, last, run⟩ := (@resume_converses client (some (longAnswer ch times)) enough
    enough enough enough (Nat.le_refl _) (Nat.le_refl _) (Nat.le_refl _)).ends
    (show clean.size (some (longAnswer ch times)) < enough from Nat.lt_succ_self _)
  have firstLine : (Join.getline 1024 clean.stream.input).1 = some (List.replicate 1023 ch) := by
    rw [secure_input, List.nil_append, Join.getline,
      getlineFrom_lineFeed oneLine 1024 [] [] (by rw [List.length_replicate]; decide)]
    rfl
  have heard : [List.replicate 1023 ch] <+: last.heard := by
    rcases resume_heard (secure_obliging ch times []) rfl rfl (Nat.le_refl _) run with
      ⟨none, -⟩ | ⟨line, some, heard⟩
    · rw [firstLine] at none
      cases none
    · rw [firstLine] at some
      cases some
      exact heard
  -- the other one does not
  have seen := (reports_secured_iff agree.reaches').mpr
    ⟨enough, enough, (outcome, last), Nat.le_refl _, by rw [empty']; exact run, rfl⟩
  obtain ⟨fuel, rounds, ⟨outcome', last'⟩, few, run', same⟩ :=
    (reports_secured_iff agree.reaches).mp ((alike _ _).mpr seen)
  have sameHeard : last'.heard = last.heard := congrArg Report.heard same
  rw [split] at run'
  rcases resume_heard (secure_obliging ch times (first :: area)) rfl rfl few run' with
    ⟨-, none⟩ | ⟨line, some, heard'⟩
  · rw [sameHeard] at none
    rw [none] at heard
    exact List.cons_ne_nil _ _ (List.prefix_nil.mp heard)
  · rw [sameHeard] at heard'
    have sameLine := List.prefix_of_prefix_length_le heard' heard (Nat.le_refl _)
    obtain rfl : line = List.replicate 1023 ch := (List.cons_prefix_cons.mp sameLine).1
    rw [secure_input] at some
    exact getline_behind other area some

end SmtpClient

open SmtpClient in
/-- Beside a dialogue that has nothing left in its get area when it shakes hands, another that
has read the same clear text is seen to go on in the same way exactly when it has nothing left
either. -/
theorem clear_text_unseen_iff (client : SmtpClient) (stream : SocketStream) (server server' : Peer)
    (session session' : SmtpSession)
    (agree : client.AgreeUntilHandshake stream server server' session session')
    (clean : session'.stream.getArea = []) :
    client.SeenAlike stream server server' ↔ session.stream.getArea = [] :=
  ⟨empty_of_alike agree clean, fun empty => alike_of_empty agree empty clean⟩

/-- A client without a login. -/
def plainClient : SmtpClient :=
  ⟨ascii "me", [], [], id, ascii "today", plainMessage (ascii "hello")⟩

/-- A server that offers TLS, and what is sent behind its reply to `STARTTLS`. -/
def offeringServer (behind : String) : Peer :=
  ⟨[.bytes (ascii "220 a\r\n"), .bytes (ascii "250 STARTTLS\r\n"),
    .bytes (ascii ("220 b\r\n" ++ behind))], [.accepted 4096, .accepted 4096]⟩

/-- The handshake with that server. -/
def offeredSession (behind : String) : SmtpSession :=
  ⟨⟨.connected, [], [], ascii "EHLO me\r\nSTARTTLS\r\n", ascii behind, [], true, true⟩, false,
    [ascii "220 a", ascii "250 STARTTLS", ascii "220 b"]⟩

theorem offered_agree : plainClient.AgreeUntilHandshake (.construct none)
    (offeringServer "250 AUTH PLAIN\r\n") (offeringServer "")
    (offeredSession "250 AUTH PLAIN\r\n") (offeredSession "") where
  reaches := ⟨2, rfl⟩
  reaches' := ⟨2, rfl⟩
  read := ⟨(offeringServer "").sent, by decide, by decide⟩

/-- The reply that was injected is seen. -/
theorem clear_text_unseen_iff_injected :
    ¬ plainClient.SeenAlike (.construct none) (offeringServer "250 AUTH PLAIN\r\n")
      (offeringServer "") := by
  intro alike
  exact absurd ((clear_text_unseen_iff plainClient (.construct none) _ _ _ _ offered_agree rfl).mp
    alike) (by decide)

/-- A reply that is injected in clear behind the reply to `STARTTLS` is taken for one of the
encrypted session. -/
theorem injected_reply_seen : ¬ ∀ (client : SmtpClient) (stream : SocketStream)
    (server server' : Peer) (session session' : SmtpSession),
    client.AgreeUntilHandshake stream server server' session session' →
      client.SeenAlike stream server server' := by
  intro alike
  exact absurd (SmtpClient.empty_of_alike offered_agree rfl (alike _ _ _ _ _ _ offered_agree))
    (by decide)

end Join
