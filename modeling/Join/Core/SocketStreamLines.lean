import Join.Core.SocketStreamRuns

/-!
# Lines of a socket stream

A stream is read line by line and written message by message. A line that is read comes from
the get area and from what arrives behind it, as `join::getline` takes it from these bytes,
and a read leaves the writing side as it is. A message that has been flushed leaves an empty
put area.
-/

set_option autoImplicit false

namespace Join

namespace SocketStream

variable {stream next : SocketStream}

/-! ## What is read -/

/-- The bytes that are received and not read, and those that can arrive. -/
def remaining (stream : SocketStream) : List UInt8 :=
  stream.getArea ++ stream.reads.flatMap ReadCall.arriving

/-- The bytes that arrive before a call fails. -/
def arrives : List ReadCall → List UInt8
  | .bytes chunk :: calls => if chunk = [] then [] else chunk ++ arrives calls
  | .again :: calls => arrives calls
  | _ => []

@[simp] theorem arrives_nil : arrives [] = [] := rfl

/-- The bytes that a stream reads before it fails. -/
def input (stream : SocketStream) : List UInt8 := stream.getArea ++ arrives stream.reads

/-- A stream after some reads that have succeeded. -/
def Read (before after : SocketStream) : Prop :=
  after = { before with getArea := after.getArea, reads := after.reads }

theorem Read.trans {before between after : SocketStream} (first : before.Read between)
    (second : between.Read after) : before.Read after := by
  rw [Read] at *
  rw [second, first]

theorem Read.wire_eq {before after : SocketStream} (read : before.Read after) :
    after.wire = before.wire := by
  rw [read]

theorem underflowLoop_length {calls rest : List ReadCall}
    (nothing : underflowLoop calls = (none, rest)) :
    (rest.flatMap ReadCall.arriving).length ≤ (calls.flatMap ReadCall.arriving).length := by
  induction calls with
  | nil =>
      cases nothing
      exact Nat.le_refl _
  | cons call calls ih =>
      rw [List.flatMap_cons, List.length_append]
      cases call with
      | bytes arrived =>
          rw [underflowLoop] at nothing
          by_cases empty : arrived = []
          · rw [if_pos empty] at nothing
            cases nothing
            exact Nat.le_add_left _ _
          · rw [if_neg empty] at nothing
            split_ifs at nothing <;> cases nothing
      | again => exact Nat.le_trans (ih nothing) (Nat.le_add_left _ _)
      | timeout =>
          cases nothing
          exact Nat.le_add_left _ _
      | failed =>
          cases nothing
          exact Nat.le_add_left _ _

theorem underflowLoop_arrives (calls : List ReadCall) :
    arrives calls = (underflowLoop calls).1.getD [] ++
      (if (underflowLoop calls).1.isSome then arrives (underflowLoop calls).2 else []) := by
  induction calls with
  | nil => rfl
  | cons call calls ih =>
      cases call with
      | bytes chunk =>
          rw [underflowLoop, arrives]
          by_cases empty : chunk = []
          · rw [if_pos empty, if_pos empty]
            rfl
          · rw [if_neg empty, if_neg empty]
            by_cases short : chunk.length ≤ bufsize
            · rw [if_pos short]
              rfl
            · rw [if_neg short]
              have more : chunk.drop bufsize ≠ [] := by
                rw [Ne, List.drop_eq_nil_iff]
                exact short
              simp only [Option.getD_some, Option.isSome_some, if_true, arrives, if_neg more]
              rw [← List.append_assoc, List.take_append_drop]
      | again => exact ih
      | timeout => rfl
      | failed => rfl

/-- A byte that is read was the next one. -/
theorem sbumpc_some {byte : UInt8} (taken : stream.sbumpc = (some byte, next)) :
    stream.Read next ∧ stream.remaining = byte :: next.remaining ∧
      (stream.state = .connected → stream.input = byte :: next.input) := by
  rw [sbumpc] at taken
  rw [remaining, remaining, input, input]
  cases area : stream.getArea with
  | cons first rest =>
      rw [area] at taken
      cases taken
      exact ⟨rfl, rfl, fun _ => rfl⟩
  | nil =>
      rw [area] at taken
      dsimp only at taken
      rw [underflow, area] at taken
      split_ifs at taken
      · have arriving := underflowLoop_arrives stream.reads
        rcases filled : underflowLoop stream.reads with ⟨_ | chunk, calls⟩
        · rw [filled] at taken
          cases taken
        · obtain ⟨nonempty, split⟩ := underflowLoop_spec filled
          obtain ⟨first, rest, rfl⟩ := List.exists_cons_of_ne_nil nonempty
          rw [filled] at taken arriving
          cases taken
          exact ⟨rfl, split.symm, fun _ => arriving⟩
      · cases taken

theorem sbumpc_none (taken : stream.sbumpc = (none, next)) :
    next.remaining.length ≤ stream.remaining.length ∧
      (stream.state = .connected → stream.input = []) := by
  rw [sbumpc] at taken
  rw [remaining, remaining, input]
  cases area : stream.getArea with
  | cons first rest =>
      rw [area] at taken
      cases taken
  | nil =>
      rw [area] at taken
      dsimp only at taken
      rw [underflow, area] at taken
      split_ifs at taken with connected
      · have arriving := underflowLoop_arrives stream.reads
        rcases filled : underflowLoop stream.reads with ⟨_ | chunk, calls⟩
        · rw [filled] at taken arriving
          cases taken
          exact ⟨underflowLoop_length filled, fun _ => arriving⟩
        · obtain ⟨nonempty, -⟩ := underflowLoop_spec filled
          obtain ⟨first, rest, rfl⟩ := List.exists_cons_of_ne_nil nonempty
          rw [filled] at taken
          cases taken
      · cases taken
        rw [area]
        exact ⟨Nat.le_refl _, fun is => absurd is connected⟩

theorem get_some {byte : UInt8} (taken : stream.get = (some byte, next)) :
    stream.good = true ∧ stream.Read next ∧ stream.remaining = byte :: next.remaining ∧
      (stream.state = .connected → stream.input = byte :: next.input) := by
  rw [get] at taken
  split_ifs at taken with good
  · rcases found : stream.sbumpc with ⟨_ | first, after⟩
    · rw [found] at taken
      cases taken
    · obtain ⟨read, remaining, input⟩ := sbumpc_some found
      rw [found] at taken
      obtain ⟨rfl, same⟩ : first = byte ∧ settle (true, after) = next := by simpa using taken
      have unsettled : next = after := by
        rw [← same, settle, Bool.and_true]
      subst unsettled
      exact ⟨good, read, remaining, input⟩
  · cases taken

theorem get_none (taken : stream.get = (none, next)) :
    next.remaining.length ≤ stream.remaining.length ∧
      (stream.good = true → stream.state = .connected → stream.input = []) := by
  rw [get] at taken
  split_ifs at taken with good
  · rcases found : stream.sbumpc with ⟨_ | first, after⟩
    · obtain ⟨shorter, input⟩ := sbumpc_none found
      rw [found] at taken
      cases taken
      exact ⟨shorter, fun _ => input⟩
    · rw [found] at taken
      cases taken
  · cases taken
    exact ⟨Nat.le_refl _, fun is => absurd is good⟩

/-! ## Lines -/

theorem getlineFrom_some {max : ℕ} {line reply : List UInt8}
    (taken : stream.getlineFrom max line = (some reply, next)) :
    stream.good = true ∧ stream.Read next ∧
      next.remaining.length < stream.remaining.length := by
  induction max generalizing stream line with
  | zero => cases taken
  | succ max ih =>
      rw [getlineFrom] at taken
      rcases found : stream.get with ⟨_ | ch, after⟩
      · rw [found] at taken
        cases taken
      · obtain ⟨good, read, behind, -⟩ := get_some found
        have shorter : after.remaining.length < stream.remaining.length := by
          rw [behind]
          exact Nat.lt_succ_self _
        rw [found] at taken
        dsimp only at taken
        split_ifs at taken
        · obtain ⟨-, more, later⟩ := ih taken
          exact ⟨good, read.trans more, Nat.lt_trans later shorter⟩
        · cases taken
          exact ⟨good, read, shorter⟩
        · obtain ⟨-, more, later⟩ := ih taken
          exact ⟨good, read.trans more, Nat.lt_trans later shorter⟩

theorem getlineFrom_length (max : ℕ) (line : List UInt8) (stream : SocketStream) :
    (stream.getlineFrom max line).2.remaining.length ≤ stream.remaining.length := by
  induction max generalizing stream line with
  | zero => exact Nat.le_refl _
  | succ max ih =>
      rw [getlineFrom]
      rcases found : stream.get with ⟨_ | ch, after⟩
      · exact (get_none found).1
      · obtain ⟨-, -, behind, -⟩ := get_some found
        have shorter : after.remaining.length ≤ stream.remaining.length := by
          rw [behind]
          exact Nat.le_succ _
        dsimp only
        split_ifs
        · exact Nat.le_trans (ih _ _) shorter
        · exact shorter
        · exact Nat.le_trans (ih _ _) shorter

/-- A line is the one that `join::getline` takes from the bytes that the stream reads. -/
theorem getlineFrom_input (max : ℕ) (line : List UInt8) (good : stream.good = true)
    (connected : stream.state = .connected) :
    (stream.getlineFrom max line).1 = (Join.getlineFrom max line stream.input).1 := by
  induction max generalizing stream line with
  | zero => rfl
  | succ max ih =>
      rw [getlineFrom]
      rcases found : stream.get with ⟨_ | ch, after⟩
      · rw [(get_none found).2 good connected]
        rfl
      · obtain ⟨-, read, -, behind⟩ := get_some found
        have same : after.good = true ∧ after.state = .connected := by
          rw [read]
          exact ⟨good, connected⟩
        rw [behind connected, Join.getlineFrom]
        dsimp only
        split_ifs
        · exact ih _ same.1 same.2
        · rfl
        · exact ih _ same.1 same.2

/-! ## What is written -/

/-- A stream after some writes, whether they have succeeded or not. -/
def Written (before after : SocketStream) : Prop :=
  after.getArea = before.getArea ∧ after.reads = before.reads

theorem Written.refl (stream : SocketStream) : stream.Written stream := ⟨rfl, rfl⟩

theorem Written.trans {before between after : SocketStream} (first : before.Written between)
    (second : between.Written after) : before.Written after :=
  ⟨second.1.trans first.1, second.2.trans first.2⟩

theorem sendPending_written (stream : SocketStream) : stream.Written stream.sendPending.2 := by
  rw [sendPending]
  rcases writeExactly stream.writes stream.putArea with ⟨_ | _, sent, calls⟩
  · exact ⟨rfl, rfl⟩
  · exact ⟨rfl, rfl⟩

theorem overflow_written (c : Option UInt8) (stream : SocketStream) :
    stream.Written (stream.overflow c).2 := by
  rcases overflow_cases c stream with ⟨-, result⟩ | ⟨ready, rfl, -, kept⟩
  · rw [result]
    exact .refl stream
  · have sent := sendPending_written { stream with hasPutArea := true }
    rcases kept with ⟨-, result⟩ | ⟨-, result⟩ | ⟨-, result⟩
    · rw [result]
      exact sent
    · rw [result]
      exact sent
    · rw [result]
      exact ⟨rfl, rfl⟩

theorem sputn_written (data : List UInt8) (stream : SocketStream) :
    stream.Written (stream.sputn data).2 := by
  induction data generalizing stream with
  | nil => exact .refl stream
  | cons byte data ih =>
      have first : stream.Written (stream.sputc byte).2 := by
        rw [sputc]
        split_ifs
        · exact ⟨rfl, rfl⟩
        · exact overflow_written _ _
      rw [sputn]
      rcases put : stream.sputc byte with ⟨_ | _, after⟩
      · rw [put] at first
        exact first
      · rw [put] at first
        exact first.trans (ih after)

theorem write_written (data : List UInt8) (stream : SocketStream) :
    stream.Written (stream.write data).2 := by
  rw [write]
  split_ifs
  · exact sputn_written data stream
  · exact .refl stream

theorem flush_written (stream : SocketStream) : stream.Written stream.flush := by
  rw [flush]
  split_ifs
  · exact overflow_written none stream
  · exact .refl stream

theorem Written.remaining_eq (written : stream.Written next) :
    next.remaining = stream.remaining := by
  rw [remaining, written.1, written.2]
  rfl

theorem Written.input_eq (written : stream.Written next) : next.input = stream.input := by
  rw [input, written.1, written.2]
  rfl

/-- A stream whose socket is connected and that has nothing to send. -/
structure Settled (stream : SocketStream) : Prop where
  connected : stream.state = .connected
  good : stream.good = true
  ready : stream.hasPutArea = true
  sent : stream.putArea = []

theorem sendPending_sends (sends : stream.sendPending.1 = true) : ∃ sent calls,
    stream.sendPending.2 =
      { stream with wire := stream.wire ++ sent, writes := calls, putArea := [] } := by
  rw [sendPending] at sends ⊢
  rcases written : writeExactly stream.writes stream.putArea with ⟨_ | _, sent, calls⟩
  · rw [written] at sends
    cases sends
  · exact ⟨sent, calls, rfl⟩

/-- A flush that succeeds sends the put area. -/
theorem flush_settled (good : stream.flush.good = true) : stream.flush.Settled := by
  rw [flush] at good ⊢
  split_ifs at good ⊢ with before
  · rcases overflow_cases none stream with ⟨-, result⟩ | ⟨ready, rfl, connected, kept⟩
    · rw [result, settle, Bool.and_false] at good
      cases good
    · rcases kept with ⟨fails, result⟩ | ⟨sends, result⟩ | ⟨other, -⟩
      · rw [result, settle, fails, Bool.and_false] at good
        cases good
      · obtain ⟨sent, calls, flushed⟩ := sendPending_sends sends
        rw [result, flushed] at good ⊢
        exact ⟨connected, good, rfl, rfl⟩
      · exact absurd rfl other
  · exact absurd good before

theorem Settled.read (settled : stream.Settled) (read : stream.Read next) : next.Settled := by
  rw [read]
  exact ⟨settled.connected, settled.good, settled.ready, settled.sent⟩

/-- A stream that has nothing to send has sent what was written. -/
theorem Settled.posts (settled : stream.Settled) : stream.Posts stream.wire := by
  refine ⟨List.prefix_rfl, fun _ => ?_⟩
  rw [settled.sent, List.append_nil]

theorem Posts.write {written : List UInt8} (posts : stream.Posts written) (data : List UInt8) :
    (stream.write data).2.Posts (written ++ data.take (stream.write data).1) := by
  rw [SocketStream.write]
  split_ifs
  · exact (posts.sputn data).settle
  · rw [List.take_zero, List.append_nil]
    exact posts

theorem Posts.flush {written : List UInt8} (posts : stream.Posts written) :
    stream.flush.Posts written := by
  have flushed := posts.overflow none
  rw [Option.toList_none, List.append_nil, ite_self] at flushed
  rw [SocketStream.flush]
  split_ifs
  · exact flushed.settle
  · exact posts

/-- A stream that is good behind a write has taken all of it. -/
theorem write_all {data : List UInt8} (good : (stream.write data).2.good = true) :
    stream.good = true ∧ (stream.write data).1 = data.length := by
  rw [write] at good ⊢
  split_ifs at good ⊢ with before
  · change ((stream.sputn data).2.good && decide ((stream.sputn data).1 = data.length)) = true
      at good
    rw [Bool.and_eq_true, decide_eq_true_eq] at good
    exact ⟨before, good.2⟩
  · exact absurd good before

theorem good_of_flush (good : stream.flush.good = true) : stream.good = true := by
  rw [flush] at good
  split_ifs at good with before
  · exact before
  · exact good

/-- What has been written to a settled stream is on the socket once it has been flushed. -/
theorem Settled.wire_write_flush (settled : stream.Settled) {data : List UInt8}
    (good : (stream.write data).2.flush.good = true) :
    (stream.write data).2.flush.wire = stream.wire ++ data := by
  have posts := (settled.posts.write data).flush
  rw [(write_all (good_of_flush good)).2, List.take_length] at posts
  have pending := posts.pending (flush_settled good).connected
  rwa [(flush_settled good).sent, List.append_nil] at pending

/-! ## A peer that takes everything -/

/-- The peer takes what is written, at least as many times. -/
structure Obliging (times : ℕ) (stream : SocketStream) : Prop where
  connected : stream.state = .connected
  good : stream.good = true
  fits : stream.putArea.length ≤ bufsize
  takes : ∃ more, times ≤ more ∧ stream.writes = List.replicate more (.accepted bufsize)

variable {times : ℕ}

theorem Obliging.sendPending (obliging : stream.Obliging (times + 1)) :
    stream.sendPending.1 = true ∧ stream.sendPending.2.Obliging times ∧
      stream.sendPending.2.putArea = [] := by
  obtain ⟨more, enough, writes⟩ := obliging.takes
  obtain ⟨more, rfl⟩ := Nat.exists_eq_add_of_le' (Nat.one_le_of_lt enough)
  rw [SocketStream.sendPending, writes]
  cases area : stream.putArea with
  | nil =>
      exact ⟨rfl, ⟨obliging.connected, obliging.good, Nat.zero_le _, _, by omega, rfl⟩, rfl⟩
  | cons byte data =>
      have fits := obliging.fits
      rw [area] at fits
      rw [List.replicate_succ, writeExactly, List.drop_eq_nil_of_le fits, writeExactly]
      exact ⟨rfl, ⟨obliging.connected, obliging.good, Nat.zero_le _, more, by omega, rfl⟩, rfl⟩

theorem Obliging.overflow (obliging : stream.Obliging (times + 1)) (c : Option UInt8) :
    (stream.overflow c).1 = true ∧ (stream.overflow c).2.Obliging times := by
  obtain ⟨connected, good, fits, more, enough, writes⟩ := obliging
  have ready : ({ stream with hasPutArea := true } : SocketStream).Obliging (times + 1) :=
    ⟨connected, good, fits, more, enough, writes⟩
  obtain ⟨sends, ⟨connected', good', -, takes⟩, empty⟩ := ready.sendPending
  rw [SocketStream.overflow, if_pos connected]
  dsimp only
  split_ifs with full
  · rcases flushed : SocketStream.sendPending { stream with hasPutArea := true } with ⟨_ | _, after⟩
    · rw [flushed] at sends
      cases sends
    · rw [flushed] at connected' good' takes empty
      refine ⟨rfl, connected', good', ?_, takes⟩
      change (after.putArea ++ c.toList).length ≤ bufsize
      rw [empty]
      cases c with
      | none => exact Nat.zero_le _
      | some byte => exact Nat.succ_le_succ (Nat.zero_le _)
  · refine ⟨rfl, connected, good, ?_, more, by omega, writes⟩
    obtain ⟨short, some⟩ := not_or.mp full
    obtain ⟨byte, rfl⟩ := Option.ne_none_iff_exists'.mp some
    rw [store]
    simp only [Option.toList_some, List.length_append, List.length_singleton]
    omega

theorem Obliging.sputc (obliging : stream.Obliging (times + 1)) (byte : UInt8) :
    (stream.sputc byte).1 = true ∧ (stream.sputc byte).2.Obliging times := by
  rw [SocketStream.sputc]
  split_ifs with room
  · obtain ⟨connected, good, -, more, enough, writes⟩ := obliging
    refine ⟨rfl, connected, good, ?_, more, by omega, writes⟩
    rw [store]
    simp only [Option.toList_some, List.length_append, List.length_singleton]
    exact room.2
  · exact obliging.overflow (some byte)

theorem Obliging.sputn (data : List UInt8) (obliging : stream.Obliging (times + data.length)) :
    (stream.sputn data).1 = data.length ∧ (stream.sputn data).2.Obliging times := by
  induction data generalizing stream with
  | nil => exact ⟨rfl, obliging⟩
  | cons byte data ih =>
      obtain ⟨puts, rest⟩ := Obliging.sputc obliging byte
      rw [SocketStream.sputn]
      rcases put : stream.sputc byte with ⟨_ | _, after⟩
      · rw [put] at puts
        cases puts
      · rw [put] at rest
        obtain ⟨count, last⟩ := ih rest
        exact ⟨congrArg (· + 1) count, last⟩

theorem Obliging.write (data : List UInt8) (obliging : stream.Obliging (times + data.length)) :
    (stream.write data).2.Obliging times := by
  obtain ⟨count, after⟩ := obliging.sputn data
  rw [SocketStream.write, if_pos obliging.good]
  dsimp only
  rw [count, settle]
  refine ⟨after.connected, ?_, after.fits, after.takes⟩
  simpa using after.good

theorem Obliging.flush (obliging : stream.Obliging (times + 1)) :
    stream.flush.Obliging times := by
  obtain ⟨flushes, after⟩ := obliging.overflow none
  rw [SocketStream.flush, if_pos obliging.good, settle]
  refine ⟨after.connected, ?_, after.fits, after.takes⟩
  rw [flushes]
  simpa using after.good

end SocketStream

end Join
