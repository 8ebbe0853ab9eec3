import Join.Library.PutArea

/-!
# Digest streams

`Digest`: an output stream whose buffer hands blocks of 256 bytes to a message digest. The digest
is given from outside, as a context that absorbs byte after byte.
-/

set_option autoImplicit false

namespace Join

open Library

/-- A message digest: its contexts, what a byte does to one, and the digest that a context
gives, which is not empty. -/
structure MessageDigest (Ctx : Type) where
  init : Ctx
  absorb : Ctx → UInt8 → Ctx
  final : Ctx → List UInt8
  final_ne_nil : ∀ ctx, final ctx ≠ []

namespace MessageDigest

variable {Ctx : Type} (md : MessageDigest Ctx)

/-- `EVP_DigestUpdate`. -/
def update (ctx : Ctx) (data : List UInt8) : Ctx := data.foldl md.absorb ctx

/-- The digest of a string of bytes. -/
def digest (data : List UInt8) : List UInt8 := md.final (md.update md.init data)

theorem update_append (ctx : Ctx) (first second : List UInt8) :
    md.update ctx (first ++ second) = md.update (md.update ctx first) second :=
  List.foldl_append

/-! ## The stream -/

/-- The context of a `Digestbuf`, which is created when there is none. -/
def start (ctx : Option Ctx) : Option Ctx := some (ctx.getD md.init)

/-- The put area holds something. -/
theorem area_pos : 0 < 256 := Nat.zero_lt_succ 255

/-- `Digestbuf`. -/
def digestbuf : Sink (Option Ctx) where
  capacity := 256
  capacity_pos := area_pos
  prepare := md.start
  update ctx block := (some (md.update (ctx.getD md.init) block), .taken)
  prepare_prepare _ := rfl
  prepare_update _ _ _ := rfl

/-- The end of `Digestbuf::finalize`. -/
def finish (ctx : Option Ctx) : Option Ctx × Except Outcome (List UInt8) :=
  (none, .ok (md.final (ctx.getD md.init)))

/-- A new `Digest`. -/
def fresh : Ostream (Option Ctx) := ⟨⟨none, none⟩, true⟩

/-- `Digest::finalize`. -/
def finalize (stream : Ostream (Option Ctx)) :
    Ostream (Option Ctx) × Except Outcome (List UInt8) :=
  md.digestbuf.result (fun _ => none) md.finish stream

/-- The digests of a stream that is used several times. -/
def results (stream : Ostream (Option Ctx)) (uses : List (List Write)) :
    List (Except Outcome (List UInt8)) :=
  md.digestbuf.results (fun _ => none) md.finish stream uses

/-! ## Every division into writes -/

/-- A stream before its first use, and after each. -/
structure Ready (stream : Ostream (Option Ctx)) : Prop where
  good : stream.good = true
  ctx : stream.buf.sink = none
  area : stream.buf.area.getD [] = []

theorem ready_fresh : Ready (fresh : Ostream (Option Ctx)) := ⟨rfl, rfl, rfl⟩

/-- One use: the digest of everything that was written, and a stream that is ready again. -/
theorem finalize_of_ready {stream : Ostream (Option Ctx)} (ready : Ready stream)
    (writes : List Write) :
    (md.finalize (md.digestbuf.emits stream writes)).2 = .ok (md.digest (written writes)) ∧
      Ready (md.finalize (md.digestbuf.emits stream writes)).1 := by
  have begins : md.digestbuf.Stands stream.buf (some md.init, []) :=
    ⟨by rw [ready.ctx]; rfl, ready.area⟩
  have step : ∀ front block back (ctx : Option Ctx), written writes = front ++ block ++ back →
      block ≠ [] → (back ≠ [] → block.length = md.digestbuf.capacity) →
        ctx = some (md.update md.init front) →
          (∃ after, md.digestbuf.update ctx block = (after, .taken) ∧
              after = some (md.update md.init (front ++ block))) ∨
            ∃ outcome, False ∧ md.digestbuf.update ctx block = (ctx, outcome) := by
    rintro front block back ctx - - - rfl
    exact Or.inl ⟨_, rfl, by rw [update_append]; rfl⟩
  obtain ⟨stands, kept⟩ := Sink.emits_stands writes ready.good begins
  obtain ⟨state, outcome, filled, ⟨rfl, after, call, rfl⟩ | ⟨-, impossible, -⟩⟩ :=
    Sink.fill_invariant step id (written writes) [] [] (some md.init) rfl (Nat.zero_le _) rfl
  · rw [filled] at stands kept
    have given := Sink.result_filled
      (Sink.collect_taken (fun _ => none) md.finish stands call) (md.final_ne_nil _)
    rw [finalize, given]
    exact ⟨rfl, kept.mpr rfl, rfl, rfl⟩
  · exact absurd impossible id

/-- A stream that is used several times gives the digest of what was written in each use,
whatever the writes were. -/
theorem results_eq (uses : List (List Write)) :
    md.results fresh uses = uses.map fun writes => .ok (md.digest (written writes)) := by
  have all : ∀ stream, Ready stream →
      md.results stream uses = uses.map fun writes => .ok (md.digest (written writes)) := by
    induction uses with
    | nil => exact fun _ _ => rfl
    | cons writes rest ih =>
        intro stream ready
        obtain ⟨given, again⟩ := md.finalize_of_ready ready writes
        rw [List.map_cons, ← given, ← ih _ again]
        rfl
  exact all fresh ready_fresh

end MessageDigest

end Join
