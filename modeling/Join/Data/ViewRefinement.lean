import Join.Data.View

/-!
# The views refine the plain view

A view represents a plain view when it has the same bytes still to deliver. Each
of the three views keeps this relation under every primitive and returns what
the plain view returns, although `StringView` computes with offsets, a seekable
stream view rewinds by seeking and the other one replays a copy.

A mark remembers the bytes extracted since it was set: as the stretch of memory
behind an offset, as a stream position, or as the copy itself.

The skippers of comments agree up to one detail that is not observable: on a
malformed comment they stop at different places, and the call fails.
-/

set_option autoImplicit false

namespace Join

/-- A view whose primitives agree with those of the plain view it represents. -/
class LawfulView (V : Type) [View V] where
  Represents : V → PlainView → Prop
  /-- The bytes extracted since the mark was set. -/
  Remembers : View.Mark V → V → Bytes → Prop
  peek : ∀ {view plain}, Represents view plain → View.peek view = View.peek plain
  get : ∀ {view plain}, Represents view plain →
    (View.get view).1 = (View.get plain).1 ∧ Represents (View.get view).2 (View.get plain).2
  getIf : ∀ {view plain} (expected : UInt8), Represents view plain →
    (View.getIf expected view).1 = (View.getIf expected plain).1 ∧
      Represents (View.getIf expected view).2 (View.getIf expected plain).2
  getIfNoCase : ∀ {view plain} (expected : UInt8), Represents view plain →
    (View.getIfNoCase expected view).1 = (View.getIfNoCase expected plain).1 ∧
      Represents (View.getIfNoCase expected view).2 (View.getIfNoCase expected plain).2
  read : ∀ {view plain} (count : ℕ), Represents view plain →
    (View.read count view).1 = (View.read count plain).1 ∧
      Represents (View.read count view).2 (View.read count plain).2
  readUntilEscaped : ∀ {view plain}, Represents view plain →
    (View.readUntilEscaped view).1 = (View.readUntilEscaped plain).1 ∧
      Represents (View.readUntilEscaped view).2 (View.readUntilEscaped plain).2
  skipWhitespaces : ∀ {view plain}, Represents view plain →
    Represents (View.skipWhitespaces view) (View.skipWhitespaces plain)
  skipWhitespacesAndComments : ∀ {view plain}, Represents view plain →
    (View.skipWhitespacesAndComments view).1 = (View.skipWhitespacesAndComments plain).1 ∧
      ((View.skipWhitespacesAndComments view).1 = true →
        Represents (View.skipWhitespacesAndComments view).2
          (View.skipWhitespacesAndComments plain).2)
  mark : ∀ {view plain}, Represents view plain → Remembers (View.mark view) view []
  bufferedGet : ∀ {view plain mark kept}, Represents view plain → Remembers mark view kept →
    (View.bufferedGet (mark, view)).1 = (View.bufferedGet (kept, plain)).1 ∧
      Represents (View.bufferedGet (mark, view)).2.2 (View.bufferedGet (kept, plain)).2.2 ∧
      Remembers (View.bufferedGet (mark, view)).2.1 (View.bufferedGet (mark, view)).2.2
        (View.bufferedGet (kept, plain)).2.1
  bufferedGetIf : ∀ {view plain mark kept} (expected : UInt8), Represents view plain →
    Remembers mark view kept →
    (View.bufferedGetIf expected (mark, view)).1 = (View.bufferedGetIf expected (kept, plain)).1 ∧
      Represents (View.bufferedGetIf expected (mark, view)).2.2
        (View.bufferedGetIf expected (kept, plain)).2.2 ∧
      Remembers (View.bufferedGetIf expected (mark, view)).2.1
        (View.bufferedGetIf expected (mark, view)).2.2
        (View.bufferedGetIf expected (kept, plain)).2.1
  snapshot : ∀ {view plain mark kept}, Represents view plain → Remembers mark view kept →
    (View.snapshot (mark, view)).1 = kept ∧ Represents (View.snapshot (mark, view)).2 plain

/-! ## Streams -/

namespace StreamBuf

theorem bumpWhile_eq (test : UInt8 → Bool) (before after : Bytes) :
    bumpWhile test before after =
      (after.takeWhile test, ⟨before ++ after.takeWhile test, after.dropWhile test⟩) := by
  induction after generalizing before with
  | nil => simp [bumpWhile]
  | cons byte rest ih =>
      by_cases holds : test byte = true
      · simp [bumpWhile, holds, ih]
      · simp [bumpWhile, holds]

mutual
/-- The loops of the stream view stop where those of the plain view stop. -/
theorem skipBetween_eq : ∀ (before after : Bytes),
    (skipBetween before after).1 = (PlainView.skipBetween after).isSome ∧
      ∀ rest, PlainView.skipBetween after = some rest → (skipBetween before after).2.after = rest
  | before, [] => by simp [skipBetween, PlainView.skipBetween]
  | before, byte :: rest => by
      unfold skipBetween PlainView.skipBetween
      by_cases white : whitespaceLookup byte = true
      · simp only [white, if_true]
        exact skipBetween_eq (before ++ [byte]) rest
      · rw [if_neg white, if_neg white]
        by_cases slash : byte = 0x2F
        · rw [if_neg (not_not.mpr slash), if_neg (not_not.mpr slash)]
          cases rest with
          | nil => simp
          | cons next rest =>
              by_cases star : next = 0x2A
              · simp only [if_pos star]
                exact skipBlock_eq _ rest
              · by_cases line : next = 0x2F
                · simp only [if_neg star, if_pos line]
                  exact skipLine_eq _ rest
                · simp [star, line]
        · simp [slash]

theorem skipBlock_eq : ∀ (before after : Bytes),
    (skipBlock before after).1 = (PlainView.skipBlock after).isSome ∧
      ∀ rest, PlainView.skipBlock after = some rest → (skipBlock before after).2.after = rest
  | before, [] => by simp [skipBlock, PlainView.skipBlock]
  | before, [byte] => by simp [skipBlock, PlainView.skipBlock]
  | before, byte :: next :: rest => by
      unfold skipBlock PlainView.skipBlock
      by_cases closes : byte = 0x2A ∧ next = 0x2F
      · simp only [if_pos closes]
        exact skipBetween_eq _ rest
      · simp only [if_neg closes]
        exact skipBlock_eq _ (next :: rest)

theorem skipLine_eq : ∀ (before after : Bytes),
    (skipLine before after).1 = (PlainView.skipLine after).isSome ∧
      ∀ rest, PlainView.skipLine after = some rest → (skipLine before after).2.after = rest
  | before, [] => by simp [skipLine, PlainView.skipLine]
  | before, byte :: rest => by
      unfold skipLine PlainView.skipLine
      by_cases newline : byte = 0x0A
      · simp only [if_pos newline]
        exact skipBetween_eq _ rest
      · simp only [if_neg newline]
        exact skipLine_eq _ rest
end

variable {buffer : StreamBuf} {plain : PlainView}

theorem sbumpc_agrees (same : buffer.after = plain.rest) :
    buffer.sbumpc.1 = plain.get.1 ∧ buffer.sbumpc.2.after = plain.get.2.rest := by
  obtain ⟨before, after⟩ := buffer
  obtain ⟨rest⟩ := plain
  obtain rfl : after = rest := same
  cases after <;> exact ⟨rfl, rfl⟩

theorem getIf_agrees (expected : UInt8) (same : buffer.after = plain.rest) :
    (buffer.getIf expected).1 = (plain.getIf expected).1 ∧
      (buffer.getIf expected).2.after = (plain.getIf expected).2.rest := by
  have bump := (sbumpc_agrees same).2
  simp only [getIf, sgetc, PlainView.getIf, same]
  split
  · exact ⟨rfl, bump⟩
  · exact ⟨rfl, same⟩

theorem getIfNoCase_agrees (expected : UInt8) (same : buffer.after = plain.rest) :
    (buffer.getIfNoCase expected).1 = (plain.getIfNoCase expected).1 ∧
      (buffer.getIfNoCase expected).2.after = (plain.getIfNoCase expected).2.rest := by
  obtain ⟨before, after⟩ := buffer
  obtain ⟨rest⟩ := plain
  obtain rfl : after = rest := same
  cases after with
  | nil => exact ⟨rfl, rfl⟩
  | cons byte rest =>
      by_cases matched : byte ||| 32 = expected ||| 32 <;>
        simp [getIfNoCase, PlainView.getIfNoCase, sgetc, sbumpc, matched]

theorem skipWhitespacesAndComments_agrees (same : buffer.after = plain.rest) :
    buffer.skipWhitespacesAndComments.1 = plain.skipWhitespacesAndComments.1 ∧
      (buffer.skipWhitespacesAndComments.1 = true →
        buffer.skipWhitespacesAndComments.2.after = plain.skipWhitespacesAndComments.2.rest) := by
  obtain ⟨flag, stops⟩ := skipBetween_eq buffer.before buffer.after
  simp only [skipWhitespacesAndComments, PlainView.skipWhitespacesAndComments, flag, ← same]
  cases skipped : PlainView.skipBetween buffer.after with
  | none => simp
  | some rest => simpa using stops rest skipped

end StreamBuf

instance : LawfulView SeekableStreamView where
  Represents view plain := view.buffer.after = plain.rest
  Remembers position view kept :=
    ∃ earlier, view.buffer.before = earlier ++ kept ∧ earlier.length = position
  peek := congrArg List.head?
  get := StreamBuf.sbumpc_agrees
  getIf := StreamBuf.getIf_agrees
  getIfNoCase := StreamBuf.getIfNoCase_agrees
  read count same := ⟨congrArg (List.take count) same, congrArg (List.drop count) same⟩
  readUntilEscaped := by
    intro view plain same
    simp only [View.readUntilEscaped, StreamBuf.readUntilEscaped, StreamBuf.bumpWhile_eq, same,
      and_self]
  skipWhitespaces := by
    intro view plain same
    simp only [View.skipWhitespaces, StreamBuf.skipWhitespaces, StreamBuf.bumpWhile_eq, same]
  skipWhitespacesAndComments := StreamBuf.skipWhitespacesAndComments_agrees
  mark := fun {view _} _ => ⟨view.buffer.before, (List.append_nil _).symm, rfl⟩
  bufferedGet := by
    rintro ⟨⟨before, after⟩⟩ plain position kept same ⟨earlier, split, length⟩
    refine ⟨(StreamBuf.sbumpc_agrees same).1, (StreamBuf.sbumpc_agrees same).2, earlier, ?_, length⟩
    obtain rfl : before = earlier ++ kept := split
    have rest : plain.rest = after := same.symm
    cases after <;> simp [View.bufferedGet, StreamBuf.sbumpc, rest]
  bufferedGetIf := by
    rintro ⟨⟨before, after⟩⟩ plain position kept expected same ⟨earlier, split, length⟩
    obtain rfl : before = earlier ++ kept := split
    have rest : plain.rest = after := same.symm
    simp only [View.bufferedGetIf, StreamBuf.getIf, StreamBuf.sgetc, rest]
    cases after with
    | nil => exact ⟨rfl, rest.symm, earlier, rfl, length⟩
    | cons byte after =>
        by_cases matched : byte = expected
        · subst matched
          simp only [List.head?_cons, if_true]
          exact ⟨trivial, rfl, earlier, by simp [StreamBuf.sbumpc], length⟩
        · simp only [List.head?_cons, Option.some.injEq, matched, if_false]
          exact ⟨trivial, rest.symm, earlier, rfl, length⟩
  snapshot := by
    rintro ⟨⟨before, after⟩⟩ plain position kept same ⟨earlier, split, length⟩
    obtain rfl : before = earlier ++ kept := split
    obtain rfl : earlier.length = position := length
    have rest : plain.rest = after := same.symm
    simp [View.snapshot, StreamBuf.pubseekpos, StreamBuf.sgetn, StreamBuf.pubtell, rest]

instance : LawfulView StreamView where
  Represents view plain := view.buffer.after = plain.rest
  Remembers copy _ kept := copy = kept
  peek := congrArg List.head?
  get := StreamBuf.sbumpc_agrees
  getIf := StreamBuf.getIf_agrees
  getIfNoCase := StreamBuf.getIfNoCase_agrees
  read count same := ⟨congrArg (List.take count) same, congrArg (List.drop count) same⟩
  readUntilEscaped := by
    intro view plain same
    simp only [View.readUntilEscaped, StreamBuf.readUntilEscaped, StreamBuf.bumpWhile_eq, same,
      and_self]
  skipWhitespaces := by
    intro view plain same
    simp only [View.skipWhitespaces, StreamBuf.skipWhitespaces, StreamBuf.bumpWhile_eq, same]
  skipWhitespacesAndComments := StreamBuf.skipWhitespacesAndComments_agrees
  mark := fun _ => rfl
  bufferedGet := by
    rintro ⟨⟨before, after⟩⟩ ⟨rest⟩ copy kept same rfl
    obtain rfl : after = rest := same
    cases after <;> simp [View.bufferedGet, StreamBuf.sbumpc]
  bufferedGetIf := by
    rintro ⟨⟨before, after⟩⟩ ⟨rest⟩ copy kept expected same rfl
    obtain rfl : after = rest := same
    cases after with
    | nil => exact ⟨rfl, rfl, rfl⟩
    | cons byte after =>
        by_cases matched : byte = expected <;>
          simp [View.bufferedGetIf, StreamBuf.sgetc, StreamBuf.sbumpc, matched]
  snapshot same remembered := ⟨remembered, same⟩

/-! ## Strings -/

namespace StringView

/-- A scan stops at the first byte that fails the test. -/
theorem scan_eq (test : UInt8 → Bool) (data : Bytes) (left cur : ℕ)
    (enough : data.length - cur ≤ left) :
    scan test data left cur = cur + ((data.drop cur).takeWhile test).length := by
  induction left generalizing cur with
  | zero =>
      have past : data.drop cur = [] := List.drop_eq_nil_of_le (by omega)
      simp [scan, past]
  | succ left ih =>
      cases found : data[cur]? with
      | none =>
          have past : data.drop cur = [] :=
            List.drop_eq_nil_of_le (List.getElem?_eq_none_iff.mp found)
          simp [scan, found, past]
      | some byte =>
          obtain ⟨inside, rfl⟩ := List.getElem?_eq_some_iff.mp found
          rw [List.drop_eq_getElem_cons inside]
          by_cases holds : test data[cur] = true
          · rw [scan, found]
            simp only [holds, if_true, List.takeWhile_cons_of_pos, List.length_cons]
            rw [ih (cur + 1) (by omega)]
            omega
          · rw [scan, found, List.takeWhile_cons_of_neg holds]
            simp [holds]

theorem drop_scan (test : UInt8 → Bool) (data : Bytes) (cur : ℕ) :
    data.drop (scan test data (data.length - cur) cur) = (data.drop cur).dropWhile test := by
  rw [scan_eq test data _ cur le_rfl, ← List.drop_drop]
  calc (data.drop cur).drop ((data.drop cur).takeWhile test).length
      = ((data.drop cur).takeWhile test ++ (data.drop cur).dropWhile test).drop
          ((data.drop cur).takeWhile test).length := by rw [List.takeWhile_append_dropWhile]
    _ = (data.drop cur).dropWhile test := List.drop_left

theorem scan_le (test : UInt8 → Bool) (data : Bytes) (cur : ℕ) (inside : cur ≤ data.length) :
    cur ≤ scan test data (data.length - cur) cur ∧
      scan test data (data.length - cur) cur ≤ data.length := by
  rw [scan_eq test data _ cur le_rfl]
  have bound := (List.takeWhile_sublist (l := data.drop cur) test).length_le
  rw [List.length_drop] at bound
  omega

/-- The search for the end of a block comment agrees with the plain view's. -/
theorem closeComment_eq (data : Bytes) (left cur : ℕ) (enough : data.length - cur ≤ left) :
    match closeComment data left cur with
    | none => PlainView.skipBlock (data.drop cur) = none
    | some closed => cur + 2 ≤ closed ∧ closed ≤ data.length ∧
        PlainView.skipBlock (data.drop cur) = PlainView.skipBetween (data.drop closed) := by
  induction left generalizing cur with
  | zero =>
      rw [closeComment, List.drop_eq_nil_of_le (by omega)]
      rfl
  | succ left ih =>
      rw [closeComment]
      by_cases inside : cur < data.length
      · have here : data[cur]? = some data[cur] := List.getElem?_eq_getElem inside
        by_cases further : cur + 1 < data.length
        · have next : data[cur + 1]? = some data[cur + 1] := List.getElem?_eq_getElem further
          have step := ih (cur + 1) (by omega)
          rw [List.drop_eq_getElem_cons inside, List.drop_eq_getElem_cons further,
            PlainView.skipBlock, ← List.drop_eq_getElem_cons further]
          simp only [here, next, Option.some.injEq]
          by_cases closes : data[cur] = 0x2A ∧ data[cur + 1] = 0x2F
          · simp only [if_pos closes]
            exact ⟨le_rfl, by omega, trivial⟩
          · simp only [if_neg closes]
            cases found : closeComment data left (cur + 1) with
            | none => simpa only [found] using step
            | some closed =>
                simp only [found] at step
                exact ⟨by omega, step.2.1, step.2.2⟩
        · have next : data[cur + 1]? = none := List.getElem?_eq_none_iff.mpr (by omega)
          have step := ih (cur + 1) (by omega)
          have past : data.drop (cur + 1) = [] := List.drop_eq_nil_of_le (by omega)
          have last : data.drop cur = [data[cur]] := by
            rw [List.drop_eq_getElem_cons inside, past]
          simp only [next, reduceCtorEq, and_false, if_false, last]
          cases found : closeComment data left (cur + 1) with
          | none => rfl
          | some closed =>
              simp only [found] at step
              omega
      · have here : data[cur]? = none := List.getElem?_eq_none_iff.mpr (by omega)
        have step := ih (cur + 1) (by omega)
        have past : data.drop cur = [] := List.drop_eq_nil_of_le (by omega)
        simp only [here, reduceCtorEq, false_and, if_false, past]
        cases found : closeComment data left (cur + 1) with
        | none => rfl
        | some closed =>
            simp only [found] at step
            omega

end StringView

namespace PlainView

/-- White space in front does not matter to the skipper. -/
theorem skipBetween_dropWhile (text : Bytes) :
    skipBetween (text.dropWhile whitespaceLookup) = skipBetween text := by
  induction text with
  | nil => rfl
  | cons byte rest ih =>
      by_cases white : whitespaceLookup byte = true
      · rw [List.dropWhile_cons_of_pos white, ih]
        conv_rhs => rw [skipBetween_cons, if_pos white]
      · rw [List.dropWhile_cons_of_neg white]

/-- A line comment ends in front of its line end. -/
theorem skipLine_eq (text : Bytes) :
    skipLine text = skipBetween (text.dropWhile fun byte => byte != 0x0A) := by
  induction text with
  | nil => rfl
  | cons byte rest ih =>
      by_cases newline : byte = 0x0A
      · subst newline
        simp [skipLine, skipBetween, whitespaceLookup]
      · rw [skipLine, if_neg newline, ih, List.dropWhile_cons_of_pos (by simpa using newline)]

end PlainView

namespace StringView

/-- The outer loop agrees with the plain view's skipper. -/
theorem skipComments_eq (data : Bytes) (rounds cur : ℕ) (inside : cur ≤ data.length)
    (enough : data.length - cur ≤ rounds) :
    match skipComments data rounds cur with
    | none => PlainView.skipBetween (data.drop cur) = none
    | some stop => stop ≤ data.length ∧
        PlainView.skipBetween (data.drop cur) = some (data.drop stop) := by
  induction rounds generalizing cur with
  | zero =>
      obtain rfl : cur = data.length := by omega
      simp [skipComments, PlainView.skipBetween]
  | succ rounds ih =>
      obtain ⟨forward, bound⟩ := scan_le whitespaceLookup data cur inside
      rw [skipComments, ← PlainView.skipBetween_dropWhile, ← drop_scan]
      have stopped : ∀ byte, data[scan whitespaceLookup data (data.length - cur) cur]? = some byte →
          whitespaceLookup byte = false := by
        intro byte found
        rw [← List.head?_drop, drop_scan] at found
        simpa [found] using List.head?_dropWhile_not whitespaceLookup (data.drop cur)
      generalize scan whitespaceLookup data (data.length - cur) cur = start at *
      by_cases more : start < data.length
      · have here : data[start]? = some data[start] := List.getElem?_eq_getElem more
        have white := stopped _ here
        rw [List.drop_eq_getElem_cons more, PlainView.skipBetween_cons]
        simp only [here, white, Bool.false_eq_true, if_false]
        by_cases slash : data[start] = 0x2F
        · simp only [slash, ne_eq, not_true_eq_false, if_false]
          by_cases further : start + 1 < data.length
          · have next : data[start + 1]? = some data[start + 1] :=
              List.getElem?_eq_getElem further
            rw [List.drop_eq_getElem_cons further]
            simp only [next]
            by_cases star : data[start + 1] = 0x2A
            · simp only [star, if_true]
              have closing := closeComment_eq data _ (start + 2) le_rfl
              cases found : closeComment data (data.length - (start + 2)) (start + 2) with
              | none => simpa only [found] using closing
              | some closed =>
                  simp only [found] at closing ⊢
                  rw [closing.2.2]
                  exact ih closed closing.2.1 (by omega)
            · by_cases line : data[start + 1] = 0x2F
              · simp only [line, if_neg (show ¬ ((0x2F : UInt8) = 0x2A) by decide), if_true]
                rw [PlainView.skipLine_eq, ← drop_scan]
                obtain ⟨onward, limit⟩ :=
                  scan_le (fun byte => byte != 0x0A) data (start + 2) (by omega)
                exact ih _ limit (by omega)
              · simp only [star, line, if_false]
          · have next : data[start + 1]? = none := List.getElem?_eq_none_iff.mpr (by omega)
            rw [List.drop_eq_nil_of_le (show data.length ≤ start + 1 by omega)]
            simp only [next]
        · simp only [slash, ne_eq, not_false_eq_true, if_true]
          exact ⟨bound, by rw [List.drop_eq_getElem_cons more]⟩
      · have here : data[start]? = none := List.getElem?_eq_none_iff.mpr (by omega)
        simp only [here, List.drop_eq_nil_of_le (show data.length ≤ start by omega)]
        exact ⟨bound, rfl⟩

/-- The view has the bytes of the plain view still to deliver. -/
structure Represents (view : StringView) (plain : PlainView) : Prop where
  inside : view.cur ≤ view.data.length
  rest : view.data.drop view.cur = plain.rest

theorem represents_ofBytes (bytes : Bytes) : Represents (ofBytes bytes) ⟨bytes⟩ :=
  ⟨Nat.zero_le _, rfl⟩

variable {view : StringView} {plain : PlainView}

theorem Represents.here (represents : Represents view plain) :
    view.data[view.cur]? = plain.rest.head? := by
  rw [← represents.rest, List.head?_drop]

/-- Moving past one byte. -/
theorem Represents.next {byte : UInt8} (represents : Represents view plain)
    (found : view.data[view.cur]? = some byte) :
    Represents { view with cur := view.cur + 1 } ⟨plain.rest.tail⟩ := by
  obtain ⟨inside, _⟩ := List.getElem?_eq_some_iff.mp found
  exact ⟨inside, by rw [← represents.rest, List.tail_drop]⟩

/-- The bytes since an offset. -/
structure Remembers (start : ℕ) (view : StringView) (kept : Bytes) : Prop where
  behind : start ≤ view.cur
  bytes : (view.data.drop start).take (view.cur - start) = kept

theorem Remembers.next {start : ℕ} {kept : Bytes} {byte : UInt8}
    (remembers : Remembers start view kept) (found : view.data[view.cur]? = some byte) :
    Remembers start { view with cur := view.cur + 1 } (kept ++ [byte]) := by
  obtain ⟨behind, bytes⟩ := remembers
  refine ⟨by simp only; omega, ?_⟩
  have offset : start + (view.cur - start) = view.cur := by omega
  have element : (view.data.drop start)[view.cur - start]? = some byte := by
    rw [List.getElem?_drop, offset, found]
  simp only [show view.cur + 1 - start = (view.cur - start) + 1 by omega]
  rw [List.take_add_one, bytes, element]
  rfl

theorem get_agrees (represents : Represents view plain) :
    view.get.1 = plain.get.1 ∧ Represents view.get.2 plain.get.2 := by
  have here := represents.here
  simp only [get, PlainView.get, ← here]
  cases found : view.data[view.cur]? with
  | none =>
      have empty : plain.rest = [] := by rw [found] at here; simpa using here.symm
      refine ⟨rfl, represents.inside, ?_⟩
      rw [represents.rest, empty]
      rfl
  | some byte => exact ⟨rfl, represents.next found⟩

theorem getIf_agrees (expected : UInt8) (represents : Represents view plain) :
    (view.getIf expected).1 = (plain.getIf expected).1 ∧
      Represents (view.getIf expected).2 (plain.getIf expected).2 := by
  simp only [getIf, PlainView.getIf, ← represents.here]
  cases found : view.data[view.cur]? with
  | none => simpa using represents
  | some byte =>
      by_cases matched : byte = expected
      · simpa [matched] using represents.next found
      · simpa [matched] using represents

theorem getIfNoCase_agrees (expected : UInt8) (represents : Represents view plain) :
    (view.getIfNoCase expected).1 = (plain.getIfNoCase expected).1 ∧
      Represents (view.getIfNoCase expected).2 (plain.getIfNoCase expected).2 := by
  have here := represents.here
  simp only [getIfNoCase, PlainView.getIfNoCase]
  cases plain with
  | mk rest =>
    cases rest with
    | nil => simpa [here] using represents
    | cons byte rest =>
        have found : view.data[view.cur]? = some byte := here
        by_cases matched : byte ||| 32 = expected ||| 32
        · simpa [found, matched] using represents.next found
        · simpa [found, matched] using represents

/-- Moving to where a scan stops. -/
theorem scan_agrees (test : UInt8 → Bool) (represents : Represents view plain) :
    Represents { view with cur := scan test view.data (view.data.length - view.cur) view.cur }
      ⟨plain.rest.dropWhile test⟩ :=
  ⟨(scan_le test view.data view.cur represents.inside).2, by
    rw [← represents.rest]
    exact drop_scan test view.data view.cur⟩

theorem skipWhitespacesAndComments_agrees (represents : Represents view plain) :
    view.skipWhitespacesAndComments.1 = plain.skipWhitespacesAndComments.1 ∧
      (view.skipWhitespacesAndComments.1 = true →
        Represents view.skipWhitespacesAndComments.2 plain.skipWhitespacesAndComments.2) := by
  have loop := skipComments_eq view.data _ view.cur represents.inside le_rfl
  simp only [skipWhitespacesAndComments, PlainView.skipWhitespacesAndComments, ← represents.rest]
  cases found : skipComments view.data (view.data.length - view.cur) view.cur with
  | none =>
      simp only [found] at loop
      simp [loop]
  | some stop =>
      simp only [found] at loop
      simp only [loop.2]
      exact ⟨trivial, fun _ => ⟨loop.1, rfl⟩⟩

theorem read_agrees (count : ℕ) (represents : Represents view plain) :
    (view.read count).1 = plain.rest.take count ∧
      Represents (view.read count).2 ⟨plain.rest.drop count⟩ := by
  have inside := represents.inside
  have length : plain.rest.length = view.data.length - view.cur := by
    rw [← represents.rest, List.length_drop]
  have amount : (if count < view.data.length - view.cur then count
      else view.data.length - view.cur) = min count plain.rest.length := by
    rw [length]
    split <;> omega
  simp only [read, amount, represents.rest]
  rcases le_total count plain.rest.length with few | many
  · rw [min_eq_left few]
    exact ⟨rfl, by simp only; omega, by rw [← List.drop_drop, represents.rest]⟩
  · rw [min_eq_right many, List.take_length, List.take_of_length_le many]
    refine ⟨rfl, by simp only; omega, ?_⟩
    rw [← List.drop_drop, represents.rest, List.drop_length, List.drop_eq_nil_of_le many]

/-- Seeking back and reading again delivers what was extracted and ends where it
began. -/
theorem snapshot_agrees {start : ℕ} {kept : Bytes} (represents : Represents view plain)
    (remembers : Remembers start view kept) :
    ((view.seek start).read (view.tell - start)).1 = kept ∧
      Represents ((view.seek start).read (view.tell - start)).2 plain := by
  obtain ⟨inside, rest⟩ := represents
  obtain ⟨behind, bytes⟩ := remembers
  have sought : Represents (view.seek start) ⟨view.data.drop start⟩ := by
    rw [seek, if_pos (behind.trans inside)]
    exact ⟨behind.trans inside, rfl⟩
  obtain ⟨result, landed⟩ := read_agrees (view.tell - start) sought
  refine ⟨result.trans bytes, ?_⟩
  rwa [List.drop_drop, show start + (view.tell - start) = view.cur by
    simp only [tell]; omega, rest] at landed

end StringView

instance : LawfulView StringView where
  Represents := StringView.Represents
  Remembers := StringView.Remembers
  peek := StringView.Represents.here
  get := StringView.get_agrees
  getIf := StringView.getIf_agrees
  getIfNoCase := StringView.getIfNoCase_agrees
  read := StringView.read_agrees
  readUntilEscaped := by
    intro view plain represents
    refine ⟨?_, StringView.scan_agrees _ represents⟩
    simp only [View.readUntilEscaped, StringView.readUntilEscaped,
      StringView.scan_eq _ view.data _ view.cur le_rfl, Nat.add_sub_cancel_left, represents.rest]
    exact (List.prefix_iff_eq_take.mp (List.takeWhile_prefix _)).symm
  skipWhitespaces := StringView.scan_agrees whitespaceLookup
  skipWhitespacesAndComments := StringView.skipWhitespacesAndComments_agrees
  mark := fun {view _} _ => ⟨le_rfl, by simp [View.mark, StringView.tell]⟩
  bufferedGet := by
    intro view plain start kept represents remembers
    refine ⟨(StringView.get_agrees represents).1, (StringView.get_agrees represents).2, ?_⟩
    have here := represents.here
    simp only [View.bufferedGet, StringView.get]
    cases found : view.data[view.cur]? with
    | none =>
        have empty : plain.rest = [] := by rw [found] at here; simpa using here.symm
        simpa [empty] using remembers
    | some byte =>
        rw [found] at here
        obtain ⟨rest, split⟩ := List.head?_eq_some_iff.mp here.symm
        simpa [split] using remembers.next found
  bufferedGetIf := by
    intro view plain start kept expected represents remembers
    have agrees := StringView.getIf_agrees expected represents
    have here := represents.here
    simp only [View.bufferedGetIf, StringView.getIf, PlainView.getIf, ← here] at agrees ⊢
    cases found : view.data[view.cur]? with
    | none => simpa using ⟨represents, remembers⟩
    | some byte =>
        by_cases matched : byte = expected
        · subst matched
          simpa using ⟨represents.next found, remembers.next found⟩
        · simpa [matched] using ⟨represents, remembers⟩
  snapshot := StringView.snapshot_agrees

theorem SeekableStreamView.represents_ofBytes (bytes : Bytes) :
    LawfulView.Represents (⟨StreamBuf.ofBytes bytes⟩ : SeekableStreamView) ⟨bytes⟩ := rfl

theorem StreamView.represents_ofBytes (bytes : Bytes) :
    LawfulView.Represents (⟨StreamBuf.ofBytes bytes⟩ : StreamView) ⟨bytes⟩ := rfl

/-! ## Scripts of primitives -/

/-- What a primitive returns. -/
inductive Answer where
  | character (value : Character)
  | flag (value : Bool)
  | bytes (value : Bytes)
deriving DecidableEq, Repr

/-- A call made while a number is read through a buffering view. -/
inductive BufferedCall where
  | peek
  | get
  | getIf (expected : UInt8)
deriving DecidableEq, Repr

/-- A call of the readers on a view. A `number` wraps the view, makes some calls and
asks for the characters they extracted. -/
inductive Primitive where
  | peek
  | get
  | getIf (expected : UInt8)
  | getIfNoCase (expected : UInt8)
  | read (count : ℕ)
  | readUntilEscaped
  | skipWhitespaces
  | skipWhitespacesAndComments
  | number (calls : List BufferedCall)
deriving DecidableEq, Repr

namespace View

variable {V : Type} [View V]

/-- Calls made through a buffering view, and the characters they extracted. -/
def performBuffered : List BufferedCall → Mark V × V → List Answer × V
  | [], state => ([.bytes (snapshot state).1], (snapshot state).2)
  | .peek :: calls, state =>
      let (answers, after) := performBuffered calls state
      (.character (peek state.2) :: answers, after)
  | .get :: calls, state =>
      let (answers, after) := performBuffered calls (bufferedGet state).2
      (.character (bufferedGet state).1 :: answers, after)
  | .getIf expected :: calls, state =>
      let (answers, after) := performBuffered calls (bufferedGetIf expected state).2
      (.flag (bufferedGetIf expected state).1 :: answers, after)

/-- Perform one call. -/
def perform : Primitive → V → List Answer × V
  | .peek, view => ([.character (peek view)], view)
  | .get, view => ([.character (get view).1], (get view).2)
  | .getIf expected, view => ([.flag (getIf expected view).1], (getIf expected view).2)
  | .getIfNoCase expected, view =>
      ([.flag (getIfNoCase expected view).1], (getIfNoCase expected view).2)
  | .read count, view => ([.bytes (read count view).1], (read count view).2)
  | .readUntilEscaped, view => ([.bytes (readUntilEscaped view).1], (readUntilEscaped view).2)
  | .skipWhitespaces, view => ([], skipWhitespaces view)
  | .skipWhitespacesAndComments, view =>
      ([.flag (skipWhitespacesAndComments view).1], (skipWhitespacesAndComments view).2)
  | .number calls, view => performBuffered calls (mark view, view)

/-- A comment that could not be skipped: the caller gives the document up. -/
def Abandons (primitive : Primitive) (answers : List Answer) : Prop :=
  primitive = .skipWhitespacesAndComments ∧ answers = [.flag false]

instance (primitive : Primitive) (answers : List Answer) : Decidable (Abandons primitive answers) :=
  inferInstanceAs (Decidable (_ ∧ _))

/-- Everything a script of calls gets to see. -/
def observe : List Primitive → V → List Answer
  | [], _ => []
  | primitive :: script, view =>
      let (answers, after) := perform primitive view
      if Abandons primitive answers then answers else answers ++ observe script after

end View

namespace LawfulView

variable {V : Type} [View V] [LawfulView V] {view : V} {plain : PlainView}

theorem performBuffered_agrees (calls : List BufferedCall) {view : V} {plain : PlainView}
    {mark : View.Mark V} {kept : Bytes} (represents : Represents view plain)
    (remembers : Remembers mark view kept) :
    (View.performBuffered calls (mark, view)).1 = (View.performBuffered calls (kept, plain)).1 ∧
      Represents (View.performBuffered calls (mark, view)).2
        (View.performBuffered calls (kept, plain)).2 := by
  induction calls generalizing view plain mark kept with
  | nil =>
      obtain ⟨bytes, represents⟩ := snapshot represents remembers
      exact ⟨congrArg (fun bytes => [Answer.bytes bytes]) bytes, represents⟩
  | cons call calls ih =>
      cases call with
      | peek =>
          obtain ⟨answers, after⟩ := ih represents remembers
          exact ⟨congrArg₂ (fun here => (Answer.character here :: ·)) (peek represents) answers, after⟩
      | get =>
          obtain ⟨here, represents, remembers⟩ := bufferedGet represents remembers
          obtain ⟨answers, after⟩ := ih represents remembers
          exact ⟨congrArg₂ (fun here => (Answer.character here :: ·)) here answers, after⟩
      | getIf expected =>
          obtain ⟨here, represents, remembers⟩ := bufferedGetIf expected represents remembers
          obtain ⟨answers, after⟩ := ih represents remembers
          exact ⟨congrArg₂ (fun here => (Answer.flag here :: ·)) here answers, after⟩

/-- One call returns the same on both sides, and they still represent each other
unless the call gives the document up. -/
theorem perform_agrees (primitive : Primitive) (represents : Represents view plain) :
    (View.perform primitive view).1 = (View.perform primitive plain).1 ∧
      (¬ View.Abandons primitive (View.perform primitive view).1 →
        Represents (View.perform primitive view).2 (View.perform primitive plain).2) := by
  have single {α : Type} (wrap : α → Answer) {here there : α} (same : here = there) :
      [wrap here] = [wrap there] := congrArg (fun value => [wrap value]) same
  cases primitive with
  | peek => exact ⟨single _ (peek represents), fun _ => represents⟩
  | get => exact ⟨single _ (get represents).1, fun _ => (get represents).2⟩
  | getIf expected =>
      exact ⟨single _ (getIf expected represents).1, fun _ => (getIf expected represents).2⟩
  | getIfNoCase expected =>
      exact ⟨single _ (getIfNoCase expected represents).1,
        fun _ => (getIfNoCase expected represents).2⟩
  | read count => exact ⟨single _ (read count represents).1, fun _ => (read count represents).2⟩
  | readUntilEscaped =>
      exact ⟨single _ (readUntilEscaped represents).1, fun _ => (readUntilEscaped represents).2⟩
  | skipWhitespaces => exact ⟨rfl, fun _ => skipWhitespaces represents⟩
  | skipWhitespacesAndComments =>
      obtain ⟨flag, after⟩ := skipWhitespacesAndComments represents
      refine ⟨single _ flag, fun goesOn => after ?_⟩
      by_contra stopped
      exact goesOn ⟨rfl, single _ (Bool.not_eq_true _ ▸ stopped)⟩
  | number calls =>
      obtain ⟨answers, after⟩ := performBuffered_agrees calls represents (mark represents)
      exact ⟨answers, fun _ => after⟩

/-- No script can tell a view from the plain view it represents. -/
theorem observe_agrees (script : List Primitive) (represents : Represents view plain) :
    View.observe script view = View.observe script plain := by
  induction script generalizing view plain with
  | nil => rfl
  | cons primitive script ih =>
      obtain ⟨answers, after⟩ := perform_agrees primitive represents
      simp only [View.observe, ← answers]
      split
      case isTrue => rfl
      case isFalse goesOn => rw [ih (after goesOn)]

end LawfulView

end Join
