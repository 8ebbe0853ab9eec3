import Join.Data.JsonEvents

/-!
# What the reader accepts is a text

In front of any input the reader either finds a text of its dialect and sends the
events of that text, or it fails. With the converse (`readValue_follows`) this
makes the grammar and the reader two descriptions of the same language.

The fuel that `deserialize` provides is enough for every input: the statements
below are about runs that produce an outcome.
-/

set_option autoImplicit false

namespace Join

open Library

namespace JsonReader

open Library.Json

theorem total_stringEvents (pieces : List Piece) : Total (stringEvents pieces) := by
  unfold stringEvents
  split
  · exact .setValue _
  · exact .fail _

theorem total_keyEvents (pieces : List Piece) : Total (keyEvents pieces) := by
  unfold keyEvents
  split
  · exact .change _
  · exact .fail _

theorem total_tailEvents (tail : Gap) : Total (tailEvents tail) := by
  unfold tailEvents
  split
  · exact .pure _
  · exact .fail _

theorem total_numberEvents (number : Number) : Total (numberEvents number) := by
  unfold numberEvents
  split
  · exact .setValue _
  · exact .fail _

theorem total_wordEvents (negative : Bool) (name : Bytes) : Total (wordEvents negative name) := by
  unfold wordEvents
  split
  · exact .setValue _
  · exact .fail _

mutual
theorem total_events : ∀ text : Text, Total (events text)
  | .null => .setValue _
  | .boolean _ => .setValue _
  | .number number => total_numberEvents number
  | .word negative name => by
      simp only [events]
      split
      · exact .fail _
      · exact total_wordEvents negative name
  | .string pieces => total_stringEvents pieces
  | .emptyArray _ => (Total.startContainer _).bind fun _ => .change _
  | .array _ elements => (Total.startContainer _).bind fun _ => total_elementEvents elements
  | .emptyObject _ => (Total.startContainer _).bind fun _ => .change _
  | .object _ members => (Total.startContainer _).bind fun _ => total_memberEvents members

theorem total_elementEvents : ∀ elements : Elements, Total (elementEvents elements)
  | .last value tail =>
      (total_events value).bind fun _ => (total_tailEvents tail).bind fun _ => .change _
  | .more value tail _ rest =>
      (total_events value).bind fun _ => (total_tailEvents tail).bind fun _ =>
        total_elementEvents rest

theorem total_memberEvents : ∀ members : Members, Total (memberEvents members)
  | .last key _ _ value tail =>
      (total_keyEvents key).bind fun _ => (total_events value).bind fun _ =>
        (total_tailEvents tail).bind fun _ => .change _
  | .more key _ _ value tail _ rest =>
      (total_keyEvents key).bind fun _ => (total_events value).bind fun _ =>
        (total_tailEvents tail).bind fun _ => total_memberEvents rest
end

/-! ## Gaps -/

/-- White space and comments at the front of an input, up to `rest`. Only at the end of
the input a line comment may be unfinished. -/
def HasGap (input rest : Bytes) : Prop :=
  ∃ (gap : Gap) (unfinished : Option Bytes), (∀ filler ∈ gap, filler.Valid) ∧
    (∀ body, unfinished = some body → (Filler.line body).Valid) ∧
    (unfinished = none ∨ rest = []) ∧
    input = gap.render ++ Document.renderUnfinished unfinished ++ rest

theorem HasGap.refl (input : Bytes) : HasGap input input :=
  ⟨[], none, List.forall_mem_nil _, fun _ absurd => (by cases absurd), .inl rfl, rfl⟩

theorem HasGap.cons {filler : Filler} (valid : filler.Valid) {input rest : Bytes}
    (has : HasGap input rest) : HasGap (filler.render ++ input) rest := by
  obtain ⟨gap, unfinished, validGap, validUnfinished, atEnd, rfl⟩ := has
  refine ⟨filler :: gap, unfinished, List.forall_mem_cons.mpr ⟨valid, validGap⟩, validUnfinished,
    atEnd, ?_⟩
  simp only [Gap.render_cons, List.append_assoc]

/-- A pair of bytes inside a longer comment is inside the comment or at its front. -/
theorem not_infix_cons {byte : UInt8} {body : Bytes} (rest : Bytes)
    (inside : ¬ [0x2A, 0x2F] <:+: body)
    (front : ¬ (byte = 0x2A ∧ (body ++ 0x2A :: 0x2F :: rest).head? = some 0x2F)) :
    ¬ [0x2A, 0x2F] <:+: byte :: body := by
  rw [List.infix_cons_iff]
  rintro (⟨tail, same⟩ | infixed)
  · obtain ⟨rfl, rest⟩ := List.cons.inj same
    subst rest
    exact front ⟨rfl, rfl⟩
  · exact inside infixed

mutual
theorem skipBetween_hasGap : ∀ input rest : Bytes,
    PlainView.skipBetween input = some rest → HasGap input rest
  | [], rest, skipped => by
      obtain rfl : [] = rest := Option.some.inj skipped
      exact .refl []
  | byte :: input, rest, skipped => by
      rw [PlainView.skipBetween_cons] at skipped
      by_cases white : whitespaceLookup byte = true
      · rw [if_pos white] at skipped
        exact (skipBetween_hasGap input rest skipped).cons ((whitespaceLookup_white byte).mpr white)
      · rw [if_neg white] at skipped
        by_cases slash : byte = 0x2F
        · rw [if_neg (not_not.mpr slash)] at skipped
          subst slash
          cases input with
          | nil => cases skipped
          | cons next input =>
              by_cases star : next = 0x2A
              · simp only [if_pos star] at skipped
                subst star
                obtain ⟨body, after, inside, rfl, has⟩ := skipBlock_hasGap input rest skipped
                have valid : (Filler.block body).Valid := inside
                simpa only [Filler.render, List.cons_append, List.nil_append, List.append_assoc]
                  using has.cons valid
              · simp only [if_neg star] at skipped
                by_cases line : next = 0x2F
                · simp only [if_pos line] at skipped
                  subst line
                  rcases skipLine_hasGap input rest skipped with
                    ⟨body, after, inside, rfl, has⟩ | ⟨inside, rfl⟩
                  · have valid : (Filler.line body).Valid := inside
                    simpa only [Filler.render, List.cons_append, List.nil_append,
                      List.append_assoc] using has.cons valid
                  · refine ⟨[], some input, List.forall_mem_nil _, ?_, .inr rfl, ?_⟩
                    · rintro _ ⟨⟩
                      exact inside
                    · simp only [Gap.render_nil, Document.renderUnfinished, List.cons_append,
                        List.nil_append, List.append_nil]
                · simp only [if_neg line, reduceCtorEq] at skipped
        · rw [if_pos slash] at skipped
          obtain rfl := Option.some.inj skipped
          exact .refl _

theorem skipBlock_hasGap : ∀ input rest : Bytes, PlainView.skipBlock input = some rest →
    ∃ body after, (¬ [0x2A, 0x2F] <:+: body) ∧ input = body ++ 0x2A :: 0x2F :: after ∧
      HasGap after rest
  | [], rest, skipped => by simp [PlainView.skipBlock] at skipped
  | [byte], rest, skipped => by simp [PlainView.skipBlock] at skipped
  | byte :: next :: input, rest, skipped => by
      rw [PlainView.skipBlock] at skipped
      by_cases closes : byte = 0x2A ∧ next = 0x2F
      · rw [if_pos closes] at skipped
        obtain ⟨rfl, rfl⟩ := closes
        exact ⟨[], input, by decide, rfl, skipBetween_hasGap input rest skipped⟩
      · rw [if_neg closes] at skipped
        obtain ⟨body, after, inside, same, has⟩ := skipBlock_hasGap (next :: input) rest skipped
        refine ⟨byte :: body, after, not_infix_cons after inside ?_, ?_, has⟩
        · rw [← same]
          simpa using closes
        · rw [same, List.cons_append]

theorem skipLine_hasGap : ∀ input rest : Bytes, PlainView.skipLine input = some rest →
    (∃ body after, (0x0A : UInt8) ∉ body ∧ input = body ++ 0x0A :: after ∧ HasGap after rest) ∨
      ((0x0A : UInt8) ∉ input ∧ rest = [])
  | [], rest, skipped => by
      rw [PlainView.skipLine] at skipped
      exact .inr ⟨List.not_mem_nil, (Option.some.inj skipped).symm⟩
  | byte :: input, rest, skipped => by
      rw [PlainView.skipLine] at skipped
      by_cases newline : byte = 0x0A
      · rw [if_pos newline] at skipped
        subst newline
        exact .inl ⟨[], input, List.not_mem_nil, rfl, skipBetween_hasGap input rest skipped⟩
      · rw [if_neg newline] at skipped
        rcases skipLine_hasGap input rest skipped with ⟨body, after, inside, rfl, has⟩ | ⟨inside, atEnd⟩
        · refine .inl ⟨byte :: body, after, ?_, rfl, has⟩
          simpa [Ne.symm newline] using inside
        · refine .inr ⟨?_, atEnd⟩
          simpa [Ne.symm newline] using inside
end

variable {mode : JsonReadMode}

/-- The gap at the front of an input, as the dialect of the mode has it. -/
def Skips (mode : JsonReadMode) (input rest : Bytes) : Prop :=
  ∃ (gap : Gap) (unfinished : Option Bytes), gap.Conforms (readerDialect mode) ∧
    (∀ body, unfinished = some body → (readerDialect mode).filler (.line body)) ∧
    (unfinished = none ∨ rest = []) ∧
    input = gap.render ++ Document.renderUnfinished unfinished ++ rest

/-- The reader skips a gap or fails. -/
theorem skipWhitespaces_cases (mode : JsonReadMode) (input : Bytes) :
    (∃ rest, Skips mode input rest ∧ Advances input rest (skipWhitespaces mode) ()) ∨
      Fails input (skipWhitespaces mode) := by
  by_cases comments : mode.parseComments = true
  · have on (filler : Filler) (valid : filler.Valid) : (readerDialect mode).filler filler :=
      ⟨valid, fun off => (Bool.false_ne_true (off.symm.trans comments)).elim⟩
    cases skipped : PlainView.skipBetween input with
    | none =>
        have stuck : Advances input input (Reader.doc View.skipWhitespacesAndComments) false := by
          intro handler
          simp only [Reader.doc, Program.act_apply, View.skipWhitespacesAndComments,
            PlainView.skipWhitespacesAndComments, skipped]
        exact .inr (.ifPos comments (.advance stuck (.ifNeg Bool.false_ne_true (.fail _ _))))
    | some rest =>
        obtain ⟨gap, unfinished, validGap, validUnfinished, atEnd, same⟩ :=
          skipBetween_hasGap input rest skipped
        have skip : Advances input rest (Reader.doc View.skipWhitespacesAndComments) true := by
          intro handler
          simp only [Reader.doc, Program.act_apply, View.skipWhitespacesAndComments,
            PlainView.skipWhitespacesAndComments, skipped]
        exact .inl ⟨rest, ⟨gap, unfinished, fun filler member => on filler (validGap filler member),
          fun body found => on _ (validUnfinished body found), atEnd, same⟩,
          .ifPos comments (skip.bind (.ifPos rfl (Advances.pure rest ())))⟩
  · refine .inl ⟨input.dropWhile whitespaceLookup, ?_, .ifNeg comments fun handler => rfl⟩
    refine ⟨(input.takeWhile whitespaceLookup).map Filler.white, none, ?_,
      fun _ absurd => (by cases absurd), .inl rfl, ?_⟩
    · intro filler member
      obtain ⟨byte, taken, rfl⟩ := List.mem_map.mp member
      exact ⟨(whitespaceLookup_white byte).mpr (List.mem_takeWhile_imp taken), fun _ => rfl⟩
    · have render (bytes : Bytes) : Gap.render (bytes.map Filler.white) = bytes := by
        induction bytes with
        | nil => rfl
        | cons byte bytes ih => rw [List.map_cons, Gap.render_cons, ih]; rfl
      rw [render, Document.renderUnfinished, List.append_nil, List.takeWhile_append_dropWhile]

/-- A gap in the middle of a document is finished, unless the document ends in it. -/
theorem Skips.inside {input rest : Bytes} (skips : Skips mode input rest) :
    (∃ gap : Gap, gap.Conforms (readerDialect mode) ∧ input = gap.render ++ rest) ∨ rest = [] := by
  obtain ⟨gap, unfinished, conforms, _, atEnd, same⟩ := skips
  rcases atEnd with rfl | atEnd
  · exact .inl ⟨gap, conforms, by simpa only [Document.renderUnfinished, List.append_nil] using same⟩
  · exact .inr atEnd

theorem Skips.length_le {input rest : Bytes} (skips : Skips mode input rest) :
    rest.length ≤ input.length := by
  obtain ⟨gap, unfinished, _, _, _, rfl⟩ := skips
  simp only [List.length_append]
  omega

/-! ## Values -/

theorem readValue_nil (fuel : ℕ) : Fails [] (readValue mode (fuel + 1)) := by
  have word : Follows [] [] (readWord false) (Program.fail (.sax .invalidValue)) := by
    rcases readWord_cases false [] with ⟨name, rest, split, isWord, _⟩ | refuses
    · obtain ⟨rfl, -⟩ := List.append_eq_nil_iff.mp split.symm
      exact absurd isWord (by decide)
    · exact refuses.follows []
  exact .of_follows (readValue_number (by simp) (readNumber_word fuel (by decide) word))

theorem readElements_nil (fuel : ℕ) : Fails [] (readElements mode (fuel + 2)) :=
  (readValue_nil fuel).bind _

theorem readMembers_nil (fuel : ℕ) : Fails [] (readMembers mode (fuel + 1)) :=
  .advance (Advances.get []) (.ifPos (by simp) (.fail _ _))

/-- The reader finds a value, or fails. -/
def ValueOrFails (mode : JsonReadMode) (fuel : ℕ) (input : Bytes) : Prop :=
  (∃ text rest, text.Conforms (readerDialect mode) ∧ input = text.render ++ rest ∧
    Follows input rest (readValue mode fuel) (events text)) ∨
  Fails input (readValue mode fuel)

/-- The reader finds the rest of an array, or fails. -/
def ElementsOrFails (mode : JsonReadMode) (fuel : ℕ) (input : Bytes) : Prop :=
  (∃ elements rest, elements.Conforms (readerDialect mode) ∧ input = elements.render ++ rest ∧
    Follows input rest (readElements mode fuel) (elementEvents elements)) ∨
  Fails input (readElements mode fuel)

/-- The reader finds the rest of an object, or fails. -/
def MembersOrFails (mode : JsonReadMode) (fuel : ℕ) (input : Bytes) : Prop :=
  (∃ members rest, members.Conforms (readerDialect mode) ∧ input = members.render ++ rest ∧
    Follows input rest (readMembers mode fuel) (memberEvents members)) ∨
  Fails input (readMembers mode fuel)

/-! ### Atoms -/

theorem readString_cases (input : Bytes) (fuel : ℕ) (enough : input.length < fuel) :
    ValueOrFails mode (fuel + 1) (0x22 :: input) := by
  rcases stringLoop_cases input fuel enough [] with ⟨pieces, rest, valid, rfl⟩ | ⟨failure, refuses⟩
  · have bound := length_le_renderPieces pieces
    rw [List.length_append] at enough
    refine .inl ⟨.string pieces, rest, valid, ?_, ?_⟩
    · simp only [Text.render, renderString, List.cons_append, List.append_assoc, List.nil_append]
    · exact readValue_string (readString_follows valid (by omega) rest)
  · have fails : Refuses input (readString fuel) failure := refuses.bind _
    exact .inr (.of_follows (readValue_string (fails.follows [])))

theorem readNull_cases (input : Bytes) (fuel : ℕ) :
    ValueOrFails mode (fuel + 1) (0x6E :: input) := by
  rcases expect_cases [0x75, 0x6C, 0x6C] input with ⟨rest, rfl⟩ | refuses
  · exact .inl ⟨.null, rest, trivial, rfl, readValue_null (readNull_follows rest)⟩
  · have fails : Refuses input readNull (.sax .invalidValue) := refuses.bind _
    exact .inr (.of_follows (readValue_null (fails.follows [])))

theorem readTrue_cases (input : Bytes) (fuel : ℕ) :
    ValueOrFails mode (fuel + 1) (0x74 :: input) := by
  rcases expect_cases [0x72, 0x75, 0x65] input with ⟨rest, rfl⟩ | refuses
  · exact .inl ⟨.boolean true, rest, trivial, rfl, readValue_true (readTrue_follows rest)⟩
  · have fails : Refuses input readTrue (.sax .invalidValue) := refuses.bind _
    exact .inr (.of_follows (readValue_true (fails.follows [])))

theorem readFalse_cases (input : Bytes) (fuel : ℕ) :
    ValueOrFails mode (fuel + 1) (0x66 :: input) := by
  rcases expect_cases [0x61, 0x6C, 0x73, 0x65] input with ⟨rest, rfl⟩ | refuses
  · exact .inl ⟨.boolean false, rest, trivial, rfl, readValue_false (readFalse_follows rest)⟩
  · have fails : Refuses input readFalse (.sax .invalidValue) := refuses.bind _
    exact .inr (.of_follows (readValue_false (fails.follows [])))

/-- Anything that `readValue` does not act on by itself is a number or a word. -/
theorem readNumber_cases (input : Bytes) (fuel : ℕ) (enough : input.length < fuel)
    (other : ∀ byte ∈ dispatched, input.head? ≠ some byte) :
    ValueOrFails mode (fuel + 1) input := by
  by_cases digit : isDigitCharacter (splitMinus input).2.head? = true
  · have reads := readNumber_follows input fuel enough digit
    cases taken : takeNumber input with
    | none =>
        rw [taken] at reads
        exact .inr (.of_follows (readValue_number other reads))
    | some found =>
        obtain ⟨number, rest⟩ := found
        rw [taken] at reads
        obtain ⟨scannable, same⟩ := takeNumber_sound taken
        exact .inl ⟨.number number, rest, scannable, same, readValue_number other reads⟩
  · rcases readWord_cases (splitMinus input).1 (splitMinus input).2 with
      ⟨name, rest, split, isWord, follows⟩ | refuses
    · refine .inl ⟨.word (splitMinus input).1 name, rest, isWord, ?_, ?_⟩
      · rw [Text.render, List.append_assoc, ← split, splitMinus_append]
      · have notNull : takenForNull (splitMinus input).1 name = false := by
          cases negative : (splitMinus input).1 with
          | true => rfl
          | false =>
              have whole := splitMinus_append input
              rw [negative, split] at whole
              obtain ⟨letter, tail, rfl, _⟩ := word_head isWord
              have notSmall : letter ≠ 0x6E := by
                rintro rfl
                exact other 0x6E (by decide) (by rw [← whole]; rfl)
              simpa [takenForNull] using notSmall
        simp only [events, notNull, Bool.false_eq_true, if_false]
        exact readValue_number other (readNumber_word fuel digit follows)
    · exact .inr (.of_follows (readValue_number other (readNumber_word fuel digit
        (refuses.follows []))))

/-! ### Containers -/

theorem tailEvents_white {tail : Gap} (white : tail.startsWhite = true) :
    tailEvents tail = pure () := by
  rw [tailEvents, if_pos white]

/-- The separator behind a value, if the input has one. -/
theorem getSeparator_cases (mode : JsonReadMode) (input : Bytes) :
    (∃ (tail : Gap) (byte : UInt8) (rest : Bytes), tail.Conforms (readerDialect mode) ∧
      tail.startsWhite = true ∧ input = tail.render ++ byte :: rest ∧
      Advances input rest (getSeparator mode) (some byte)) ∨
    (∃ rest, Advances input rest (getSeparator mode) none) ∨
    Fails input (getSeparator mode) := by
  cases input with
  | nil =>
      have notWhite : ¬ whitespaceLookup (Character.toByte none) = true := by decide
      exact .inr (.inl ⟨[], (Advances.get []).bind (.ifNeg notWhite (Advances.pure [] _))⟩)
  | cons first input =>
      by_cases white : whitespaceLookup first = true
      · rcases skipWhitespaces_cases mode input with ⟨rest, skips, skip⟩ | fails
        · have separated : Advances (first :: input) rest.tail (getSeparator mode) rest.head? :=
            (Advances.get _).bind (.ifPos white (skip.bind (Advances.get rest)))
          cases rest with
          | nil => exact .inr (.inl ⟨[], separated⟩)
          | cons byte rest =>
              rcases skips.inside with ⟨gap, conforms, rfl⟩ | absurd
              · refine .inl ⟨.white first :: gap, byte, rest, ?_, rfl, rfl, separated⟩
                exact List.forall_mem_cons.mpr
                  ⟨⟨(whitespaceLookup_white first).mpr white, fun _ => rfl⟩, conforms⟩
              · cases absurd
        · exact .inr (.inr (.advance (Advances.get _) (.ifPos white (fails.bind _))))
      · exact .inl ⟨[], first, input, List.forall_mem_nil _, rfl, rfl,
          (Advances.get _).bind (.ifNeg white (Advances.pure input _))⟩

theorem readArray_cases (input : Bytes) (fuel : ℕ) (enough : 3 * input.length + 2 ≤ fuel)
    (loop : ∀ rest : Bytes, rest.length ≤ input.length → ElementsOrFails mode fuel rest) :
    ValueOrFails mode (fuel + 2) (0x5B :: input) := by
  have start := Follows.event input StreamReader.startArray
  have failing (fails : Fails input
      (do
        skipWhitespaces mode
        let closed ← Reader.getIf 0x5D
        if closed then Reader.event StreamReader.stopContainer else readElements mode fuel)) :
      ValueOrFails mode (fuel + 2) (0x5B :: input) := by
    have array : Fails input (readArray mode (fuel + 1)) :=
      .follow (Total.startContainer _) start fun _ => fails
    exact .inr (.advance (Advances.peek _) (.ifPos rfl (.advance (Advances.get _) array)))
  rcases skipWhitespaces_cases mode input with ⟨rest, skips, skip⟩ | fails
  · rcases skips.inside with ⟨gap, conforms, rfl⟩ | rfl
    · by_cases closed : rest.head? = some 0x5D
      · obtain ⟨rest, rfl⟩ := List.head?_eq_some_iff.mp closed
        refine .inl ⟨.emptyArray gap, rest, conforms, ?_, ?_⟩
        · simp only [Text.render, List.cons_append, List.append_assoc, List.nil_append]
        · exact readValue_array (readArray_empty conforms rest)
      · rcases loop rest (by rw [List.length_append]; omega) with
          ⟨elements, after, conformsElements, rfl, follows⟩ | fails
        · refine .inl ⟨.array gap elements, after, ⟨conforms, conformsElements⟩, ?_, ?_⟩
          · simp only [Text.render, List.cons_append, List.append_assoc]
          · exact readValue_array (start.bindSame fun _ => skip.follows
              ((Advances.getIf_false closed).follows (.ifNeg Bool.false_ne_true follows)))
        · exact failing (.advance skip (.advance (Advances.getIf_false closed)
            (.ifNeg Bool.false_ne_true fails)))
    · obtain ⟨fuel, rfl⟩ := Nat.exists_eq_add_of_le' (le_of_add_le_right enough)
      exact failing (.advance skip (.advance (Advances.getIf_false (by simp))
        (.ifNeg Bool.false_ne_true (readElements_nil fuel))))
  · exact failing (fails.bind _)

theorem readObject_cases (input : Bytes) (fuel : ℕ) (enough : 3 * input.length + 2 ≤ fuel)
    (loop : ∀ rest : Bytes, rest.length ≤ input.length → MembersOrFails mode fuel rest) :
    ValueOrFails mode (fuel + 2) (0x7B :: input) := by
  have start := Follows.event input StreamReader.startObject
  have failing (fails : Fails input
      (do
        skipWhitespaces mode
        let closed ← Reader.getIf 0x7D
        if closed then Reader.event StreamReader.stopContainer else readMembers mode fuel)) :
      ValueOrFails mode (fuel + 2) (0x7B :: input) := by
    have object : Fails input (readObject mode (fuel + 1)) :=
      .follow (Total.startContainer _) start fun _ => fails
    exact .inr (.advance (Advances.peek _) (.ifNeg (by simp) (.ifPos rfl
      (.advance (Advances.get _) object))))
  rcases skipWhitespaces_cases mode input with ⟨rest, skips, skip⟩ | fails
  · rcases skips.inside with ⟨gap, conforms, rfl⟩ | rfl
    · by_cases closed : rest.head? = some 0x7D
      · obtain ⟨rest, rfl⟩ := List.head?_eq_some_iff.mp closed
        refine .inl ⟨.emptyObject gap, rest, conforms, ?_, ?_⟩
        · simp only [Text.render, List.cons_append, List.append_assoc, List.nil_append]
        · exact readValue_object (readObject_empty conforms rest)
      · rcases loop rest (by rw [List.length_append]; omega) with
          ⟨members, after, conformsMembers, rfl, follows⟩ | fails
        · refine .inl ⟨.object gap members, after, ⟨conforms, conformsMembers⟩, ?_, ?_⟩
          · simp only [Text.render, List.cons_append, List.append_assoc]
          · exact readValue_object (start.bindSame fun _ => skip.follows
              ((Advances.getIf_false closed).follows (.ifNeg Bool.false_ne_true follows)))
        · exact failing (.advance skip (.advance (Advances.getIf_false closed)
            (.ifNeg Bool.false_ne_true fails)))
    · obtain ⟨fuel, rfl⟩ := Nat.exists_eq_add_of_le' (le_of_add_le_right enough)
      exact failing (.advance skip (.advance (Advances.getIf_false (by simp))
        (.ifNeg Bool.false_ne_true (readMembers_nil (fuel + 1)))))
  · exact failing (fails.bind _)

/-- One round of the loop over the elements. -/
theorem readElements_cases (input : Bytes) (fuel : ℕ) (enough : 3 * input.length + 1 ≤ fuel)
    (value : ValueOrFails mode fuel input)
    (loop : ∀ rest : Bytes, rest.length < input.length → ElementsOrFails mode fuel rest) :
    ElementsOrFails mode (fuel + 1) input := by
  rcases value with ⟨text, rest, conforms, rfl, reads⟩ | fails
  · have failing (fails : Fails rest
        (do
          let character ← getSeparator mode
          if character = some 0x2C then do
            skipWhitespaces mode
            readElements mode fuel
          else if character = some 0x5D then Reader.event StreamReader.stopContainer
          else Reader.jsonError .missingComma)) :
        ElementsOrFails mode (fuel + 1) (text.render ++ rest) :=
      .inr (.follow (total_events text) reads fun _ => fails)
    rcases getSeparator_cases mode rest with
      ⟨tail, byte, rest, conformsTail, white, rfl, separator⟩ | ⟨after, separator⟩ | fails
    · by_cases comma : byte = 0x2C
      · subst comma
        rcases skipWhitespaces_cases mode rest with ⟨after, skips, skip⟩ | fails
        · rcases skips.inside with ⟨gap, conformsGap, rfl⟩ | rfl
          · rcases loop after (by simp only [List.length_append, List.length_cons]; omega) with
              ⟨others, after, conformsOthers, rfl, follows⟩ | fails
            · refine .inl ⟨.more text tail gap others, after,
                ⟨conforms, conformsTail, conformsGap, conformsOthers⟩, ?_, ?_⟩
              · simp only [Elements.render, List.append_assoc, List.cons_append]
              · simp only [elementEvents, tailEvents_white white]
                exact reads.bindSame fun _ => separator.follows (.ifPos rfl (skip.follows follows))
            · exact failing (.advance separator (.ifPos rfl (.advance skip fails)))
          · simp only [List.length_append, List.length_cons] at enough
            obtain ⟨fuel, rfl⟩ := Nat.exists_eq_add_of_le' (show 2 ≤ fuel by omega)
            exact failing (.advance separator (.ifPos rfl (.advance skip (readElements_nil fuel))))
        · exact failing (.advance separator (.ifPos rfl (fails.bind _)))
      · by_cases bracket : byte = 0x5D
        · subst bracket
          refine .inl ⟨.last text tail, rest, ⟨conforms, conformsTail⟩, ?_, ?_⟩
          · simp only [Elements.render, List.append_assoc, List.cons_append, List.nil_append]
          · simp only [elementEvents, tailEvents_white white]
            exact reads.bindSame fun _ => separator.follows
              (.ifNeg (by simp) (.ifPos rfl (Follows.event rest _)))
        · exact failing (.advance separator (.ifNeg (by simpa using comma)
            (.ifNeg (by simpa using bracket) (.fail _ _))))
    · exact failing (.advance separator (.ifNeg (by simp) (.ifNeg (by simp) (.fail _ _))))
    · exact failing (fails.bind _)
  · exact .inr (fails.bind _)

/-- The colon behind a key, if the input has one. -/
theorem getColon_cases (mode : JsonReadMode) (input : Bytes) :
    (∃ (before : Gap) (rest : Bytes), before.Conforms (readerDialect mode) ∧
      input = before.render ++ 0x3A :: rest ∧
      Advances input rest (getColon mode) (some 0x3A)) ∨
    (∃ character rest, character ≠ some 0x3A ∧ Advances input rest (getColon mode) character) ∨
    Fails input (getColon mode) := by
  by_cases here : input.head? = some 0x3A
  · obtain ⟨rest, rfl⟩ := List.head?_eq_some_iff.mp here
    exact .inl ⟨[], rest, List.forall_mem_nil _, rfl,
      (Advances.peek _).bind (.ifNeg (not_not.mpr rfl) (Advances.get _))⟩
  · rcases skipWhitespaces_cases mode input with ⟨rest, skips, skip⟩ | fails
    · have colon : Advances input rest.tail (getColon mode) rest.head? :=
        (Advances.peek _).bind (.ifPos here (skip.bind (Advances.get rest)))
      by_cases found : rest.head? = some 0x3A
      · obtain ⟨rest, rfl⟩ := List.head?_eq_some_iff.mp found
        rcases skips.inside with ⟨gap, conforms, rfl⟩ | absurd
        · exact .inl ⟨gap, rest, conforms, rfl, colon⟩
        · cases absurd
      · exact .inr (.inl ⟨_, _, found, colon⟩)
    · exact .inr (.inr (.advance (Advances.peek _) (.ifPos here (fails.bind _))))

/-- A member up to its value: what fails before the value fails the loop. -/
theorem readMember_cases (mode : JsonReadMode) (input : Bytes) (fuel : ℕ) (enough : input.length < fuel) :
    (∃ (key : List Piece) (before after : Gap) (rest : Bytes), ValidPieces key ∧
      before.Conforms (readerDialect mode) ∧ after.Conforms (readerDialect mode) ∧
      input = 0x22 :: (renderPieces key ++ 0x22 :: (before.render ++ 0x3A ::
        (after.render ++ rest))) ∧
      Advances (before.render ++ 0x3A :: (after.render ++ rest)) (after.render ++ rest)
        (getColon mode) (some 0x3A) ∧
      Advances (after.render ++ rest) rest (skipWhitespaces mode) ()) ∨
    Fails input (readMembers mode (fuel + 1)) := by
  by_cases quote : input.head? = some 0x22
  · obtain ⟨input, rfl⟩ := List.head?_eq_some_iff.mp quote
    rw [List.length_cons] at enough
    have failing (fails : Fails input
        (do
          readKey fuel
          let colon ← getColon mode
          if colon ≠ some 0x3A then Reader.jsonError .missingColon
          else do
            skipWhitespaces mode
            readValue mode fuel
            getSeparator mode >>= afterMember mode fuel)) :
        Fails (0x22 :: input) (readMembers mode (fuel + 1)) :=
      .advance (Advances.get _) (.ifNeg (by simp) fails)
    rcases stringLoop_cases input fuel (by omega) [] with
      ⟨key, rest, valid, rfl⟩ | ⟨failure, refuses⟩
    · have bound := length_le_renderPieces key
      rw [List.length_append] at enough
      have readsKey := readKey_follows valid (show key.length < fuel by omega) rest
      have afterKey {next : Reader PlainView Unit} (fails : Fails rest next) :
          Fails (renderPieces key ++ 0x22 :: rest) (readKey fuel >>= fun _ => next) :=
        .follow (total_keyEvents key) readsKey fun _ => fails
      rcases getColon_cases mode rest with
        ⟨before, rest, conformsBefore, rfl, colon⟩ | ⟨character, rest, other, colon⟩ | fails
      · rcases skipWhitespaces_cases mode rest with ⟨rest, skips, skip⟩ | fails
        · rcases skips.inside with ⟨after, conformsAfter, rfl⟩ | rfl
          · exact .inl ⟨key, before, after, rest, valid, conformsBefore, conformsAfter, rfl, colon,
              skip⟩
          · obtain ⟨fuel, rfl⟩ := Nat.exists_eq_add_one.mpr (Nat.zero_lt_of_lt enough)
            exact .inr (failing (afterKey (.advance colon (.ifNeg (by simp)
              (.advance skip ((readValue_nil fuel).bind _))))))
        · exact .inr (failing (afterKey (.advance colon (.ifNeg (by simp) (fails.bind _)))))
      · exact .inr (failing (afterKey (.advance colon (.ifPos other (.fail _ _)))))
      · exact .inr (failing (afterKey (fails.bind _)))
    · exact .inr (failing (.bind (.bind (.of_refuses refuses) _) _))
  · exact .inr (.advance (Advances.get _) (.ifPos quote (.fail _ _)))

/-- One round of the loop over the members. -/
theorem readMembers_cases (input : Bytes) (fuel : ℕ) (enough : 3 * input.length + 1 ≤ fuel)
    (value : ∀ rest : Bytes, rest.length < input.length → ValueOrFails mode fuel rest)
    (loop : ∀ rest : Bytes, rest.length < input.length → MembersOrFails mode fuel rest) :
    MembersOrFails mode (fuel + 1) input := by
  rcases readMember_cases mode input fuel (by omega) with
    ⟨key, before, after, rest, validKey, conformsBefore, conformsAfter, rfl, colon, skip⟩ | fails
  · have bound := length_le_renderPieces key
    simp only [List.length_cons, List.length_append] at enough value loop
    have readsKey := readKey_follows validKey (show key.length < fuel by omega)
      (before.render ++ 0x3A :: (after.render ++ rest))
    have failing (fails : Fails rest
        (do
          readValue mode fuel
          getSeparator mode >>= afterMember mode fuel)) :
        MembersOrFails mode (fuel + 1) (0x22 :: (renderPieces key ++ 0x22 ::
          (before.render ++ 0x3A :: (after.render ++ rest)))) := by
      refine .inr (.advance (Advances.get _) (.ifNeg (by simp) ?_))
      refine .follow (total_keyEvents key) readsKey fun _ => ?_
      exact .advance colon (.ifNeg (by simp) (.advance skip fails))
    rcases value rest (by omega) with ⟨text, rest, conforms, rfl, reads⟩ | fails
    · have afterValue (fails : Fails rest (getSeparator mode >>= afterMember mode fuel)) :
          Fails (text.render ++ rest)
            (do
              readValue mode fuel
              getSeparator mode >>= afterMember mode fuel) :=
        .follow (total_events text) reads fun _ => fails
      have found {output : Bytes} {sent : Program StreamReader Failure Unit}
          (next : Follows rest output (getSeparator mode >>= afterMember mode fuel) sent) :=
        member_follows validKey (show key.length < fuel by omega) conformsBefore conformsAfter
          conforms reads next
      simp only [List.length_append] at enough loop
      rcases getSeparator_cases mode rest with
        ⟨tail, byte, rest, conformsTail, white, rfl, separator⟩ | ⟨after', separator⟩ | fails
      · by_cases comma : byte = 0x2C
        · subst comma
          rcases skipWhitespaces_cases mode rest with ⟨others, skips, skipGap⟩ | fails
          · rcases skips.inside with ⟨gap, conformsGap, rfl⟩ | rfl
            · simp only [List.length_append, List.length_cons] at loop
              rcases loop others (by omega) with
                ⟨others, end_, conformsOthers, rfl, follows⟩ | fails
              · refine .inl ⟨.more key before after text tail gap others, end_, ⟨validKey,
                  conformsBefore, conformsAfter, conforms, conformsTail, conformsGap,
                  conformsOthers⟩, ?_, ?_⟩
                · simp only [Members.render, renderString, List.append_assoc, List.cons_append,
                    List.nil_append]
                · simp only [memberEvents, tailEvents_white white]
                  exact found (separator.follows (.ifPos rfl (skipGap.follows follows)))
              · exact failing (afterValue (.advance separator (.ifPos rfl
                  (.advance skipGap fails))))
            · obtain ⟨fuel, rfl⟩ := Nat.exists_eq_add_one.mpr (show 0 < fuel by omega)
              exact failing (afterValue (.advance separator (.ifPos rfl
                (.advance skipGap (readMembers_nil fuel)))))
          · exact failing (afterValue (.advance separator (.ifPos rfl (fails.bind _))))
        · by_cases brace : byte = 0x7D
          · subst brace
            refine .inl ⟨.last key before after text tail, rest, ⟨validKey, conformsBefore,
              conformsAfter, conforms, conformsTail⟩, ?_, ?_⟩
            · simp only [Members.render, renderString, List.append_assoc, List.cons_append,
                List.nil_append]
            · simp only [memberEvents, tailEvents_white white]
              exact found (separator.follows
                (.ifNeg (by simp) (.ifPos rfl (Follows.event rest _))))
          · exact failing (afterValue (.advance separator (.ifNeg (by simpa using comma)
              (.ifNeg (by simpa using brace) (.fail _ _)))))
      · exact failing (afterValue (.advance separator (.ifNeg (by simp) (.ifNeg (by simp)
          (.fail _ _)))))
      · exact failing (afterValue (fails.bind _))
    · exact failing (fails.bind _)
  · exact .inr fails

/-- With enough fuel the reader finds what it reads, or fails. -/
theorem readValue_cases (mode : JsonReadMode) (fuel : ℕ) : ∀ input : Bytes,
    (3 * input.length + 1 ≤ fuel → ValueOrFails mode fuel input) ∧
      (3 * input.length + 2 ≤ fuel → ElementsOrFails mode fuel input) ∧
      (3 * input.length + 2 ≤ fuel → MembersOrFails mode fuel input) := by
  induction fuel using Nat.strong_induction_on with
  | _ fuel ih =>
  intro input
  refine ⟨fun enough => ?_, fun enough => ?_, fun enough => ?_⟩
  · obtain ⟨fuel, rfl⟩ := Nat.exists_eq_add_one.mpr (Nat.zero_lt_of_lt enough)
    cases input with
    | nil => exact .inr (readValue_nil fuel)
    | cons byte input =>
        rw [List.length_cons] at enough
        obtain ⟨fuel, rfl⟩ := Nat.exists_eq_add_one.mpr (show 0 < fuel by omega)
        by_cases other : byte ∈ dispatched
        · simp only [dispatched, List.mem_cons, List.not_mem_nil, or_false] at other
          rcases other with rfl | rfl | rfl | rfl | rfl | rfl
          · exact readArray_cases input fuel (by omega) fun rest short =>
              (ih fuel (by omega) rest).2.1 (by omega)
          · exact readObject_cases input fuel (by omega) fun rest short =>
              (ih fuel (by omega) rest).2.2 (by omega)
          · exact readString_cases input (fuel + 1) (by omega)
          · exact readNull_cases input (fuel + 1)
          · exact readTrue_cases input (fuel + 1)
          · exact readFalse_cases input (fuel + 1)
        · exact readNumber_cases (byte :: input) (fuel + 1) (by rw [List.length_cons]; omega)
            (head_not_dispatched other input)
  · obtain ⟨fuel, rfl⟩ := Nat.exists_eq_add_one.mpr (Nat.zero_lt_of_lt enough)
    exact readElements_cases input fuel (by omega) ((ih fuel (by omega) input).1 (by omega))
      fun rest short => (ih fuel (by omega) rest).2.1 (by omega)
  · obtain ⟨fuel, rfl⟩ := Nat.exists_eq_add_one.mpr (Nat.zero_lt_of_lt enough)
    exact readMembers_cases input fuel (by omega)
      (fun rest short => (ih fuel (by omega) rest).1 (by omega))
      fun rest short => (ih fuel (by omega) rest).2.2 (by omega)

/-! ## Documents -/

/-- The root of a document, with the gap before it, or a failure. -/
theorem readRoot_cases (mode : JsonReadMode) (input : Bytes) (fuel : ℕ)
    (enough : 3 * input.length + 1 ≤ fuel) :
    (∃ (before : Gap) (text : Text) (rest : Bytes), before.Conforms (readerDialect mode) ∧
      text.Conforms (readerDialect mode) ∧ input = before.render ++ (text.render ++ rest) ∧
      Follows input rest
        (do
          skipWhitespaces mode
          readValue mode fuel) (events text)) ∨
    Fails input
      (do
        skipWhitespaces mode
        readValue mode fuel) := by
  rcases skipWhitespaces_cases mode input with ⟨rest, skips, skip⟩ | fails
  · rcases (readValue_cases mode fuel rest).1 (by have := skips.length_le; omega) with
      ⟨text, output, conforms, rfl, follows⟩ | fails
    · rcases skips.inside with ⟨before, conformsBefore, rfl⟩ | empty
      · exact .inl ⟨before, text, output, conformsBefore, conforms, rfl, skip.follows follows⟩
      · obtain ⟨byte, tail, render, _⟩ := text_head text conforms
        rw [render] at empty
        cases empty
    · exact .inr (.advance skip fails)
  · exact .inr (fails.bind _)

/-- What the reader does behind the root. -/
def readEnd {V : Type} [View V] (mode : JsonReadMode) : Reader V Unit :=
  if mode.stopParsingOnDone then pure ()
  else do
    skipWhitespaces mode
    let character ← Reader.peek
    if character ≠ none then Reader.saxError .extraData else pure ()

theorem read_eq {V : Type} [View V] (mode : JsonReadMode) (fuel : ℕ) :
    (JsonReader.read mode fuel : Reader V Unit) =
      ((do
        skipWhitespaces mode
        readValue mode fuel) >>= fun _ => readEnd mode) := by
  funext state
  simp only [JsonReader.read, readEnd, Program.bind_apply]
  rcases (skipWhitespaces mode : Reader V Unit) state with _ | ⟨failure | value, after⟩ <;> rfl

/-- The reader finds a document, or fails. -/
theorem read_cases (goesOn : mode.stopParsingOnDone = false) (input : Bytes) (fuel : ℕ)
    (enough : 3 * input.length + 1 ≤ fuel) :
    (∃ document : Document, document.Conforms (readerDialect mode) ∧ document.render = input) ∨
      Fails input (JsonReader.read mode fuel) := by
  have off : ¬ mode.stopParsingOnDone = true := by
    rw [goesOn]
    exact Bool.false_ne_true
  rw [read_eq]
  rcases readRoot_cases mode input fuel enough with
    ⟨before, text, rest, conformsBefore, conforms, rfl, follows⟩ | fails
  · rcases skipWhitespaces_cases mode rest with ⟨output, skips, skip⟩ | fails
    · cases output with
      | nil =>
          obtain ⟨after, unfinished, conformsAfter, conformsUnfinished, _, rfl⟩ := skips
          refine .inl ⟨⟨before, text, after, unfinished⟩,
            ⟨conformsBefore, conforms, conformsAfter, conformsUnfinished⟩, ?_⟩
          simp only [Document.render, List.append_nil, List.append_assoc]
      | cons byte output =>
          refine .inr (.follow (total_events text) follows fun _ => .ifNeg off (.advance skip ?_))
          exact .advance (Advances.peek _) (.ifPos (by simp) (.fail _ _))
    · exact .inr (.follow (total_events text) follows fun _ => .ifNeg off (fails.bind _))
  · exact .inr (fails.bind _)

/-- In the mode that stops behind the root the reader follows its events, or fails. -/
theorem read_cases_stopping (stops : mode.stopParsingOnDone = true) (input : Bytes) (fuel : ℕ)
    (enough : 3 * input.length + 1 ≤ fuel) :
    (∃ (text : Text) (rest : Bytes), text.Conforms (readerDialect mode) ∧
      Follows input rest (JsonReader.read mode fuel) (events text)) ∨
      Fails input (JsonReader.read mode fuel) := by
  rw [read_eq]
  rcases readRoot_cases mode input fuel enough with
    ⟨before, text, rest, _, conforms, _, follows⟩ | fails
  · exact .inl ⟨text, rest, conforms,
      follows.thenAdvances fun _ => .ifPos stops (Advances.pure rest ())⟩
  · exact .inr (fails.bind _)

end JsonReader

end Join
