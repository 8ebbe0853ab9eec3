import Join.Data.JsonMeaning
import Join.Library.JsonItems

/-!
# Comments between tokens

In the mode that parses comments, a comment can stand in every gap of a document
and changes nothing, except for one place: directly behind an element or the value
of a member the reader expects white space, a comma or a closing bracket, and takes
the slash of the comment for a missing comma.
-/

set_option autoImplicit false

namespace Join.JsonReader

open Library Library.Json StreamReader

/-! ## What gaps have to do with values -/

mutual
theorem denote_strip : ∀ text : Text, denote text.strip = denote text
  | .null | .number _ | .word _ _ | .string _ | .boolean _ | .emptyArray _ | .emptyObject _ => rfl
  | .array _ elements => by
      simp only [Text.strip, denote, denoteElements_strip elements]
  | .object _ members => by
      simp only [Text.strip, denote, denoteMembers_strip members]

theorem denoteElements_strip : ∀ elements : Elements,
    denoteElements elements.strip = denoteElements elements
  | .last value _ => by
      simp only [Elements.strip, denoteElements, denote_strip value]
  | .more value _ _ rest => by
      simp only [Elements.strip, denoteElements, denote_strip value, denoteElements_strip rest]

theorem denoteMembers_strip : ∀ members : Members,
    denoteMembers members.strip = denoteMembers members
  | .last _ _ _ value _ => by
      simp only [Members.strip, denoteMembers, denote_strip value]
  | .more _ _ _ value _ _ rest => by
      simp only [Members.strip, denoteMembers, denote_strip value, denoteMembers_strip rest]
end

mutual
theorem depth_strip : ∀ text : Text, text.strip.depth = text.depth
  | .null | .number _ | .word _ _ | .string _ | .boolean _ | .emptyArray _ | .emptyObject _ => rfl
  | .array _ elements => by
      simp only [Text.strip, Text.depth, depth_strip_elements elements]
  | .object _ members => by
      simp only [Text.strip, Text.depth, depth_strip_members members]

theorem depth_strip_elements : ∀ elements : Elements, elements.strip.depth = elements.depth
  | .last value _ => by
      simp only [Elements.strip, Elements.depth, depth_strip value]
  | .more value _ _ rest => by
      simp only [Elements.strip, Elements.depth, depth_strip value, depth_strip_elements rest]

theorem depth_strip_members : ∀ members : Members, members.strip.depth = members.depth
  | .last _ _ _ value _ => by
      simp only [Members.strip, Members.depth, depth_strip value]
  | .more _ _ _ value _ _ rest => by
      simp only [Members.strip, Members.depth, depth_strip value, depth_strip_members rest]
end

theorem isContainer_strip (text : Text) : text.strip.isContainer = text.isContainer := by
  cases text <;> rfl

/-- A gap behind an element or a member opens with white space. -/
def opensWhite : Item → Bool
  | .gap true content => content.startsWhite
  | _ => true

mutual
theorem tailsWhite_items : ∀ text : Text, tailsWhite text = text.items.all opensWhite
  | .null | .number _ | .word _ _ | .string _ | .boolean _ | .emptyArray _ | .emptyObject _ => rfl
  | .array _ elements => by
      simp only [tailsWhite, Text.items, List.all_cons, opensWhite, Bool.true_and,
        elementTailsWhite_items elements]
  | .object _ members => by
      simp only [tailsWhite, Text.items, List.all_cons, opensWhite, Bool.true_and,
        memberTailsWhite_items members]

theorem elementTailsWhite_items : ∀ elements : Elements,
    elementTailsWhite elements = elements.items.all opensWhite
  | .last value tail => by
      simp only [elementTailsWhite, Elements.items, List.all_append, List.all_cons, List.all_nil,
        opensWhite, Bool.and_true, tailsWhite_items value]
  | .more value tail gap rest => by
      simp only [elementTailsWhite, Elements.items, List.all_append, List.all_cons, opensWhite,
        Bool.true_and, tailsWhite_items value, elementTailsWhite_items rest, Bool.and_assoc]

theorem memberTailsWhite_items : ∀ members : Members,
    memberTailsWhite members = members.items.all opensWhite
  | .last key before after value tail => by
      simp only [memberTailsWhite, Members.items, List.all_append, List.all_cons, List.all_nil,
        opensWhite, Bool.and_true, Bool.true_and, tailsWhite_items value]
  | .more key before after value tail gap rest => by
      simp only [memberTailsWhite, Members.items, List.all_append, List.all_cons, opensWhite,
        Bool.true_and, tailsWhite_items value, memberTailsWhite_items rest, Bool.and_assoc]
end

/-- A document that the reader takes: its root is a container which the stack has room
for, every part of it has a value, and no comment follows an element or a member
directly. -/
structure Readable (document : Document) : Prop where
  container : document.root.isContainer = true
  fits : document.root.depth ≤ maxdepth
  valued : (denote document.root).isSome = true
  tails : tailsWhite document.root = true

theorem readable_iff (document : Document) :
    Readable document ↔ ∃ value, Builds 0 document.root value := by
  constructor
  · rintro ⟨container, fits, valued, tails⟩
    obtain ⟨value, denotes⟩ := Option.isSome_iff_exists.mp valued
    exact ⟨value, denotes, tails, by rwa [Nat.zero_add], fun _ => container⟩
  · rintro ⟨value, denotes, tails, room, nested⟩
    rw [Nat.zero_add] at room
    exact ⟨nested rfl, room, by rw [denotes, Option.isSome_some], tails⟩

/-- Two documents with the same lexemes whose tails open alike build the same. -/
theorem builds_congr {document document' : Document}
    (strip : document'.root.strip = document.root.strip)
    (tails : document'.items.all opensWhite = document.items.all opensWhite) (value : Value) :
    Builds 0 document'.root value ↔ Builds 0 document.root value := by
  have same : tailsWhite document'.root = tailsWhite document.root := by
    simpa only [Document.items, List.all_cons, List.all_append, List.all_nil, opensWhite,
      Bool.true_and, Bool.and_true, ← tailsWhite_items] using tails
  have denotes : denote document'.root = denote document.root := by
    rw [← denote_strip, strip, denote_strip]
  have depth : document'.root.depth = document.root.depth := by
    rw [← depth_strip, strip, depth_strip]
  have container : document'.root.isContainer = document.root.isContainer := by
    rw [← isContainer_strip, strip, isContainer_strip]
  constructor
  · rintro ⟨found, white, room, nested⟩
    exact ⟨denotes ▸ found, same ▸ white, depth ▸ room, container ▸ nested⟩
  · rintro ⟨found, white, room, nested⟩
    exact ⟨denotes.symm ▸ found, same.symm ▸ white, depth.symm ▸ room, container.symm ▸ nested⟩

/-! ## Comments -/

/-- `JsonReadMode::ParseComments`. -/
def commentMode : JsonReadMode := { parseComments := true }

/-- Two calls return the same code and, when they succeed, leave the same root. -/
def SameResult (first second : ℤ × StreamReader) : Prop :=
  first.1 = second.1 ∧ (second.1 = 0 → first.2.root = second.2.root)

variable {kind : ViewKind} {root : Value} {document document' : Document}

theorem sameResult_of_builds (conforms : document.Conforms (readerDialect commentMode))
    (conforms' : document'.Conforms (readerDialect commentMode))
    (same : ∀ value, Builds 0 document'.root value ↔ Builds 0 document.root value) :
    SameResult (deserialize kind commentMode document'.render (.fresh root))
      (deserialize kind commentMode document.render (.fresh root)) := by
  by_cases readable : ∃ value, Builds 0 document.root value
  · obtain ⟨value, builds⟩ := readable
    have second := deserialize_document rfl conforms builds kind
      (rfl : (StreamReader.fresh root).stack = [])
    have first := deserialize_document rfl conforms' ((same value).mpr builds) kind
      (rfl : (StreamReader.fresh root).stack = [])
    exact ⟨first.1.trans second.1.symm, fun _ => first.2.1.trans second.2.1.symm⟩
  · have second := deserialize_document_refused rfl conforms
      (fun value builds => readable ⟨value, builds⟩) kind
      (rfl : (StreamReader.fresh root).stack = [])
    have first := deserialize_document_refused rfl conforms'
      (fun value builds => readable ⟨value, (same value).mp builds⟩) kind
      (rfl : (StreamReader.fresh root).stack = [])
    refine ⟨first.trans second.symm, fun zero => ?_⟩
    rw [show (deserialize kind commentMode document.render (.fresh root)).1 = -1 from second] at zero
    cases zero

/-- A comment that does not come first in a tail does not change how the tail opens. -/
theorem opensWhite_insert (comment : Filler) {tail : Bool} {before after : Gap}
    (behind : ¬ (tail = true ∧ before = [])) :
    opensWhite (.gap tail (before ++ comment :: after)) =
      opensWhite (.gap tail (before ++ after)) := by
  cases tail with
  | false => rfl
  | true =>
      cases before with
      | nil => exact (behind ⟨rfl, rfl⟩).elim
      | cons first before => rfl

/-- A document with a comment put into one of its gaps. -/
theorem exists_commented (conforms : document.Conforms (readerDialect commentMode))
    {front back : List Item} {tail : Bool} {before after : Gap}
    (split : document.items = front ++ .gap tail (before ++ after) :: back) {comment : Filler}
    (valid : comment.Valid) :
    ∃ document' : Document,
      document'.items = front ++ .gap tail (before ++ comment :: after) :: back ∧
      document'.root.strip = document.root.strip ∧
      document'.unfinished = document.unfinished ∧
      document'.Conforms (readerDialect commentMode) := by
  have alike : AlikeItems (front ++ .gap tail (before ++ comment :: after) :: back)
      document.items := by
    rw [split]
    exact List.rel_append (List.forall₂_refl front)
      (.cons (.gap tail _ _) (List.forall₂_refl back))
  obtain ⟨document', items, strip, unfinished⟩ := document.exists_refilled alike
  obtain ⟨conformsRoot, gaps, conformsEnd⟩ := document.conforms_iff.mp conforms
  refine ⟨document', items, strip, unfinished, document'.conforms_iff.mpr ⟨?_, ?_, ?_⟩⟩
  · rw [strip]
    exact conformsRoot
  · rw [split, gapsConform_append, gapsConform_gap] at gaps
    rw [items, gapsConform_append, gapsConform_gap]
    refine ⟨gaps.1, fun filler member => ?_, gaps.2.2⟩
    rcases List.mem_append.mp member with inBefore | inAfter
    · exact gaps.2.1 filler (List.mem_append_left _ inBefore)
    · rcases List.mem_cons.mp inAfter with rfl | inAfter
      · exact ⟨valid, fun off => by cases off⟩
      · exact gaps.2.1 filler (List.mem_append_right _ inAfter)
  · rw [unfinished]
    exact conformsEnd

/-- A comment anywhere between two tokens changes nothing, unless it is put directly
behind an element or the value of a member of a document that the reader takes. A line
comment at the end of a document, up to the end of the text, changes nothing either. -/
theorem comment_changes_nothing_iff (kind : ViewKind) (root : Value) (document : Document)
    (conforms : document.Conforms (readerDialect commentMode)) :
    (∀ (front back : List Item) (tail : Bool) (before after : Gap) (comment : Filler),
      document.items = front ++ .gap tail (before ++ after) :: back →
      comment.Valid → comment.isWhite = false →
      (SameResult
        (deserialize kind commentMode
          (renderItems (front ++ .gap tail (before ++ comment :: after) :: back) ++
            Document.renderUnfinished document.unfinished) (.fresh root))
        (deserialize kind commentMode document.render (.fresh root)) ↔
      ¬ (tail = true ∧ before = [] ∧ Readable document))) ∧
    (document.unfinished = none → ∀ body, (Filler.line body).Valid →
      SameResult
        (deserialize kind commentMode (document.render ++ ([0x2F, 0x2F] ++ body)) (.fresh root))
        (deserialize kind commentMode document.render (.fresh root))) := by
  refine ⟨fun front back tail before after comment split valid isComment => ?_,
    fun finished body valid => ?_⟩
  · obtain ⟨document', items, strip, unfinished, conforms'⟩ :=
      exists_commented conforms split valid
    have render : document'.render =
        renderItems (front ++ .gap tail (before ++ comment :: after) :: back) ++
          Document.renderUnfinished document.unfinished := by
      rw [document'.render_eq, items, unfinished]
    rw [← render]
    by_cases direct : tail = true ∧ before = []
    · obtain ⟨rfl, rfl⟩ := direct
      -- the comment opens a tail, so the document with the comment builds nothing
      have refused : ∀ value, ¬ Builds 0 document'.root value := by
        intro value builds
        have white : document'.items.all opensWhite = true := by
          simp only [Document.items, List.all_cons, List.all_append, List.all_nil, opensWhite,
            Bool.and_true, ← tailsWhite_items, builds.tails]
        rw [items, List.all_append, List.all_cons, Bool.and_eq_true, Bool.and_eq_true] at white
        have opens : comment.isWhite = true := white.2.1
        rw [isComment] at opens
        cases opens
      have first := deserialize_document_refused rfl conforms' refused kind
        (rfl : (StreamReader.fresh root).stack = [])
      constructor
      · rintro same ⟨_, _, readable⟩
        obtain ⟨value, builds⟩ := (readable_iff document).mp readable
        have second := deserialize_document rfl conforms builds kind
          (rfl : (StreamReader.fresh root).stack = [])
        have codes := first.symm.trans (same.1.trans second.1)
        cases codes
      · intro allowed
        refine sameResult_of_builds conforms conforms' fun value => ⟨fun builds => ?_, fun builds => ?_⟩
        · exact (refused value builds).elim
        · exact (allowed ⟨rfl, rfl, (readable_iff document).mpr ⟨value, builds⟩⟩).elim
    · refine iff_of_true (sameResult_of_builds conforms conforms' (builds_congr strip ?_))
        fun opens => direct ⟨opens.1, opens.2.1⟩
      rw [items, split, List.all_append, List.all_append, List.all_cons, List.all_cons,
        opensWhite_insert comment direct]
  · have conforms' : Document.Conforms (readerDialect commentMode)
        { document with unfinished := some body } := by
      refine ⟨conforms.before, conforms.root, conforms.after, fun other same => ?_⟩
      cases same
      exact ⟨valid, fun off => by cases off⟩
    have render : Document.render { document with unfinished := some body } =
        document.render ++ ([0x2F, 0x2F] ++ body) := by
      simp only [Document.render, finished, Document.renderUnfinished, List.append_nil]
    rw [← render]
    exact sameResult_of_builds conforms conforms' fun value => Iff.rfl

/-- `[1]` as a document. -/
def oneDocument : Document :=
  ⟨[], .array [] (.last (.number ⟨false, [0x31], none, none⟩) []), [], none⟩

theorem conforms_one : oneDocument.Conforms (readerDialect commentMode) := by
  refine ⟨List.forall_mem_nil _, ⟨List.forall_mem_nil _, ?_, List.forall_mem_nil _⟩,
    List.forall_mem_nil _, fun _ absurd => (by cases absurd)⟩
  exact .of_standard ⟨.inr ⟨by decide, by decide, List.forall_mem_singleton.2 (by decide)⟩,
    fun _ absurd => (by cases absurd), fun _ absurd => (by cases absurd)⟩

/-- A comment in front of the element of `[1]` changes nothing. -/
theorem comment_before_element :
    oneDocument.Conforms (readerDialect commentMode) ∧
      SameResult
        (deserialize .string commentMode
          [0x5B, 0x2F, 0x2A, 0x2A, 0x2F, 0x31, 0x5D] (.fresh .null))
        (deserialize .string commentMode oneDocument.render (.fresh .null)) :=
  ⟨conforms_one,
    ((comment_changes_nothing_iff .string .null oneDocument conforms_one).1
      [.gap false [], .lexeme [0x5B]]
      [.lexeme [0x31], .gap true [], .lexeme [0x5D], .gap false []] false [] [] (.block [])
      rfl (by decide) rfl).mpr fun absurd => by cases absurd.1⟩

/-- Directly behind the element of `[1]` a comment makes the reader refuse the
document. -/
theorem comment_behind_element_refused :
    ¬ SameResult
      (deserialize .string commentMode
        [0x5B, 0x31, 0x2F, 0x2A, 0x2A, 0x2F, 0x5D] (.fresh .null))
      (deserialize .string commentMode oneDocument.render (.fresh .null)) := by
  intro same
  have codes : (-1 : ℤ) = 0 := by
    have first : (deserialize .string commentMode
        [0x5B, 0x31, 0x2F, 0x2A, 0x2A, 0x2F, 0x5D] (.fresh .null)).1 = -1 := by decide +kernel
    have second : (deserialize .string commentMode oneDocument.render (.fresh .null)).1 = 0 := by
      decide +kernel
    rw [← first, ← second]
    exact same.1
  cases codes

end Join.JsonReader
