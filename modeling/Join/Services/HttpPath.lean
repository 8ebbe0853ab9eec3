import Join.Services.HttpMessage

/-!
# Files inside the document root

The file that a worker serves from the document root is the base location with the path of
the request behind it. The path has been decoded and normalised, so that no segment of it is
`..`. It lies inside the base location when it is empty or begins with a slash.

A path that begins with a slash keeps it. One that begins with a name is put behind the last
segment of the base location as it is, unless later `..` segments take the name back.
-/

set_option autoImplicit false

namespace Join.HttpRequest

open Library

/-! ## The content that a request is given -/

/-- `HttpContentType`. -/
inductive HttpContentType
  | root
  | alias
  | exec
  | redirect
deriving DecidableEq, Repr

/-- `BasicHttpContent`, as far as it decides which content is served. -/
structure Content where
  methods : List HttpMethod
  type : HttpContentType
  directory : List UInt8
  name : List UInt8

/-- `join::base`: the path up to its last slash. -/
def base (path : List UInt8) : List UInt8 :=
  (path.reverse.dropWhile fun byte => byte != slash).reverse

/-- `join::filename`: the path behind its last slash. -/
def filename (path : List UInt8) : List UInt8 :=
  (path.reverse.takeWhile fun byte => byte != slash).reverse

/-- `BasicHttpServer::findContent`. The patterns are matched by `fnmatch`. -/
def findContent (fnmatch : List UInt8 → List UInt8 → Bool) (contents : List Content)
    (method : HttpMethod) (path : List UInt8) : Option Content :=
  contents.find? fun content =>
    decide (method ∈ content.methods) && fnmatch content.directory (base path) &&
      fnmatch content.name (filename path)

/-- The file that `BasicHttpWorker::writeResponse` sends for a content of the document root. -/
def rootFile (baseLocation : List UInt8) (request : HttpRequest) : List UInt8 :=
  baseLocation ++ request.path

/-- The segments of the base location are the first ones of the file, and none of the others
goes back. -/
def Inside (baseLocation file : List UInt8) : Prop :=
  baseLocation.splitOn slash <+: file.splitOn slash ∧
    [dot, dot] ∉ (file.splitOn slash).drop (baseLocation.splitOn slash).length

/-! ## Which targets stay inside -/

/-- Later segments take back `depth` names. -/
def cancels : ℕ → List (List UInt8) → Bool
  | _, [] => false
  | depth, segment :: segments =>
      if segment = [] ∨ segment = [dot] then cancels depth segments
      else if segment = [dot, dot] then decide (depth ≤ 1) || cancels (depth - 1) segments
      else cancels (depth + 1) segments

theorem cancels_dot (depth : ℕ) (segments : List (List UInt8)) :
    cancels depth ([dot] :: segments) = cancels depth segments := rfl

theorem cancels_dots (depth : ℕ) (segments : List (List UInt8)) :
    cancels depth ([dot, dot] :: segments) =
      (decide (depth ≤ 1) || cancels (depth - 1) segments) := rfl

theorem cancels_name (depth : ℕ) {segment : List UInt8} (segments : List (List UInt8))
    (some : segment ≠ []) (notDot : segment ≠ [dot]) (notDots : segment ≠ [dot, dot]) :
    cancels depth (segment :: segments) = cancels (depth + 1) segments := by
  rw [cancels, if_neg fun empty => empty.elim some notDot, if_neg notDots]

/-- Segments of which no name is left, or whose first name is taken back. -/
def vanishes : List (List UInt8) → Bool
  | [] => true
  | [segment] => segment.all fun byte => byte == dot
  | segment :: segments =>
      if segment = [] ∨ segment = [dot] ∨ segment = [dot, dot] then vanishes segments
      else cancels 1 segments

theorem vanishes_cons (segment : List UInt8) {segments : List (List UInt8)} (some : segments ≠ []) :
    vanishes (segment :: segments) =
      if segment = [] ∨ segment = [dot] ∨ segment = [dot, dot] then vanishes segments
      else cancels 1 segments := by
  cases segments with
  | nil => exact absurd rfl some
  | cons next segments => rfl

/-- A decoded path begins with a slash, or nothing of its beginning is left. -/
def Contained (path : List UInt8) : Prop :=
  path.head? = some slash ∨ vanishes (path.splitOn slash)

/-- The target of a request line, up to its query. -/
def requestTarget (line : List UInt8) : List UInt8 :=
  (splitTarget (((cut [blank] line).bind fun parts => cut [blank] parts.2).map Prod.fst |>.getD
    [])).1

/-! ## Splitting -/

theorem splitOn_cons (byte : UInt8) (path : List UInt8) :
    (byte :: path).splitOn slash =
      if byte = slash then [] :: path.splitOn slash
      else (path.splitOn slash).modifyHead (List.cons byte) := by
  rw [List.splitOn, List.splitOnP_cons_eq_if_modifyHead, List.splitOn]
  simp only [beq_iff_eq]

theorem splitOn_ne_nil (path : List UInt8) : path.splitOn slash ≠ [] := List.splitOnP_ne_nil _ _

/-- A text without a slash is one segment. -/
theorem splitOn_plain {text : List UInt8} (plain : slash ∉ text) : text.splitOn slash = [text] := by
  induction text with
  | nil => rfl
  | cons byte text ih =>
      have different : byte ≠ slash := fun same => plain (by rw [same]; exact List.mem_cons_self)
      rw [splitOn_cons, if_neg different, ih fun member => plain (List.mem_cons_of_mem _ member)]
      rfl

theorem splitOn_append (front back : List UInt8) :
    (front ++ slash :: back).splitOn slash = front.splitOn slash ++ back.splitOn slash :=
  List.splitOnP_append_cons front back (beq_self_eq_true slash)

/-- Segments, each with a slash before it. -/
def joined (segments : List (List UInt8)) : List UInt8 :=
  segments.flatMap fun segment => slash :: segment

@[simp] theorem joined_nil : joined [] = [] := rfl

@[simp] theorem joined_cons (segment : List UInt8) (segments : List (List UInt8)) :
    joined (segment :: segments) = slash :: segment ++ joined segments := rfl

theorem joined_append (front back : List (List UInt8)) :
    joined (front ++ back) = joined front ++ joined back := List.flatMap_append

/-- A text with segments behind it. -/
theorem splitOn_joined (front : List UInt8) {segments : List (List UInt8)}
    (plain : ∀ segment ∈ segments, slash ∉ segment) :
    (front ++ joined segments).splitOn slash = front.splitOn slash ++ segments := by
  induction segments generalizing front with
  | nil => rw [joined_nil, List.append_nil, List.append_nil]
  | cons segment segments ih =>
      have later := ih (front ++ slash :: segment)
        fun other member => plain other (List.mem_cons_of_mem _ member)
      rw [joined_cons, ← List.append_assoc, later, splitOn_append,
        splitOn_plain (plain segment List.mem_cons_self), List.append_assoc]
      rfl

/-- The segments of a path are its first segment and those behind its slashes. -/
theorem exists_joined (path : List UInt8) : ∃ first segments,
    path = first ++ joined segments ∧ slash ∉ first ∧ (∀ segment ∈ segments, slash ∉ segment) ∧
      path.splitOn slash = first :: segments := by
  induction path with
  | nil => exact ⟨[], [], rfl, List.not_mem_nil, fun _ member => absurd member List.not_mem_nil, rfl⟩
  | cons byte path ih =>
      obtain ⟨first, segments, rfl, plain, others, split⟩ := ih
      by_cases same : byte = slash
      · refine ⟨[], first :: segments, ?_, List.not_mem_nil, ?_, ?_⟩
        · rw [same, joined_cons]
          rfl
        · intro segment member
          rcases List.mem_cons.mp member with rfl | member
          · exact plain
          · exact others segment member
        · rw [splitOn_cons, if_pos same, split]
      · refine ⟨byte :: first, segments, rfl, ?_, others, ?_⟩
        · intro member
          rcases List.mem_cons.mp member with equal | member
          · exact same equal.symm
          · exact plain member
        · rw [splitOn_cons, if_neg same, split]
          rfl

/-! ## Runs of slashes -/

/-- Segments that go back and forth alike. -/
structure Alike (left right : List (List UInt8)) : Prop where
  nil : left = [] ↔ right = []
  cancels : ∀ depth, cancels depth left = cancels depth right
  vanishes : vanishes left = vanishes right

theorem Alike.refl (segments : List (List UInt8)) : Alike segments segments :=
  ⟨Iff.rfl, fun _ => rfl, rfl⟩

theorem Alike.cons {left right : List (List UInt8)} (alike : Alike left right)
    (segment : List UInt8) : Alike (segment :: left) (segment :: right) := by
  refine ⟨iff_of_false (List.cons_ne_nil _ _) (List.cons_ne_nil _ _), ?_, ?_⟩
  · intro depth
    rw [HttpRequest.cancels, HttpRequest.cancels, alike.cancels, alike.cancels, alike.cancels]
  · by_cases empty : left = []
    · rw [empty, alike.nil.mp empty]
    · rw [vanishes_cons segment empty, vanishes_cons segment fun none => empty (alike.nil.mpr none),
        alike.vanishes, alike.cancels]

/-- An empty segment before others does nothing. -/
theorem Alike.skip {left right : List (List UInt8)} (alike : Alike left right) (some : right ≠ []) :
    Alike left ([] :: right) := by
  refine ⟨iff_of_false (fun none => some (alike.nil.mp none)) (List.cons_ne_nil _ _), ?_, ?_⟩
  · intro depth
    rw [HttpRequest.cancels, if_pos (.inl rfl), alike.cancels]
  · rw [vanishes_cons [] some, if_pos (.inl rfl), alike.vanishes]

/-- Only the last segment may be empty. -/
def Proper (segments : List (List UInt8)) : Prop := ∀ segment ∈ segments.dropLast, segment ≠ []

theorem Proper.tail {segment : List UInt8} {segments : List (List UInt8)}
    (proper : Proper (segment :: segments)) : Proper segments := by
  cases segments with
  | nil => exact fun _ member => absurd member List.not_mem_nil
  | cons next segments => exact fun other member => proper other (List.mem_cons_of_mem _ member)

/-- A path whose first segment is empty begins with a slash. -/
theorem eq_slash_of_splitOn {byte : UInt8} {path : List UInt8} {segments : List (List UInt8)}
    (split : (byte :: path).splitOn slash = [] :: segments) : byte = slash := by
  by_contra different
  obtain ⟨first, others, -, -, -, inner⟩ := exists_joined path
  rw [splitOn_cons, if_neg different, inner] at split
  cases split

/-- A path after runs of slashes have become single ones: its first segment is the same, the
others go back and forth alike, and only the last of them may be empty. -/
theorem splitOn_collapse (path : List UInt8) : ∃ first left right,
    (collapse path).splitOn slash = first :: left ∧ path.splitOn slash = first :: right ∧
      Alike left right ∧ Proper left := by
  fun_induction collapse path with
  | case1 => exact ⟨[], [], [], rfl, rfl, .refl _, fun _ member => absurd member List.not_mem_nil⟩
  | case2 byte =>
      obtain ⟨first, left, -, -, -, split⟩ := exists_joined [byte]
      refine ⟨first, left, left, split, split, .refl _, ?_⟩
      rw [splitOn_cons] at split
      split_ifs at split
      · cases split
        exact fun _ member => absurd member List.not_mem_nil
      · cases split
        exact fun _ member => absurd member List.not_mem_nil
  | case3 first second path both ih =>
      obtain ⟨start, left, right, squeezed, split, alike, proper⟩ := ih
      obtain ⟨rfl, rfl⟩ := both
      rw [splitOn_cons, if_pos rfl, List.cons.injEq] at split
      obtain ⟨rfl, rfl⟩ := split
      refine ⟨[], left, [] :: path.splitOn slash, squeezed, ?_, ?_, proper⟩
      · rw [splitOn_cons, if_pos rfl, splitOn_cons, if_pos rfl]
      · exact alike.skip (splitOn_ne_nil path)
  | case4 first second path single ih =>
      obtain ⟨start, left, right, squeezed, split, alike, proper⟩ := ih
      by_cases same : first = slash
      · refine ⟨[], start :: left, start :: right, ?_, ?_, alike.cons start, ?_⟩
        · rw [splitOn_cons, if_pos same, squeezed]
        · rw [splitOn_cons, if_pos same, split]
        · -- the segment behind the slash is not empty, since no slash follows
          intro segment member
          cases left with
          | nil => exact absurd member List.not_mem_nil
          | cons next left =>
              rcases List.mem_cons.mp member with rfl | member
              · rintro rfl
                exact single ⟨same, eq_slash_of_splitOn split⟩
              · exact proper segment member
      · refine ⟨first :: start, left, right, ?_, ?_, alike, proper⟩
        · rw [splitOn_cons, if_neg same, squeezed]
          rfl
        · rw [splitOn_cons, if_neg same, split]
          rfl

/-! ## Dot segments -/

variable {output segment word : List UInt8} {segments : List (List UInt8)}

theorem takeWhile_joined (plain : slash ∉ segment) (segments : List (List UInt8)) :
    ((segment ++ joined segments).takeWhile fun byte => byte != slash) = segment ∧
      ((segment ++ joined segments).dropWhile fun byte => byte != slash) = joined segments := by
  have all : ∀ byte ∈ segment, (byte != slash) = true := by
    intro byte member
    rw [bne_iff_ne]
    exact fun same => plain (by rw [← same]; exact member)
  rw [List.takeWhile_append_of_pos all, List.dropWhile_append_of_pos all]
  cases segments with
  | nil => exact ⟨List.append_nil _, rfl⟩
  | cons next segments => exact ⟨List.append_nil _, rfl⟩

/-- A segment is the word that a path begins with, if a slash follows that word. -/
theorem eq_of_begins (plain : slash ∉ segment) (slashless : slash ∉ word)
    (begins : (word ++ [slash]).isPrefixOf (segment ++ joined segments) = true) :
    segment = word ∧ segments ≠ [] := by
  obtain ⟨rest, same⟩ := List.isPrefixOf_iff_prefix.mp begins
  have other : word ++ [slash] ++ rest = word ++ joined (rest.splitOn slash) := by
    obtain ⟨first, others, path, -, -, split⟩ := exists_joined rest
    rw [split, joined_cons, List.append_assoc, List.singleton_append, List.cons_append]
    rw [← path]
  have front : segment = word := by
    rw [← (takeWhile_joined plain segments).1, ← same, other, (takeWhile_joined slashless _).1]
  refine ⟨front, ?_⟩
  rintro rfl
  rw [joined_nil, List.append_nil, front] at same
  have lengths := congrArg List.length same
  simp at lengths

theorem eq_of_whole (slashless : slash ∉ word) (same : segment ++ joined segments = word) :
    segment = word ∧ segments = [] := by
  cases segments with
  | nil => exact ⟨by rw [← same, joined_nil, List.append_nil], rfl⟩
  | cons next segments =>
      refine absurd ?_ slashless
      rw [← same, joined_cons]
      exact List.mem_append_right _ List.mem_cons_self

theorem slash_notMem_dots : slash ∉ [dot] ∧ slash ∉ [dot, dot] := by decide

/-- Behind a slash, a dot is dropped. -/
theorem removeDots_dot (output : List UInt8) (segments : List (List UInt8)) :
    removeDots output (joined ([dot] :: segments)) =
      removeDots output (joined (if segments = [] then [[]] else segments)) := by
  cases segments with
  | nil =>
      rw [joined_cons, List.cons_append, removeDots.eq_def]
      rfl
  | cons next segments =>
      rw [joined_cons, List.cons_append, removeDots.eq_def]
      rfl

/-- Behind a slash, two dots take back what was put out last. -/
theorem removeDots_dots (output : List UInt8) (segments : List (List UInt8)) :
    removeDots output (joined ([dot, dot] :: segments)) =
      removeDots (removeLastSegment output)
        (joined (if segments = [] then [[]] else segments)) := by
  cases segments with
  | nil =>
      rw [joined_cons, List.cons_append, removeDots.eq_def]
      rfl
  | cons next segments =>
      rw [joined_cons, List.cons_append, removeDots.eq_def]
      rfl

/-- Behind a slash, any other segment is put out. -/
theorem removeDots_name (output : List UInt8) (plain : slash ∉ segment)
    (segments : List (List UInt8)) (notDot : segment ≠ [dot]) (notDots : segment ≠ [dot, dot]) :
    removeDots output (joined (segment :: segments)) =
      removeDots (output ++ slash :: segment) (joined segments) := by
  have slashFirst : ∀ rest path : List UInt8, (dot :: rest).isPrefixOf (slash :: path) = false := by
    intro rest path
    rfl
  have inner : ∀ word : List UInt8, (slash :: word).isPrefixOf
      (slash :: (segment ++ joined segments)) = word.isPrefixOf (segment ++ joined segments) := by
    intro word
    simp [List.isPrefixOf]
  rw [joined_cons, List.cons_append, removeDots.eq_def]
  simp only [slashFirst, inner, Bool.false_eq_true, if_false, List.cons.injEq, true_and]
  rw [if_neg, if_neg, if_neg, if_neg, if_neg, (takeWhile_joined plain segments).1,
    (takeWhile_joined plain segments).2]
  · exact fun dots => nomatch dots
  · exact fun same => notDots (eq_of_whole slash_notMem_dots.2 same).1
  · exact fun begins => notDots (eq_of_begins plain slash_notMem_dots.2 begins).1
  · exact fun same => notDot (eq_of_whole slash_notMem_dots.1 same).1
  · exact fun begins => notDot (eq_of_begins plain slash_notMem_dots.1 begins).1

theorem removeDots_nil (output : List UInt8) : removeDots output [] = output := by
  rw [removeDots]

/-! ### What has been put out -/

theorem removeLastSegment_append (front : List UInt8) (plain : slash ∉ segment) :
    removeLastSegment (front ++ slash :: segment) = front := by
  have all : ∀ byte ∈ segment.reverse, (byte != slash) = true := by
    intro byte member
    rw [bne_iff_ne]
    exact fun same => plain (by rw [← same]; exact List.mem_reverse.mp member)
  rw [removeLastSegment, List.reverse_append, List.reverse_cons, List.append_assoc,
    List.dropWhile_append_of_pos all, List.singleton_append]
  exact List.reverse_reverse front

theorem removeLastSegment_plain (plain : slash ∉ segment) : removeLastSegment segment = [] := by
  have all : ∀ byte ∈ segment.reverse, (byte != slash) = true := by
    intro byte member
    rw [bne_iff_ne]
    exact fun same => plain (by rw [← same]; exact List.mem_reverse.mp member)
  rw [removeLastSegment, List.dropWhile_eq_nil_iff.mpr all]
  rfl

/-- Only segments behind slashes have been put out, none of which goes back. -/
structure Rooted (output : List UInt8) : Prop where
  segments : ∃ segments, (∀ segment ∈ segments, slash ∉ segment ∧ segment ≠ [dot, dot]) ∧
    output = joined segments

/-- A name has been put out first, with fewer than `depth` segments behind it. -/
structure Hanging (depth : ℕ) (output : List UInt8) : Prop where
  segments : ∃ first segments, first ≠ [] ∧ slash ∉ first ∧
    (∀ segment ∈ segments, slash ∉ segment) ∧ segments.length + 1 = depth ∧
    output = first ++ joined segments

theorem Rooted.push (rooted : Rooted output) (plain : slash ∉ segment)
    (notDots : segment ≠ [dot, dot]) : Rooted (output ++ slash :: segment) := by
  obtain ⟨segments, all, rfl⟩ := rooted.segments
  refine ⟨segments ++ [segment], ?_, ?_⟩
  · intro other member
    rcases List.mem_append.mp member with old | new
    · exact all other old
    · rw [List.mem_singleton.mp new]
      exact ⟨plain, notDots⟩
  · rw [joined_append, joined_cons, joined_nil, List.append_nil]

theorem rooted_nil : Rooted [] := ⟨[], fun _ member => absurd member List.not_mem_nil, rfl⟩

theorem Rooted.pop (rooted : Rooted output) : Rooted (removeLastSegment output) := by
  obtain ⟨segments, all, rfl⟩ := rooted.segments
  rcases List.eq_nil_or_concat segments with rfl | ⟨front, last, rfl⟩
  · exact rooted_nil
  · rw [List.concat_eq_append] at all ⊢
    have plain := (all last (List.mem_append_right _ (List.mem_singleton_self _))).1
    rw [joined_append, joined_cons, joined_nil, List.append_nil,
      removeLastSegment_append _ plain]
    exact ⟨front, fun other member => all other (List.mem_append_left _ member), rfl⟩

theorem Hanging.push {depth : ℕ} (hanging : Hanging depth output) (plain : slash ∉ segment) :
    Hanging (depth + 1) (output ++ slash :: segment) := by
  obtain ⟨first, segments, some, slashless, all, rfl, rfl⟩ := hanging.segments
  refine ⟨first, segments ++ [segment], some, slashless, ?_, ?_, ?_⟩
  · intro other member
    rcases List.mem_append.mp member with old | new
    · exact all other old
    · rw [List.mem_singleton.mp new]
      exact plain
  · rw [List.length_append, List.length_singleton]
  · rw [joined_append, joined_cons, joined_nil, List.append_nil, List.append_assoc]

/-- Going back takes a segment, or the name itself when there is none. -/
theorem Hanging.pop {depth : ℕ} (hanging : Hanging depth output) :
    if depth ≤ 1 then Rooted (removeLastSegment output)
    else Hanging (depth - 1) (removeLastSegment output) := by
  obtain ⟨first, segments, some, slashless, all, rfl, rfl⟩ := hanging.segments
  rcases List.eq_nil_or_concat segments with rfl | ⟨front, last, rfl⟩
  · rw [if_pos (by decide), joined_nil, List.append_nil, removeLastSegment_plain slashless]
    exact rooted_nil
  · rw [List.concat_eq_append] at all ⊢
    have plain := all last (List.mem_append_right _ (List.mem_singleton_self _))
    rw [if_neg (by simp), joined_append, joined_cons, joined_nil, List.append_nil,
      ← List.append_assoc, removeLastSegment_append _ plain]
    refine ⟨first, front, some, slashless,
      fun other member => all other (List.mem_append_left _ member), ?_, rfl⟩
    simp

/-- Behind a slash, a rooted output stays rooted. -/
theorem removeDots_rooted {segments : List (List UInt8)}
    (plain : ∀ segment ∈ segments, slash ∉ segment) {output : List UInt8}
    (rooted : Rooted output) : Rooted (removeDots output (joined segments)) := by
  have root : ∀ {output}, Rooted output → Rooted (removeDots output (joined [[]])) := by
    intro output rooted
    rw [removeDots_name output List.not_mem_nil [] (by decide) (by decide), joined_nil,
      removeDots_nil]
    exact rooted.push List.not_mem_nil (by decide)
  induction segments generalizing output with
  | nil =>
      rw [joined_nil, removeDots_nil]
      exact rooted
  | cons segment segments ih =>
      have later := fun other member => plain other (List.mem_cons_of_mem _ member)
      by_cases isDot : segment = [dot]
      · rw [isDot, removeDots_dot]
        split_ifs
        · exact root rooted
        · exact ih later rooted
      by_cases isDots : segment = [dot, dot]
      · rw [isDots, removeDots_dots]
        split_ifs
        · exact root rooted.pop
        · exact ih later rooted.pop
      · rw [removeDots_name output (plain segment List.mem_cons_self) segments isDot isDots]
        exact ih later (rooted.push (plain segment List.mem_cons_self) isDots)

/-- Behind a slash, an output that hangs becomes rooted exactly when the segments take back
its name. -/
theorem removeDots_hanging {segments : List (List UInt8)}
    (plain : ∀ segment ∈ segments, slash ∉ segment) (proper : Proper segments) {depth : ℕ}
    {output : List UInt8} (hanging : Hanging depth output) :
    if cancels depth segments then Rooted (removeDots output (joined segments))
    else ∃ deeper, Hanging deeper (removeDots output (joined segments)) := by
  induction segments generalizing output depth with
  | nil =>
      rw [joined_nil, removeDots_nil]
      exact ⟨depth, hanging⟩
  | cons segment segments ih =>
      have later := fun other member => plain other (List.mem_cons_of_mem _ member)
      have end_ : ∀ {output depth}, Hanging depth output →
          ∃ deeper, Hanging deeper (removeDots output (joined [[]])) := by
        intro output depth hanging
        rw [removeDots_name output List.not_mem_nil [] (by decide) (by decide), joined_nil,
          removeDots_nil]
        exact ⟨_, hanging.push List.not_mem_nil⟩
      by_cases isDot : segment = [dot]
      · rw [isDot, removeDots_dot, cancels_dot]
        by_cases last : segments = []
        · rw [last, if_pos rfl]
          exact end_ hanging
        · rw [if_neg last]
          exact ih later proper.tail hanging
      by_cases isDots : segment = [dot, dot]
      · have popped := hanging.pop
        rw [isDots, removeDots_dots, cancels_dots]
        by_cases shallow : depth ≤ 1
        · rw [if_pos shallow] at popped
          rw [decide_eq_true shallow, Bool.true_or, if_pos rfl]
          apply removeDots_rooted _ popped
          split_ifs
          · exact fun other member => by rw [List.mem_singleton.mp member]; exact List.not_mem_nil
          · exact later
        · rw [if_neg shallow] at popped
          rw [decide_eq_false shallow, Bool.false_or]
          by_cases last : segments = []
          · rw [last, if_pos rfl]
            exact end_ popped
          · rw [if_neg last]
            exact ih later proper.tail popped
      · have notEmpty : segments ≠ [] → segment ≠ [] := by
          intro some
          apply proper
          rw [List.dropLast_cons_of_ne_nil some]
          exact List.mem_cons_self
        rw [removeDots_name output (plain segment List.mem_cons_self) segments isDot isDots]
        by_cases last : segments = []
        · have never : cancels depth [segment] = false := by
            simp [cancels, isDots]
          rw [last, never, joined_nil, removeDots_nil]
          exact ⟨_, hanging.push (plain segment List.mem_cons_self)⟩
        · rw [cancels_name depth segments (notEmpty last) isDot isDots]
          exact ih later proper.tail (hanging.push (plain segment List.mem_cons_self))

/-! ### The beginning of a path -/

/-- Dots before the first name are dropped. -/
theorem removeDots_front {word next : List UInt8} (front : word = [dot] ∨ word = [dot, dot])
    (output : List UInt8) (segments : List (List UInt8)) :
    removeDots output (word ++ joined (next :: segments)) =
      removeDots output (next ++ joined segments) := by
  rcases front with rfl | rfl
  · rw [joined_cons, removeDots.eq_def]
    rfl
  · rw [joined_cons, removeDots.eq_def]
    rfl

/-- A name at the beginning is put out. -/
theorem removeDots_first {first : List UInt8} (output : List UInt8) (plain : slash ∉ first)
    (some : first ≠ []) (segments : List (List UInt8))
    (named : if segments = [] then (first.all fun byte => byte == dot) = false
      else first ≠ [dot] ∧ first ≠ [dot, dot]) :
    removeDots output (first ++ joined segments) =
      removeDots (output ++ first) (joined segments) := by
  obtain ⟨byte, rest, rfl⟩ := List.exists_cons_of_ne_nil some
  have different : slash ≠ byte := fun same => plain (by rw [same]; exact List.mem_cons_self)
  have restPlain : slash ∉ rest := fun member => plain (List.mem_cons_of_mem _ member)
  have notSlash : ∀ word path : List UInt8, (slash :: word).isPrefixOf (byte :: path) = false := by
    intro word path
    simp [List.isPrefixOf, different]
  have notDots : ∀ word : List UInt8, word = [dot] ∨ word = [dot, dot] →
      (word ++ [slash]).isPrefixOf (byte :: rest ++ joined segments) = false := by
    intro word dots
    rw [Bool.eq_false_iff]
    intro begins
    have slashless : slash ∉ word := by
      rcases dots with rfl | rfl
      · exact slash_notMem_dots.1
      · exact slash_notMem_dots.2
    obtain ⟨same, more⟩ := eq_of_begins plain slashless begins
    rw [if_neg more] at named
    rcases dots with rfl | rfl
    · exact named.1 same
    · exact named.2 same
  have dotOnce : [dot, slash].isPrefixOf (byte :: (rest ++ joined segments)) = false :=
    notDots [dot] (.inl rfl)
  have dotTwice : [dot, dot, slash].isPrefixOf (byte :: (rest ++ joined segments)) = false :=
    notDots [dot, dot] (.inr rfl)
  have notAll : ((byte :: (rest ++ joined segments)).all fun other => other == dot) = false := by
    cases segments with
    | nil =>
        rw [joined_nil, List.append_nil]
        exact named
    | cons next segments =>
        rw [List.all_eq_false]
        exact ⟨slash, List.mem_cons_of_mem _ (List.mem_append_right _ List.mem_cons_self),
          by decide⟩
  rw [List.cons_append, removeDots.eq_def]
  simp only [dotOnce, dotTwice, notSlash, notAll, Bool.false_eq_true, if_false, List.cons.injEq,
    different.symm, false_and, (takeWhile_joined restPlain segments).1,
    (takeWhile_joined restPlain segments).2]

/-- A path of dots is dropped. -/
theorem removeDots_onlyDots (output : List UInt8) {path : List UInt8} (plain : slash ∉ path)
    (dots : (path.all fun byte => byte == dot) = true) : removeDots output path = output := by
  have never : ∀ word : List UInt8, slash ∈ word → word.isPrefixOf path = false := by
    intro word member
    rw [Bool.eq_false_iff]
    exact fun begins => plain ((List.isPrefixOf_iff_prefix.mp begins).subset member)
  have different : ∀ word : List UInt8, slash ∈ word → path ≠ word :=
    fun word member same => plain (by rw [same]; exact member)
  cases path with
  | nil => exact removeDots_nil output
  | cons byte rest =>
      rw [removeDots.eq_def]
      simp only
      rw [never _ (by decide), never _ (by decide), never _ (by decide), never _ (by decide), dots,
        if_neg (different _ (by decide)), if_neg (different _ (by decide))]
      rfl

/-- A path that does not begin with a slash becomes rooted exactly when it vanishes. -/
theorem removeDots_relative {segments : List (List UInt8)}
    (plain : ∀ segment ∈ segments, slash ∉ segment) {first : List UInt8}
    (slashless : slash ∉ first) (proper : Proper (first :: segments)) :
    if vanishes (first :: segments) then Rooted (removeDots [] (first ++ joined segments))
    else ∃ depth, Hanging depth (removeDots [] (first ++ joined segments)) := by
  have single : ∀ name : List UInt8, name ≠ [] → slash ∉ name → Hanging 1 name := by
    intro name some slashless
    exact ⟨name, [], some, slashless, fun _ member => absurd member List.not_mem_nil, rfl,
      (List.append_nil _).symm⟩
  induction segments generalizing first with
  | nil =>
      rw [vanishes]
      by_cases dots : (first.all fun byte => byte == dot) = true
      · rw [if_pos dots, joined_nil, List.append_nil, removeDots_onlyDots [] slashless dots]
        exact rooted_nil
      · have empty : first ≠ [] := by
          rintro rfl
          exact dots rfl
        rw [if_neg dots]
        have named := removeDots_first [] slashless empty [] (by
          rw [if_pos rfl]
          exact Bool.eq_false_of_not_eq_true dots)
        rw [named, joined_nil, removeDots_nil, List.nil_append]
        exact ⟨1, single first empty slashless⟩
  | cons next segments ih =>
      have later := fun other member => plain other (List.mem_cons_of_mem _ member)
      have nextPlain := plain next List.mem_cons_self
      have some : first ≠ [] := proper first (by
        rw [List.dropLast_cons_of_ne_nil (List.cons_ne_nil _ _)]
        exact List.mem_cons_self)
      have more : next :: segments ≠ [] := List.cons_ne_nil _ _
      by_cases front : first = [dot] ∨ first = [dot, dot]
      · have skipped : vanishes (first :: next :: segments) = vanishes (next :: segments) := by
          rw [vanishes_cons first more, if_pos (.inr front)]
        rw [skipped, removeDots_front front]
        exact ih later nextPlain proper.tail
      · have named := removeDots_first [] slashless some (next :: segments) (by
          rw [if_neg (List.cons_ne_nil _ _)]
          exact not_or.mp front)
        have kept : vanishes (first :: next :: segments) = cancels 1 (next :: segments) := by
          rw [vanishes_cons first more, if_neg fun dots => dots.elim some front]
        rw [kept, named, List.nil_append]
        exact removeDots_hanging plain proper.tail (single first some slashless)

/-- The normalised path is rooted exactly when the decoded one stays inside. -/
theorem normalize_contained (path : List UInt8) :
    (Contained path → Rooted (normalize path)) ∧
      (¬ Contained path → ∃ depth, Hanging depth (normalize path)) := by
  obtain ⟨first, left, right, squeezed, split, alike, proper⟩ := splitOn_collapse path
  obtain ⟨start, segments, whole, slashless, plain, inner⟩ := exists_joined (collapse path)
  rw [squeezed, List.cons.injEq] at inner
  obtain ⟨rfl, rfl⟩ := inner
  have same : vanishes (path.splitOn slash) = vanishes (first :: left) := by
    rw [split]
    exact (alike.cons first).vanishes.symm
  rw [normalize, whole]
  by_cases absolute : path.head? = some slash
  · have empty : first = [] := by
      obtain ⟨rest, rfl⟩ := List.head?_eq_some_iff.mp absolute
      rw [splitOn_cons, if_pos rfl, List.cons.injEq] at split
      exact split.1.symm
    refine ⟨fun _ => ?_, fun outside => absurd (.inl absolute) outside⟩
    rw [empty, List.nil_append]
    exact removeDots_rooted plain rooted_nil
  · have relative : Proper (first :: left) := by
      intro segment member
      cases left with
      | nil => exact absurd member List.not_mem_nil
      | cons next left =>
          rcases List.mem_cons.mp member with rfl | member
          · rintro rfl
            cases path with
            | nil =>
                cases split
                exact absurd (alike.nil.mpr rfl) (List.cons_ne_nil _ _)
            | cons byte rest => exact absolute (by rw [eq_slash_of_splitOn split]; rfl)
          · exact proper segment member
    have normal := removeDots_relative plain slashless relative
    rw [Contained, same]
    constructor
    · rintro (begins | gone)
      · exact absurd begins absolute
      · rwa [if_pos gone] at normal
    · intro outside
      rwa [if_neg fun gone => outside (.inr gone)] at normal

/-! ## Files -/

/-- A rooted path behind the base location stays inside. -/
theorem Rooted.inside {path : List UInt8} (rooted : Rooted path) (baseLocation : List UInt8) :
    Inside baseLocation (baseLocation ++ path) := by
  obtain ⟨segments, all, rfl⟩ := rooted.segments
  rw [Inside, splitOn_joined baseLocation fun segment member => (all segment member).1,
    List.drop_left]
  exact ⟨List.prefix_append _ _, fun member => (all _ member).2 rfl⟩

/-- A path that begins with a name goes on with the last segment of the base location. -/
theorem Hanging.outside {depth : ℕ} {path : List UInt8} (hanging : Hanging depth path)
    (baseLocation : List UInt8) : ¬ Inside baseLocation (baseLocation ++ path) := by
  obtain ⟨first, segments, some, slashless, plain, -, rfl⟩ := hanging.segments
  rintro ⟨begins, -⟩
  induction baseLocation with
  | nil =>
      rw [List.nil_append, splitOn_joined first plain, splitOn_plain slashless] at begins
      exact some (List.cons_prefix_cons.mp begins).1.symm
  | cons byte baseLocation ih =>
      rw [List.cons_append, splitOn_cons, splitOn_cons] at begins
      split_ifs at begins
      · exact ih (List.cons_prefix_cons.mp begins).2
      · apply ih
        obtain ⟨short, others, -, -, -, split⟩ := exists_joined baseLocation
        obtain ⟨long, more, -, -, -, whole⟩ := exists_joined
          (baseLocation ++ (first ++ joined segments))
        rw [split, whole] at begins ⊢
        obtain ⟨same, rest⟩ := List.cons_prefix_cons.mp begins
        exact List.cons_prefix_cons.mpr ⟨(List.cons.inj same).2, rest⟩

/-- The fields behind the first line do not change the path. -/
theorem readFields_path {request after : HttpRequest} {data rest : List UInt8}
    (read : readFields request data = .ok (after, rest)) : after.path = request.path := by
  revert read
  fun_induction readFields request data with
  | case1 => exact fun read => nomatch read
  | case2 request data line more _ empty =>
      intro read
      cases read
      rfl
  | case3 => exact fun read => nomatch read
  | case4 request data line more _ some next parsed ih =>
      intro read
      rw [ih read]
      unfold parseHeader at parsed
      split at parsed
      · cases parsed
      · cases parsed
        rfl

/-- The first line of a request. -/
def requestLine (data : List UInt8) : List UInt8 := (getline maxHeaderLen data).1.getD []

/-- The path of a request that was accepted. -/
theorem readHeaders_path {unset : ℕ → UInt32} {fresh request : HttpRequest} {data rest : List UInt8}
    (read : readHeaders unset fresh data = .ok (request, rest)) :
    request.path = normalize (decodeUrl unset (requestTarget (requestLine data))) := by
  unfold readHeaders at read
  split at read
  · cases read
  · rename_i line more got
    split at read
    · cases read
    · rename_i parsed first
      rw [readFields_path read]
      unfold parseFirstLine at first
      split at first
      · cases first
      · rename_i method others found
        split at first
        · cases first
        · rename_i target version next
          split at first
          · cases first
          · cases first
            have line_ : requestLine data = line := by
              rw [requestLine, got]
              rfl
            rw [requestTarget, line_, found, Option.bind_some, next]
            rfl

/-- For every request that is accepted, the file of the document root lies inside the base
location exactly when the decoded target begins with a slash, or is empty, or nothing is left of
its beginning: it has only dot segments, or its first name is taken back by later ones. -/
theorem root_file_inside_iff (unset : ℕ → UInt32) (fresh request : HttpRequest)
    (data rest baseLocation : List UInt8)
    (accepted : readHeaders unset fresh data = .ok (request, rest)) :
    Inside baseLocation (rootFile baseLocation request) ↔
      Contained (decodeUrl unset (requestTarget (requestLine data))) := by
  rw [rootFile, readHeaders_path accepted]
  have normal := normalize_contained (decodeUrl unset (requestTarget (requestLine data)))
  constructor
  · intro inside
    by_contra outside
    obtain ⟨depth, hanging⟩ := normal.2 outside
    exact hanging.outside baseLocation inside
  · intro contained
    exact (normal.1 contained).inside baseLocation

/-! ## A request beside the document root -/

/-- The default base location, `/var/www`. -/
def varWww : List UInt8 := [47, 118, 97, 114, 47, 119, 119, 119]

/-- The request line `GET /a/%2e%2e/b HTTP/1.1`, and no headers. -/
def encodedDots : List UInt8 :=
  [71, 69, 84, 32, 47, 97, 47, 37, 50, 101, 37, 50, 101, 47, 98, 32, 72, 84, 84, 80, 47, 49, 46,
    49, 13, 10, 13, 10]

theorem root_file_inside_encoded : ∃ request rest,
    readHeaders (fun _ => 0) {} encodedDots = .ok (request, rest) ∧
      Inside varWww (rootFile varWww request) := by
  have fields : ∀ request, readFields request [13, 10] = .ok (request, []) := by
    intro request
    have line : getline maxHeaderLen [13, 10] = (some [], []) := by decide
    rw [readFields_line request line]
    rfl
  have accepted : readHeaders (fun _ => 0) {} encodedDots =
      .ok ({ path := normalize [47, 97, 47, 46, 46, 47, 98] }, []) := fields _
  exact ⟨_, _, accepted, (root_file_inside_iff _ _ _ _ _ varWww accepted).mpr (.inl rfl)⟩

/-- The request line `GET -private/secret HTTP/1.1`, and a host. -/
def siblingRequest : List UInt8 :=
  [71, 69, 84, 32, 45, 112, 114, 105, 118, 97, 116, 101, 47, 115, 101, 99, 114, 101, 116, 32, 72,
    84, 84, 80, 47, 49, 46, 49, 13, 10, 72, 111, 115, 116, 58, 32, 104, 13, 10, 13, 10]

/-- The pattern `*` matches everything, and a pattern without wildcards matches itself. -/
def matchStar (pattern text : List UInt8) : Bool := pattern == [42] || pattern == text

/-- A document root for all paths. -/
def documentRoot : Content := ⟨[.head, .get], .root, [42], [42]⟩

/-- The worker serves the file `/var/www-private/secret`, which is not in `/var/www`. -/
theorem sibling_not_inside : ∃ request rest,
    readHeaders (fun _ => 0) {} siblingRequest = .ok (request, rest) ∧
      (findContent matchStar [documentRoot] request.method request.path).map Content.type =
        some .root ∧
      ¬ Inside varWww (rootFile varWww request) := by
  have path : normalize [45, 112, 114, 105, 118, 97, 116, 101, 47, 115, 101, 99, 114, 101, 116] =
      [45, 112, 114, 105, 118, 97, 116, 101, 47, 115, 101, 99, 114, 101, 116] := by
    simp [normalize, collapse, removeDots, slash, dot]
  have fields : ∀ request, readFields request [72, 111, 115, 116, 58, 32, 104, 13, 10, 13, 10] =
      .ok ({ request with headers := request.headers.assign [72, 111, 115, 116] [104] }, []) := by
    intro request
    have host : getline maxHeaderLen [72, 111, 115, 116, 58, 32, 104, 13, 10, 13, 10] =
        (some [72, 111, 115, 116, 58, 32, 104], [13, 10]) := by decide
    have line : getline maxHeaderLen [13, 10] = (some [], []) := by decide
    have parsed : parseHeader [72, 111, 115, 116, 58, 32, 104] request =
        .ok { request with headers := request.headers.assign [72, 111, 115, 116] [104] } := rfl
    rw [readFields_line request host, parsed]
    exact readFields_line _ line
  have accepted : readHeaders (fun _ => 0) {} siblingRequest =
      .ok ({ path := normalize [45, 112, 114, 105, 118, 97, 116, 101, 47, 115, 101, 99, 114, 101,
        116], headers := SortedMap.empty.assign [72, 111, 115, 116] [104] }, []) := fields _
  rw [path] at accepted
  refine ⟨_, _, accepted, rfl, ?_⟩
  rintro ⟨begins, -⟩
  exact absurd begins (by decide)

end Join.HttpRequest
