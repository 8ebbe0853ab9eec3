import Join.Core.Splitting
import Join.Services.HttpPath
import Mathlib.Data.List.Destutter

/-!
# Normalised paths

RFC 3986 takes the dot segments out of a path by moving it, one segment after another, from
an input buffer to an output buffer. `removeDotSegments` is that procedure, and `squeezed` is
a path in which every run of slashes has become one. `HttpRequest::normalize` is the one
after the other for every path that begins with a slash.

On such a path both are a function on segments: `resolve` keeps a stack of the segments that
have been put out. What is known of the stack, that no segment on it is a dot or two dots and
that only the last may be empty, is what is known of a normalised path.
-/

set_option autoImplicit false

namespace Join.HttpRequest

open Library

/-! ## What normalising is to do -/

/-- Two bytes that are not both slashes. -/
def NotSlashes (first second : UInt8) : Prop := ¬ (first = slash ∧ second = slash)

instance : DecidableRel NotSlashes :=
  fun first second => inferInstanceAs (Decidable (¬ (first = slash ∧ second = slash)))

/-- The path with every run of slashes made one slash. -/
def squeezed (path : List UInt8) : List UInt8 := path.destutter NotSlashes

/-- The output buffer without its last segment and the slash in front of it, if any. -/
def dropSegment : List UInt8 → List UInt8
  | [] => []
  | byte :: rest => if slash ∈ rest then byte :: dropSegment rest else []

/-- What replaces a dot segment behind a slash: a slash, which is there already unless the
segment was the last. -/
def orSlash (remaining : List UInt8) : List UInt8 :=
  if remaining = [] then [slash] else remaining

theorem length_orSlash (remaining : List UInt8) :
    (orSlash remaining).length ≤ remaining.length + 1 := by
  rw [orSlash]
  split_ifs
  · exact Nat.le_add_left _ _
  · exact Nat.le_succ _

/-- A name and what remains behind it are what was there. -/
theorem length_name_remaining (rest : List UInt8) :
    (rest.takeWhile fun other => other != slash).length +
      (rest.dropWhile fun other => other != slash).length = rest.length := by
  rw [← List.length_append, List.takeWhile_append_dropWhile]

/-- The procedure of RFC 3986, section 5.2.4: from the input buffer, the second argument, to
the output buffer. -/
def removeDotSegments (output : List UInt8) : List UInt8 → List UInt8
  | [] => output
  | byte :: rest =>
      let name := rest.takeWhile fun other => other != slash
      let remaining := rest.dropWhile fun other => other != slash
      if byte = slash then
        if name = [dot] then removeDotSegments output (orSlash remaining)
        else if name = [dot, dot] then
          removeDotSegments (dropSegment output) (orSlash remaining)
        else removeDotSegments (output ++ slash :: name) remaining
      else if byte :: name = [dot] ∨ byte :: name = [dot, dot] then
        removeDotSegments output (remaining.drop 1)
      else removeDotSegments (output ++ byte :: name) remaining
termination_by path => path.length
decreasing_by
  all_goals
    have parts := length_name_remaining rest
    rw [List.length_cons]
  · rename_i named
    have bound := length_orSlash (rest.dropWhile fun other => other != slash)
    have size : (rest.takeWhile fun other => other != slash).length = 1 :=
      congrArg List.length named
    omega
  · rename_i named
    have bound := length_orSlash (rest.dropWhile fun other => other != slash)
    have size : (rest.takeWhile fun other => other != slash).length = 2 :=
      congrArg List.length named
    omega
  · omega
  · rw [List.length_drop]
    omega
  · omega

/-- The stack after a segment. -/
def push (stack : List (List UInt8)) (segment : List UInt8) : List (List UInt8) :=
  if segment = [dot] then stack
  else if segment = [dot, dot] then stack.dropLast
  else stack ++ [segment]

/-- The stack after all segments: a dot segment at the end leaves an empty one behind. -/
def resolve : List (List UInt8) → List (List UInt8) → List (List UInt8)
  | stack, [] => stack
  | stack, segment :: segments =>
      if segments = [] ∧ (segment = [dot] ∨ segment = [dot, dot]) then push stack segment ++ [[]]
      else resolve (push stack segment) segments

/-- The two loops of `HttpRequest::normalize` are given by `collapse` and `removeDots`. The
first of them replaces a pair of slashes where it stands and goes on from there. -/
def collapseLoop (path : List UInt8) (pos : ℕ) : List UInt8 :=
  match _found : Splitting.find path [slash, slash] pos with
  | none => path
  | some pos => collapseLoop (path.take pos ++ slash :: path.drop (pos + 2)) pos
termination_by path.length
decreasing_by
  have inside := occurs_le (by decide) (searchForward_some _found).2.1
  simp only [List.length_append, List.length_cons, List.length_take, List.length_drop,
    List.length_nil] at inside ⊢
  omega

/-! ## Runs of slashes -/

theorem collapse_eq_squeezed (path : List UInt8) : collapse path = squeezed path := by
  fun_induction collapse path with
  | case1 => rfl
  | case2 byte => rfl
  | case3 first second path both ih =>
    obtain ⟨rfl, rfl⟩ := both
    rw [ih, squeezed, squeezed, List.destutter_cons_cons, List.destutter_cons',
      if_neg (fun different => different ⟨rfl, rfl⟩)]
  | case4 first second path single ih =>
    have apart : NotSlashes first second := single
    rw [ih, squeezed, squeezed, List.destutter_cons_cons, List.destutter_cons', if_pos apart]

/-- Where no pair of slashes stands, nothing is collapsed. -/
theorem collapse_eq_self {path : List UInt8} (single : path.IsChain NotSlashes) :
    collapse path = path := by
  rw [collapse_eq_squeezed, squeezed, List.destutter_of_isChain _ path single]

theorem isChain_collapse (path : List UInt8) : (collapse path).IsChain NotSlashes := by
  rw [collapse_eq_squeezed]
  exact List.isChain_destutter _ path

/-- A text in front of a pair of slashes is kept. -/
theorem collapse_append {front : List UInt8} (back : List UInt8)
    (single : (front ++ [slash]).IsChain NotSlashes) :
    collapse (front ++ slash :: back) = front ++ collapse (slash :: back) := by
  induction front with
  | nil => rfl
  | cons byte front ih =>
    have later := ih (List.IsChain.tail single)
    cases front with
    | nil =>
      have apart : NotSlashes byte slash := (List.isChain_cons_cons.mp single).1
      rw [List.cons_append, List.nil_append, collapse, if_neg apart, List.cons_append,
        List.nil_append]
    | cons next front =>
      have apart : NotSlashes byte next := (List.isChain_cons_cons.mp single).1
      rw [List.cons_append, List.cons_append, collapse, if_neg apart, ← List.cons_append, later]
      rfl

/-- Where no pair of slashes is found there is none. -/
theorem isChain_of_absent {text : List UInt8}
    (absent : ∀ place, occurs [slash, slash] text place = false) : text.IsChain NotSlashes := by
  apply List.isChain_iff_forall_rel_of_append_cons_cons.mpr
  rintro first second front back rfl ⟨rfl, rfl⟩
  have here := absent front.length
  rw [occurs, List.drop_left] at here
  cases here

/-- The first loop as it stands makes every run of slashes one slash. -/
theorem collapseLoop_eq (path : List UInt8) (pos : ℕ) (inside : pos ≤ path.length) :
    collapseLoop path pos = path.take pos ++ collapse (path.drop pos) := by
  fun_induction collapseLoop path pos with
  | case1 path pos absent =>
    have single : (path.drop pos).IsChain NotSlashes := by
      apply isChain_of_absent
      intro place
      apply Bool.eq_false_iff.mpr
      intro here
      have enough := occurs_le (by decide) here
      rw [List.length_drop] at enough
      have missing := Splitting.find_none absent (pos + place) (Nat.le_add_right _ _)
        (by simp only [List.length_cons, List.length_nil] at enough; omega)
      rw [occurs, ← List.drop_drop] at missing
      rw [occurs, missing] at here
      cases here
    rw [collapse_eq_self single, List.take_append_drop]
  | case2 path pos place found ih =>
    obtain ⟨after, here, first⟩ := searchForward_some found
    have enough := occurs_le (by decide) here
    simp only [List.length_cons, List.length_nil] at enough
    have size : (path.take place).length = place := List.length_take_of_le (by omega)
    have split := drop_eq_take_append after here
    set middle := (path.drop pos).take (place - pos) with between
    have front : path.take place = path.take pos ++ middle := by
      rw [between, ← List.take_add, Nat.add_sub_cancel' after]
    have single : (middle ++ [slash]).IsChain NotSlashes := by
      apply isChain_of_absent
      intro offset
      apply Bool.eq_false_iff.mpr
      intro early
      have within := occurs_le (by decide) early
      have begins : middle ++ [slash] <+: path.drop pos := by
        rw [split]
        exact ⟨slash :: path.drop (place + 2), by simp⟩
      have there : occurs [slash, slash] path (pos + offset) = true := by
        rw [occurs_iff, ← List.drop_drop]
        exact (occurs_iff.mp early).trans (begins.drop offset)
      have long : middle.length ≤ place - pos := List.length_take_le _ _
      simp only [List.length_append, List.length_cons, List.length_nil] at within
      rw [first (pos + offset) (Nat.le_add_right _ _) (by omega)] at there
      cases there
    have kept : (path.take place ++ slash :: path.drop (place + 2)).take place =
        path.take place := List.take_left' size
    have left : (path.take place ++ slash :: path.drop (place + 2)).drop place =
        slash :: path.drop (place + 2) := List.drop_left' size
    rw [ih (by rw [List.length_append, size]; exact Nat.le_add_right _ _), kept, left, front,
      split, List.append_assoc]
    congr 1
    calc middle ++ collapse (slash :: path.drop (place + 2))
        = middle ++ collapse (slash :: slash :: path.drop (place + 2)) := by
          rw [collapse.eq_def (slash :: slash :: _)]
          simp only [and_self, if_true]
      _ = collapse (middle ++ ([slash, slash] ++ path.drop (place + 2))) :=
          (collapse_append _ single).symm

/-- The two loops of `normalize`, one after the other. -/
theorem normalize_eq_loops (path : List UInt8) :
    normalize path = removeDots [] (collapseLoop path 0) := by
  rw [normalize, collapseLoop_eq path 0 (Nat.zero_le _), List.take_zero, List.drop_zero,
    List.nil_append]

/-! ## Segments on a stack -/

/-- The last segment is followed by a slash when it is a dot segment. -/
def orEmpty (segments : List (List UInt8)) : List (List UInt8) :=
  if segments = [] then [[]] else segments

/-- Segments without slashes. -/
def Slashless (segments : List (List UInt8)) : Prop := ∀ segment ∈ segments, slash ∉ segment

theorem Slashless.tail {segment : List UInt8} {segments : List (List UInt8)}
    (plain : Slashless (segment :: segments)) : Slashless segments :=
  fun other member => plain other (List.mem_cons_of_mem _ member)

theorem Slashless.push {stack : List (List UInt8)} (plain : Slashless stack) {segment : List UInt8}
    (absent : slash ∉ segment) : Slashless (push stack segment) := by
  intro other member
  rw [HttpRequest.push] at member
  split_ifs at member
  · exact plain other member
  · exact plain other (List.mem_of_mem_dropLast member)
  · rcases List.mem_append.mp member with old | new
    · exact plain other old
    · rw [List.mem_singleton.mp new]
      exact absent

/-- A procedure from an input buffer to an output buffer that does with the segments what
`resolve` does. -/
structure Removes (run : List UInt8 → List UInt8 → List UInt8) : Prop where
  nil : ∀ output, run output [] = output
  oneDot : ∀ output segments,
    run output (joined ([dot] :: segments)) = run output (joined (orEmpty segments))
  twoDots : ∀ stack segments, Slashless stack →
    run (joined stack) (joined ([dot, dot] :: segments)) =
      run (joined stack.dropLast) (joined (orEmpty segments))
  name : ∀ output segment segments, slash ∉ segment → segment ≠ [dot] → segment ≠ [dot, dot] →
    run output (joined (segment :: segments)) = run (output ++ slash :: segment) (joined segments)

theorem joined_concat (stack : List (List UInt8)) (segment : List UInt8) :
    joined (stack ++ [segment]) = joined stack ++ slash :: segment := by
  rw [joined_append, joined_cons, joined_nil, List.append_nil]

section Removes

variable {run : List UInt8 → List UInt8 → List UInt8}

/-- A slash at the end of the input leaves an empty segment. -/
theorem Removes.last (removes : Removes run) (stack : List (List UInt8)) :
    run (joined stack) (joined [[]]) = joined (stack ++ [[]]) := by
  rw [removes.name _ _ _ List.not_mem_nil (by decide) (by decide), joined_nil, removes.nil,
    joined_concat]

/-- One segment is moved. -/
theorem Removes.step (removes : Removes run) {stack segments : List (List UInt8)}
    {segment : List UInt8} (settled : Slashless stack) (absent : slash ∉ segment) :
    run (joined stack) (joined (segment :: segments)) =
      run (joined (push stack segment))
        (joined (if segment = [dot] ∨ segment = [dot, dot] then orEmpty segments
          else segments)) := by
  rw [push]
  by_cases isDot : segment = [dot]
  · rw [if_pos isDot, if_pos (.inl isDot), isDot, removes.oneDot]
  by_cases isDots : segment = [dot, dot]
  · rw [if_neg isDot, if_pos isDots, if_pos (.inr isDots), isDots, removes.twoDots _ _ settled]
  · rw [if_neg isDot, if_neg isDots, if_neg (not_or.mpr ⟨isDot, isDots⟩),
      removes.name _ _ _ absent isDot isDots, joined_concat]

/-- What is put out are the segments that are left on the stack. -/
theorem Removes.joined (removes : Removes run) {stack segments : List (List UInt8)}
    (settled : Slashless stack) (plain : Slashless segments) :
    run (HttpRequest.joined stack) (HttpRequest.joined segments) =
      HttpRequest.joined (resolve stack segments) := by
  induction segments generalizing stack with
  | nil => exact removes.nil _
  | cons segment segments ih =>
    have absent := plain segment List.mem_cons_self
    have later := ih (settled.push absent) plain.tail
    rw [removes.step settled absent, resolve]
    by_cases isLast : segments = [] ∧ (segment = [dot] ∨ segment = [dot, dot])
    · obtain ⟨rfl, dots⟩ := isLast
      rw [if_pos dots, if_pos ⟨rfl, dots⟩]
      exact removes.last _
    · have same : (if segment = [dot] ∨ segment = [dot, dot] then orEmpty segments
          else segments) = segments := by
        split_ifs with dots
        · rw [orEmpty, if_neg fun none => isLast ⟨none, dots⟩]
        · rfl
      rw [same, if_neg isLast, later]

end Removes

/-! ### Both procedures -/

theorem removeLastSegment_joined {stack : List (List UInt8)} (plain : Slashless stack) :
    removeLastSegment (joined stack) = joined stack.dropLast := by
  rcases List.eq_nil_or_concat stack with rfl | ⟨front, last, rfl⟩
  · rfl
  · rw [List.concat_eq_append] at plain ⊢
    rw [joined_concat, List.dropLast_concat]
    exact removeLastSegment_append _
      (plain last (List.mem_append_right _ (List.mem_singleton_self _)))

theorem dropSegment_append {front segment : List UInt8} (absent : slash ∉ segment) :
    dropSegment (front ++ slash :: segment) = front := by
  induction front with
  | nil => rw [List.nil_append, dropSegment, if_neg absent]
  | cons byte front ih =>
    rw [List.cons_append, dropSegment, if_pos (List.mem_append_right _ List.mem_cons_self), ih]

theorem dropSegment_joined {stack : List (List UInt8)} (plain : Slashless stack) :
    dropSegment (joined stack) = joined stack.dropLast := by
  rcases List.eq_nil_or_concat stack with rfl | ⟨front, last, rfl⟩
  · rfl
  · rw [List.concat_eq_append] at plain ⊢
    rw [joined_concat, List.dropLast_concat]
    exact dropSegment_append
      (plain last (List.mem_append_right _ (List.mem_singleton_self _)))

/-- The second loop of `normalize` moves segments. -/
theorem removes_removeDots : Removes removeDots where
  nil := removeDots_nil
  oneDot := removeDots_dot
  twoDots stack segments plain := by
    rw [removeDots_dots, removeLastSegment_joined plain, orEmpty]
  name output segment segments absent notDot notDots :=
    removeDots_name output absent segments notDot notDots

theorem orSlash_joined (segments : List (List UInt8)) :
    orSlash (joined segments) = joined (orEmpty segments) := by
  cases segments with
  | nil => rfl
  | cons segment segments =>
    have filled : joined (segment :: segments) ≠ [] := List.cons_ne_nil _ _
    rw [orSlash, orEmpty, if_neg filled, if_neg (List.cons_ne_nil _ _)]

/-- The input begins with a slash and a segment. -/
theorem removeDotSegments_cons (output : List UInt8) {segment : List UInt8}
    (absent : slash ∉ segment) (segments : List (List UInt8)) :
    removeDotSegments output (joined (segment :: segments)) =
      if segment = [dot] then removeDotSegments output (joined (orEmpty segments))
      else if segment = [dot, dot] then
        removeDotSegments (dropSegment output) (joined (orEmpty segments))
      else removeDotSegments (output ++ slash :: segment) (joined segments) := by
  rw [joined_cons, List.cons_append, removeDotSegments]
  simp only [if_true, (takeWhile_joined absent segments).1,
    (takeWhile_joined absent segments).2, orSlash_joined]

/-- The procedure of the RFC moves segments. -/
theorem removes_removeDotSegments : Removes removeDotSegments where
  nil output := by rw [removeDotSegments]
  oneDot output segments := by
    rw [removeDotSegments_cons output (by decide) segments, if_pos rfl]
  twoDots stack segments plain := by
    rw [removeDotSegments_cons _ (by decide) segments, if_neg (by decide), if_pos rfl,
      dropSegment_joined plain]
  name output segment segments absent notDot notDots := by
    rw [removeDotSegments_cons output absent segments, if_neg notDot, if_neg notDots]

/-! ## What is left on the stack -/

/-- Segments that stay where they are. -/
def Settled (segments : List (List UInt8)) : Prop :=
  ∀ segment ∈ segments, slash ∉ segment ∧ segment ≠ [] ∧ segment ≠ [dot] ∧ segment ≠ [dot, dot]

theorem Settled.push {stack : List (List UInt8)} (settled : Settled stack)
    {segment : List UInt8} (absent : slash ∉ segment) (named : segment ≠ []) :
    Settled (push stack segment) := by
  intro other member
  rw [HttpRequest.push] at member
  split_ifs at member with isDot isDots
  · exact settled other member
  · exact settled other (List.mem_of_mem_dropLast member)
  · rcases List.mem_append.mp member with old | new
    · exact settled other old
    · rw [List.mem_singleton.mp new]
      exact ⟨absent, named, isDot, isDots⟩

/-- What is left are segments that stay, and perhaps an empty one at the end. -/
theorem resolve_settled {stack segments : List (List UInt8)} (settled : Settled stack)
    (plain : Slashless segments) (proper : Proper segments) :
    ∃ kept last, resolve stack segments = kept ++ last ∧ Settled kept ∧
      (last = [] ∨ last = [[]]) := by
  induction segments generalizing stack with
  | nil => exact ⟨stack, [], (List.append_nil _).symm, settled, .inl rfl⟩
  | cons segment segments ih =>
    have absent := plain segment List.mem_cons_self
    rw [resolve]
    split_ifs with isLast
    · refine ⟨push stack segment, [[]], rfl, settled.push absent ?_, .inr rfl⟩
      rintro rfl
      exact absurd isLast.2 (by decide)
    · by_cases empty : segment = []
      · have none : segments = [] := by
          by_contra some
          apply proper segment _ empty
          rw [List.dropLast_cons_of_ne_nil some]
          exact List.mem_cons_self
        rw [empty, none]
        exact ⟨stack, [[]], rfl, settled, .inr rfl⟩
      · exact ih (settled.push absent empty) plain.tail proper.tail

/-- Something is left of every path. -/
theorem resolve_ne_nil (stack : List (List UInt8)) {segments : List (List UInt8)}
    (some : segments ≠ []) : resolve stack segments ≠ [] := by
  induction segments generalizing stack with
  | nil => exact absurd rfl some
  | cons segment segments ih =>
    rw [resolve]
    split_ifs with isLast
    · exact List.append_ne_nil_of_right_ne_nil _ (List.cons_ne_nil _ _)
    · by_cases empty : segments = []
      · have named := not_or.mp fun dots => isLast ⟨empty, dots⟩
        rw [empty, push, if_neg named.1, if_neg named.2]
        exact List.append_ne_nil_of_right_ne_nil _ (List.cons_ne_nil _ _)
      · exact ih _ empty

/-- Segments that stay are put on the stack, and so is an empty one behind them. -/
theorem resolve_of_settled (stack : List (List UInt8)) {kept last : List (List UInt8)}
    (settled : Settled kept) (ending : last = [] ∨ last = [[]]) :
    resolve stack (kept ++ last) = stack ++ (kept ++ last) := by
  induction kept generalizing stack with
  | nil =>
    rcases ending with rfl | rfl
    · exact (List.append_nil _).symm
    · rfl
  | cons segment kept ih =>
    obtain ⟨-, -, notDot, notDots⟩ := settled segment List.mem_cons_self
    have later := ih (stack ++ [segment])
      fun other member => settled other (List.mem_cons_of_mem _ member)
    rw [List.cons_append, resolve, if_neg fun isLast => isLast.2.elim notDot notDots, push,
      if_neg notDot, if_neg notDots, later, List.append_assoc]
    rfl

/-! ## Slashes between segments -/

theorem isChain_plain {text : List UInt8} (absent : slash ∉ text) :
    text.IsChain NotSlashes := by
  apply List.isChain_iff_forall_rel_of_append_cons_cons.mpr
  rintro first second front back rfl ⟨rfl, -⟩
  exact absent (List.mem_append_right _ List.mem_cons_self)

/-- Between segments of which only the last may be empty no slash follows another. -/
theorem isChain_joined {segments : List (List UInt8)} (plain : Slashless segments)
    (proper : Proper segments) : (joined segments).IsChain NotSlashes := by
  induction segments with
  | nil => exact .nil
  | cons segment segments ih =>
    have absent := plain segment List.mem_cons_self
    have later := ih plain.tail proper.tail
    rw [joined_cons, List.cons_append]
    cases segment with
    | nil =>
      have none : segments = [] := by
        by_contra some
        apply proper [] _ rfl
        rw [List.dropLast_cons_of_ne_nil some]
        exact List.mem_cons_self
      rw [none]
      exact .singleton _
    | cons byte segment =>
      have apart : ∀ other ∈ byte :: segment, ∀ next, NotSlashes other next := by
        rintro other member next ⟨rfl, -⟩
        exact absent member
      have begins : NotSlashes slash byte := by
        rintro ⟨-, rfl⟩
        exact absent List.mem_cons_self
      rw [List.cons_append, List.isChain_cons_cons]
      refine ⟨begins, List.isChain_append.mpr ⟨isChain_plain absent, later, ?_⟩⟩
      intro other final next _
      exact apart other (List.mem_of_getLast? final) next

theorem Settled.plain {kept last : List (List UInt8)} (settled : Settled kept)
    (ending : last = [] ∨ last = [[]]) : Slashless (kept ++ last) := by
  intro segment member
  rcases List.mem_append.mp member with old | new
  · exact (settled segment old).1
  · rcases ending with rfl | rfl
    · exact absurd new List.not_mem_nil
    · rw [List.mem_singleton.mp new]
      exact List.not_mem_nil

theorem Settled.proper {kept last : List (List UInt8)} (settled : Settled kept)
    (ending : last = [] ∨ last = [[]]) : Proper (kept ++ last) := by
  intro segment member
  rcases ending with rfl | rfl
  · rw [List.append_nil] at member
    exact (settled segment (List.mem_of_mem_dropLast member)).2.1
  · rw [List.dropLast_concat] at member
    exact (settled segment member).2.1

/-! ## Normalised paths -/

/-- A path that begins with a slash, with its runs of slashes collapsed: segments of which
only the last may be empty. -/
theorem collapse_joined {path : List UInt8} (absolute : path.head? = some slash) :
    ∃ segments, collapse path = joined segments ∧ segments ≠ [] ∧ Slashless segments ∧
      Proper segments := by
  obtain ⟨first, left, right, short, split, alike, proper⟩ := splitOn_collapse path
  obtain ⟨start, segments, whole, -, plain, inner⟩ := exists_joined (collapse path)
  rw [short, List.cons.injEq] at inner
  obtain ⟨rfl, rfl⟩ := inner
  obtain ⟨rest, rfl⟩ := List.head?_eq_some_iff.mp absolute
  rw [splitOn_cons, if_pos rfl, List.cons.injEq] at split
  obtain ⟨rfl, rfl⟩ := split
  exact ⟨left, whole, fun none => splitOn_ne_nil rest (alike.nil.mp none), plain, proper⟩

/-- A path that begins with a slash is normalised as RFC 3986 says, once its runs of slashes
have been collapsed. What comes out begins with a slash, has neither a dot segment nor two
slashes in a row, and is left as it is when it is normalised again. -/
theorem normalize_absolute (path : List UInt8) (absolute : path.head? = some slash) :
    normalize path = removeDotSegments [] (squeezed path) ∧
      (normalize path).head? = some slash ∧
      [dot] ∉ (normalize path).splitOn slash ∧ [dot, dot] ∉ (normalize path).splitOn slash ∧
      ¬ [slash, slash] <:+: normalize path ∧
      normalize (normalize path) = normalize path := by
  obtain ⟨segments, whole, some, plain, proper⟩ := collapse_joined absolute
  have none : Slashless [] := fun _ member => absurd member List.not_mem_nil
  have nothing : Settled [] := fun _ member => absurd member List.not_mem_nil
  obtain ⟨kept, last, resolved, settled, ending⟩ := resolve_settled nothing plain proper
  have result : normalize path = joined (kept ++ last) := by
    rw [normalize, whole, ← resolved]
    exact removes_removeDots.joined none plain
  have clean := settled.plain ending
  have chain := isChain_joined clean (settled.proper ending)
  have split : (joined (kept ++ last)).splitOn slash = [] :: (kept ++ last) := by
    have parts := splitOn_joined [] clean
    rwa [List.nil_append] at parts
  have notDots : ∀ word, word = [dot] ∨ word = [dot, dot] →
      word ∉ (joined (kept ++ last)).splitOn slash := by
    intro word dots member
    rw [split] at member
    rcases List.mem_cons.mp member with rfl | member
    · exact absurd dots (by decide)
    · rcases List.mem_append.mp member with old | new
      · exact dots.elim (settled word old).2.2.1 (settled word old).2.2.2
      · rcases ending with rfl | rfl
        · exact absurd new List.not_mem_nil
        · rw [List.mem_singleton.mp new] at dots
          exact absurd dots (by decide)
  rw [result]
  refine ⟨?_, ?_, notDots _ (.inl rfl), notDots _ (.inr rfl), ?_, ?_⟩
  · rw [← collapse_eq_squeezed, whole, ← resolved]
    exact (removes_removeDotSegments.joined none plain).symm
  · obtain ⟨first, others, parts⟩ := List.exists_cons_of_ne_nil (resolve_ne_nil [] some)
    rw [← resolved, parts]
    rfl
  · rintro ⟨front, back, same⟩
    rw [List.append_assoc] at same
    exact List.isChain_iff_forall_rel_of_append_cons_cons.mp chain same.symm ⟨rfl, rfl⟩
  · rw [normalize, collapse_eq_self chain]
    have again := removes_removeDots.joined none clean
    rwa [resolve_of_settled [] settled ending, List.nil_append] at again

/-- `/a//./b/../c` becomes `/a/c`. -/
theorem normalize_absolute_dots :
    normalize [47, 97, 47, 47, 46, 47, 98, 47, 46, 46, 47, 99] =
      removeDotSegments [] (squeezed [47, 97, 47, 47, 46, 47, 98, 47, 46, 46, 47, 99]) :=
  (normalize_absolute [47, 97, 47, 47, 46, 47, 98, 47, 46, 46, 47, 99] rfl).1

end Join.HttpRequest
