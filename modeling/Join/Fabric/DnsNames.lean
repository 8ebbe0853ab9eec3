import Join.Fabric.DnsMessage
import Join.Library.Byte
import Mathlib.Data.List.TakeWhile

/-!
# Names on the wire

A name is written as one counted label after another with a zero byte at the end. A name
of proper labels is read back as it was. The length byte of a label may be anything below
192 for that: from there on it is taken for a compression pointer.

A name that was read, from whatever bytes and also when reading it failed, never has a
token of more than 191 bytes. So a name with a longer label is never read back, wherever
the pointer that its length byte denotes may lead.
-/

set_option autoImplicit false
set_option maxRecDepth 1024

namespace Join.DnsMessage

open Library

/-! ## The tokens of a name -/

/-- Bytes without a dot belong to the token that has been started. -/
theorem getlines_append {label : List UInt8} (plain : dot ∉ label) (token rest : List UInt8) :
    getlines token (label ++ rest) = getlines (token ++ label) rest := by
  induction label generalizing token with
  | nil => rw [List.nil_append, List.append_nil]
  | cons byte label ih =>
      rw [List.mem_cons, not_or] at plain
      rw [List.cons_append, getlines, if_neg (Ne.symm plain.1), ih plain.2, List.append_assoc,
        List.singleton_append]

theorem getlines_dot (token rest : List UInt8) :
    getlines token (dot :: rest) = token :: getlines [] rest := by
  rw [getlines, if_pos rfl]

/-- Text up to a dot is cut into tokens on its own. -/
theorem getlines_closed (token left right : List UInt8) :
    getlines token (left ++ dot :: right) = getlines token (left ++ [dot]) ++ getlines [] right := by
  induction left generalizing token with
  | nil => rw [List.nil_append, List.nil_append, getlines_dot, getlines_dot]; rfl
  | cons byte left ih =>
      rw [List.cons_append, List.cons_append, getlines, getlines]
      split_ifs with separator
      · rw [ih, List.cons_append]
      · exact ih _

/-- The tokens of proper labels are the labels. -/
theorem getlines_intercalate {labels : List (List UInt8)}
    (proper : ∀ label ∈ labels, dot ∉ label ∧ label ≠ []) :
    getlines [] ([dot].intercalate labels) = labels := by
  induction labels with
  | nil => rfl
  | cons label labels ih =>
      obtain ⟨plain, filled⟩ := proper label List.mem_cons_self
      have later := ih fun other member => proper other (List.mem_cons_of_mem _ member)
      cases labels with
      | nil =>
          have alone := getlines_append plain [] []
          rw [List.append_nil, List.nil_append, getlines] at alone
          rw [show [dot].intercalate [label] = label from by simp [List.intercalate], alone,
            if_neg (by rwa [List.isEmpty_iff])]
      | cons next labels =>
          rw [show [dot].intercalate (label :: next :: labels) =
            label ++ dot :: [dot].intercalate (next :: labels) from by simp [List.intercalate],
            getlines_append plain, List.nil_append, getlines_dot, later]

/-- A name of dot-separated labels, none of them longer than `limit`. -/
def Named (limit : ℕ) (name : List UInt8) : Prop :=
  ∃ labels : List (List UInt8), name = [dot].intercalate labels ∧
    ∀ label ∈ labels, dot ∉ label ∧ 1 ≤ label.length ∧ label.length ≤ limit

theorem Named.mono {limit larger : ℕ} {name : List UInt8} (named : Named limit name)
    (le : limit ≤ larger) : Named larger name := by
  obtain ⟨labels, rfl, proper⟩ := named
  refine ⟨labels, rfl, fun label member => ?_⟩
  obtain ⟨plain, filled, short⟩ := proper label member
  exact ⟨plain, filled, short.trans le⟩

/-! ## Names as bytes -/

/-- A counted string as it is written. -/
def counted (string : List UInt8) : List UInt8 :=
  UInt8.ofNat string.length :: string.take (UInt8.ofNat string.length).toNat

/-- A name as it is written. -/
def nameBytes (name : List UInt8) : List UInt8 := (getlines [] name).flatMap counted ++ [0]

theorem counted_of_short {string : List UInt8} (short : string.length < 256) :
    counted string = UInt8.ofNat string.length :: string := by
  rw [counted, UInt8.toNat_ofNat', Nat.mod_eq_of_lt short, List.take_length]

@[simp] theorem writeCounted_ending (string bytes : List UInt8) :
    writeCounted string (.ending bytes) = .ending (bytes ++ counted string) := by
  simp [writeCounted, counted]

theorem foldl_writeCounted (strings : List (List UInt8)) (bytes : List UInt8) :
    strings.foldl (fun data string => writeCounted string data) (.ending bytes) =
      .ending (bytes ++ strings.flatMap counted) := by
  induction strings generalizing bytes with
  | nil => simp
  | cons string strings ih => simp [ih]

@[simp] theorem encodeName_ending (name bytes : List UInt8) :
    encodeName name (.ending bytes) = .ending (bytes ++ nameBytes name) := by
  rw [encodeName, foldl_writeCounted, OutStream.write_ending, nameBytes, List.append_assoc]

theorem nameBytes_intercalate {labels : List (List UInt8)}
    (proper : ∀ label ∈ labels, dot ∉ label ∧ label ≠ []) :
    nameBytes ([dot].intercalate labels) = labels.flatMap counted ++ [0] := by
  rw [nameBytes, getlines_intercalate proper]

/-! ## Reading labels -/

/-- The two upper bits of a length byte are both set from 192 on. -/
theorem pointer_iff (first : UInt8) : first &&& 0xC0 = 0xC0 ↔ 192 ≤ first.toNat := by
  revert first
  decide

variable {depth : ℕ} {name before rest : List UInt8}

/-- The zero byte ends a name. -/
theorem decodeName_zero (few : depth ≤ 10) :
    decodeName depth name (.between before (0 :: rest)) =
      (true, dropDot name, .between (before ++ [0]) rest) := by
  rw [decodeName, if_neg (by omega)]
  simp

/-- A label is added to the name, with a dot after it. -/
theorem decodeName_label (few : depth ≤ 10) {label : List UInt8} (filled : 1 ≤ label.length)
    (short : label.length ≤ 191) :
    decodeName depth name (.between before (counted label ++ rest)) =
      decodeName depth (name ++ label ++ [dot]) (.between (before ++ counted label) rest) := by
  have size : (UInt8.ofNat label.length).toNat = label.length := by
    rw [UInt8.toNat_ofNat', Nat.mod_eq_of_lt (by omega)]
  have head : (InStream.between before (counted label ++ rest)).read 1 =
      ([UInt8.ofNat label.length], .between (before ++ [UInt8.ofNat label.length])
        (label ++ rest)) := by
    rw [counted_of_short (by omega), List.cons_append, InStream.read_one]
  have body : (InStream.between (before ++ [UInt8.ofNat label.length]) (label ++ rest)).read
      (UInt8.ofNat label.length).toNat = (label, .between (before ++ counted label) rest) := by
    rw [size, InStream.read_between, counted_of_short (by omega), List.append_assoc,
      List.singleton_append]
  have literal : ¬ UInt8.ofNat label.length &&& 0xC0 = 0xC0 := by
    rw [pointer_iff, size]
    omega
  have nonzero : ¬ UInt8.ofNat label.length = 0 := by
    intro zero
    rw [zero] at size
    exact absurd size (by simp; omega)
  rw [decodeName, if_neg (by omega)]
  simp only [head, InStream.between_failed, Bool.false_eq_true, if_false, List.headD_cons,
    if_neg literal, if_neg nonzero, body, dite_false]
  rw [overwrite_of_length_le (by rw [List.length_replicate, size])]

/-- Labels in a row are added one after the other. -/
theorem decodeName_labels (few : depth ≤ 10) {labels : List (List UInt8)}
    (proper : ∀ label ∈ labels, 1 ≤ label.length ∧ label.length ≤ 191) :
    decodeName depth name (.between before (labels.flatMap counted ++ rest)) =
      decodeName depth (name ++ labels.flatMap (· ++ [dot]))
        (.between (before ++ labels.flatMap counted) rest) := by
  induction labels generalizing name before with
  | nil => simp
  | cons label labels ih =>
      obtain ⟨filled, short⟩ := proper label List.mem_cons_self
      have later := fun other member => proper other (List.mem_cons_of_mem _ member)
      rw [List.flatMap_cons, List.append_assoc, decodeName_label few filled short, ih later,
        List.flatMap_cons, List.append_assoc, List.append_assoc, List.append_assoc,
        List.append_assoc]

/-- Taking the last dot away leaves the labels with dots between them. -/
theorem dropDot_flatMap (labels : List (List UInt8)) :
    dropDot (labels.flatMap (· ++ [dot])) = [dot].intercalate labels := by
  have closed (first : List UInt8) (others : List (List UInt8)) :
      (first :: others).flatMap (· ++ [dot]) = [dot].intercalate (first :: others) ++ [dot] := by
    induction others generalizing first with
    | nil => simp [List.intercalate]
    | cons next others ih =>
        rw [List.flatMap_cons, ih next]
        simp [List.intercalate]
  cases labels with
  | nil => rfl
  | cons first others => rw [closed, dropDot, if_pos (by simp), List.dropLast_concat]

/-- A name of labels below 192 bytes is read back. -/
theorem decodeName_named (named : Named 191 name) :
    decodeName 0 [] (.between before (nameBytes name ++ rest)) =
      (true, name, .between (before ++ nameBytes name) rest) := by
  obtain ⟨labels, rfl, proper⟩ := named
  have sizes := fun label member => (proper label member).2
  have tokens := nameBytes_intercalate fun label member =>
    ⟨(proper label member).1, List.ne_nil_of_length_pos (proper label member).2.1⟩
  rw [tokens, List.append_assoc, decodeName_labels (Nat.zero_le _) sizes, List.singleton_append,
    decodeName_zero (Nat.zero_le _), List.nil_append, dropDot_flatMap, List.append_assoc]

/-! ## Names that are not read back -/

/-- No token of the name is longer than a label can be. -/
def Short (name : List UInt8) : Prop := ∀ token ∈ getlines [] name, token.length ≤ 191

theorem length_of_mem_getlines {token text found : List UInt8} (member : found ∈ getlines token text) :
    found.length ≤ token.length + text.length := by
  induction text generalizing token with
  | nil =>
      rw [getlines] at member
      split_ifs at member with empty
      · exact absurd member List.not_mem_nil
      · rw [List.mem_singleton.mp member]
        exact Nat.le_add_right _ _
  | cons byte text ih =>
      rw [getlines] at member
      rw [List.length_cons]
      split_ifs at member with separator
      · rcases List.mem_cons.mp member with rfl | later
        · exact Nat.le_add_right _ _
        · have bound := ih later
          rw [List.length_nil] at bound
          omega
      · have bound := ih member
        rw [List.length_append, List.length_singleton] at bound
        omega

/-- The dot at the end of a text is in no token. -/
theorem length_of_mem_getlines_dot {token text found : List UInt8}
    (member : found ∈ getlines token (text ++ [dot])) : found.length ≤ token.length + text.length := by
  induction text generalizing token with
  | nil =>
      rw [List.nil_append, getlines_dot, getlines, List.isEmpty_nil, if_pos rfl,
        List.mem_singleton] at member
      rw [member]
      exact Nat.le_add_right _ _
  | cons byte text ih =>
      rw [List.cons_append, getlines] at member
      rw [List.length_cons]
      split_ifs at member with separator
      · rcases List.mem_cons.mp member with rfl | later
        · exact Nat.le_add_right _ _
        · have bound := ih later
          rw [List.length_nil] at bound
          omega
      · have bound := ih member
        rw [List.length_append, List.length_singleton] at bound
        omega

/-- A dot at the end adds at most an empty token. -/
theorem mem_getlines_dot {token text found : List UInt8} (member : found ∈ getlines token text) :
    found ∈ getlines token (text ++ [dot]) := by
  induction text generalizing token with
  | nil =>
      rw [getlines] at member
      split_ifs at member with empty
      · exact absurd member List.not_mem_nil
      · rw [List.mem_singleton.mp member, List.nil_append, getlines_dot]
        exact List.mem_cons_self
  | cons byte text ih =>
      rw [getlines] at member
      rw [List.cons_append, getlines]
      split_ifs at member ⊢ with separator
      · rcases List.mem_cons.mp member with rfl | later
        · exact List.mem_cons_self
        · exact List.mem_cons_of_mem _ (ih later)
      · exact ih member

/-- A name under construction: empty, or with a dot at its end. -/
def Closed (name : List UInt8) : Prop := name = [] ∨ ∃ text, name = text ++ [dot]

theorem Closed.getlines_append {name : List UInt8} (closed : Closed name) (text : List UInt8) :
    getlines [] (name ++ text) = getlines [] name ++ getlines [] text := by
  rcases closed with rfl | ⟨front, rfl⟩
  · rfl
  · rw [List.append_assoc, List.singleton_append, getlines_closed]

theorem Short.append {name label : List UInt8} (short : Short name) (closed : Closed name)
    (few : label.length ≤ 191) : Short (name ++ label) := by
  intro token member
  rw [closed.getlines_append, List.mem_append] at member
  rcases member with early | late
  · exact short token early
  · have bound := length_of_mem_getlines late
    rw [List.length_nil] at bound
    omega

theorem Short.append_dot {name label : List UInt8} (short : Short name) (closed : Closed name)
    (few : label.length ≤ 191) : Short (name ++ label ++ [dot]) := by
  intro token member
  rw [List.append_assoc, closed.getlines_append, List.mem_append] at member
  rcases member with early | late
  · exact short token early
  · have bound := length_of_mem_getlines_dot late
    rw [List.length_nil] at bound
    omega

theorem dropDot_concat (text : List UInt8) : dropDot (text ++ [dot]) = text := by
  rw [dropDot, if_pos (by simp), List.dropLast_concat]

theorem Short.dropDot {name : List UInt8} (short : Short name) (closed : Closed name) :
    Short (dropDot name) := by
  rcases closed with rfl | ⟨front, rfl⟩
  · exact short
  · rw [dropDot_concat]
    exact fun token member => short token (mem_getlines_dot member)

theorem length_overwrite_replicate {count : ℕ} {got : List UInt8} (few : got.length ≤ count) :
    (overwrite (List.replicate count 0) got).length = count := by
  rw [overwrite, List.length_append, List.length_drop, List.length_replicate]
  omega

/-- The bytes a label adds to the name, whether the stream holds them or not, are as many
as its length byte says. -/
theorem length_label {data : InStream} {first : UInt8} :
    (overwrite (List.replicate first.toNat 0) (data.read first.toNat).1).length = first.toNat :=
  length_overwrite_replicate InStream.read_length_le

/-- A length byte that is not a pointer is below 192. -/
theorem length_label_le {data : InStream} {first : UInt8} (literal : ¬ first &&& 0xC0 = 0xC0) :
    (overwrite (List.replicate first.toNat 0) (data.read first.toNat).1).length ≤ 191 := by
  rw [pointer_iff] at literal
  rw [length_label]
  omega

/-- How a name comes about: it stays as it is, loses the dot at its end, is left with a label
that the stream cuts off, or goes on after a label. -/
theorem decodeName_rule {motive : List UInt8 → List UInt8 → Prop}
    (stays : ∀ name, motive name name) (ends : ∀ name, motive name (dropDot name))
    (breaks : ∀ name label, label.length ≤ 191 → motive name (name ++ label))
    (goes : ∀ name label result, label.length ≤ 191 → motive (name ++ label ++ [dot]) result →
      motive name result)
    (depth : ℕ) (name : List UInt8) (data : InStream) :
    motive name (decodeName depth name data).2.1 := by
  fun_induction decodeName depth name data with
  | case1 depth name data deep => exact stays name
  | case2 depth name data shallow head ended => exact stays name
  | case3 depth name data shallow head more first pointer tail ended => exact stays name
  | case4 depth name data shallow head more first pointer tail present second ptr saved inner
      found ih => exact ih
  | case5 depth name data shallow head more first pointer tail present second ptr inner
      lost ih => exact ih
  | case6 depth name data shallow head more first literal zero => exact ends name
  | case7 depth name data shallow head more first literal nonzero label longer short =>
      exact breaks name _ (length_label_le literal)
  | case8 depth name data shallow head more first literal nonzero label longer short ih =>
      exact goes name _ _ (length_label_le literal) ih

/-- Whatever is read, no token of it is longer than a label can be. -/
theorem short_decodeName (depth : ℕ) (data : InStream) : Short (decodeName depth [] data).2.1 := by
  have kept : ∀ name, Closed name → Short name → Short (decodeName depth name data).2.1 := by
    intro name
    refine decodeName_rule (motive := fun name result => Closed name → Short name → Short result)
      ?_ ?_ ?_ ?_ depth name data
    · exact fun _ _ short => short
    · exact fun _ closed short => short.dropDot closed
    · exact fun _ _ few closed short => short.append closed few
    · exact fun _ _ _ few ih closed short => ih (.inr ⟨_, rfl⟩) (short.append_dot closed few)
  exact kept [] (.inl rfl) fun token member => absurd member List.not_mem_nil

/-- What has been read of a name stays, up to the dot at its end. -/
theorem decodeName_extends (depth : ℕ) (text : List UInt8) (data : InStream) :
    text ++ [dot] <+: (decodeName depth (text ++ [dot]) data).2.1 ∨
      (decodeName depth (text ++ [dot]) data).2.1 = text := by
  have kept : ∀ name, text ++ [dot] <+: name → text ++ [dot] <+: (decodeName depth name data).2.1 ∨
      (decodeName depth name data).2.1 = text := by
    intro name
    refine decodeName_rule (motive := fun name result => text ++ [dot] <+: name →
      text ++ [dot] <+: result ∨ result = text) ?_ ?_ ?_ ?_ depth name data
    · exact fun _ start => .inl start
    · rintro _ ⟨more, rfl⟩
      cases more using List.reverseRecOn with
      | nil => exact .inr (by rw [List.append_nil, dropDot_concat])
      | append_singleton front last =>
          refine .inl ?_
          rw [dropDot]
          split_ifs
          · rw [← List.append_assoc, List.dropLast_concat]
            exact List.prefix_append _ _
          · exact List.prefix_append _ _
    · exact fun _ _ _ start => .inl (start.trans (List.prefix_append _ _))
    · intro name label result few ih start
      rw [List.append_assoc] at ih
      exact ih (start.trans (List.prefix_append _ _))
  exact kept _ List.prefix_rfl

/-! ### The tokens of a name put together again -/

theorem intercalate_cons {first : List UInt8} {others : List (List UInt8)} (more : others ≠ []) :
    [dot].intercalate (first :: others) = first ++ dot :: [dot].intercalate others := by
  cases others with
  | nil => exact absurd rfl more
  | cons next others => simp [List.intercalate]

/-- A name is its tokens with dots between them, and maybe a dot at its end. -/
theorem intercalate_getlines (token text : List UInt8) :
    [dot].intercalate (getlines token text) <+: token ++ text := by
  induction text generalizing token with
  | nil =>
      rw [getlines]
      split_ifs with empty
      · exact List.nil_prefix
      · rw [List.append_nil]
        simp [List.intercalate]
  | cons byte text ih =>
      rw [getlines]
      split_ifs with separator
      · subst separator
        by_cases last : getlines [] text = []
        · rw [last, show [dot].intercalate [token] = token from by simp [List.intercalate]]
          exact List.prefix_append _ _
        · rw [intercalate_cons last, List.prefix_append_right_inj, List.cons_prefix_cons]
          exact ⟨rfl, ih []⟩
      · have shifted := ih (token ++ [byte])
        rwa [List.append_assoc, List.singleton_append] at shifted

theorem intercalate_front {front : List (List UInt8)} (others : List (List UInt8)) :
    [dot].intercalate front <+: [dot].intercalate (front ++ others) := by
  induction front with
  | nil => exact List.nil_prefix
  | cons first front ih =>
      by_cases last : front = []
      · subst last
        rw [show [dot].intercalate [first] = first from by simp [List.intercalate]]
        by_cases none : others = []
        · subst none
          rw [List.append_nil, show [dot].intercalate [first] = first from by simp [List.intercalate]]
        · rw [List.singleton_append, intercalate_cons none]
          exact List.prefix_append _ _
      · rw [List.cons_append, intercalate_cons last,
          intercalate_cons (List.append_ne_nil_of_left_ne_nil last _),
          List.prefix_append_right_inj, List.cons_prefix_cons]
        exact ⟨rfl, ih⟩

theorem dot_notMem_of_mem_getlines {token text found : List UInt8} (plain : dot ∉ token)
    (member : found ∈ getlines token text) : dot ∉ found := by
  induction text generalizing token with
  | nil =>
      rw [getlines] at member
      split_ifs at member with empty
      · exact absurd member List.not_mem_nil
      · rwa [List.mem_singleton.mp member]
  | cons byte text ih =>
      rw [getlines] at member
      split_ifs at member with separator
      · rcases List.mem_cons.mp member with rfl | later
        · exact plain
        · exact ih List.not_mem_nil later
      · refine ih ?_ member
        rw [List.mem_append, List.mem_singleton, not_or]
        exact ⟨plain, fun same => separator same.symm⟩

/-- A name without long tokens is read up to its first empty token. -/
theorem decodeName_of_short (short : Short name) : ∃ found after,
    decodeName 0 [] (.between before (nameBytes name ++ rest)) = (true, found, after) ∧
      found <+: name ∧ (found = name → Named 191 name) := by
  have joined := intercalate_getlines [] name
  rw [List.nil_append] at joined
  have plain : ∀ token ∈ getlines [] name, dot ∉ token :=
    fun token => dot_notMem_of_mem_getlines List.not_mem_nil
  by_cases gap : [] ∈ getlines [] name
  · obtain ⟨front, others, split, filled⟩ := List.eq_append_cons_of_mem gap
    have members : ∀ token ∈ front, token ∈ getlines [] name := by
      intro token member
      rw [split]
      exact List.mem_append_left _ member
    have sizes : ∀ token ∈ front, 1 ≤ token.length ∧ token.length ≤ 191 := by
      intro token member
      refine ⟨List.length_pos_of_ne_nil ?_, short token (members token member)⟩
      rintro rfl
      exact filled member
    refine ⟨[dot].intercalate front, .between (before ++ front.flatMap counted ++ [0])
      (others.flatMap counted ++ ([0] ++ rest)), ?_, ?_, ?_⟩
    · rw [nameBytes, split, List.flatMap_append, List.append_assoc, List.append_assoc,
        decodeName_labels (Nat.zero_le _) sizes, List.flatMap_cons,
        show counted [] = [0] from rfl, List.append_assoc, List.singleton_append,
        decodeName_zero (Nat.zero_le _), List.nil_append, dropDot_flatMap]
    · rw [split] at joined
      exact (intercalate_front _).trans joined
    · intro whole
      have tokens := getlines_intercalate fun token member =>
        ⟨plain token (members token member), List.ne_nil_of_length_pos (sizes token member).1⟩
      rw [whole, split] at tokens
      exact absurd (List.append_right_eq_self.mp tokens) (List.cons_ne_nil _ _)
  · have sizes : ∀ token ∈ getlines [] name, 1 ≤ token.length ∧ token.length ≤ 191 := by
      intro token member
      refine ⟨List.length_pos_of_ne_nil ?_, short token member⟩
      rintro rfl
      exact gap member
    refine ⟨[dot].intercalate (getlines [] name), .between
      (before ++ (getlines [] name).flatMap counted ++ [0]) rest, ?_, joined, ?_⟩
    · rw [nameBytes, List.append_assoc, decodeName_labels (Nat.zero_le _) sizes,
        List.singleton_append, decodeName_zero (Nat.zero_le _), List.nil_append, dropDot_flatMap]
    · exact fun whole => ⟨_, whole.symm, fun token member => ⟨plain token member, sizes token member⟩⟩

/-- A name that is read back is made of labels below 192 bytes. -/
theorem named_of_decodeName {after : InStream}
    (back : decodeName 0 [] (.between before (nameBytes name ++ rest)) = (true, name, after)) :
    Named 191 name := by
  have short := short_decodeName 0 (.between before (nameBytes name ++ rest))
  rw [back] at short
  obtain ⟨found, later, read, -, named⟩ : ∃ found later,
      decodeName 0 [] (.between before (nameBytes name ++ rest)) = (true, found, later) ∧
        found <+: name ∧ (found = name → Named 191 name) := decodeName_of_short short
  rw [back, Prod.mk.injEq, Prod.mk.injEq] at read
  exact named read.2.1.symm

/-! ## Mail addresses -/

theorem length_replaceFirst (old new : UInt8) (text : List UInt8) :
    (replaceFirst old new text).length = text.length := by
  induction text with
  | nil => rfl
  | cons byte text ih =>
      rw [replaceFirst]
      split_ifs
      · rfl
      · rw [List.length_cons, List.length_cons, ih]

theorem replaceFirst_of_notMem {old new : UInt8} {text : List UInt8} (absent : old ∉ text) :
    replaceFirst old new text = text := by
  induction text with
  | nil => rfl
  | cons byte text ih =>
      rw [List.mem_cons, not_or] at absent
      rw [replaceFirst, if_neg (Ne.symm absent.1), ih absent.2]

theorem replaceFirst_append {old new : UInt8} {front : List UInt8} (absent : old ∉ front)
    (back : List UInt8) : replaceFirst old new (front ++ old :: back) = front ++ new :: back := by
  induction front with
  | nil => rw [List.nil_append, replaceFirst, if_pos rfl, List.nil_append]
  | cons byte front ih =>
      rw [List.mem_cons, not_or] at absent
      rw [List.cons_append, replaceFirst, if_neg (Ne.symm absent.1), ih absent.2, List.cons_append]

/-- A token that has been started comes out at least as long. -/
theorem exists_getlines_of_started (token : List UInt8) (started : token ≠ []) (text : List UInt8) :
    ∃ found ∈ getlines token text, token.length ≤ found.length := by
  induction text generalizing token with
  | nil =>
      rw [getlines, if_neg (by rwa [List.isEmpty_iff])]
      exact ⟨token, List.mem_singleton_self _, le_rfl⟩
  | cons byte text ih =>
      rw [getlines]
      split_ifs
      · exact ⟨token, List.mem_cons_self, le_rfl⟩
      · obtain ⟨found, member, longer⟩ := ih (token ++ [byte]) (by simp)
        rw [List.length_append] at longer
        exact ⟨found, member, by omega⟩

/-- Starting with a longer token makes no token shorter. -/
theorem exists_getlines_longer (extra : List UInt8) {token text found : List UInt8}
    (member : found ∈ getlines token text) :
    ∃ longer ∈ getlines (extra ++ token) text, found.length ≤ longer.length := by
  induction text generalizing token with
  | nil =>
      rw [getlines] at member
      split_ifs at member with empty
      · exact absurd member List.not_mem_nil
      · rw [List.isEmpty_iff] at empty
        rw [getlines, if_neg (by rw [List.isEmpty_iff]; simp [empty]), List.mem_singleton.mp member]
        exact ⟨_, List.mem_singleton_self _, by simp⟩
  | cons byte text ih =>
      rw [getlines] at member ⊢
      split_ifs at member ⊢
      · rcases List.mem_cons.mp member with rfl | later
        · exact ⟨_, List.mem_cons_self, by simp⟩
        · exact ⟨found, List.mem_cons_of_mem _ later, le_rfl⟩
      · rw [List.append_assoc]
        exact ih member

/-- Putting a dot for another byte makes no token longer. -/
theorem length_getlines_at {limit : ℕ} {front back : List UInt8} (token : List UInt8)
    (bound : ∀ found ∈ getlines token (front ++ atSign :: back), found.length ≤ limit) :
    ∀ found ∈ getlines token (front ++ dot :: back), found.length ≤ limit := by
  induction front generalizing token with
  | nil =>
      rw [List.nil_append, getlines, if_neg (by decide)] at bound
      rw [List.nil_append, getlines_dot]
      intro found member
      rcases List.mem_cons.mp member with rfl | later
      · obtain ⟨longer, present, le⟩ := exists_getlines_of_started (found ++ [atSign]) (by simp) back
        rw [List.length_append] at le
        exact (Nat.le_of_add_right_le le).trans (bound longer present)
      · obtain ⟨longer, present, le⟩ := exists_getlines_longer (token ++ [atSign]) later
        rw [List.append_nil] at present
        exact le.trans (bound longer present)
  | cons byte front ih =>
      rw [List.cons_append, getlines] at bound ⊢
      split_ifs at bound ⊢
      · intro found member
        rcases List.mem_cons.mp member with rfl | later
        · exact bound found List.mem_cons_self
        · exact ih [] (fun other inside => bound other (List.mem_cons_of_mem _ inside)) found later
      · exact ih _ bound

theorem short_replaceFirst {mail : List UInt8} (short : Short mail) :
    Short (replaceFirst atSign dot mail) := by
  by_cases present : atSign ∈ mail
  · obtain ⟨front, back, rfl, absent⟩ := List.eq_append_cons_of_mem present
    rw [replaceFirst_append absent]
    exact length_getlines_at [] short
  · rwa [replaceFirst_of_notMem present]

/-- A mail address whose name has no label longer than `limit`, and whose local part has no
dot. -/
def MailNamed (limit : ℕ) (mail : List UInt8) : Prop :=
  Named limit (replaceFirst atSign dot mail) ∧ dot ∉ mail.takeWhile (· ≠ atSign)

theorem MailNamed.mono {limit larger : ℕ} {mail : List UInt8} (named : MailNamed limit mail)
    (le : limit ≤ larger) : MailNamed larger mail := ⟨named.1.mono le, named.2⟩

theorem takeWhile_at {front : List UInt8} (absent : atSign ∉ front) (back : List UInt8) :
    (front ++ atSign :: back).takeWhile (· ≠ atSign) = front := by
  rw [List.takeWhile_append_of_pos, List.takeWhile_cons_of_neg (by simp), List.append_nil]
  intro byte member
  simp only [ne_eq, decide_not, Bool.not_eq_eq_eq_not, Bool.not_true, decide_eq_false_iff_not]
  rintro rfl
  exact absent member

theorem takeWhile_of_notMem {mail : List UInt8} (absent : atSign ∉ mail) :
    mail.takeWhile (· ≠ atSign) = mail := by
  rw [List.takeWhile_eq_self_iff]
  intro byte member
  simp only [ne_eq, decide_not, Bool.not_eq_eq_eq_not, Bool.not_true, decide_eq_false_iff_not]
  rintro rfl
  exact absent member

/-- The first dot of the name of a mail address is where its `@` was exactly when there is
no dot before. -/
theorem replaceFirst_replaceFirst (mail : List UInt8) :
    replaceFirst dot atSign (replaceFirst atSign dot mail) = mail ↔
      dot ∉ mail.takeWhile (· ≠ atSign) := by
  by_cases present : atSign ∈ mail
  · obtain ⟨front, back, rfl, absent⟩ := List.eq_append_cons_of_mem present
    rw [replaceFirst_append absent, takeWhile_at absent]
    constructor
    · intro back dotted
      obtain ⟨early, late, rfl, plain⟩ := List.eq_append_cons_of_mem dotted
      rw [List.append_assoc, List.cons_append, replaceFirst_append plain, List.append_assoc,
        List.append_cancel_left_eq, List.cons_append, List.cons.injEq] at back
      exact absurd back.1 (by decide)
    · exact fun plain => replaceFirst_append plain _
  · rw [replaceFirst_of_notMem present, takeWhile_of_notMem present]
    constructor
    · intro back dotted
      obtain ⟨early, late, rfl, plain⟩ := List.eq_append_cons_of_mem dotted
      rw [replaceFirst_append plain, List.append_cancel_left_eq, List.cons.injEq] at back
      exact absurd back.1 (by decide)
    · exact replaceFirst_of_notMem

/-- A proper mail address is read back. -/
theorem decodeMail_named {mail : List UInt8} (named : MailNamed 191 mail) :
    decodeMail (.between before (nameBytes (replaceFirst atSign dot mail) ++ rest)) =
      (mail, .between (before ++ nameBytes (replaceFirst atSign dot mail)) rest) := by
  rw [decodeMail, decodeName_named named.1]
  simp only [if_true, (replaceFirst_replaceFirst mail).mpr named.2]

/-- A mail address whose name has a long label is not read back: the label is read as a
pointer or cut, and no name that is read has such a token. -/
theorem decodeMail_of_not_short {mail : List UInt8} (long : ¬ Short (replaceFirst atSign dot mail)) :
    (decodeMail (.between before (nameBytes (replaceFirst atSign dot mail) ++ rest))).1 ≠ mail := by
  intro back
  set data := InStream.between before (nameBytes (replaceFirst atSign dot mail) ++ rest) with stream
  have short := short_decodeName 0 data
  rw [decodeMail] at back
  generalize outcome : decodeName 0 [] data = decoded at back short
  split_ifs at back with success
  · by_cases dotted : dot ∈ decoded.2.1
    · obtain ⟨front, later, split, plain⟩ := List.eq_append_cons_of_mem dotted
      dsimp only at back
      rw [split, replaceFirst_append plain] at back
      by_cases present : atSign ∈ front
      · -- The `@` that is replaced stands before the dot that is put back.
        obtain ⟨user, host, rfl, absent⟩ := List.eq_append_cons_of_mem present
        have unmarked : dot ∉ user := fun member => plain (List.mem_append_left _ member)
        have written : replaceFirst atSign dot mail = user ++ dot :: (host ++ atSign :: later) := by
          rw [← back, List.append_assoc, List.cons_append, replaceFirst_append absent]
        have small : user.length ≤ 191 := by
          have first := short (user ++ atSign :: host) (by
            rw [split, getlines_append plain, List.nil_append, getlines_dot]
            exact List.mem_cons_self)
          rw [List.length_append] at first
          omega
        have tokens : nameBytes (replaceFirst atSign dot mail) =
            counted user ++ nameBytes (host ++ atSign :: later) := by
          rw [written, nameBytes, getlines_append unmarked, List.nil_append, getlines_dot,
            List.flatMap_cons, List.append_assoc, nameBytes]
        rw [stream, tokens, List.append_assoc] at outcome
        by_cases empty : user = []
        · subst empty
          rw [show counted [] = [0] from rfl, List.singleton_append,
            decodeName_zero (Nat.zero_le _)] at outcome
          rw [← outcome] at split
          exact absurd split (by simp [dropDot])
        · rw [decodeName_label (Nat.zero_le _) (List.length_pos_of_ne_nil empty) small,
            List.nil_append] at outcome
          have kept := decodeName_extends 0 user
            (.between (before ++ counted user) (nameBytes (host ++ atSign :: later) ++ rest))
          rw [outcome, split] at kept
          rcases kept with start | same
          · rw [List.append_assoc, List.prefix_append_right_inj, List.cons_append,
              List.cons_prefix_cons] at start
            exact absurd start.1 (by decide)
          · exact absurd (congrArg List.length same) (by simp)
      · apply long
        rw [← back, replaceFirst_append present, ← split]
        exact short
    · rw [replaceFirst_of_notMem dotted] at back
      rw [back] at short
      exact long (short_replaceFirst short)
  · rw [back] at short
    exact long (short_replaceFirst short)

/-- A mail address that is read back is a proper one, also where reading it failed. -/
theorem mailNamed_of_decodeMail {mail : List UInt8}
    (back : (decodeMail (.between before
      (nameBytes (replaceFirst atSign dot mail) ++ rest))).1 = mail) : MailNamed 191 mail := by
  by_cases short : Short (replaceFirst atSign dot mail)
  · obtain ⟨found, later, read, start, named⟩ : ∃ found later,
        decodeName 0 [] (.between before (nameBytes (replaceFirst atSign dot mail) ++ rest)) =
          (true, found, later) ∧ found <+: replaceFirst atSign dot mail ∧
          (found = replaceFirst atSign dot mail → Named 191 (replaceFirst atSign dot mail)) :=
      decodeName_of_short short
    rw [decodeMail, read, if_pos rfl] at back
    have whole : found = replaceFirst atSign dot mail := by
      apply start.eq_of_length
      rw [length_replaceFirst, ← congrArg List.length back, length_replaceFirst]
    subst whole
    exact ⟨named rfl, (replaceFirst_replaceFirst mail).mp back⟩
  · exact absurd back (decodeMail_of_not_short short)

end Join.DnsMessage
