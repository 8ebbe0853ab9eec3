import Join.Fabric.DhcpMessage
import Mathlib.Logic.Function.Basic

/-!
# Option lists stay well typed

Whatever is done to a number of option lists, each of them stays well typed: an option is
described, its value has the type of the description and lies in its range, and no code
occurs twice. A list that is read from the wire is no exception, because the decoder puts
its options into the list by `insert`, which converts them by the same descriptions.

`serialize` takes the type of a value from the description too, so it never meets a value
of another type.
-/

set_option autoImplicit false

namespace Join.DhcpMessage

open Library DhcpOption

variable {parse : Parse} {options : DhcpOption}

/-! ## The options of a byte string -/

/-- The options that stand in a byte string, up to the place where the decoder stops. -/
def wireOptions : List UInt8 → List (UInt8 × List UInt8)
  | [] => []
  | code :: data =>
      if code = pad then wireOptions data
      else if code = endOfOptions then []
      else
        match data with
        | [] => []
        | size :: data =>
            if data.length < size.toNat then []
            else (code, data.take size.toNat) :: wireOptions (data.drop size.toNat)
termination_by data => data.length
decreasing_by all_goals simp only [List.length_cons, List.length_drop]; omega

/-- The value that an option on the wire is converted to, if it is accepted. -/
def arrived (parse : Parse) (option : UInt8 × List UInt8) : Option DhcpOptionValue :=
  (describe option.1).bind fun info =>
    (received info.type option.2).bind fun value => convertTo parse info value

/-- The decoder goes through the options of the byte string. -/
theorem deserializeOptions_eq_foldl (parse : Parse) (options : DhcpOption) (data : List UInt8) :
    (deserializeOptions parse options data).2 =
      (wireOptions data).foldl
        (fun options option => deserializeOption parse option.1 option.2 options) options := by
  fun_induction deserializeOptions parse options data with
  | case1 options => rw [wireOptions, List.foldl_nil]
  | case2 options data ih =>
      rw [wireOptions.eq_def]
      exact ih
  | case3 options data notPad =>
      rw [wireOptions.eq_def]
      rfl
  | case4 options code notPad notEnd =>
      rw [wireOptions, if_neg notPad, if_neg notEnd, List.foldl_nil]
  | case5 options code notPad notEnd size data short =>
      rw [wireOptions, if_neg notPad, if_neg notEnd, if_pos short, List.foldl_nil]
  | case6 options code notPad notEnd size data enough ih =>
      rw [wireOptions, if_neg notPad, if_neg notEnd, if_neg enough, List.foldl_cons, ih]

/-- What is found after an option has arrived: the old value first, then the new one. -/
theorem find_deserializeOption (option : UInt8 × List UInt8) (code : UInt8) :
    (deserializeOption parse option.1 option.2 options).find code =
      (options.find code <|> if option.1 = code then arrived parse option else none) := by
  have keep : options.find code = (options.find code <|> if option.1 = code then none else none) := by
    rw [ite_self]
    cases options.find code <;> rfl
  unfold deserializeOption arrived
  cases described : describe option.1 with
  | none => exact keep
  | some info =>
      cases got : received info.type option.2 with
      | none =>
          simp only [Option.bind_some, got, Option.bind_none]
          exact keep
      | some value =>
          simp only [Option.bind_some, got]
          rw [find_insert, convert, described, Option.bind_some]

/-- The first option of a code that is accepted wins, and what is in the list already wins
over all of them. -/
theorem find_deserializeOptions (parse : Parse) (options : DhcpOption) (data : List UInt8)
    (code : UInt8) : (deserializeOptions parse options data).2.find code =
      (options.find code <|> (wireOptions data).findSome?
        fun option => if option.1 = code then arrived parse option else none) := by
  rw [deserializeOptions_eq_foldl]
  induction wireOptions data generalizing options with
  | nil => cases found : options.find code <;> simp [found]
  | cons option wire ih =>
      rw [List.foldl_cons, ih, find_deserializeOption, List.findSome?_cons]
      cases options.find code with
      | some stored => rfl
      | none => cases if option.1 = code then arrived parse option else none <;> rfl

/-! ## The decoder keeps lists well typed -/

theorem wellTyped_deserializeOption (typed : WellTyped options) (code : UInt8)
    (payload : List UInt8) : WellTyped (deserializeOption parse code payload options) := by
  unfold deserializeOption
  cases describe code with
  | none => exact typed
  | some info =>
      dsimp only
      cases received info.type payload with
      | none => exact typed
      | some value => exact typed.insert parse code value

theorem wellTyped_deserializeOptions (typed : WellTyped options) (data : List UInt8) :
    WellTyped (deserializeOptions parse options data).2 := by
  rw [deserializeOptions_eq_foldl]
  induction wireOptions data generalizing options with
  | nil => exact typed
  | cons option wire ih => exact ih (wellTyped_deserializeOption typed option.1 option.2)

variable {packet : DhcpPacket}

theorem wellTyped_deserializeOverload (typed : WellTyped packet.options)
    (sname file : List UInt8) :
    WellTyped (deserializeOverload parse sname file packet).2.options := by
  have carried : ∀ (options : DhcpOption) (bit : UInt8) (field : List UInt8),
      WellTyped options → WellTyped
        (if bit ≠ 0 then deserializeOptions parse options field else (true, options)).2 := by
    intro options bit field typed
    split_ifs
    · exact wellTyped_deserializeOptions typed field
    · exact typed
  unfold deserializeOverload
  split
  case h_1 overload _ =>
    have first := carried packet.options (overload &&& 1) file typed
    dsimp only
    generalize (if overload &&& 1 ≠ 0 then deserializeOptions parse packet.options file
      else (true, packet.options)) = read at first ⊢
    cases read.1 with
    | true => exact carried read.2 (overload &&& 2) sname first
    | false => exact first
  case h_2 => exact typed

theorem wellTyped_deserializeFields (typed : WellTyped packet.options) (data : List UInt8) :
    WellTyped (deserializeFields parse packet data).2.options := by
  unfold deserializeFields
  split
  · exact typed
  split
  · exact typed
  split
  · exact typed
  split_ifs
  · exact typed
  dsimp only
  split_ifs
  · apply wellTyped_deserializeOverload
    exact wellTyped_deserializeOptions typed _
  · exact wellTyped_deserializeOptions typed _

theorem wellTyped_deserializeAddresses (typed : WellTyped packet.options) (data : List UInt8) :
    WellTyped (deserializeAddresses parse packet data).2.options := by
  unfold deserializeAddresses
  split
  · exact typed
  dsimp only
  split
  · exact typed
  split
  · exact typed
  split
  · exact typed
  split
  · exact typed
  apply wellTyped_deserializeFields
  exact typed

/-- Whatever bytes a message is read from, its options are well typed afterwards, also when
the call fails. -/
theorem wellTyped_deserialize (parse : Parse) (packet : DhcpPacket) (data : List UInt8) :
    WellTyped (deserialize parse packet data).2.options := by
  unfold deserialize
  dsimp only
  split
  · exact wellTyped_empty
  split_ifs
  · exact wellTyped_empty
  split
  · exact wellTyped_empty
  split
  · exact wellTyped_empty
  split
  · exact wellTyped_empty
  apply wellTyped_deserializeAddresses
  exact wellTyped_empty

/-! ## The encoder never meets a value of another type -/

theorem payload_ok {info : Info} {value : DhcpOptionValue} (prescribed : Prescribed info value) :
    ∃ bytes, payload info.type value = .ok bytes := by
  cases prescribed with
  | byte value type => exact ⟨_, by rw [type]; rfl⟩
  | word value type => exact ⟨_, by rw [type]; rfl⟩
  | long value type => exact ⟨_, by rw [type]; rfl⟩
  | slong value type => exact ⟨_, by rw [type]; rfl⟩
  | text value type => exact ⟨_, by rw [type]; rfl⟩
  | ip value type => exact ⟨_, by rw [type]; rfl⟩
  | mac value type => exact ⟨_, by rw [type]; rfl⟩
  | bytes value type => exact ⟨_, by rw [type]; rfl⟩
  | words value type => exact ⟨_, by rw [type]; rfl⟩
  | ips value type => exact ⟨_, by rw [type]; rfl⟩

/-- A computation in two parts does not fail in a way that neither part fails in. -/
theorem bind_ne_error {First Second : Type} {first : Except Failure First}
    {second : First → Except Failure Second} {failure : Failure}
    (never : first ≠ .error failure) (later : ∀ result, second result ≠ .error failure) :
    first >>= second ≠ .error failure := by
  cases first with
  | error cause => exact fun failed => never (congrArg Except.error (Except.error.inj failed))
  | ok result => exact later result

theorem ok_ne_error {Result : Type} (result : Result) (failure : Failure) :
    (Except.ok result : Except Failure Result) ≠ .error failure := fun failed => nomatch failed

theorem serializeOption_ne_badCast {option : UInt8 × DhcpOptionValue}
    (typed : ∃ info, describe option.1 = some info ∧ Prescribed info option.2) :
    serializeOption option ≠ .error .badCast := by
  obtain ⟨info, described, prescribed⟩ := typed
  obtain ⟨bytes, encoded⟩ := payload_ok prescribed
  unfold serializeOption
  rw [described]
  dsimp only
  rw [encoded]
  refine bind_ne_error (ok_ne_error bytes _) fun payload => bind_ne_error ?_ fun head =>
    ok_ne_error _ _
  rw [writeHead]
  split_ifs
  · exact fun failed => nomatch failed
  · exact ok_ne_error _ _

theorem mapM_ne_error {Item Result : Type} {encode : Item → Except Failure Result}
    {items : List Item} {failure : Failure} (never : ∀ item ∈ items, encode item ≠ .error failure) :
    items.mapM encode ≠ .error failure := by
  induction items with
  | nil => exact ok_ne_error [] failure
  | cons item items ih =>
      have later := ih fun other member => never other (List.mem_cons_of_mem _ member)
      rw [List.mapM_cons]
      exact bind_ne_error (never item List.mem_cons_self) fun result =>
        bind_ne_error later fun results => ok_ne_error _ _

theorem serializeOptions_ne_badCast {options : DhcpOption} (typed : WellTyped options) :
    serializeOptions options ≠ .error .badCast := by
  have entries := mapM_ne_error fun option member =>
    serializeOption_ne_badCast (typed option member)
  exact bind_ne_error entries fun written => ok_ne_error _ _

theorem serialize_ne_badCast (typed : WellTyped packet.options) :
    serialize packet ≠ .error .badCast := by
  unfold serialize
  split_ifs
  · exact fun failed => nomatch failed
  · exact bind_ne_error (serializeOptions_ne_badCast typed) fun options => ok_ne_error _ _

/-! ## Programs over option lists -/

/-- What a program does to its option lists, which it numbers. A range is taken from a list of
the program, and the options of a packet are one of its lists. -/
inductive Operation
  | insert (list : ℕ) (code : UInt8) (value : Argument)
  | insertRange (list source first count : ℕ)
  | erase (list : ℕ) (code : UInt8)
  | clear (list : ℕ)
  | swap (list other : ℕ)
  | assign (list source : ℕ)
  | deserialize (list : ℕ) (packet : DhcpPacket) (data : List UInt8)

/-- The lists after an operation. -/
def perform (parse : Parse) (lists : ℕ → DhcpOption) : Operation → ℕ → DhcpOption
  | .insert list code value => Function.update lists list ((lists list).insert parse code value).1
  | .insertRange list source first count =>
      Function.update lists list
        ((lists list).insertRange (((lists source).entries.drop first).take count))
  | .erase list code => Function.update lists list ((lists list).erase code)
  | .clear list => Function.update lists list SortedMap.empty
  | .swap list other =>
      Function.update (Function.update lists list (lists other)) other (lists list)
  | .assign list source => Function.update lists list (lists source)
  | .deserialize list packet data =>
      Function.update lists list
        (deserialize parse { packet with options := lists list } data).2.options

/-- The lists of a program, which begins with empty ones. -/
def run (parse : Parse) (operations : List Operation) : ℕ → DhcpOption :=
  operations.foldl (perform parse) fun _ => SortedMap.empty

theorem wellTyped_update {lists : ℕ → DhcpOption} (typed : ∀ list, WellTyped (lists list))
    {replaced : DhcpOption} (new : WellTyped replaced) (list other : ℕ) :
    WellTyped (Function.update lists list replaced other) := by
  rw [Function.update_apply]
  split_ifs
  · exact new
  · exact typed other

/-- An operation keeps all lists well typed. -/
theorem wellTyped_perform {lists : ℕ → DhcpOption} (typed : ∀ list, WellTyped (lists list))
    (operation : Operation) (list : ℕ) : WellTyped (perform parse lists operation list) := by
  cases operation with
  | insert target code value =>
      exact wellTyped_update typed ((typed target).insert parse code value) target list
  | insertRange target source first count =>
      refine wellTyped_update typed ?_ target list
      intro entry member
      rcases SortedMap.mem_insertRange member with inRange | old
      · exact typed source entry (List.mem_of_mem_drop (List.mem_of_mem_take inRange))
      · exact typed target entry old
  | erase target code =>
      exact wellTyped_update typed
        (fun entry member => typed target entry (SortedMap.mem_erase member)) target list
  | clear target => exact wellTyped_update typed wellTyped_empty target list
  | swap target other =>
      exact wellTyped_update (wellTyped_update typed (typed other) target) (typed target) other list
  | assign target source => exact wellTyped_update typed (typed source) target list
  | deserialize target packet data =>
      exact wellTyped_update typed (wellTyped_deserialize parse _ data) target list

/-- Every list of a program is well typed. -/
theorem wellTyped_run (parse : Parse) (operations : List Operation) (list : ℕ) :
    WellTyped (run parse operations list) := by
  have kept : ∀ lists : ℕ → DhcpOption, (∀ list, WellTyped (lists list)) →
      ∀ list, WellTyped (operations.foldl (perform parse) lists list) := by
    induction operations with
    | nil => exact fun lists typed => typed
    | cons operation operations ih =>
        exact fun lists typed => ih _ fun list => wellTyped_perform typed operation list
  exact kept _ (fun _ => wellTyped_empty) list

/-- In every list that a program can build, no code occurs twice and every value is as its
description prescribes, so that the encoder never meets a value of another type. A code that is
in the list keeps its value whatever else arrives under it, and of the options of a byte string
the first one of a code that is accepted is kept. -/
theorem option_lists_well_typed (parse : Parse) (operations : List Operation) (list : ℕ) :
    ((run parse operations list).entries.map Prod.fst).Nodup ∧
      (∀ entry ∈ (run parse operations list).entries,
        ∃ info, describe entry.1 = some info ∧ Prescribed info entry.2) ∧
      (∀ packet : DhcpPacket, serialize { packet with options := run parse operations list } ≠
        .error .badCast) ∧
      (∀ code stored, (run parse operations list).find code = some stored →
        (∀ value, (run parse operations list).insert parse code value =
          (run parse operations list, false)) ∧
        (∀ range, ((run parse operations list).insertRange range).find code = some stored) ∧
        ∀ data, (deserializeOptions parse (run parse operations list) data).2.find code =
          some stored) ∧
      ∀ code data, (deserializeOptions parse (run parse operations list) data).2.find code =
        ((run parse operations list).find code <|> (wireOptions data).findSome?
          fun option => if option.1 = code then arrived parse option else none) := by
  refine ⟨SortedMap.nodup_keys, wellTyped_run parse operations list, ?_, ?_, ?_⟩
  · exact fun packet => serialize_ne_badCast (wellTyped_run parse operations list)
  · intro code stored present
    refine ⟨fun value => insert_of_present present parse value, fun range => ?_, fun data => ?_⟩
    · rw [SortedMap.find_insertRange, present]
      rfl
    · rw [find_deserializeOptions, present]
      rfl
  · exact fun code data => find_deserializeOptions parse _ data code

end Join.DhcpMessage
