import Join.Services.HttpMessage

/-!
# Writing the head of a request and reading it again

`readHeaders` gives back the request whose head `writeHeaders` wrote, for requests that need
no encoding: nothing in them is taken for one of the characters that hold the head together.
Parameters and headers are written in the order of their maps, so each of them is read into
its place behind the ones before it.
-/

set_option autoImplicit false
set_option maxRecDepth 1024

namespace Join.HttpRequest

open Library

/-- The characters of a URL that are never encoded: letters, digits and `-._~`. -/
def unreserved (byte : UInt8) : Bool :=
  (65 ≤ byte && byte ≤ 90) || (97 ≤ byte && byte ≤ 122) || (48 ≤ byte && byte ≤ 57) ||
    byte == 45 || byte == 46 || byte == 95 || byte == 126

/-- An unreserved character is none of those that hold the head of a request together. -/
theorem unreserved_plain : ∀ byte, unreserved byte = true →
    byte ≠ blank ∧ byte ≠ questionMark ∧ byte ≠ percent ∧ byte ≠ equalsSign ∧ byte ≠ ampersand ∧
      byte ≠ carriageReturn ∧ byte ≠ lineFeed := by
  decide

/-- The line of a header. -/
def headerLine (head : List UInt8 × List UInt8) : List UInt8 :=
  head.1 ++ headerSeparator ++ head.2

/-- The first line of a request. -/
def firstLine (request : HttpRequest) : List UInt8 :=
  methodString request.method ++ [blank] ++ request.urn ++ [blank] ++ request.version

/-- A request whose head is written as it is. -/
structure Plain (request : HttpRequest) : Prop where
  absolute : request.path.head? = some slash
  normal : normalize request.path = request.path
  path : ∀ byte ∈ request.path, byte ≠ blank ∧ byte ≠ questionMark ∧ byte ≠ percent ∧
    byte ≠ carriageReturn ∧ byte ≠ lineFeed
  parameters : ∀ param ∈ request.parameters.entries, param.1 ≠ [] ∧
    (∀ byte ∈ param.1, unreserved byte = true) ∧ ∀ byte ∈ param.2, unreserved byte = true
  version : OnOneLine request.version
  headers : ∀ head ∈ request.headers.entries, 58 ∉ head.1 ∧ OnOneLine head.1 ∧ OnOneLine head.2
  firstShort : (firstLine request ++ crlf).length ≤ maxHeaderLen
  headersShort : ∀ head ∈ request.headers.entries, (headerLine head ++ crlf).length ≤ maxHeaderLen

/-! ## Separators -/

theorem cut_single {byte : UInt8} {front : List UInt8} (absent : byte ∉ front)
    (back : List UInt8) : cut [byte] (front ++ byte :: back) = some (front, back) := by
  induction front with
  | nil =>
      rw [List.nil_append, cut, if_pos (by simp [List.isPrefixOf])]
      rfl
  | cons first front ih =>
      have different : byte ≠ first := fun same => absent (by rw [same]; exact List.mem_cons_self)
      rw [List.cons_append, cut, if_neg (by simp [List.isPrefixOf, different]),
        ih fun member => absent (List.mem_cons_of_mem _ member)]
      rfl

theorem cut_none {byte : UInt8} {text : List UInt8} (absent : byte ∉ text) :
    cut [byte] text = none := by
  induction text with
  | nil => rfl
  | cons first text ih =>
      have different : byte ≠ first := fun same => absent (by rw [same]; exact List.mem_cons_self)
      rw [cut, if_neg (by simp [List.isPrefixOf, different]),
        ih fun member => absent (List.mem_cons_of_mem _ member)]
      rfl

theorem cut_headerSeparator {front : List UInt8} (absent : 58 ∉ front) (back : List UInt8) :
    cut headerSeparator (front ++ headerSeparator ++ back) = some (front, back) := by
  induction front with
  | nil => rfl
  | cons first front ih =>
      have different : 58 ≠ first := fun same => absent (by rw [same]; exact List.mem_cons_self)
      rw [List.cons_append, List.cons_append, cut,
        if_neg (by simp [headerSeparator, List.isPrefixOf, different]),
        ih fun member => absent (List.mem_cons_of_mem _ member)]
      rfl

/-- Text without a percent sign is not changed by decoding. -/
theorem decodeUrl_plain (unset : ℕ → UInt32) {text : List UInt8} (absent : percent ∉ text) :
    decodeUrl unset text = text := by
  revert absent
  fun_induction decodeUrl unset text with
  | case1 => exact fun _ => rfl
  | case2 => exact fun absent => absurd List.mem_cons_self absent
  | case3 => exact fun _ => rfl
  | case4 => exact fun absent => absurd List.mem_cons_self absent
  | case5 byte high notPercent ih =>
      exact fun absent => congrArg _ (ih fun member => absent (List.mem_cons_of_mem _ member))
  | case6 => exact fun absent => absurd List.mem_cons_self absent
  | case7 byte high low url notPercent ih =>
      exact fun absent => congrArg _ (ih fun member => absent (List.mem_cons_of_mem _ member))

/-! ## Parameters -/

variable {unset : ℕ → UInt32}

/-- The parameters of a query, one after the other. -/
def dumped (params : List (List UInt8 × List UInt8)) : List UInt8 :=
  (params.flatMap fun param => param.1 ++ [equalsSign] ++ param.2 ++ [ampersand]).dropLast

theorem dumped_singleton (param : List UInt8 × List UInt8) :
    dumped [param] = param.1 ++ equalsSign :: param.2 := by
  rw [dumped, List.flatMap_singleton, List.dropLast_concat, List.append_assoc]
  rfl

theorem dumped_cons (param next : List UInt8 × List UInt8) (params : List (List UInt8 × List UInt8)) :
    dumped (param :: next :: params) =
      param.1 ++ equalsSign :: (param.2 ++ ampersand :: dumped (next :: params)) := by
  have more : ((next :: params).flatMap fun param =>
      param.1 ++ [equalsSign] ++ param.2 ++ [ampersand]) ≠ [] := by
    rw [List.flatMap_cons]
    simp
  rw [dumped, List.flatMap_cons, List.dropLast_append_of_ne_nil more, dumped]
  simp

theorem store_dumped {params : List (List UInt8 × List UInt8)}
    (plain : ∀ param ∈ params, (∀ byte ∈ param.1, unreserved byte = true) ∧
      ∀ byte ∈ param.2, unreserved byte = true) (some : params ≠ []) (parameters : ParameterMap) :
    store unset parameters (dumped params) =
      params.foldl (fun parameters param => parameters.assign param.1 param.2) parameters := by
  induction params generalizing parameters with
  | nil => exact absurd rfl some
  | cons param params ih =>
      obtain ⟨name, value⟩ := plain param List.mem_cons_self
      have later := fun other member => plain other (List.mem_cons_of_mem _ member)
      have nameSame : decodeUrl unset param.1 = param.1 :=
        decodeUrl_plain unset fun member => (unreserved_plain _ (name _ member)).2.2.1 rfl
      have valueSame : decodeUrl unset param.2 = param.2 :=
        decodeUrl_plain unset fun member => (unreserved_plain _ (value _ member)).2.2.1 rfl
      have noEquals : equalsSign ∉ param.1 :=
        fun member => (unreserved_plain _ (name _ member)).2.2.2.1 rfl
      have noAmpersand : ampersand ∉ param.2 :=
        fun member => (unreserved_plain _ (value _ member)).2.2.2.2.1 rfl
      cases params with
      | nil =>
          rw [dumped_singleton, store.eq_def, cut_single noEquals]
          simp only
          rw [cut_none noAmpersand]
          simp only [nameSame, valueSame, List.foldl_cons, List.foldl_nil]
      | cons next params =>
          rw [dumped_cons, store.eq_def, cut_single noEquals]
          simp only
          rw [cut_single noAmpersand]
          simp only [nameSame, valueSame]
          exact ih later (List.cons_ne_nil _ _) _

/-- The target of a request that is written as it is. -/
theorem splitTarget_urn {request : HttpRequest} (plain : Plain request) :
    splitTarget request.urn = (request.path,
      if request.parameters.entries = [] then none
      else some (dumped request.parameters.entries)) := by
  have noMark : questionMark ∉ request.path := fun member => (plain.path _ member).2.1 rfl
  have same : request.dumpParameters = dumped request.parameters.entries := rfl
  rw [urn, query, same]
  cases params : request.parameters.entries with
  | nil =>
      rw [dumped, List.flatMap_nil, List.dropLast_nil, List.isEmpty_nil, if_pos rfl,
        List.append_nil, splitTarget, cut_none noMark, if_pos rfl]
  | cons param others =>
      have some : dumped (param :: others) ≠ [] := by
        cases others with
        | nil =>
            rw [dumped_singleton]
            simp
        | cons next others =>
            rw [dumped_cons]
            simp
      have filled : (dumped (param :: others)).isEmpty = false := by
        rw [Bool.eq_false_iff]
        exact fun empty => some (List.isEmpty_iff.mp empty)
      rw [filled, if_neg Bool.false_ne_true, splitTarget, cut_single noMark,
        if_neg (List.cons_ne_nil _ _)]

theorem parameters_back {request : HttpRequest} (plain : Plain request) :
    (((splitTarget request.urn).2).map (store unset SortedMap.empty)).getD SortedMap.empty =
      request.parameters := by
  rw [splitTarget_urn plain]
  apply SortedMap.ext
  split_ifs with none
  · rw [none]
    rfl
  · have stored : store unset SortedMap.empty (dumped request.parameters.entries) = _ :=
      store_dumped (fun param member => (plain.parameters param member).2) none SortedMap.empty
    rw [Option.map_some, Option.getD_some, stored]
    exact SortedMap.foldl_assign request.parameters.ordered

/-! ## Lines -/

/-- The characters of a target that is written as it is. -/
theorem urn_plain {request : HttpRequest} (plain : Plain request) :
    ∀ byte ∈ request.urn, byte ≠ blank ∧ byte ≠ carriageReturn ∧ byte ≠ lineFeed := by
  have params : ∀ byte ∈ request.dumpParameters,
      byte ≠ blank ∧ byte ≠ carriageReturn ∧ byte ≠ lineFeed := by
    intro byte member
    obtain ⟨param, inside, part⟩ := List.mem_flatMap.mp (List.mem_of_mem_dropLast member)
    obtain ⟨-, name, value⟩ := plain.parameters param inside
    have letter : ∀ letter, unreserved letter = true →
        letter ≠ blank ∧ letter ≠ carriageReturn ∧ letter ≠ lineFeed :=
      fun letter free => ⟨(unreserved_plain letter free).1, (unreserved_plain letter free).2.2.2.2.2⟩
    simp only [List.mem_append, List.mem_singleton] at part
    rcases part with ((part | rfl) | part) | rfl
    · exact letter byte (name byte part)
    · decide
    · exact letter byte (value byte part)
    · decide
  intro byte member
  rw [urn, query] at member
  rcases List.mem_append.mp member with inPath | inQuery
  · have free := plain.path byte inPath
    exact ⟨free.1, free.2.2.2⟩
  · split_ifs at inQuery
    · exact absurd inQuery List.not_mem_nil
    · rcases List.mem_cons.mp inQuery with rfl | inParams
      · decide
      · exact params byte inParams

theorem methodString_plain (method : HttpMethod) :
    ∀ byte ∈ methodString method, byte ≠ blank ∧ byte ≠ carriageReturn ∧ byte ≠ lineFeed := by
  cases method <;> simp [methodString, blank, carriageReturn, lineFeed]

theorem firstLine_onOneLine {request : HttpRequest} (plain : Plain request) :
    OnOneLine (firstLine request) := by
  intro byte member
  simp only [firstLine, List.mem_append, List.mem_singleton] at member
  rcases member with (((member | rfl) | member) | rfl) | member
  · exact (methodString_plain _ byte member).2
  · decide
  · exact (urn_plain plain byte member).2
  · decide
  · exact plain.version byte member

/-- The first line of a request is read back. -/
theorem parseFirstLine_firstLine {request : HttpRequest} (plain : Plain request) :
    parseFirstLine unset (firstLine request) {} = .ok { request with headers := SortedMap.empty } := by
  have method : cut [blank] (firstLine request) =
      some (methodString request.method, request.urn ++ blank :: request.version) := by
    have absent : blank ∉ methodString request.method :=
      fun member => (methodString_plain _ _ member).1 rfl
    have spelled : firstLine request =
        methodString request.method ++ blank :: (request.urn ++ blank :: request.version) := by
      simp [firstLine]
    rw [spelled, cut_single absent]
  have target : cut [blank] (request.urn ++ blank :: request.version) =
      some (request.urn, request.version) :=
    cut_single (fun member => (urn_plain plain _ member).1 rfl) _
  have known : parseMethod (methodString request.method) = some request.method := by
    cases request.method <;> rfl
  have path : normalize (decodeUrl unset (splitTarget request.urn).1) = request.path := by
    rw [splitTarget_urn plain, decodeUrl_plain unset fun member => (plain.path _ member).2.2.1 rfl,
      plain.normal]
  rw [parseFirstLine, method]
  simp only
  rw [target]
  simp only
  rw [known]
  simp only
  rw [path, parameters_back plain]

/-! ## Headers -/

theorem readFields_headers {heads : List (List UInt8 × List UInt8)}
    (plain : ∀ head ∈ heads, 58 ∉ head.1 ∧ OnOneLine head.1 ∧ OnOneLine head.2)
    (short : ∀ head ∈ heads, (headerLine head ++ crlf).length ≤ maxHeaderLen)
    (request : HttpRequest) (rest : List UInt8) :
    readFields request (heads.flatMap (fun head => headerLine head ++ crlf) ++ crlf ++ rest) =
      .ok ({ request with
        headers := heads.foldl (fun headers head => headers.assign head.1 head.2)
          request.headers }, rest) := by
  induction heads generalizing request with
  | nil =>
      have line : getline maxHeaderLen (crlf ++ rest) = (some [], rest) :=
        getline_crlf (fun _ member => absurd member List.not_mem_nil) (by decide) rest
      rw [List.flatMap_nil, List.nil_append, readFields_line request line]
      rfl
  | cons head heads ih =>
      obtain ⟨noColon, name, value⟩ := plain head List.mem_cons_self
      have oneLine : OnOneLine (headerLine head) := by
        intro byte member
        simp only [headerLine, headerSeparator, List.mem_append, List.mem_cons,
          List.not_mem_nil, or_false] at member
        rcases member with (member | rfl | rfl) | member
        · exact name byte member
        · decide
        · decide
        · exact value byte member
      have fits : (headerLine head).length + 2 ≤ maxHeaderLen := by
        have whole := short head List.mem_cons_self
        rwa [List.length_append] at whole
      have line := getline_crlf oneLine fits
        (heads.flatMap (fun head => headerLine head ++ crlf) ++ crlf ++ rest)
      have some : (headerLine head).isEmpty = false := by
        rw [Bool.eq_false_iff]
        intro empty
        have length := congrArg List.length (List.isEmpty_iff.mp empty)
        simp [headerLine, headerSeparator] at length
      have parsed : parseHeader (headerLine head) request =
          .ok { request with headers := request.headers.assign head.1 head.2 } := by
        rw [parseHeader, headerLine, cut_headerSeparator noColon]
      have spelled : (head :: heads).flatMap (fun head => headerLine head ++ crlf) ++ crlf ++ rest =
          headerLine head ++ crlf ++
            (heads.flatMap (fun head => headerLine head ++ crlf) ++ crlf ++ rest) := by
        simp only [List.flatMap_cons, List.append_assoc]
      rw [spelled, readFields_line request line, some, if_neg Bool.false_ne_true, parsed]
      exact ih (fun other member => plain other (List.mem_cons_of_mem _ member))
        (fun other member => short other (List.mem_cons_of_mem _ member)) _

/-- The head of a request that is written as it is comes back, and what follows it is left. -/
theorem request_comes_back (unset : ℕ → UInt32) (request : HttpRequest) (plain : Plain request)
    (rest : List UInt8) :
    readHeaders unset {} (writeHeaders request ++ rest) = .ok (request, rest) := by
  have fits : (firstLine request).length + 2 ≤ maxHeaderLen := by
    have whole := plain.firstShort
    rwa [List.length_append] at whole
  have spelled : writeHeaders request ++ rest = firstLine request ++ crlf ++
      (request.headers.entries.flatMap (fun head => headerLine head ++ crlf) ++ crlf ++ rest) := by
    simp only [writeHeaders, firstLine, dumpHeaders, headerLine, List.append_assoc]
  have headers : (request.headers.entries.foldl (fun headers head => headers.assign head.1 head.2)
      (SortedMap.empty : HeaderMap)) = request.headers :=
    SortedMap.ext (SortedMap.foldl_assign request.headers.ordered)
  rw [spelled, readHeaders, getline_crlf (firstLine_onOneLine plain) fits]
  simp only
  rw [parseFirstLine_firstLine plain]
  simp only
  rw [readFields_headers plain.headers plain.headersShort, headers]

/-- The request `GET /a?k=&n=1`, with one header without a value. -/
def sampleRequest : HttpRequest :=
  { path := [47, 97]
    parameters := (SortedMap.empty.assign [110] [49]).assign [107] []
    headers := SortedMap.empty.assign [72, 111, 115, 116] [] }

theorem request_comes_back_sample :
    readHeaders (fun _ => 0) {} (writeHeaders sampleRequest ++ [1, 2]) =
      .ok (sampleRequest, [1, 2]) := by
  refine request_comes_back _ sampleRequest ⟨rfl, ?_, ?_, ?_, ?_, ?_, ?_, ?_⟩ [1, 2]
  · simp [sampleRequest, normalize, collapse, removeDots, slash, dot]
  · simp [sampleRequest, blank, questionMark, percent, carriageReturn, lineFeed]
  · have entries : sampleRequest.parameters.entries = [([107], []), ([110], [49])] := by decide
    rw [entries]
    simp [unreserved]
  · simp [OnOneLine, sampleRequest, carriageReturn, lineFeed]
  · have entries : sampleRequest.headers.entries = [([72, 111, 115, 116], [])] := rfl
    rw [entries]
    simp [OnOneLine, carriageReturn, lineFeed]
  · decide
  · have entries : sampleRequest.headers.entries = [([72, 111, 115, 116], [])] := rfl
    rw [entries]
    simp [headerLine, headerSeparator, crlf, maxHeaderLen]

end Join.HttpRequest
