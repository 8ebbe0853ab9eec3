import Join.Core.Utils
import Join.Library.Numerals
import Join.Library.SortedMap
import Mathlib.Data.List.Lex

/-!
# HTTP requests

`HttpRequest`: what a request holds, how its head is written and how it is read. A string is
its bytes.

Parameters are kept in the order of their names and headers in the order of their names in
lower case, up to the first zero byte, since that is what `strcasecmp` compares.

Percent decoding reads two characters behind every `%`, also where the string has ended or a
character is a blank. What it takes for the digits then stands in uninitialised variables, or
in the memory behind the string: it is given from outside, as a function of the number of
characters that are left.
-/

set_option autoImplicit false

namespace Join

open Library

/-- `HttpMethod`. -/
inductive HttpMethod
  | head
  | get
  | put
  | post
  | delete
deriving DecidableEq, Repr

/-- Why `readHeaders` fails: what it sets `lastError` to, or nothing when the stream ends. -/
inductive HttpErrc
  | badRequest
  | unsupported
  | headerTooLarge
  | stream
deriving DecidableEq, Repr

/-- The order of strings. -/
def stringRank (text : List UInt8) : List ℕ := text.map UInt8.toNat

/-- `tolower` of a character. -/
def lowerCase (byte : UInt8) : UInt8 := if 65 ≤ byte ∧ byte ≤ 90 then byte + 32 else byte

/-- The order of `lessNoCase`. -/
def noCaseRank (text : List UInt8) : List ℕ :=
  (text.takeWhile fun byte => byte != 0).map fun byte => (lowerCase byte).toNat

/-- `HttpMessage::HeaderMap`. -/
abbrev HeaderMap : Type := SortedMap noCaseRank (List UInt8)

/-- `HttpRequest::ParameterMap`. -/
abbrev ParameterMap : Type := SortedMap stringRank (List UInt8)

/-- `HttpRequest`, as it is constructed. -/
structure HttpRequest where
  method : HttpMethod := .get
  path : List UInt8 := [47]
  parameters : ParameterMap := SortedMap.empty
  version : List UInt8 := [72, 84, 84, 80, 47, 49, 46, 49]
  headers : HeaderMap := SortedMap.empty
deriving DecidableEq

namespace HttpRequest

/-- The blank. -/
def blank : UInt8 := 32

/-- The slash. -/
def slash : UInt8 := 47

/-- The dot. -/
def dot : UInt8 := 46

/-- The percent sign. -/
def percent : UInt8 := 37

/-- The question mark. -/
def questionMark : UInt8 := 63

/-- The equals sign. -/
def equalsSign : UInt8 := 61

/-- The ampersand. -/
def ampersand : UInt8 := 38

/-- What separates the name of a header from its value. -/
def headerSeparator : List UInt8 := [58, 32]

/-- `HttpMessage::_maxHeaderLen`. -/
def maxHeaderLen : ℕ := 2048

/-! ## Writing -/

/-- `HttpRequest::methodString`. -/
def methodString : HttpMethod → List UInt8
  | .head => [72, 69, 65, 68]
  | .get => [71, 69, 84]
  | .put => [80, 85, 84]
  | .post => [80, 79, 83, 84]
  | .delete => [68, 69, 76, 69, 84, 69]

/-- `HttpRequest::dumpParameters`. -/
def dumpParameters (request : HttpRequest) : List UInt8 :=
  (request.parameters.entries.flatMap fun param =>
    param.1 ++ [equalsSign] ++ param.2 ++ [ampersand]).dropLast

/-- `HttpRequest::query`. -/
def query (request : HttpRequest) : List UInt8 :=
  if request.dumpParameters.isEmpty then [] else questionMark :: request.dumpParameters

/-- `HttpRequest::urn`. -/
def urn (request : HttpRequest) : List UInt8 := request.path ++ request.query

/-- `HttpMessage::dumpHeaders`. -/
def dumpHeaders (request : HttpRequest) : List UInt8 :=
  (request.headers.entries.flatMap fun head => head.1 ++ headerSeparator ++ head.2 ++ crlf) ++ crlf

/-- `HttpRequest::writeHeaders`. -/
def writeHeaders (request : HttpRequest) : List UInt8 :=
  methodString request.method ++ [blank] ++ request.urn ++ [blank] ++ request.version ++ crlf ++
    request.dumpHeaders

/-! ## Reading -/

/-- What stands before and behind the first occurrence of a separator. -/
def cut (separator : List UInt8) : List UInt8 → Option (List UInt8 × List UInt8)
  | [] => none
  | byte :: text =>
      if separator.isPrefixOf (byte :: text) then some ([], (byte :: text).drop separator.length)
      else (cut separator text).map fun parts => (byte :: parts.1, parts.2)

/-- The length of what stands behind a separator. -/
theorem length_cut_lt {separator text front back : List UInt8} (proper : separator ≠ [])
    (found : cut separator text = some (front, back)) : back.length < text.length := by
  induction text generalizing front back with
  | nil => cases found
  | cons byte text ih =>
      rw [cut] at found
      split_ifs at found
      · cases found
        have positive := List.length_pos_of_ne_nil proper
        rw [List.length_drop, List.length_cons]
        omega
      · obtain ⟨parts, inner, same⟩ := Option.map_eq_some_iff.mp found
        cases same
        have shorter := ih inner
        rw [List.length_cons]
        omega

/-- A hexadecimal digit that is extracted from one character into an uninitialised variable: a
blank leaves the variable as it was. -/
def extractDigit (unset : UInt32) (byte : UInt8) : UInt32 :=
  if isSpace byte then unset else UInt32.ofNat ((hexValue byte).getD 0)

/-- The character that two digits give. -/
def decoded (dec1 dec2 : UInt32) : UInt8 := ((dec1 <<< 4) + dec2).toUInt8

/-- `HttpRequest::decodeUrl`. Behind the end of the string stands a zero byte, and what stands
behind that is not known either. -/
def decodeUrl (unset : ℕ → UInt32) : List UInt8 → List UInt8
  | [] => []
  | [byte] => if byte = percent then [decoded 0 (unset 0)] else [byte]
  | [byte, high] =>
      if byte = percent then [decoded (extractDigit (unset 1) high) 0]
      else byte :: decodeUrl unset [high]
  | byte :: high :: low :: url =>
      if byte = percent then
        decoded (extractDigit (unset (2 * url.length + 4)) high)
          (extractDigit (unset (2 * url.length + 5)) low) :: decodeUrl unset url
      else byte :: decodeUrl unset (high :: low :: url)

/-- The first loop of `HttpRequest::normalize`: every run of slashes becomes one slash. -/
def collapse : List UInt8 → List UInt8
  | [] => []
  | [byte] => [byte]
  | first :: second :: path =>
      if first = slash ∧ second = slash then collapse (second :: path)
      else first :: collapse (second :: path)

/-- `removeLastSegment`. -/
def removeLastSegment (path : List UInt8) : List UInt8 :=
  ((path.reverse.dropWhile fun byte => byte != slash).drop 1).reverse

/-- The second loop of `HttpRequest::normalize`, with what it has put out. -/
def removeDots (output : List UInt8) : List UInt8 → List UInt8
  | [] => output
  | byte :: rest =>
      if [dot, dot, slash].isPrefixOf (byte :: rest) then removeDots output (rest.drop 2)
      else if [dot, slash].isPrefixOf (byte :: rest) then removeDots output (rest.drop 1)
      else if [slash, dot, slash].isPrefixOf (byte :: rest) then
        removeDots output (slash :: rest.drop 2)
      else if byte :: rest = [slash, dot] then removeDots output [slash]
      else if [slash, dot, dot, slash].isPrefixOf (byte :: rest) then
        removeDots (removeLastSegment output) (slash :: rest.drop 3)
      else if byte :: rest = [slash, dot, dot] then removeDots (removeLastSegment output) [slash]
      else if (byte :: rest).all fun other => other == dot then output
      else
        removeDots (output ++ byte :: rest.takeWhile fun other => other != slash)
          (rest.dropWhile fun other => other != slash)
termination_by path => path.length
decreasing_by
  · simp only [List.length_drop, List.length_cons]; omega
  · simp only [List.length_drop, List.length_cons]; omega
  · rename_i _ _ matched
    have enough := (List.isPrefixOf_iff_prefix.mp matched).length_le
    simp only [List.length_cons, List.length_nil] at enough
    simp only [List.length_cons, List.length_drop]
    omega
  · rename_i _ _ _ matched
    rw [matched]
    decide
  · rename_i _ _ _ _ matched
    have enough := (List.isPrefixOf_iff_prefix.mp matched).length_le
    simp only [List.length_cons, List.length_nil] at enough
    simp only [List.length_cons, List.length_drop]
    omega
  · rename_i _ _ _ _ _ matched
    rw [matched]
    decide
  · have shorter := (List.dropWhile_suffix (l := rest) fun other => other != slash).length_le
    rw [List.length_cons]
    omega

/-- `HttpRequest::normalize`. -/
def normalize (path : List UInt8) : List UInt8 := removeDots [] (collapse path)

/-- `HttpRequest::store`. -/
def store (unset : ℕ → UInt32) (parameters : ParameterMap) (query : List UInt8) : ParameterMap :=
  match found : cut [equalsSign] query with
  | none => parameters
  | some (name, rest) =>
      match next : cut [ampersand] rest with
      | none => parameters.assign (decodeUrl unset name) (decodeUrl unset rest)
      | some (value, rest) =>
          store unset (parameters.assign (decodeUrl unset name) (decodeUrl unset value)) rest
termination_by query.length
decreasing_by
  exact (length_cut_lt (List.cons_ne_nil _ _) next).trans
    (length_cut_lt (List.cons_ne_nil _ _) found)

/-- The method that a name stands for. -/
def parseMethod (name : List UInt8) : Option HttpMethod :=
  if name = methodString .head then some .head
  else if name = methodString .get then some .get
  else if name = methodString .put then some .put
  else if name = methodString .post then some .post
  else if name = methodString .delete then some .delete
  else none

/-- The target of a request, up to its query, and the query if there is one. -/
def splitTarget (target : List UInt8) : List UInt8 × Option (List UInt8) :=
  match cut [questionMark] target with
  | none => (target, none)
  | some (path, query) => (path, some query)

/-- `HttpRequest::parseFirstLine`. -/
def parseFirstLine (unset : ℕ → UInt32) (line : List UInt8) (request : HttpRequest) :
    Except HttpErrc HttpRequest :=
  match cut [blank] line with
  | none => .error .badRequest
  | some (method, rest) =>
      match cut [blank] rest with
      | none => .error .badRequest
      | some (target, version) =>
          match parseMethod method with
          | none => .error .unsupported
          | some method =>
              let parts := splitTarget target
              .ok { request with
                method
                path := normalize (decodeUrl unset parts.1)
                parameters := (parts.2.map (store unset request.parameters)).getD
                  request.parameters
                version }

/-- `HttpMessage::parseHeader`. -/
def parseHeader (head : List UInt8) (request : HttpRequest) : Except HttpErrc HttpRequest :=
  match cut headerSeparator head with
  | none => .error .badRequest
  | some (name, value) => .ok { request with headers := request.headers.assign name value }

/-- Why `getline` has failed: the stream has ended, or the line is too long. -/
def lineFailure (data : List UInt8) : HttpErrc :=
  if data.length < maxHeaderLen then .stream else .headerTooLarge

theorem length_getlineFrom {max : ℕ} {line data text rest : List UInt8}
    (read : getlineFrom max line data = (some text, rest)) : rest.length < data.length := by
  induction max generalizing line data with
  | zero => cases read
  | succ max ih =>
      cases data with
      | nil => cases read
      | cons ch data =>
          rw [getlineFrom] at read
          split_ifs at read
          · exact (ih read).trans (Nat.lt_succ_self _)
          · cases read
            exact Nat.lt_succ_self _
          · exact (ih read).trans (Nat.lt_succ_self _)

/-- The loop of `HttpMessage::readHeaders` behind the first line. -/
def readFields (request : HttpRequest) (data : List UInt8) :
    Except HttpErrc (HttpRequest × List UInt8) :=
  match read : getline maxHeaderLen data with
  | (none, _) => .error (lineFailure data)
  | (some line, rest) =>
      if line.isEmpty then .ok (request, rest)
      else
        match parseHeader line request with
        | .error cause => .error cause
        | .ok request => readFields request rest
termination_by data.length
decreasing_by exact length_getlineFrom read

/-- One turn of the loop, by the line that is read. -/
theorem readFields_line {data line rest : List UInt8} (request : HttpRequest)
    (read : getline maxHeaderLen data = (some line, rest)) :
    readFields request data =
      if line.isEmpty then .ok (request, rest)
      else
        match parseHeader line request with
        | .error cause => .error cause
        | .ok request => readFields request rest := by
  rw [readFields.eq_def]
  split
  · rename_i failed
    rw [failed] at read
    cases read
  · rename_i other after got
    rw [got] at read
    cases read
    rfl

/-- `HttpMessage::readHeaders`: the request, and the bytes behind its head. -/
def readHeaders (unset : ℕ → UInt32) (request : HttpRequest) (data : List UInt8) :
    Except HttpErrc (HttpRequest × List UInt8) :=
  match getline maxHeaderLen data with
  | (none, _) => .error (lineFailure data)
  | (some line, rest) =>
      match parseFirstLine unset line request with
      | .error cause => .error cause
      | .ok request => readFields request rest

end HttpRequest

end Join
