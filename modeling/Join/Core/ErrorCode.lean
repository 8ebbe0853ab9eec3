import Mathlib.Data.Nat.Notation
import Join.Library.CString

/-!
# Error codes

The errors of the library are conditions, and each stands for some numbers of the operating
system too. What went wrong is told by a code, which is such a number or an error of the library
itself.
-/

set_option autoImplicit false

namespace Join

open Library

/-- `Errc`. -/
inductive Errc
  | inUse
  | invalidParam
  | connectionRefused
  | connectionClosed
  | timedOut
  | permissionDenied
  | outOfMemory
  | operationFailed
  | notFound
  | messageUnknown
  | messageTooLong
  | temporaryError
  | unknownError
deriving DecidableEq

namespace Errc

/-- `ErrorCategory::message`. -/
def message : Errc → List UInt8
  | inUse => ascii "already in use"
  | invalidParam => ascii "invalid parameters"
  | connectionRefused => ascii "connection refused"
  | connectionClosed => ascii "connection closed"
  | timedOut => ascii "timer expired"
  | permissionDenied => ascii "operation not permitted"
  | outOfMemory => ascii "cannot allocate memory"
  | operationFailed => ascii "operation failed"
  | notFound => ascii "resource not found"
  | messageUnknown => ascii "message unknown"
  | messageTooLong => ascii "message too long"
  | temporaryError => ascii "temporary error"
  | unknownError => ascii "unknown error"

/-- The numbers of the operating system that `ErrorCategory::equivalent` takes for an error. -/
def equivalent : Errc → List ℕ
  | inUse => [106, 114, 98, 17]
  | invalidParam => [2, 97, 22, 93, 88, 14, 92, 89, 95]
  | connectionRefused => [111, 101]
  | connectionClosed => [104, 107, 32]
  | timedOut => [110]
  | permissionDenied => [13, 1]
  | outOfMemory => [24, 23, 105, 12, 37]
  | operationFailed => [9]
  | messageUnknown => [42, 74, 61]
  | messageTooLong => [90]
  | temporaryError => [4, 11, 115]
  | notFound => []
  | unknownError => []

end Errc

/-- `std::error_code`: a number of the operating system, or an error of the library. -/
inductive ErrorCode
  | system (number : ℕ)
  | libjoin (error : Errc)
deriving DecidableEq

namespace ErrorCode

/-- A code that is not set. -/
def success : ErrorCode := system 0

/-- Whether a code tells of an error. -/
def isError : ErrorCode → Bool
  | system number => number != 0
  | libjoin _ => true

/-- Whether a code stands for an error of the library: the comparison of the two. -/
def is : ErrorCode → Errc → Bool
  | system number, error => error.equivalent.contains number
  | libjoin code, error => code == error

/-- The text of a code, with the texts that the operating system has for its numbers. -/
def message (strerror : ℕ → List UInt8) : ErrorCode → List UInt8
  | system number => strerror number
  | libjoin error => error.message

/-- `ENOBUFS` -/
def noBufferSpace : ErrorCode := system 105

/-- `EMSGSIZE` -/
def messageSize : ErrorCode := system 90

end ErrorCode

end Join
