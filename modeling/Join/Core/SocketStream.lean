import Join.Core.Utils
import Mathlib.Data.List.Basic
import Mathlib.Logic.Relation
import Mathlib.Tactic.Common

/-!
# Socket streams

`BasicSocketStream` is a stream over a socket that is connected, shut down and closed again
and again. Its buffer has a get area, which a read of the socket fills, and a put area, which
goes out when it is full or flushed. A failure of the socket closes it, and the two areas
stay as they are.

What the calls of the socket come to on a connection is given with the connection: what each
read yields and how much each write takes. The functions that `std::streambuf`, `std::istream`
and `std::ostream` supply are given by what they are specified to do: `sgetn` calls `sbumpc`
and `sputn` calls `sputc` for each byte, and a stream that has failed reads and writes nothing.
-/

set_option autoImplicit false

namespace Join

/-! ## The socket -/

/-- What a call that reads a socket comes to. The bytes are those that have arrived; there
are none at the end. A call with a temporary error waits, and the socket becomes ready or
does not. -/
inductive ReadCall where
  | bytes (chunk : List UInt8)
  | again
  | timeout
  | failed
deriving DecidableEq, Repr

/-- What a call that writes a socket comes to: how many bytes are taken at most, or what
follows an error. -/
inductive WriteCall where
  | accepted (count : ℕ)
  | again
  | timeout
  | failed
deriving DecidableEq, Repr

/-- The peer of a connection: what the calls on the socket come to. Behind the last of them
a call fails. -/
structure Peer where
  reads : List ReadCall
  writes : List WriteCall
deriving DecidableEq, Repr

/-- The bytes that a call can read. -/
def ReadCall.arriving : ReadCall → List UInt8
  | .bytes chunk => chunk
  | _ => []

/-- All that the peer sends. -/
def Peer.sent (peer : Peer) : List UInt8 := peer.reads.flatMap ReadCall.arriving

/-- `BasicSocket::State`. A socket that is connecting is waited for before `connect` returns. -/
inductive SocketState where
  | closed
  | connected
  | disconnecting
  | disconnected
deriving DecidableEq, Repr

/-- `_bufsize` -/
def bufsize : ℕ := 4096

/-- The loop of `underflow`: the bytes for the get area, and the calls to come. -/
def underflowLoop : List ReadCall → Option (List UInt8) × List ReadCall
  | [] => (none, [])
  | .bytes chunk :: calls =>
      if chunk = [] then (none, calls)
      else if chunk.length ≤ bufsize then (some chunk, calls)
      else (some (chunk.take bufsize), .bytes (chunk.drop bufsize) :: calls)
  | .again :: calls => underflowLoop calls
  | .timeout :: calls => (none, calls)
  | .failed :: calls => (none, calls)

/-- `BasicStreamSocket::writeExactly`: whether all bytes were taken, the bytes that were, and
the calls to come. -/
def writeExactly : List WriteCall → List UInt8 → Bool × List UInt8 × List WriteCall
  | calls, [] => (true, [], calls)
  | [], _ :: _ => (false, [], [])
  | .accepted count :: calls, byte :: data =>
      let rest := writeExactly calls ((byte :: data).drop count)
      (rest.1, (byte :: data).take count ++ rest.2.1, rest.2.2)
  | .again :: calls, byte :: data => writeExactly calls (byte :: data)
  | .timeout :: calls, _ :: _ => (false, [], calls)
  | .failed :: calls, _ :: _ => (false, [], calls)

/-- `BasicStreamSocket::disconnect` behind the shutdown, and `waitDisconnected`: what still
arrives is thrown away. Whether the end was met, and the calls to come. -/
def linger : List ReadCall → Bool × List ReadCall
  | [] => (true, [])
  | .bytes chunk :: calls => if chunk = [] then (true, calls) else linger calls
  | .again :: calls => linger calls
  | .timeout :: calls => (false, calls)
  | .failed :: calls => (true, calls)

/-! ## The stream buffer -/

/-- A `BasicSocketStream`: the socket with the calls to come and the bytes that were put on
it since it was connected, the get area from the get pointer on, the put area up to the put
pointer and whether there is one, and whether the stream has not failed. -/
structure SocketStream where
  state : SocketState
  reads : List ReadCall
  writes : List WriteCall
  wire : List UInt8
  getArea : List UInt8
  putArea : List UInt8
  hasPutArea : Bool
  good : Bool
deriving DecidableEq, Repr

namespace SocketStream

/-- A stream that is constructed with a socket that a peer is connected to, or with none. -/
def construct : Option Peer → SocketStream
  | none => ⟨.closed, [], [], [], [], [], false, true⟩
  | some peer => ⟨.connected, peer.reads, peer.writes, [], [], [], false, true⟩

/-- `BasicSocketStreambuf::underflow` -/
def underflow (stream : SocketStream) : Option UInt8 × SocketStream :=
  if stream.state = .connected then
    match stream.getArea with
    | byte :: _ => (some byte, stream)
    | [] =>
        match underflowLoop stream.reads with
        | (none, calls) => (none, { stream with state := .closed, reads := calls })
        | (some chunk, calls) => (chunk.head?, { stream with getArea := chunk, reads := calls })
  else (none, stream)

/-- `std::streambuf::sbumpc` -/
def sbumpc (stream : SocketStream) : Option UInt8 × SocketStream :=
  match stream.getArea with
  | byte :: rest => (some byte, { stream with getArea := rest })
  | [] =>
      match stream.underflow with
      | (none, stream) => (none, stream)
      | (some byte, stream) => (some byte, { stream with getArea := stream.getArea.tail })

/-- `std::streambuf::sgetn` -/
def sgetn : ℕ → SocketStream → List UInt8 × SocketStream
  | 0, stream => ([], stream)
  | count + 1, stream =>
      match stream.sbumpc with
      | (none, stream) => ([], stream)
      | (some byte, stream) =>
          let rest := sgetn count stream
          (byte :: rest.1, rest.2)

/-- The part of `BasicSocketStreambuf::overflow` that sends the put area. What was not sent
stays in it. -/
def sendPending (stream : SocketStream) : Bool × SocketStream :=
  match writeExactly stream.writes stream.putArea with
  | (true, sent, calls) =>
      (true, { stream with wire := stream.wire ++ sent, writes := calls, putArea := [] })
  | (false, sent, calls) =>
      (false, { stream with state := .closed, wire := stream.wire ++ sent, writes := calls })

/-- The end of `BasicSocketStreambuf::overflow`, which puts a byte. -/
def store (c : Option UInt8) (stream : SocketStream) : SocketStream :=
  { stream with putArea := stream.putArea ++ c.toList }

/-- `BasicSocketStreambuf::overflow` -/
def overflow (c : Option UInt8) (stream : SocketStream) : Bool × SocketStream :=
  if stream.state = .connected then
    let ready := { stream with hasPutArea := true }
    if stream.putArea.length = bufsize ∨ c = none then
      match ready.sendPending with
      | (false, flushed) => (false, flushed)
      | (true, flushed) => (true, flushed.store c)
    else (true, ready.store c)
  else (false, stream)

/-- `std::streambuf::sputc` -/
def sputc (byte : UInt8) (stream : SocketStream) : Bool × SocketStream :=
  if stream.hasPutArea ∧ stream.putArea.length < bufsize then (true, stream.store (some byte))
  else stream.overflow (some byte)

/-- `std::streambuf::sputn`: how many bytes are put. -/
def sputn : List UInt8 → SocketStream → ℕ × SocketStream
  | [], stream => (0, stream)
  | byte :: data, stream =>
      match stream.sputc byte with
      | (false, stream) => (0, stream)
      | (true, stream) =>
          let rest := sputn data stream
          (rest.1 + 1, rest.2)

/-- `BasicSocketStreambuf::connect`, with the peer if the socket gets connected to one. -/
def bufConnect (outcome : Option Peer) (stream : SocketStream) : Bool × SocketStream :=
  if stream.state = .closed ∨ stream.state = .disconnected then
    match outcome with
    | none => (false, { stream with state := .closed })
    | some peer =>
        (true, { stream with
          state := .connected, reads := peer.reads, writes := peer.writes, wire := [] })
  else (false, stream)

/-- `BasicStreamSocket::disconnect` and `waitDisconnected` -/
def socketDisconnect (stream : SocketStream) : Bool × SocketStream :=
  if stream.state = .connected ∨ stream.state = .disconnecting then
    let lingered := linger stream.reads
    (lingered.1, { stream with
      state := if lingered.1 then .disconnected else .disconnecting, reads := lingered.2 })
  else (true, stream)

/-- `BasicSocketStreambuf::disconnect` -/
def bufDisconnect (stream : SocketStream) : Bool × SocketStream :=
  let flushed := if stream.state = .connected then stream.overflow none else (true, stream)
  if flushed.1 then flushed.2.socketDisconnect else flushed

/-! ## The stream -/

/-- `setstate`, if a call has not succeeded. -/
def settle (result : Bool × SocketStream) : SocketStream :=
  { result.2 with good := result.2.good && result.1 }

/-- `std::istream::get` -/
def get (stream : SocketStream) : Option UInt8 × SocketStream :=
  if stream.good then
    let result := stream.sbumpc
    (result.1, settle (result.1.isSome, result.2))
  else (none, stream)

/-- `std::istream::read` -/
def read (count : ℕ) (stream : SocketStream) : List UInt8 × SocketStream :=
  if stream.good then
    let result := stream.sgetn count
    (result.1, settle (decide (result.1.length = count), result.2))
  else ([], stream)

/-- `std::ostream::write`: how many bytes are put. -/
def write (data : List UInt8) (stream : SocketStream) : ℕ × SocketStream :=
  if stream.good then
    let result := stream.sputn data
    (result.1, settle (decide (result.1 = data.length), result.2))
  else (0, stream)

/-- `std::ostream::flush`, with `BasicSocketStreambuf::sync`. -/
def flush (stream : SocketStream) : SocketStream :=
  if stream.good then settle (stream.overflow none) else stream

/-- `BasicSocketStream::connect` -/
def connect (outcome : Option Peer) (stream : SocketStream) : SocketStream :=
  settle (stream.bufConnect outcome)

/-- `BasicSocketStream::disconnect` -/
def disconnect (stream : SocketStream) : SocketStream := settle stream.bufDisconnect

/-- `BasicSocketStream::close` -/
def close (stream : SocketStream) : SocketStream := { stream with state := .closed }

/-- `std::ios::clear` -/
def clear (stream : SocketStream) : SocketStream := { stream with good := true }

/-- The loop of `join::getline`, with what has been taken for the line. -/
def getlineFrom : ℕ → List UInt8 → SocketStream → Option (List UInt8) × SocketStream
  | 0, _, stream => (none, stream)
  | max + 1, line, stream =>
      match stream.get with
      | (none, stream) => (none, stream)
      | (some ch, stream) =>
          if ch = carriageReturn then getlineFrom max line stream
          else if ch = lineFeed then (some line, stream)
          else getlineFrom max (line ++ [ch]) stream

/-- `join::getline` -/
def getline (stream : SocketStream) : Option (List UInt8) × SocketStream :=
  getlineFrom 1024 [] stream

end SocketStream

end Join
