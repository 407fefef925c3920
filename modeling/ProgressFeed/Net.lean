import ProgressFeed.Bytes

/-!
# The network

What the sessions ask of the network, and how it answers. A call may start an operation, which is
pending until it completes, with a result or an error. Closing or cancelling something completes
nothing by itself.
-/

namespace ProgressFeed.Net

/-- The operations that take time. -/
inductive Operation
  | resolve
  | connect
  | writeRequest
  | readHead
  | readSome
  | readResponse
  | handshake
  | readMessage
  | writeMessage
  | closeHandshake
  | wait
  | post
deriving DecidableEq, Repr

/-- A request without a body. -/
structure Request where
  method : Bytes := utf8 "GET"
  target : Bytes
  /-- Names and values, in order. -/
  fields : List (Bytes × Bytes)
deriving DecidableEq, Repr

inductive Call
  | resolve (host : Bytes) (port : UInt16)
  /-- Connects to what has been resolved. -/
  | connect
  /-- The connection breaks off after so many seconds. -/
  | expireAfter (seconds : Nat)
  | expireNever
  | cancelResolver
  /-- Shuts down both directions. -/
  | shutDown
  | closeStream
  | writeRequest (r : Request)
  | readHead
  /-- Reads as much as there is into a buffer of this size. -/
  | readSome (size : Nat)
  | readResponse
  /-- Leaves timeouts to the WebSocket. -/
  | suggestTimeout
  /-- Messages are texts. -/
  | useText
  | handshake (host target : Bytes)
  | readMessage
  | writeMessage (payload : Bytes)
  | closeHandshake (code : UInt16) (reason : Bytes)
  | wait (timer : Nat) (delay : Int)
  | cancelTimer (timer : Nat)
  /-- Calls back from the event loop. -/
  | post
deriving DecidableEq, Repr

/-- The operation that a call starts. -/
def Call.starts : Call → Option Operation
  | resolve .. => some .resolve
  | connect => some .connect
  | writeRequest _ => some .writeRequest
  | readHead => some .readHead
  | readSome _ => some .readSome
  | readResponse => some .readResponse
  | handshake .. => some .handshake
  | readMessage => some .readMessage
  | writeMessage _ => some .writeMessage
  | closeHandshake .. => some .closeHandshake
  | wait .. => some .wait
  | post => some .post
  | expireAfter _ | expireNever | cancelResolver | shutDown | closeStream | suggestTimeout
  | useText | cancelTimer _ => none

inductive Error.Kind
  /-- The operation was broken off from this side. -/
  | aborted
  | endOfFile
  | endOfStream
  /-- The buffer is full, which is no failure. -/
  | bufferFull
  /-- The peer has closed the WebSocket. -/
  | closed
  | other
deriving DecidableEq, Repr

structure Error where
  kind : Error.Kind
  message : Bytes := []
deriving DecidableEq, Repr

/-- How an operation has ended. -/
structure Completion where
  error : Option Error := none
  /-- What has been read. -/
  data : Bytes := []
  /-- The status of the response. -/
  status : Nat := 200
  /-- The body is complete. -/
  isDone : Bool := false
  /-- The code and the reason that the peer has closed with. -/
  code : UInt16 := 0
  reason : Bytes := []
deriving DecidableEq, Repr

/-- The kind of error, if there is one. -/
def Completion.errorKind (c : Completion) : Option Error.Kind := c.error.map Error.kind

/-- How long connecting may take, in seconds. -/
def connectTimeout : Nat := 30

end ProgressFeed.Net
