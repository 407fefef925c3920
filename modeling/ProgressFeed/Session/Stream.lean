import ProgressFeed.EventStream.Reader
import ProgressFeed.Fault
import ProgressFeed.Session.Basic

/-!
# Event-stream sessions

One request whose response body is an event stream: resolve, connect, write the request, read the
head, and then read the body piece by piece. Nothing can be sent.
-/

namespace ProgressFeed.Session

structure Stream where
  host : Bytes
  port : UInt16
  request : Net.Request
  reader : EventStream.Reader := {}
  /-- The owner has closed the session. -/
  isClosing : Bool := false
  /-- The owner has heard that the session is over. -/
  isFinished : Bool := false
deriving DecidableEq, Repr

namespace Stream

/-- The size of the buffer that the body is read into. -/
def pieceSize : Nat := 8192

/-- The request for the events of a target; an empty token is left out. -/
def requestFor (hostHeader target token : Bytes) : Net.Request where
  target
  fields :=
    [(utf8 "Host", hostHeader), (utf8 "Accept", utf8 "text/event-stream"),
      (utf8 "Cache-Control", utf8 "no-cache")] ++
      if token.isEmpty then [] else [(utf8 "Authorization", utf8 "Bearer " ++ token)]

def rest (s : Stream) : Step Stream := { session := s }

def isOver (s : Stream) : Bool := s.isClosing || s.isFinished

def start (s : Stream) : Step Stream := { session := s, calls := [.resolve s.host s.port] }

/-- The owner closes the session, and hears nothing more of it. -/
def close (s : Stream) : Step Stream :=
  if s.isOver then s.rest
  else
    { session := { s with isClosing := true }
      calls := [.cancelResolver, .shutDown, .closeStream] }

/-- The owner hears that the session is over. -/
def finish (s : Stream) (message : Bytes) : Step Stream where
  session := { s with isFinished := true }
  pause := some (.closed ⟨Channel.abnormalCode, message⟩, .nothing)

/-- The end of the body. -/
def finishBody (s : Stream) : Step Stream := s.finish (utf8 "event stream ended")

def failWith (s : Stream) (message : Bytes) : Step Stream where
  session := s
  pause := some (.failed message, .fail message)

/-- An operation has failed. -/
def fail (s : Stream) (what : String) (e : Net.Error) : Step Stream :=
  if s.isOver then s.rest
  else
    match failure? (utf8 "event stream " ++ utf8 what) e with
    | none => s.rest
    | some message => s.failWith message

/-- Nothing can be sent. -/
def send (s : Stream) : Except Fault Unit × Step Stream :=
  (.error ⟨.transport, utf8 "event stream transport is receive-only", none⟩, s.rest)

def readOn (s : Stream) : Step Stream := { session := s, calls := [.readSome pieceSize] }

def onHead (s : Stream) (c : Net.Completion) : Step Stream :=
  if s.isClosing then s.rest
  else if c.status ≠ 200 then
    s.failWith (utf8 "event stream returned HTTP " ++ Bytes.ofNat c.status)
  else { session := s, calls := [.expireNever], pause := some (.opened, .read) }

/-- The frame of an event; one without a name of its own has none. -/
def frame (e : EventStream.Event) : Channel.Frame :=
  ⟨if e.name = EventStream.defaultName then none else some e.name, e.data⟩

/-- Delivers events, and then goes on reading or ends. -/
def deliver (s : Stream) (isDone : Bool) : List EventStream.Event → Step Stream
  | [] => if isDone then s.finishBody else s.readOn
  | e :: events => { session := s, pause := some (.frame (frame e), .deliver events isDone) }

/-- A piece of the body has come in. -/
def onPiece (s : Stream) (c : Net.Completion) : Step Stream :=
  match s.reader.feed (c.data.take pieceSize) with
  | (reader, .error e) => { s with reader }.failWith (utf8 "event stream: " ++ e.message)
  | (reader, .ok events) => { s with reader }.deliver c.isDone events

def onRead (s : Stream) (c : Net.Completion) : Step Stream :=
  if s.isOver then s.rest
  else
    match c.error with
    | none => s.onPiece c
    | some e =>
      match e.kind with
      | .bufferFull => s.onPiece c
      | .endOfStream | .endOfFile => s.finishBody
      | _ => s.fail "read" e

/-- An operation of the session has completed. -/
def complete (s : Stream) (o : Net.Operation) (c : Net.Completion) : Step Stream :=
  match o, c.error with
  | .resolve, none => { session := s, calls := [.expireAfter Net.connectTimeout, .connect] }
  | .resolve, some e => s.fail "resolve" e
  | .connect, none => { session := s, calls := [.writeRequest s.request] }
  | .connect, some e => s.fail "connect" e
  | .writeRequest, none => { session := s, calls := [.readHead] }
  | .writeRequest, some e => s.fail "write" e
  | .readHead, none => s.onHead c
  | .readHead, some e => s.fail "read header" e
  | .readSome, _ => s.onRead c
  | _, _ => s.rest

/-- A notice has been delivered. -/
def resume (s : Stream) : Resume → Step Stream
  | .nothing => s.rest
  | .fail message =>
    if s.isOver then s.rest else { s.finish message with calls := [.closeStream] }
  | .read => if s.isOver then s.rest else s.readOn
  | .deliver events isDone => if s.isOver then s.rest else s.deliver isDone events

end Stream

end ProgressFeed.Session
