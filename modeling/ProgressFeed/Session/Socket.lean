import ProgressFeed.Fault
import ProgressFeed.Session.Basic

/-!
# WebSocket sessions

Resolve, connect, handshake; then read messages one after another, and write payloads one at a time
in the order in which they were sent.
-/

namespace ProgressFeed.Session

structure Socket where
  host : Bytes
  port : UInt16
  hostHeader : Bytes
  target : Bytes
  /-- What is still to be written, the payload being written included. -/
  outbox : List Bytes := []
  isOpen : Bool := false
  isWriting : Bool := false
  /-- The owner has closed the session. -/
  isClosing : Bool := false
  /-- The owner has heard that the session is over. -/
  isFinished : Bool := false
deriving DecidableEq, Repr

namespace Socket

/-- The longest reason that fits a close frame. -/
def maxReason : Nat := 123

def rest (s : Socket) : Step Socket := { session := s }

def isOver (s : Socket) : Bool := s.isClosing || s.isFinished

/-- Payloads are taken. -/
def accepts (s : Socket) : Bool := s.isOpen && !s.isOver

def start (s : Socket) : Step Socket := { session := s, calls := [.resolve s.host s.port] }

/-- The owner closes the session, and hears nothing more of it. -/
def close (s : Socket) (c : Channel.Closing) : Step Socket :=
  if s.isOver then s.rest
  else
    { session := { s with isClosing := true }
      calls :=
        if s.isOpen then [.closeHandshake c.code (c.reason.take maxReason)]
        else [.cancelResolver, .closeStream] }

/-- The owner hears that the session is over. -/
def finish (s : Socket) (c : Channel.Closing) : Step Socket where
  session := { s with isFinished := true, isOpen := false }
  pause := some (.closed c, .nothing)

/-- An operation has failed. -/
def fail (s : Socket) (what : String) (e : Net.Error) : Step Socket :=
  if s.isOver then s.rest
  else
    match failure? (utf8 "websocket " ++ utf8 what) e with
    | none => s.rest
    | some message => { session := s, pause := some (.failed message, .fail message) }

/-- Writes the first payload of the outbox. -/
def write (s : Socket) : Step Socket where
  session := { s with isWriting := true }
  calls := (s.outbox.head?.map Net.Call.writeMessage).toList

/-- Sends a payload, as soon as those before it are written. -/
def send (s : Socket) (payload : Bytes) : Except Fault Unit × Step Socket :=
  if s.accepts then
    let s := { s with outbox := s.outbox ++ [payload] }
    (.ok (), if s.isWriting then s.rest else s.write)
  else (.error ⟨.transport, utf8 "WebSocket is not open", none⟩, s.rest)

def onHandshake (s : Socket) : Step Socket :=
  if s.isClosing then s.rest
  else
    { session := { s with isOpen := true }, calls := [.useText], pause := some (.opened, .read) }

def onRead (s : Socket) (c : Net.Completion) : Step Socket :=
  if s.isOver then s.rest
  else
    match c.error with
    | none => { session := s, pause := some (.frame ⟨none, c.data⟩, .read) }
    | some e => if e.kind = .closed then s.finish ⟨c.code, c.reason⟩ else s.fail "read" e

/-- A payload has been written, or not; one that has not stays first in the outbox. -/
def onWrite (s : Socket) (c : Net.Completion) : Step Socket :=
  let s := { s with isWriting := false }
  match c.error with
  | some e => s.fail "write" e
  | none =>
    let s := { s with outbox := s.outbox.tail }
    if s.outbox.isEmpty || s.isOver then s.rest else s.write

/-- An operation of the session has completed. -/
def complete (s : Socket) (o : Net.Operation) (c : Net.Completion) : Step Socket :=
  match o, c.error with
  | .resolve, none => { session := s, calls := [.expireAfter Net.connectTimeout, .connect] }
  | .resolve, some e => s.fail "resolve" e
  | .connect, none =>
    { session := s, calls := [.expireNever, .suggestTimeout, .handshake s.hostHeader s.target] }
  | .connect, some e => s.fail "connect" e
  | .handshake, none => s.onHandshake
  | .handshake, some e => s.fail "handshake" e
  | .readMessage, _ => s.onRead c
  | .writeMessage, _ => s.onWrite c
  | _, _ => s.rest

/-- A notice has been delivered. -/
def resume (s : Socket) : Resume → Step Socket
  | .fail message =>
    if s.isOver then s.rest
    else
      { s.finish ⟨Channel.abnormalCode, message⟩ with calls := [.closeStream] }
  | .read => if s.isOver then s.rest else { session := s, calls := [.readMessage] }
  | _ => s.rest

end Socket

end ProgressFeed.Session
