import ProgressFeed.Endpoint
import ProgressFeed.Session.Socket
import ProgressFeed.Session.Stream

/-!
# Sessions

A session is of either kind of channel.
-/

namespace ProgressFeed

inductive Session
  | socket (s : Session.Socket)
  | stream (s : Session.Stream)
deriving DecidableEq, Repr

namespace Session

def Step.map {α β : Type} (f : α → β) (s : Step α) : Step β :=
  { session := f s.session, calls := s.calls, pause := s.pause }

/-- A session for a source, not yet started. -/
def make (kind : Channel.Kind) (e : Endpoint) (source token : Bytes) : Session :=
  match kind with
  | .webSocket => .socket {
      host := e.host
      port := e.port
      hostHeader := e.hostHeader
      target := Endpoint.webSocketTarget source token }
  | .eventStream => .stream {
      host := e.host
      port := e.port
      request := Stream.requestFor e.hostHeader (Endpoint.eventStreamTarget source) token }

def kind : Session → Channel.Kind
  | socket _ => .webSocket
  | stream _ => .eventStream

/-- Payloads are taken. -/
def accepts : Session → Bool
  | socket s => s.accepts
  | stream _ => false

def start : Session → Step Session
  | socket s => s.start.map socket
  | stream s => s.start.map stream

/-- The owner closes the session; only a WebSocket tells the peer why. -/
def close (c : Channel.Closing) : Session → Step Session
  | socket s => (s.close c).map socket
  | stream s => s.close.map stream

def send (payload : Bytes) : Session → Except Fault Unit × Step Session
  | socket s => let (r, s) := s.send payload; (r, s.map socket)
  | stream s => let (r, s) := s.send; (r, s.map stream)

def complete (o : Net.Operation) (c : Net.Completion) : Session → Step Session
  | socket s => (s.complete o c).map socket
  | stream s => (s.complete o c).map stream

def resume (r : Resume) : Session → Step Session
  | socket s => (s.resume r).map socket
  | stream s => (s.resume r).map stream

end Session

end ProgressFeed
