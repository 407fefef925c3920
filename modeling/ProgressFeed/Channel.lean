import ProgressFeed.Bytes

/-!
# Channels

A channel carries frames from the server to the feed, over a WebSocket or over an event stream;
only the former can also send. Its owner hears that it opened, its frames, at most one failure, and
how it closed.
-/

namespace ProgressFeed

inductive Channel.Kind
  | webSocket
  | eventStream
deriving DecidableEq, Repr

namespace Channel

def Kind.name : Kind → Bytes
  | webSocket => utf8 "websocket"
  | eventStream => utf8 "event-stream"

/-- Whether the kind can send as well as receive. -/
def Kind.isDuplex : Kind → Bool
  | webSocket => true
  | eventStream => false

/-- Zero is the WebSocket. -/
def Kind.ofIndex (i : Int) : Kind := if i == 0 then webSocket else eventStream

/-- One message of the server. -/
structure Frame where
  /-- The event name that a stream gave it. -/
  event : Option Bytes := none
  text : Bytes
deriving DecidableEq, Repr

/-- The end of a connection. -/
structure Closing where
  code : UInt16 := 1006
  reason : Bytes := []
deriving DecidableEq, Repr

/-- The code of a close that was meant. -/
def normalCode : UInt16 := 1000

/-- The code of a connection that broke off. -/
def abnormalCode : UInt16 := 1006

def Closing.isNormal (c : Closing) : Bool := c.code == normalCode

/-- How the owner of a channel closes it. -/
def Closing.byOwner : Closing := ⟨normalCode, utf8 "Client disconnect"⟩

/-- How the attempt ends for which there is no channel. -/
def Closing.unavailable : Closing := ⟨abnormalCode, utf8 "transport unavailable"⟩

/-- What the owner of a channel hears. -/
inductive Notice
  | opened
  | frame (f : Frame)
  | failed (message : Bytes)
  | closed (c : Closing)
deriving DecidableEq, Repr

end Channel

end ProgressFeed
