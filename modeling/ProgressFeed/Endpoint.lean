import ProgressFeed.Percent

/-!
# Where the server is

The three request targets of a source, and their addresses.
-/

namespace ProgressFeed

structure Endpoint where
  host : Bytes := utf8 "localhost"
  port : UInt16 := 8000
deriving DecidableEq, Repr

namespace Endpoint

/-- The host, with the port unless it is that of plain HTTP. -/
def hostHeader (e : Endpoint) : Bytes :=
  if e.port == 80 then e.host else e.host ++ utf8 ":" ++ Bytes.ofNat e.port.toNat

/-- The path that every target of a source begins with. -/
def sourcePath (source : Bytes) : Bytes :=
  utf8 "/api/sources/" ++ Percent.encode source ++ utf8 "/sync"

/-- The WebSocket of a source, which takes the token in its query. -/
def webSocketTarget (source token : Bytes) : Bytes :=
  sourcePath source ++ utf8 "/progress/ws?token=" ++ Percent.encode token

def eventStreamTarget (source : Bytes) : Bytes := sourcePath source ++ utf8 "/progress"

def statusTarget (source : Bytes) : Bytes := sourcePath source ++ utf8 "/status"

def webSocketUrl (e : Endpoint) (source token : Bytes) : Bytes :=
  utf8 "ws://" ++ e.hostHeader ++ webSocketTarget source token

def eventStreamUrl (e : Endpoint) (source : Bytes) : Bytes :=
  utf8 "http://" ++ e.hostHeader ++ eventStreamTarget source

def statusUrl (e : Endpoint) (source : Bytes) : Bytes :=
  utf8 "http://" ++ e.hostHeader ++ statusTarget source

end Endpoint

end ProgressFeed
