import ProgressFeed.Snapshot

/-!
# Messages of the server
-/

namespace ProgressFeed

inductive Message
  /-- The current progress, which replaces what was known of the source. -/
  | progress (s : Snapshot)
  /-- A sign of life. -/
  | heartbeat (source : Bytes) (active : Bool) (timestamp : Int64)
  /-- The server has accepted the subscription. -/
  | connected (source : Bytes) (timestamp : Int64)
  /-- A problem on the server's side. -/
  | error (message : Bytes) (type details : Option Bytes)
  /-- The server is about to end the stream. -/
  | closing (source message : Bytes) (timestamp : Int64)
deriving DecidableEq, Repr

end ProgressFeed
