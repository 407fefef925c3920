import ProgressFeed.Connection
import ProgressFeed.Fault
import ProgressFeed.Snapshot

/-!
# Published events
-/

namespace ProgressFeed

/-- What a subscriber can subscribe to. -/
inductive Topic
  | snapshot
  | state
  | heartbeat
  | fault
deriving DecidableEq, Repr

inductive Event
  /-- New progress, streamed or asked for. -/
  | snapshot (s : Snapshot)
  | state (source : Bytes) (was now : Connection)
  /-- A sign of life, which comes with no progress. -/
  | heartbeat (source : Bytes) (active : Bool) (timestamp : Int64)
  | fault (source : Bytes) (f : Fault)
deriving DecidableEq, Repr

namespace Event

def topic : Event → Topic
  | snapshot _ => .snapshot
  | state .. => .state
  | heartbeat .. => .heartbeat
  | fault .. => .fault

/-- The source that an event is about. -/
def source : Event → Bytes
  | snapshot s => s.source
  | state source _ _ => source
  | heartbeat source _ _ => source
  | fault source _ => source

end Event

end ProgressFeed
