import ProgressFeed.Bus.Tally
import ProgressFeed.Script

/-!
# Subscribers of a scripted feed

A labelled subscriber records what it gets; a tally only counts.
-/

namespace ProgressFeed.Script

inductive Subscriber
  | labelled (label : Bytes)
  | tally
deriving DecidableEq, Repr

/-- What a labelled subscriber has got. -/
structure Received where
  label : Bytes
  event : Event
deriving DecidableEq, Repr

/-- The kind of callback that an event is delivered by. -/
def Moment.ofEvent : Event → Moment
  | .snapshot _ => .snapshot
  | .state _ _ .connecting => .connecting
  | .state _ _ .connected => .connected
  | .state _ _ .disconnected => .disconnected
  | .heartbeat .. => .heartbeat
  | .fault .. => .fault

/-- The subscribers of a feed, and the tally if there is one. -/
structure Audience where
  bus : Bus Subscriber := {}
  tally : Option Tally := none
  /-- The numbers that the tally was given. -/
  tallyIds : List Nat := []
deriving DecidableEq, Repr

namespace Audience

/-- One subscriber to every topic. -/
def subscribeAll (a : Audience) (label : Bytes) (topics : List Topic) : Audience :=
  { a with bus := (a.bus.subscribeAll (.labelled label) topics).2 }

def addTally (a : Audience) : Audience :=
  let (tallyIds, bus) := a.bus.subscribeAll .tally Tally.topics
  { bus, tally := some {}, tallyIds }

def dropTally (a : Audience) : Audience where
  bus := a.bus.unsubscribeAll (Tally.topics.zip a.tallyIds)

/-- Counts an event. -/
def count (a : Audience) (e : Event) : Audience := { a with tally := a.tally.map (·.add e) }

end Audience

end ProgressFeed.Script
