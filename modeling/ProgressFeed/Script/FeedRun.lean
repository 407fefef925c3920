import ProgressFeed.Feed
import ProgressFeed.Script.Audience
import ProgressFeed.Script.Surroundings

/-!
# Scripted runs of a feed

A feed with its subscribers in surroundings of any kind.
-/

namespace ProgressFeed.Script.FeedRun

variable {S P W R : Type}

/-- A step of a script; `P` is what it can do with the surroundings. -/
inductive Step (P : Type)
  | connect
  | disconnect
  | reconnect
  | keepalive
  | refresh
  /-- Whether the status can be asked for. -/
  | setPolls (polls : Bool)
  | subscribe (topic : Topic) (label : Bytes)
  | unsubscribe (topic : Topic) (id : Nat)
  /-- Retires the feed, and the tally before it. -/
  | retire
  /-- The callback fails when its reactions are over, which nobody notices. -/
  | fail
  | outer (p : P)
deriving DecidableEq, Repr

/-- What is recorded; `R` is what the surroundings record. -/
inductive Record (R : Type)
  | received (r : Received)
  | outer (r : R)
  /-- Whether a sign of life was taken. -/
  | sendResult (taken : Bool)
  | subscribed (id : Nat)
  | unsubscribed (wasSubscribed : Bool)
  /-- There is no feed any more. -/
  | gone
deriving DecidableEq, Repr

/-- Work under way; `W` is that of the surroundings. -/
inductive Work (W : Type)
  /-- An event is being delivered; these have yet to get it. -/
  | deliver (e : Event) (waiting : List Subscriber)
  /-- The delivery is over. -/
  | resume (r : Feed.Resume)
  | outer (w : W)
deriving DecidableEq, Repr

structure World (S : Type) where
  feed : Feed
  /-- The feed has not begun to retire. -/
  isAlive : Bool := true
  audience : Audience := {}
  outer : S
deriving DecidableEq, Repr

abbrev Turn (S P W R : Type) := Script.Turn (World S) (Step P) (Work W) (Record R)

namespace World

variable (s : Surroundings S P W R)

/-- What the surroundings would answer now. -/
def outside (w : World S) : Outside :=
  s.outside w.outer (w.feed.link.bind Link.sender?)

/-- Carries out commands. -/
def obey (w : World S) (commands : List Command) : World S × List (Record R) :=
  let (outer, records) := s.obeyAll w.outer commands
  ({ w with outer }, records.map .outer)

/-- The feed has made a step. -/
def adopt (w : World S) (x : Feed.Step) : Turn S P W R :=
  let (w, records) := { w with feed := x.feed }.obey s x.commands
  match x.pause with
  | none => { world := w, records }
  | some (event, resume) =>
    { world := w
      records
      pieces := [.work (.deliver event (w.audience.bus.audience event)), .work (.resume resume)] }

/-- Something has happened in the surroundings. -/
def follow (w : World S) (x : Outcome S W R) : Turn S P W R :=
  let w := { w with outer := x.state }
  let t : Turn S P W R := match x.incoming with
    | none => { world := w }
    | some i => w.adopt s (w.feed.incoming (w.outside s) i)
  { t with
    records := x.records.map .outer ++ t.records
    pieces := t.pieces ++ x.later.map fun later ↦ .work (.outer later) }

/-- Something that only a living feed can do. -/
def ifAlive (w : World S) (t : Turn S P W R) : Turn S P W R :=
  if w.isAlive then t else { world := w, records := [.gone] }

def keepalive (w : World S) : Turn S P W R :=
  let (taken, commands) := w.feed.sendKeepalive (w.outside s)
  let (w, records) := w.obey s commands
  { world := w, records := records ++ [.sendResult taken] }

def refresh (w : World S) : Turn S P W R :=
  let (w, records) := w.obey s w.feed.refresh
  { world := w, records }

def subscribe (w : World S) (topic : Topic) (label : Bytes) : Turn S P W R :=
  let (id, bus) := w.audience.bus.subscribe topic (.labelled label)
  { world := { w with audience := { w.audience with bus } }, records := [.subscribed id] }

def unsubscribe (w : World S) (topic : Topic) (id : Nat) : Turn S P W R :=
  let (wasSubscribed, bus) := w.audience.bus.unsubscribe topic id
  { world := { w with audience := { w.audience with bus } }
    records := [.unsubscribed wasSubscribed] }

def retire (w : World S) : Turn S P W R :=
  { w with isAlive := false, audience := w.audience.dropTally }.adopt s
    (w.feed.retire (w.outside s))

def perform (w : World S) : Step P → Turn S P W R
  | .connect => w.ifAlive (w.adopt s (w.feed.connect (w.outside s)))
  | .disconnect => w.ifAlive (w.adopt s (w.feed.disconnect (w.outside s)))
  | .reconnect => w.ifAlive (w.adopt s (w.feed.reconnect (w.outside s)))
  | .keepalive => w.ifAlive (w.keepalive s)
  | .refresh => w.ifAlive (w.refresh s)
  | .setPolls polls => w.ifAlive { world := { w with feed := { w.feed with polls } } }
  | .subscribe topic label => w.ifAlive (w.subscribe topic label)
  | .unsubscribe topic id => w.ifAlive (w.unsubscribe topic id)
  | .retire => w.ifAlive (w.retire s)
  | .fail => { world := w }
  | .outer p => w.follow s (s.perform w.outer p)

/-- The next subscriber gets an event. -/
def deliver (w : World S) (e : Event) : List Subscriber → Turn S P W R
  | [] => { world := w }
  | .tally :: waiting =>
    { world := { w with audience := w.audience.count e }, pieces := [.work (.deliver e waiting)] }
  | .labelled label :: waiting =>
    { world := w
      records := [.received ⟨label, e⟩]
      pieces := [.react (.ofEvent e) 0, .work (.deliver e waiting)] }

def work (w : World S) : Work W → Turn S P W R
  | .deliver e waiting => w.deliver e waiting
  | .resume r => w.adopt s (w.feed.resume (w.outside s) r)
  | .outer x => w.follow s (s.work w.outer x)

end World

/-- A feed on this stage is in these surroundings. -/
def stage (s : Surroundings S P W R) : Stage (World S) (Step P) (Work W) (Record R) :=
  ⟨World.perform s, World.work s⟩

end ProgressFeed.Script.FeedRun
