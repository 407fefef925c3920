import ProgressFeed.Event
import ProgressFeed.Incoming
import ProgressFeed.Link
import ProgressFeed.Message.Decode
import ProgressFeed.Phase.History

/-!
# A feed

A feed follows the job of one source. It keeps the latest snapshot and the history of phases, turns
frames and status answers into published events, sends a sign of life at intervals over channels
that can send, and replaces its link when that has become terminal or a fresh start is wanted.

Like a link it runs up to the next thing that it has to wait for, which here is the delivery of an
event to the subscribers; they may call the feed again. Each closing of the stream begins a new
epoch, and status answers of an older one are dropped.
-/

namespace ProgressFeed

structure Feed.Settings where
  source : Bytes
  backoff : Backoff := {}
  /-- The interval between signs of life in milliseconds; none when it is not positive. -/
  keepalive : Int := 30000
  /-- Close the stream when the job is over. -/
  closesAtEnd : Bool := false
deriving DecidableEq, Repr

structure Feed where
  settings : Feed.Settings
  link : Option Link := none
  /-- How many links there have been. -/
  links : Nat := 0
  phases : Phase.History := {}
  latest : Option Snapshot := none
  /-- The alarm for the next sign of life. -/
  keepalive : Option Nat := none
  epoch : Nat := 0
  /-- The status can be asked for. -/
  polls : Bool := false
deriving DecidableEq, Repr

namespace Feed

/-- What follows when a link has done its part. -/
inductive Next
  | nothing
  /-- Forget the progress. -/
  | forget
  /-- Forget the progress and start afresh. -/
  | startOver
  /-- Forget the progress and drop the link. -/
  | retire
deriving DecidableEq, Repr

/-- What is left to do when an event has been delivered. -/
inductive Resume
  | nothing
  /-- Go on with the link of this number, if it is still there, and then with what follows. -/
  | link (id : Nat) (resume : Link.Resume) (next : Next)
  /-- Close the stream if the job is over and nobody has closed it since this epoch. -/
  | delivered (terminal : Bool) (epoch : Nat)
deriving DecidableEq, Repr

structure Step where
  feed : Feed
  commands : List Command := []
  pause : Option (Event × Resume) := none
deriving DecidableEq, Repr

def rest (f : Feed) : Step := { feed := f }

def publish (f : Feed) (e : Event) (resume : Resume) : Step :=
  { feed := f, pause := some (e, resume) }

/-- The step with commands in front. -/
def Step.after (commands : List Command) (s : Step) : Step :=
  { s with commands := commands ++ s.commands }

def connection (f : Feed) : Connection := f.link.elim .disconnected Link.state

def attempts (f : Feed) : Nat := f.link.elim 0 Link.attempts

/-! ## Signs of life -/

def keepalivePayload : Bytes := utf8 "ping"

/-- Sends a sign of life, if that is possible; whether it was taken. -/
def sendKeepalive (f : Feed) (o : Outside) : Bool × List Command :=
  match f.link with
  | none => (false, [])
  | some l => l.send keepalivePayload o

def stopKeepalive (f : Feed) : Step :=
  { feed := { f with keepalive := none }
    commands := (f.keepalive.map Command.stopAlarm).toList }

/-- Whether signs of life are to be sent. -/
def wantsKeepalive (f : Feed) : Bool :=
  decide (0 < f.settings.keepalive) && (f.link.bind Link.sender?).isSome

def startKeepalive (f : Feed) (o : Outside) : Step :=
  if f.wantsKeepalive then
    Step.after f.stopKeepalive.commands
      { feed := { f with keepalive := some o.alarm }
        commands := [.setAlarm o.alarm f.settings.keepalive .keepalive] }
  else f.stopKeepalive

/-! ## The link -/

/-- What a link says is published. A connection that is established is kept alive. -/
def relay (f : Feed) (call : Link.Call) (resume : Resume) (o : Outside) : Step :=
  match call with
  | .state was now =>
    let s := if now = .connected then f.startKeepalive o else f.stopKeepalive
    (s.feed.publish (.state f.settings.source was now) resume).after s.commands
  | .fault e => f.publish (.fault f.settings.source e) resume

/-- A link has made a step. When the link has no more to say `rest` follows at once, and otherwise
what is noted as `next` follows in the end. -/
def adopt (f : Feed) (s : Link.Step) (next : Next) (rest : Feed → Step) (o : Outside) : Step :=
  let f := { f with link := some s.link }
  Step.after s.commands <|
    match s.pause with
    | none => rest f
    | some (call, resume) => f.relay call (.link s.link.id resume next) o

/-- A link has made a step after which nothing follows. -/
def follow (f : Feed) (s : Link.Step) (o : Outside) : Step := f.adopt s .nothing rest o

def forget (f : Feed) : Feed := { f with latest := none, phases := .empty }

/-- What the current link leaves behind when it is dropped. -/
def farewell (f : Feed) : List Command := f.link.elim [] Link.farewell

/-- A link that has done nothing yet. -/
def freshLink (f : Feed) : Link :=
  { id := f.links, source := f.settings.source, backoff := f.settings.backoff }

/-- Connects a fresh link in place of the current one. -/
def connectFresh (f : Feed) (o : Outside) : Step :=
  ({ f with links := f.links + 1 }.follow (f.freshLink.connect o) o).after f.farewell

/-- What follows. -/
def proceed (f : Feed) (o : Outside) : Next → Step
  | .nothing => f.rest
  | .forget => f.forget.rest
  | .startOver => f.forget.connectFresh o
  | .retire => { feed := { f.forget with link := none }, commands := f.farewell }

/-- Ends the stream. -/
def closeStream (f : Feed) (next : Next) (o : Outside) : Step :=
  let s := f.stopKeepalive
  let f := { s.feed with epoch := f.epoch + 1 }
  Step.after s.commands <|
    match f.link with
    | none => f.proceed o next
    | some l => f.adopt l.disconnect next (·.proceed o next) o

/-! ## What the owner can do -/

/-- Begins to stream; does nothing when it already does. -/
def connect (f : Feed) (o : Outside) : Step :=
  match f.link with
  | none => f.connectFresh o
  | some l => if l.terminal then f.connectFresh o else f.follow (l.connect o) o

/-- Ends the stream and forgets the progress. -/
def disconnect (f : Feed) (o : Outside) : Step := f.closeStream .forget o

/-- Starts afresh. -/
def reconnect (f : Feed) (o : Outside) : Step := f.closeStream .startOver o

/-- Ends the stream for good. -/
def retire (f : Feed) (o : Outside) : Step := f.closeStream .retire o

/-- Asks for the status. -/
def refresh (f : Feed) : List Command :=
  if f.polls then [.fetch f.settings.source f.epoch] else []

/-! ## What comes in -/

/-- A snapshot counts, whichever way it came. -/
def deliver (f : Feed) (s : Snapshot) : Step :=
  { f with phases := f.phases.observe s.phase, latest := some s }.publish (.snapshot s)
    (.delivered s.isTerminal f.epoch)

def publishFault (f : Feed) (e : Fault) : Step := f.publish (.fault f.settings.source e) .nothing

/-- What a message calls for. -/
def receive (f : Feed) : Message → Step
  | .progress s => f.deliver s
  | .heartbeat source active timestamp => f.publish (.heartbeat source active timestamp) .nothing
  | .connected .. => f.rest
  | .error message type _ => f.publishFault (.server type message)
  | .closing .. => f.rest

def receiveFrame (f : Feed) (frame : Channel.Frame) : Step :=
  match Message.ofFrame f.settings.source frame with
  | .error r => f.publishFault r.fault
  | .ok m => f.receive m

/-- The current link, if it is the one of this number. -/
def linkOf? (f : Feed) (id : Nat) : Option Link := f.link.filter (·.id == id)

/-- A notice of a channel that was opened with this stamp. -/
def notice (f : Feed) (stamp : Stamp) (n : Channel.Notice) (o : Outside) : Step :=
  match f.linkOf? stamp.link with
  | none => f.rest
  | some l =>
    match n with
    | .frame frame => if l.hears stamp.generation then f.receiveFrame frame else f.rest
    | n => f.follow (l.notice stamp.generation n o) o

/-- A sign of life is due. -/
def beat (f : Feed) (alarm : Nat) (o : Outside) : Step :=
  let f := { f with keepalive := if f.keepalive = some alarm then none else f.keepalive }
  if f.connection = .connected then (f.startKeepalive o).after (f.sendKeepalive o).2 else f.rest

/-- An alarm has rung. -/
def rang (f : Feed) (alarm : Nat) (o : Outside) : Task → Step
  | .keepalive => f.beat alarm o
  | .reopen id =>
    match f.linkOf? id with
    | none => f.rest
    | some l => f.follow (l.rang alarm o) o

/-- The status that was asked for in this epoch. -/
def polled (f : Feed) (epoch : Nat) (answer : StatusAnswer) : Step :=
  if f.epoch = epoch then
    match answer with
    | .error e => f.publishFault e
    | .ok none => f.rest
    | .ok (some s) => f.deliver s
  else f.rest

/-- Something comes in. -/
def incoming (f : Feed) (o : Outside) : Incoming → Step
  | .notice stamp n => f.notice stamp n o
  | .rang alarm task => f.rang alarm o task
  | .polled epoch answer => f.polled epoch answer

/-- An event has been delivered. -/
def resume (f : Feed) (o : Outside) : Resume → Step
  | .nothing => f.rest
  | .link id resume next =>
    match f.linkOf? id with
    | none => f.proceed o next
    | some l => f.adopt (l.resume o resume) next (·.proceed o next) o
  | .delivered terminal epoch =>
    if terminal && f.settings.closesAtEnd && f.epoch == epoch then f.closeStream .nothing o
    else f.rest

end Feed

end ProgressFeed
