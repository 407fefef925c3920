import ProgressFeed.Clock
import ProgressFeed.Credential
import ProgressFeed.Message.Decode
import ProgressFeed.Script.Surroundings

/-!
# A scripted scene

Surroundings in which nothing happens but what the script says. It advances the clock, sets the
credential, gives notices to the channels and answers the status queries.
-/

namespace ProgressFeed.Script

/-- A channel of the scene. -/
structure Scene.Line where
  /-- The stamp that it was opened with. -/
  stamp : Option Stamp := none
  /-- Its owner has not closed it, and it has not closed. -/
  isLive : Bool := false
deriving DecidableEq, Repr

structure Scene where
  clock : Clock Task := {}
  /-- Whether there is a credential source at all. -/
  hasSource : Bool := true
  token : Option Bytes := some (utf8 "token-1")
  /-- Whether channels can be made at all. -/
  hasMaker : Bool := true
  kind : Channel.Kind := .webSocket
  /-- The tries, counted from one, that make no channel. -/
  failing : List Nat := []
  tries : Nat := 0
  lines : List Scene.Line := []
  /-- Sending fails. -/
  isClogged : Bool := false
  /-- The sources and epochs of the queries without an answer, oldest first. -/
  queries : List (Bytes × Nat) := []
deriving DecidableEq, Repr

namespace Scene

inductive Record
  | created (channel : Nat) (source token : Bytes)
  | notCreated
  | opened (channel : Nat)
  | closed (channel : Nat) (closing : Channel.Closing)
  | sent (channel : Nat) (payload : Bytes)
  | notSent (channel : Nat) (payload : Bytes)
  | asked (source : Bytes)
  /-- The script named a channel that there is not. -/
  | noChannel
  /-- Nobody listens to the channel any more. -/
  | silent
  /-- The script answered a query that there is not. -/
  | noQuery
deriving DecidableEq, Repr

/-- The answer to a status query. -/
inductive Answer
  | fault (f : Fault)
  | body (text : Bytes)
deriving DecidableEq, Repr

inductive Step
  | setToken (token : Bytes)
  | clearToken
  | clog (isClogged : Bool)
  | advance (duration : Int)
  /-- A notice of a channel, the newest if none is named. A late notice goes to whoever opened the
  channel, even if nobody listens any more. -/
  | notice (channel : Option Nat) (isLate : Bool) (n : Channel.Notice)
  /-- Answers the oldest query. -/
  | answer (a : Answer)
deriving DecidableEq, Repr

/-- The clock is being advanced to a time. -/
structure Work where
  target : Int
deriving DecidableEq, Repr

abbrev Outcome := Script.Outcome Scene Work Record

/-- The next try makes a channel. -/
def makes (s : Scene) : Bool := s.hasMaker && !s.failing.contains (s.tries + 1)

/-- What the scene would answer now. -/
def outside (s : Scene) : Outside where
  token := if s.hasSource then s.token else none
  channel := if s.makes then some ⟨s.lines.length, s.kind.isDuplex⟩ else none
  accepts := !s.isClogged
  alarm := s.clock.next

/-- Makes a channel, or fails to. -/
def create (s : Scene) (source token : Bytes) : Scene × List Record :=
  if s.hasMaker then
    let next := { s with tries := s.tries + 1 }
    if s.makes then
      ({ next with lines := s.lines ++ [{}] }, [.created s.lines.length source token])
    else (next, [.notCreated])
  else (s, [])

def modifyLine (s : Scene) (channel : Nat) (f : Line → Line) : Scene :=
  { s with lines := s.lines.modify channel f }

/-- Carries out a command. -/
def obey (s : Scene) : Command → Scene × List Record
  | .create source token => s.create source token
  | .open channel stamp =>
    (s.modifyLine channel fun _ ↦ ⟨some stamp, true⟩, [.opened channel])
  | .close channel closing =>
    (s.modifyLine channel fun l ↦ { l with isLive := false }, [.closed channel closing])
  | .send channel payload =>
    (s, [if s.isClogged then .notSent channel payload else .sent channel payload])
  | .setAlarm _ delay task => ({ s with clock := s.clock.set delay task }, [])
  | .stopAlarm alarm => ({ s with clock := s.clock.stop alarm }, [])
  | .fetch source epoch => ({ s with queries := s.queries ++ [(source, epoch)] }, [.asked source])

def isClose : Channel.Notice → Bool
  | .closed _ => true
  | _ => false

/-- Gives a notice to a channel. Nobody listens to a channel that has closed, the notice of its own
close being the last. -/
def notice (s : Scene) (i : Nat) (isLate : Bool) (n : Channel.Notice) : Outcome :=
  match s.lines[i]? with
  | none => { state := s, records := [.noChannel] }
  | some ⟨none, _⟩ => { state := s, records := [.silent] }
  | some ⟨some stamp, isLive⟩ =>
    if isLate then { state := s, incoming := some (.notice stamp n) }
    else if isLive then
      { state := if isClose n then s.modifyLine i fun l ↦ { l with isLive := false } else s
        incoming := some (.notice stamp n) }
    else { state := s, records := [.silent] }

/-- What an answer says of a source. -/
def Answer.read (source : Bytes) : Answer → StatusAnswer
  | .fault f => .error f
  | .body text => (Message.ofStatusBody source text).mapError Message.Rejection.fault

/-- Answers the oldest query. -/
def answer (s : Scene) (a : Answer) : Outcome :=
  match s.queries with
  | [] => { state := s, records := [.noQuery] }
  | (source, epoch) :: queries =>
    { state := { s with queries }, incoming := some (.polled epoch (a.read source)) }

def perform (s : Scene) : Step → Outcome
  | .setToken token => { state := { s with token := Credential.ofBytes token } }
  | .clearToken => { state := { s with token := none } }
  | .clog isClogged => { state := { s with isClogged } }
  | .advance duration => { state := s, later := [⟨s.clock.now + duration⟩] }
  | .notice channel isLate n => s.notice (channel.getD (s.lines.length - 1)) isLate n
  | .answer a => s.answer a

/-- Takes the next alarm that is due, and goes on advancing when it has been dealt with. -/
def work (s : Scene) (w : Work) : Outcome :=
  match s.clock.takeDue? w.target with
  | none => { state := { s with clock := { s.clock with now := w.target } } }
  | some (alarm, clock) =>
    { state := { s with clock }, incoming := some (.rang alarm.id alarm.task), later := [w] }

/-- The delays of the alarms that are set, in the order in which they would ring. -/
def delays (s : Scene) : List Int := s.clock.inOrder.map (·.delay)

def surroundings : Surroundings Scene Step Work Record where
  outside s _ := s.outside
  obey := obey
  perform := perform
  work := work

end Scene

end ProgressFeed.Script
