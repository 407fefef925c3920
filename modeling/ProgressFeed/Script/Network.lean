import ProgressFeed.Credential
import ProgressFeed.Net.Alarms
import ProgressFeed.Script.Completing
import ProgressFeed.Script.Surroundings
import ProgressFeed.Session
import ProgressFeed.StatusQuery

/-!
# A scripted network

Surroundings with real sessions, status queries and alarms on one event loop, whose operations
complete when the script says so.
-/

namespace ProgressFeed.Script

/-- Who has started an operation. -/
inductive Network.Owner
  | session (i : Nat)
  | query (i : Nat)
  | alarm (i : Nat)
deriving DecidableEq, Repr

/-- A session, and the stamp that it was opened with. -/
structure Network.Line where
  session : Session
  stamp : Option Stamp := none
deriving DecidableEq, Repr

structure Network where
  endpoint : Endpoint
  kind : Channel.Kind
  token : Option Bytes
  /-- The sessions by number. -/
  lines : List Network.Line := []
  /-- The queries by number, each with its epoch. -/
  queries : List (StatusQuery × Nat) := []
  alarms : Net.Alarms Task := {}
  loop : Net.Loop Network.Owner := {}
deriving DecidableEq, Repr

namespace Network

inductive Record
  | call (c : Net.Call)
  | notPending
deriving DecidableEq, Repr

inductive Step
  | complete (c : Completing)
  | setToken (token : Bytes)
deriving DecidableEq, Repr

/-- The notice of a session has been delivered. -/
structure Work where
  session : Nat
  resume : Session.Resume
deriving DecidableEq, Repr

abbrev Outcome := Script.Outcome Network Work Record

def Owner.alarm? : Owner → Option Nat
  | alarm i => some i
  | _ => none

/-- What the network would answer now, given the channel on which the feed can send. -/
def outside (n : Network) (sender : Option Nat) : Outside where
  token := n.token
  channel := some ⟨n.lines.length, n.kind.isDuplex⟩
  accepts := (sender.bind fun i ↦ n.lines[i]?).any (·.session.accepts)
  alarm := n.alarms.next

/-- Calls are made. -/
def make (n : Network) (owner : Owner) (calls : List Net.Call) : Network × List Record :=
  ({ n with loop := n.loop.start owner calls }, calls.map .call)

/-- A session has made a step. -/
def adopt (n : Network) (i : Nat) (s : Session.Step Session) : Network × List Record :=
  { n with lines := n.lines.modify i fun l ↦ { l with session := s.session } }.make (.session i)
    s.calls

/-- Something is done to a session from which no notice can come. -/
def touch (n : Network) (i : Nat) (f : Session → Session.Step Session) : Network × List Record :=
  match n.lines[i]? with
  | none => (n, [])
  | some l => n.adopt i (f l.session)

def setAlarm (n : Network) (alarm : Nat) (delay : Int) (task : Task) : Network × List Record :=
  let (alarms, calls) := n.alarms.set delay task
  { n with alarms }.make (.alarm alarm) calls

def stopAlarm (n : Network) (alarm : Nat) : Network × List Record :=
  let (alarms, calls) := n.alarms.stop alarm
  { n with alarms }.make (.alarm alarm) calls

def fetch (n : Network) (source : Bytes) (epoch : Nat) : Network × List Record :=
  let s := StatusQuery.start { endpoint := n.endpoint, source, token := n.token }
  { n with queries := n.queries ++ [(s.query, epoch)] }.make (.query n.queries.length) s.calls

/-- Carries out a command. -/
def obey (n : Network) : Command → Network × List Record
  | .create source token =>
    ({ n with lines := n.lines ++ [⟨Session.make n.kind n.endpoint source token, none⟩] }, [])
  | .open channel stamp =>
    { n with lines := n.lines.modify channel fun l ↦ { l with stamp := some stamp } }.touch channel
      Session.start
  | .close channel closing => n.touch channel (Session.close closing)
  | .send channel payload => n.touch channel fun s ↦ (s.send payload).2
  | .setAlarm alarm delay task => n.setAlarm alarm delay task
  | .stopAlarm alarm => n.stopAlarm alarm
  | .fetch source epoch => n.fetch source epoch

/-- A session has made a step, and its notice comes in. -/
def follow (n : Network) (i : Nat) (f : Session → Session.Step Session) : Outcome :=
  match n.lines[i]? with
  | none => { state := n }
  | some l =>
    let s := f l.session
    let (n, records) := n.adopt i s
    match s.pause, l.stamp with
    | some (notice, resume), some stamp =>
      { state := n, records, incoming := some (.notice stamp notice), later := [⟨i, resume⟩] }
    | _, _ => { state := n, records }

/-- An operation of a query has completed. -/
def completeQuery (n : Network) (i : Nat) (o : Net.Operation) (c : Net.Completion) : Outcome :=
  match n.queries[i]? with
  | none => { state := n }
  | some (q, epoch) =>
    let s := q.complete o c
    let (n, records) := { n with queries := n.queries.set i (s.query, epoch) }.make (.query i) s.calls
    { state := n, records, incoming := s.answer.map (.polled epoch) }

/-- The wait of an alarm has ended. -/
def completeAlarm (n : Network) (i : Nat) (c : Net.Completion) : Outcome :=
  let (alarms, task) := n.alarms.complete i c
  { state := { n with alarms }, incoming := task.map (.rang i) }

def complete (n : Network) (c : Completing) : Outcome :=
  match c.take? Owner.alarm? n.loop with
  | none => { state := n, records := [.notPending] }
  | some ((owner, o), loop) =>
    let n := { n with loop }
    match owner with
    | .session i => n.follow i (Session.complete o c.completion)
    | .query i => n.completeQuery i o c.completion
    | .alarm i => n.completeAlarm i c.completion

def perform (n : Network) : Step → Outcome
  | .complete c => n.complete c
  | .setToken token => { state := { n with token := Credential.ofBytes token } }

/-- The session goes on. -/
def work (n : Network) (w : Work) : Outcome := n.follow w.session (Session.resume w.resume)

def surroundings : Surroundings Network Step Work Record where
  outside := outside
  obey := obey
  perform := perform
  work := work

end Network

end ProgressFeed.Script
