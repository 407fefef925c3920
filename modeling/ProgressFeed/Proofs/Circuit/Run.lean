import ProgressFeed.Proofs.Link.Calls
import ProgressFeed.Proofs.Session.Ending

/-!
# A link over sessions

The channels of a link are sessions, made and told by its commands, and what the owner of a session
hears the link hears. The owner of the link only returns from its callbacks, so that whatever
happens has been dealt with before anything else happens: the owner calls the link, an alarm rings,
or an operation of a session completes, in any order and with any result.
-/

namespace ProgressFeed

/-- What has been recorded in a run since it stood as it did before. -/
def Link.Run.since (r before : Link.Run) : List Link.Record := r.records.drop before.records.length

def Session.Run.since (r before : Session.Run) : List Session.Record :=
  r.records.drop before.records.length

structure Circuit where
  kind : Channel.Kind
  endpoint : Endpoint
  link : Link.Run
  /-- The sessions by number. -/
  sessions : List Session.Run := []
deriving DecidableEq, Repr

namespace Circuit

inductive Move
  | connect
  | disconnect
  | send (payload : Bytes)
  /-- The owner drops the link. -/
  | drop
  | ring (alarm : Nat)
  /-- The pending operation of this number of a session completes. -/
  | complete (session operation : Nat) (c : Net.Completion)
deriving DecidableEq, Repr

def start (kind : Channel.Kind) (endpoint : Endpoint) (id : Nat) (source : Bytes)
    (backoff : Backoff) : Circuit where
  kind
  endpoint
  link := .start id source backoff

/-- What a command does to the sessions. None of them gives notice of it. -/
def carry (kind : Channel.Kind) (endpoint : Endpoint) (sessions : List Session.Run) :
    Command → List Session.Run
  | .create source token => sessions ++ [.start (.make kind endpoint source token)]
  | .open i _ => sessions.modify i (·.step .open)
  | .close i closing => sessions.modify i (·.step (.close closing))
  | .send i payload => sessions.modify i (·.step (.send payload))
  | .setAlarm .. | .stopAlarm _ | .fetch .. => sessions

/-- What the world would answer now. -/
def answers (r : Circuit) (token : Option Bytes) : Answers where
  token
  channel := some r.kind.isDuplex
  accepts := (r.link.held.bind (r.sessions[·]?)).any (·.session.accepts)

/-- Something happens to the link, and what it commands is carried out. -/
def drive (r : Circuit) (a : Answers) (m : Link.Move) : Circuit :=
  let link := r.link.step a m
  { r with
    link
    sessions := ((link.since r.link).filterMap Link.Record.command?).foldl
      (carry r.kind r.endpoint) r.sessions }

/-- Something happens to the link, and its owner returns from every callback. -/
def tell (r : Circuit) (a : Answers) (m : Link.Move) : Circuit :=
  runDown (drive · a .returned) (·.link.weight) (r.drive a m)

/-- Something happens to a session, and the link hears what it says. -/
def touch (r : Circuit) (a : Answers) (i : Nat) (m : Session.Move) : Circuit :=
  match r.sessions[i]? with
  | none => r
  | some s =>
    (((s.step m).since s).filterMap Session.Record.notice?).foldl
      (fun r n ↦ r.tell a (.notice i n)) { r with sessions := r.sessions.set i (s.step m) }

/-- How many notices there may be before the session waits for the network. -/
def weight (i : Nat) (r : Circuit) : Nat := r.sessions[i]?.elim 0 Session.Run.weight

/-- An operation of a session completes; and the link returns from every notice. -/
def complete (r : Circuit) (a : Answers) (i j : Nat) (c : Net.Completion) : Circuit :=
  runDown (touch · a i .returned) (weight i) (r.touch a i (.complete j c))

/-- One move, with the token that the credential source gives meanwhile. -/
def step (r : Circuit) (token : Option Bytes) : Move → Circuit
  | .connect => r.tell (r.answers token) .connect
  | .disconnect => r.tell (r.answers token) .disconnect
  | .send payload => r.tell (r.answers token) (.send payload)
  | .drop => r.tell (r.answers token) .drop
  | .ring alarm => r.tell (r.answers token) (.ring alarm)
  | .complete i j c => r.complete (r.answers token) i j c

def play (r : Circuit) (moves : List (Option Bytes × Move)) : Circuit :=
  moves.foldl (fun r x ↦ r.step x.1 x.2) r

end Circuit

end ProgressFeed
