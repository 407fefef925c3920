import ProgressFeed.Feed
import ProgressFeed.Proofs.Ledger

/-!
# Runs of a feed

A run is a sequence of moves: the owner calls the feed, a channel that has ever been opened gives
notice, the clock is advanced, a query is answered, the delivery of an event is over. Any move may
come at any time, so also while events are being delivered. Every move brings its own answers of the
world. A move that cannot be made does nothing.
-/

namespace ProgressFeed.Feed

inductive Move
  | connect
  | disconnect
  | reconnect
  | keepalive
  | refresh
  | setPolls (polls : Bool)
  | retire
  | notice (channel : Nat) (n : Channel.Notice)
  /-- The clock goes on towards a time, up to the first alarm that is due by then. -/
  | advance (target : Int)
  | answer (query : Nat) (answer : StatusAnswer)
  /-- The innermost delivery is over. -/
  | returned

/-- What has led to an event. -/
inductive Cause
  | frame
  | answer
  | other
deriving DecidableEq, Repr

inductive Record
  | command (c : Command)
  /-- A frame of the held channel. -/
  | frame (f : Channel.Frame)
  | event (cause : Cause) (e : Event)
  /-- Whether a sign of life was taken. -/
  | taken (taken : Bool)
deriving DecidableEq, Repr

/-- A feed at work. -/
structure Run where
  feed : Feed
  /-- The feed has not begun to retire. -/
  isAlive : Bool := true
  ledger : Ledger := {}
  /-- What the deliveries under way leave to do. -/
  stack : List Resume := []
  /-- What has happened so far, first things first. -/
  records : List Record := []
deriving DecidableEq, Repr

def Step.records (s : Step) (cause : Cause) : List Record :=
  s.commands.map .command ++ (s.pause.map (.event cause ·.1)).toList

/-- What a step leaves to do when its event has been delivered. -/
def Step.pending (s : Step) : List Resume := (s.pause.map Prod.snd).toList

/-- The channel that the feed holds. -/
def channel (f : Feed) : Option Nat := (f.link.bind Link.channel).map Channel.Held.id

namespace Run

def start (settings : Settings) (polls : Bool) (now : Int) : Run where
  feed := { settings, polls }
  ledger := { clock := { now } }

def take (r : Run) (cause : Cause) (s : Step) : Run :=
  { r with
    feed := s.feed
    ledger := r.ledger.obeyAll s.commands
    stack := s.pending ++ r.stack
    records := r.records ++ s.records cause }

/-- The feed has given commands and is otherwise as before. -/
def give (r : Run) (commands : List Command) : Run :=
  { r with
    ledger := r.ledger.obeyAll commands
    records := r.records ++ commands.map .command }

def note (r : Run) (x : Record) : Run := { r with records := r.records ++ [x] }

/-- Something that only a living feed can do. -/
def ifAlive (r r' : Run) : Run := if r.isAlive then r' else r

/-- A channel that was opened with this stamp gives notice. -/
def hear (r : Run) (channel : Nat) (stamp : Stamp) (n : Channel.Notice) (o : Outside) : Run :=
  match n with
  | .frame f =>
    (if r.feed.channel = some channel then r.note (.frame f) else r).take .frame
      (r.feed.notice stamp (.frame f) o)
  | n => r.take .other (r.feed.notice stamp n o)

/-- One move, with what the world answers meanwhile. -/
def step (r : Run) (a : Answers) : Move → Run
  | .connect => r.ifAlive (r.take .other (r.feed.connect (r.ledger.outside a)))
  | .disconnect => r.ifAlive (r.take .other (r.feed.disconnect (r.ledger.outside a)))
  | .reconnect => r.ifAlive (r.take .other (r.feed.reconnect (r.ledger.outside a)))
  | .keepalive =>
    let (taken, commands) := r.feed.sendKeepalive (r.ledger.outside a)
    r.ifAlive ((r.give commands).note (.taken taken))
  | .refresh => r.ifAlive (r.give r.feed.refresh)
  | .setPolls polls => r.ifAlive { r with feed := { r.feed with polls } }
  | .retire =>
    r.ifAlive ({ r with isAlive := false }.take .other (r.feed.retire (r.ledger.outside a)))
  | .notice channel n =>
    match r.ledger.opened[channel]? with
    | none => r
    | some stamp => r.hear channel stamp n (r.ledger.outside a)
  | .advance target =>
    match r.ledger.clock.takeDue? target with
    | none => { r with ledger := { r.ledger with clock := { r.ledger.clock with now := target } } }
    | some (x, clock) =>
      { r with ledger := { r.ledger with clock } }.take .other
        (r.feed.rang x.id (r.ledger.outside a) x.task)
  | .answer query answer =>
    match r.ledger.queries[query]? with
    | none => r
    | some epoch => r.take .answer (r.feed.polled epoch answer)
  | .returned =>
    match r.stack with
    | [] => r
    | resume :: stack => { r with stack }.take .other (r.feed.resume (r.ledger.outside a) resume)

def play (r : Run) (moves : List (Answers × Move)) : Run :=
  moves.foldl (fun r x ↦ r.step x.1 x.2) r

@[simp] theorem play_nil (r : Run) : r.play [] = r := rfl

@[simp] theorem play_cons (r : Run) (x : Answers × Move) (moves : List (Answers × Move)) :
    r.play (x :: moves) = (r.step x.1 x.2).play moves := rfl

theorem step_returned_nil {r : Run} (hs : r.stack = []) (a : Answers) : r.step a .returned = r := by
  simp [step, hs]

theorem step_returned_cons {r : Run} {x : Resume} {stack : List Resume} (hs : r.stack = x :: stack)
    (a : Answers) :
    r.step a .returned = { r with stack }.take .other (r.feed.resume (r.ledger.outside a) x) := by
  simp [step, hs]

theorem play_induction {P : Run → Prop} (hstep : ∀ r a m, P r → P (r.step a m)) {r : Run}
    (h : P r) (moves : List (Answers × Move)) : P (r.play moves) := by
  induction moves generalizing r with
  | nil => exact h
  | cons x moves ih => exact ih (hstep r x.1 x.2 h)

end Run

end ProgressFeed.Feed
