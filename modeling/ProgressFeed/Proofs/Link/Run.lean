import ProgressFeed.Link
import ProgressFeed.Proofs.Ledger

/-!
# Runs of a link

A run is a sequence of moves: the owner calls the link, a channel that has ever been opened gives
notice, an alarm rings, a callback returns. Any move may come at any time, so also while callbacks
are under way; what they leave to do is kept on a stack, the innermost first. Every move brings its
own answers of the world. A move that cannot be made does nothing.
-/

namespace ProgressFeed.Link

inductive Move
  | connect
  | disconnect
  | send (payload : Bytes)
  /-- The owner drops the link. -/
  | drop
  | notice (channel : Nat) (n : Channel.Notice)
  | ring (alarm : Nat)
  /-- The innermost callback returns. -/
  | returned
deriving DecidableEq, Repr

inductive Record
  | command (c : Command)
  | call (c : Call)
  | frame (f : Channel.Frame)
  /-- The held channel has opened, or the link has been told to disconnect. -/
  | reset
deriving DecidableEq, Repr

/-- A link at work. -/
structure Run where
  /-- The link, unless it has been dropped. -/
  link : Option Link
  ledger : Ledger := {}
  /-- What the callbacks under way leave to do. -/
  stack : List Resume := []
  /-- What has happened so far, first things first. -/
  records : List Record := []
deriving DecidableEq, Repr

def Step.records (s : Step) : List Record :=
  s.commands.map .command ++ (s.pause.map (.call ·.1)).toList

/-- What a step leaves to do when its callback returns. -/
def Step.pending (s : Step) : List Resume := (s.pause.map Prod.snd).toList

@[simp] theorem rest_link (l : Link) : l.rest.link = l := rfl

@[simp] theorem rest_commands (l : Link) : l.rest.commands = [] := rfl

@[simp] theorem rest_pending (l : Link) : l.rest.pending = [] := rfl

@[simp] theorem rest_records (l : Link) : l.rest.records = [] := rfl

namespace Run

def start (id : Nat) (source : Bytes) (backoff : Backoff) : Run where
  link := some { id, source, backoff }

def take (r : Run) (s : Step) : Run where
  link := some s.link
  ledger := r.ledger.obeyAll s.commands
  stack := s.pending ++ r.stack
  records := r.records ++ s.records

/-- The link has given commands and is otherwise as before. -/
def give (r : Run) (commands : List Command) : Run :=
  { r with
    ledger := r.ledger.obeyAll commands
    records := r.records ++ commands.map .command }

def note (r : Run) (x : Record) : Run := { r with records := r.records ++ [x] }

/-- A channel that was opened in a generation gives notice. -/
def hear (r : Run) (l : Link) (channel generation : Nat) (n : Channel.Notice) (a : Answers) : Run :=
  match n with
  | .frame f => if l.hears generation then r.note (.frame f) else r
  | .opened =>
    (if l.channel.map Channel.Held.id = some channel then r.note .reset else r).take
      (l.opened generation)
  | .failed message => r.take (l.failed generation message)
  | .closed closing => r.take (l.closed generation closing (r.ledger.outside a))

/-- Something happens to the link, which is there. -/
def act (r : Run) (l : Link) (a : Answers) : Move → Run
  | .connect => r.take (l.connect (r.ledger.outside a))
  | .disconnect => (r.note .reset).take l.disconnect
  | .send payload => r.give (l.send payload (r.ledger.outside a)).2
  | .drop => { r.give l.farewell with link := none }
  | .notice channel n =>
    match r.ledger.opened[channel]? with
    | none => r
    | some stamp => r.hear l channel stamp.generation n a
  | .ring alarm =>
    if r.ledger.clock.isSet alarm then
      let w := { r.ledger with clock := r.ledger.clock.stop alarm }
      { r with ledger := w }.take (l.rang alarm (w.outside a))
    else r
  | .returned =>
    match r.stack with
    | [] => r
    | resume :: stack => { r with stack }.take (l.resume (r.ledger.outside a) resume)

/-- One move, with what the world answers meanwhile. -/
def step (r : Run) (a : Answers) (m : Move) : Run :=
  match r.link with
  | none => { r with stack := if m = .returned then r.stack.tail else r.stack }
  | some l => r.act l a m

def play (r : Run) (moves : List (Answers × Move)) : Run :=
  moves.foldl (fun r x ↦ r.step x.1 x.2) r

@[simp] theorem play_nil (r : Run) : r.play [] = r := rfl

@[simp] theorem play_cons (r : Run) (x : Answers × Move) (moves : List (Answers × Move)) :
    r.play (x :: moves) = (r.step x.1 x.2).play moves := rfl

theorem play_append (r : Run) (moves more : List (Answers × Move)) :
    r.play (moves ++ more) = (r.play moves).play more := List.foldl_append

theorem play_induction {P : Run → Prop} (hstep : ∀ r a m, P r → P (r.step a m)) {r : Run}
    (h : P r) (moves : List (Answers × Move)) : P (r.play moves) := by
  induction moves generalizing r with
  | nil => exact h
  | cons x moves ih => exact ih (hstep r x.1 x.2 h)

end Run

end ProgressFeed.Link
