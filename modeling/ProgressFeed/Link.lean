import ProgressFeed.Backoff
import ProgressFeed.Command
import ProgressFeed.Connection
import ProgressFeed.Fault

/-!
# A link

A link holds one channel at a time and decides when to open the next. After an abnormal close it
opens another when its backoff has passed, until the retry budget is used up; a successful open
restores the budget. A link without a credential or without retries is terminal and stays so.

Every operation runs up to the next callback and stops there. The `Step` it returns holds the
commands given so far, the callback, and as a `Resume` what is left to do when the callback returns.
In between anything may be called, the link itself included. Every connection has a generation; a
notice or a continuation of an older one finds its generation outdated and does nothing.
-/

namespace ProgressFeed

structure Link where
  /-- The number of the link. -/
  id : Nat
  source : Bytes
  backoff : Backoff
  state : Connection := .disconnected
  /-- The retries since the last open. -/
  attempts : Nat := 0
  /-- It never connects again. -/
  terminal : Bool := false
  /-- Its owner has asked for the close. -/
  intentional : Bool := false
  /-- The connection has already been reported to have failed. -/
  reported : Bool := false
  channel : Option Channel.Held := none
  /-- The alarm for the next retry. -/
  alarm : Option Nat := none
  generation : Nat := 0
deriving DecidableEq, Repr

namespace Link

/-- What a link tells its owner of itself. -/
inductive Call
  | state (was now : Connection)
  | fault (f : Fault)
deriving DecidableEq, Repr

/-- What is left to do when a callback returns. -/
inductive Resume
  | nothing
  /-- The link has announced that it connects: get a token and a channel. -/
  | dial (generation : Nat)
  /-- It has announced that it does not connect after all: say that the credential is missing. -/
  | deny
  /-- It has said that there is no channel: end the attempt. -/
  | abandon (generation : Nat)
  /-- It has announced the end of a connection: see whether to try again. -/
  | settle (generation : Nat) (closing : Channel.Closing) (intentional : Bool)
  /-- It has reported the end of a connection: try again. -/
  | retry (generation : Nat)
deriving DecidableEq, Repr

structure Step where
  link : Link
  commands : List Command := []
  pause : Option (Call × Resume) := none
deriving DecidableEq, Repr

/-- Nothing more to do. -/
def rest (l : Link) : Step := { link := l }

/-- The step with commands in front. -/
def Step.after (commands : List Command) (s : Step) : Step :=
  { s with commands := commands ++ s.commands }

/-- Changes the state. A change is announced, and `next` is what follows the announcement; without a
change it follows at once. -/
def enter (l : Link) (now : Connection) (resume : Resume) (next : Link → Step) : Step :=
  if l.state = now then next l
  else { link := { l with state := now }, pause := some (.state l.state now, resume) }

def report (l : Link) (f : Fault) (resume : Resume) : Step :=
  { link := l, pause := some (.fault f, resume) }

/-- The command that stops the alarm, if it is set. -/
def stopCommand (l : Link) : List Command := (l.alarm.map Command.stopAlarm).toList

/-- What a link that lets go of its channel and its alarm leaves to do. -/
def farewell (l : Link) : List Command :=
  l.stopCommand ++ (l.channel.map fun c ↦ Command.close c.id .byOwner).toList

/-- Sets the alarm for the next retry. -/
def tryLater (l : Link) (o : Outside) : Step :=
  { link := { l with attempts := l.attempts + 1, alarm := some o.alarm }
    commands := [.setAlarm o.alarm (l.backoff.delay l.attempts).toInt (.reopen l.id)] }

/-- After the report of a close. -/
def retry (l : Link) (generation : Nat) (o : Outside) : Step :=
  if l.generation = generation then l.tryLater o else l.rest

/-- After a close has been announced. It is reported, unless the connection was reported before. -/
def settle (l : Link) (generation : Nat) (closing : Channel.Closing) (intentional : Bool)
    (o : Outside) : Step :=
  if l.generation ≠ generation ∨ intentional then l.rest
  else if l.attempts < l.backoff.maxAttempts then
    if l.reported then l.tryLater o
    else l.report (.closed closing.code closing.reason) (.retry generation)
  else
    { l with terminal := true }.report (.retriesExhausted l.attempts closing.code) .nothing

/-- The connection of this generation is over. -/
def closed (l : Link) (generation : Nat) (closing : Channel.Closing) (o : Outside) : Step :=
  if l.generation = generation then
    let intentional := closing.isNormal || l.intentional
    { l with generation := generation + 1, channel := none }.enter .disconnected
      (.settle (generation + 1) closing intentional)
      (·.settle (generation + 1) closing intentional o)
  else l.rest

/-- After it has been said that there is no channel. -/
def abandon (l : Link) (generation : Nat) (o : Outside) : Step :=
  l.closed generation .unavailable o

/-- After it has been announced that there is no connection. -/
def deny (l : Link) : Step := l.report .noCredential .nothing

/-- Gets a token and a channel, and opens it. -/
def dial (l : Link) (generation : Nat) (o : Outside) : Step :=
  if l.generation = generation then
    match o.token with
    | none => { l with terminal := true }.enter .disconnected .deny deny
    | some token =>
      match o.channel with
      | none =>
        ({ l with channel := none, reported := true }.report .noChannel (.abandon generation)).after
          [.create l.source token]
      | some c =>
        { link := { l with channel := some c }
          commands := [.create l.source token, .open c.id ⟨l.id, generation⟩] }
  else l.rest

/-- There is nothing to connect: it is terminal, connected, or waiting for a channel to open. -/
def isBusy (l : Link) : Bool :=
  l.terminal || l.state == .connected || (l.state == .connecting && l.channel.isSome)

/-- Opens a channel, unless there is one or there can be none. -/
def connect (l : Link) (o : Outside) : Step :=
  if l.isBusy then l.rest
  else
    let generation := l.generation + 1
    ({ l with alarm := none, intentional := false, reported := false, generation }.enter
      .connecting (.dial generation) (·.dial generation o)).after l.stopCommand

/-- Closes the channel and gives up any retry. -/
def disconnect (l : Link) : Step :=
  ({ l with
    alarm := none, intentional := true, attempts := 0, generation := l.generation + 1
    channel := none }.enter .disconnected .nothing rest).after l.farewell

/-- The channel of this generation has opened. -/
def opened (l : Link) (generation : Nat) : Step :=
  if l.generation = generation then
    { l with attempts := 0 }.enter .connected .nothing rest
  else l.rest

/-- The channel of this generation has failed; it is still to close. -/
def failed (l : Link) (generation : Nat) (message : Bytes) : Step :=
  if l.generation = generation then
    { l with reported := true }.report (.channel message) .nothing
  else l.rest

/-- An alarm has rung. -/
def rang (l : Link) (alarm : Nat) (o : Outside) : Step :=
  { l with alarm := if l.alarm = some alarm then none else l.alarm }.connect o

/-- Whether a frame of this generation still counts. -/
def hears (l : Link) (generation : Nat) : Bool := l.generation == generation

/-- A notice of the channel of this generation. Frames change nothing. -/
def notice (l : Link) (generation : Nat) (n : Channel.Notice) (o : Outside) : Step :=
  match n with
  | .opened => l.opened generation
  | .frame _ => l.rest
  | .failed message => l.failed generation message
  | .closed closing => l.closed generation closing o

/-- A callback has returned. -/
def resume (l : Link) (o : Outside) : Resume → Step
  | .nothing => l.rest
  | .dial generation => l.dial generation o
  | .deny => l.deny
  | .abandon generation => l.abandon generation o
  | .settle generation closing intentional => l.settle generation closing intentional o
  | .retry generation => l.retry generation o

/-- The channel on which a payload can be sent. -/
def sender? (l : Link) : Option Nat :=
  if l.state = .connected then (l.channel.filter (·.isDuplex)).map Channel.Held.id else none

/-- Sends a payload, if it can; whether it was taken. -/
def send (l : Link) (payload : Bytes) (o : Outside) : Bool × List Command :=
  match l.sender? with
  | none => (false, [])
  | some c => (o.accepts, [.send c payload])

/-- A retry is due. -/
def isWaiting (l : Link) : Bool := l.alarm.isSome

end Link

end ProgressFeed
