import ProgressFeed.Channel

/-!
# What a feed asks of the world

A feed acts by commands, which the world carries out in order. It knows its channels and alarms by
number. Where it needs an answer to go on, the answer stands in `Outside`, which holds what the
world would say at that moment.
-/

namespace ProgressFeed

/-- What the notices of one connection are marked with: the link that opened it, and which of its
connections it is. -/
structure Stamp where
  link : Nat
  generation : Nat
deriving DecidableEq, Repr

/-- What an alarm is for. -/
inductive Task
  /-- A link tries again. -/
  | reopen (link : Nat)
  /-- A sign of life is due. -/
  | keepalive
deriving DecidableEq, Repr

inductive Command
  /-- Make a channel for a source, to be opened with this token. -/
  | create (source token : Bytes)
  | open (channel : Nat) (stamp : Stamp)
  | close (channel : Nat) (closing : Channel.Closing)
  | send (channel : Nat) (payload : Bytes)
  | setAlarm (alarm : Nat) (delay : Int) (task : Task)
  | stopAlarm (alarm : Nat)
  /-- Ask for the status of a source; the epoch comes back with the answer. -/
  | fetch (source : Bytes) (epoch : Nat)
deriving DecidableEq, Repr

/-- A channel as its owner knows it. -/
structure Channel.Held where
  id : Nat
  /-- It can send. -/
  isDuplex : Bool
deriving DecidableEq, Repr

/-- What the world would answer now. -/
structure Outside where
  /-- The token that the credential source gives. -/
  token : Option Bytes := none
  /-- The channel that would be made. -/
  channel : Option Channel.Held := none
  /-- Whether the held channel takes a payload. -/
  accepts : Bool := false
  /-- The number that the next alarm has. -/
  alarm : Nat := 0
deriving DecidableEq, Repr

end ProgressFeed
