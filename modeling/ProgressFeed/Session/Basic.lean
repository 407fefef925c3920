import ProgressFeed.Channel
import ProgressFeed.EventStream
import ProgressFeed.Net

/-!
# Steps of a session

A session carries one channel over the network. It makes calls, and runs up to the next notice to
its owner. While the notice is delivered the owner may call the session; what is left to do then is
a `Resume`.
-/

namespace ProgressFeed.Session

/-- What is left to do when a notice has been delivered. -/
inductive Resume
  | nothing
  /-- Go on reading, unless the session is over. -/
  | read
  /-- Deliver these events as well, and then go on reading or, when the body is complete, end. -/
  | deliver (events : List EventStream.Event) (isDone : Bool)
  /-- The failure has been announced: close, unless the owner has. -/
  | fail (message : Bytes)
deriving DecidableEq, Repr

/-- A step of a session of type `σ`. -/
structure Step (σ : Type) where
  session : σ
  calls : List Net.Call := []
  pause : Option (Channel.Notice × Resume) := none
deriving DecidableEq, Repr

/-- What the owner hears of a failure that the network reports. Nothing is heard of operations that
were broken off. -/
def failure? (what : Bytes) (e : Net.Error) : Option Bytes :=
  if e.kind = .aborted then none else some (what ++ utf8 ": " ++ e.message)

end ProgressFeed.Session
