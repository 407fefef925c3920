import ProgressFeed.Bus

/-!
# A bus at work

An event reaches its subscribers one after the other. Each of them may use the bus before it is
done, and so publish further events, which are on their way inside the first one. Who is to get an
event is settled when it is published. A subscriber that throws is done as well, apart from a line
in the log.
-/

namespace ProgressFeed.Bus

variable {α : Type}

/-- An event on its way. -/
structure Delivery (α : Type) where
  number : Nat
  event : Event
  /-- Those that have yet to be called. -/
  waiting : List (Subscription α)
deriving DecidableEq, Repr

structure Call (α : Type) where
  /-- The number of the delivery. -/
  number : Nat
  event : Event
  subscription : Subscription α
deriving DecidableEq, Repr

/-- A line in the log: what a subscriber to this topic has thrown. -/
structure Caught where
  topic : Topic
  what : Bytes
deriving DecidableEq, Repr

/-- A bus at work. -/
structure Run (α : Type) where
  bus : Bus α := {}
  /-- How many events have been published. -/
  begun : Nat := 0
  /-- The events on their way, the innermost first. -/
  deliveries : List (Delivery α) := []
deriving DecidableEq, Repr

/-- What comes next: the run goes on, and if somebody is called, it is this call. -/
structure Turn (α : Type) where
  run : Run α
  call : Option (Call α) := none
  caught : Option Caught := none
deriving DecidableEq, Repr

namespace Run

/-- The innermost event goes to the next one that waits for it, or it is on its way no more. -/
def goOn (r : Run α) : Turn α :=
  match r.deliveries with
  | [] => { run := r }
  | ⟨_, _, []⟩ :: outer => { run := { r with deliveries := outer } }
  | ⟨n, e, s :: waiting⟩ :: outer =>
    { run := { r with deliveries := ⟨n, e, waiting⟩ :: outer }, call := some ⟨n, e, s⟩ }

def publish (r : Run α) (e : Event) : Turn α :=
  goOn { r with
    begun := r.begun + 1
    deliveries := ⟨r.begun, e, r.bus.on e.topic⟩ :: r.deliveries }

/-- The subscriber that was called last for the innermost event is done. -/
def returned (r : Run α) : Except Bytes Unit → Turn α
  | .ok _ => r.goOn
  | .error what =>
    { r.goOn with caught := r.deliveries.head?.map fun d ↦ ⟨d.event.topic, what⟩ }

end Run

end ProgressFeed.Bus
