import ProgressFeed.Net.Loop

/-!
# Completions in a script

A script says how the oldest pending operation, of one kind or of one alarm if it names that,
completes.
-/

namespace ProgressFeed.Script

structure Completing where
  operation : Option Net.Operation := none
  alarm : Option Nat := none
  completion : Net.Completion := {}
deriving DecidableEq, Repr

namespace Completing

/-- Whether an operation is one that may be meant. `alarm?` is the number of the alarm that an owner
stands for. -/
def isMeant {α : Type} (c : Completing) (alarm? : α → Option Nat) (x : α × Net.Operation) : Bool :=
  c.operation.all (· == x.2) && (c.alarm.isNone || c.alarm == alarm? x.1)

/-- The operation that completes. -/
def take? {α : Type} (c : Completing) (alarm? : α → Option Nat) (l : Net.Loop α) :
    Option ((α × Net.Operation) × Net.Loop α) :=
  l.take? (c.isMeant alarm?)

end Completing

end ProgressFeed.Script
