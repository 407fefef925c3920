import ProgressFeed.Net
import ProgressFeed.Timer

/-!
# Alarms on the event loop

Each alarm has a timer and a wait of its own. Stopping a pending alarm also cancels its wait, as
long as that is under way; when the wait ends the task is due, unless the alarm has been stopped or
the wait was broken off.
-/

namespace ProgressFeed.Net

structure Alarms.Entry (τ : Type) where
  timer : Timer := {}
  /-- Its wait is under way. -/
  isWaiting : Bool := true
  task : τ
deriving DecidableEq, Repr

/-- All alarms there have been, by number. -/
structure Alarms (τ : Type) where
  entries : List (Alarms.Entry τ) := []
deriving DecidableEq, Repr

namespace Alarms

variable {τ : Type}

/-- The number of the next alarm. -/
def next (a : Alarms τ) : Nat := a.entries.length

def set (a : Alarms τ) (delay : Int) (task : τ) : Alarms τ × List Call :=
  (⟨a.entries ++ [⟨{}, true, task⟩]⟩, [.wait a.next delay])

def stop (a : Alarms τ) (id : Nat) : Alarms τ × List Call :=
  match a.entries[id]? with
  | none => (a, [])
  | some e =>
    (⟨a.entries.set id { e with timer := e.timer.cancel }⟩,
      if e.timer.isPending && e.isWaiting then [.cancelTimer id] else [])

/-- The wait of an alarm has ended; the task that is due. -/
def complete (a : Alarms τ) (id : Nat) (c : Completion) : Alarms τ × Option τ :=
  match a.entries[id]? with
  | none => (a, none)
  | some e =>
    let isAborted := c.errorKind == some .aborted
    (⟨a.entries.set id { e with timer := e.timer.expire isAborted, isWaiting := false }⟩,
      if e.timer.expires isAborted then some e.task else none)

/-- Whether each alarm is pending. -/
def pending (a : Alarms τ) : List Bool := a.entries.map (·.timer.isPending)

end Alarms

end ProgressFeed.Net
