import ProgressFeed.Clock
import ProgressFeed.Script
import ProgressFeed.Timer

/-!
# Scripted runs of a clock
-/

namespace ProgressFeed.Script.ClockRun

/-- What an alarm of the script does when it rings, besides being recorded. -/
structure Plan where
  /-- Its own handle. -/
  handle : Nat
  /-- The handle that it cancels. -/
  cancels : Option Nat := none
  /-- The delay of another alarm that it sets. -/
  sets : Option Int := none
deriving DecidableEq, Repr

inductive Handle
  /-- The handle of an alarm. -/
  | alarm (id : Nat)
  /-- The handle of a timer without a clock. -/
  | bare (t : Timer)
deriving DecidableEq, Repr

inductive Step
  | set (delay : Int) (cancels : Option Nat) (sets : Option Int)
  | cancel (handle : Nat)
  | addBare (t : Timer)
  | advance (duration : Int)
deriving DecidableEq, Repr

inductive Record
  | rang (handle : Nat) (time : Int)
  /-- A timer without a clock has been cancelled. -/
  | cancelled (handle : Nat)
deriving DecidableEq, Repr

/-- The clock is being advanced to a time. -/
structure Work where
  target : Int
deriving DecidableEq, Repr

structure World where
  clock : Clock Plan := {}
  handles : List Handle := []
deriving DecidableEq, Repr

abbrev Turn := Script.Turn World Step Work Record

namespace World

/-- Sets an alarm, whose handle is the next one. -/
def set (w : World) (delay : Int) (cancels : Option Nat) (sets : Option Int) : World where
  clock := w.clock.set delay ⟨w.handles.length, cancels, sets⟩
  handles := w.handles ++ [.alarm w.clock.next]

/-- Cancels through a handle, if there is one of that number. -/
def cancel (w : World) (handle : Nat) : World × List Record :=
  match w.handles[handle]? with
  | none => (w, [])
  | some (.alarm id) => ({ w with clock := w.clock.stop id }, [])
  | some (.bare t) =>
    ({ w with handles := w.handles.set handle (.bare t.cancel) },
      if t.isPending then [.cancelled handle] else [])

def perform (w : World) : Step → Turn
  | .set delay cancels sets => { world := w.set delay cancels sets }
  | .cancel handle => let (w, records) := w.cancel handle; { world := w, records }
  | .addBare t => { world := { w with handles := w.handles ++ [.bare t] } }
  | .advance duration => { world := w, pieces := [.work ⟨w.clock.now + duration⟩] }

/-- What an alarm does when it rings. -/
def ring (w : World) (p : Plan) : World × List Record :=
  let (w', records) := p.cancels.elim (w, []) w.cancel
  (p.sets.elim w' fun delay ↦ w'.set delay none none, .rang p.handle w.clock.now :: records)

/-- Takes the next alarm that is due, and goes on advancing. -/
def work (w : World) (a : Work) : Turn :=
  match w.clock.takeDue? a.target with
  | none => { world := { w with clock := { w.clock with now := a.target } } }
  | some (alarm, clock) =>
    let (w, records) := { w with clock }.ring alarm.task
    { world := w, records, pieces := [.work a] }

def isPending (w : World) : Handle → Bool
  | .alarm id => w.clock.isSet id
  | .bare t => t.isPending

end World

def stage : Stage World Step Work Record := ⟨World.perform, World.work⟩

end ProgressFeed.Script.ClockRun
