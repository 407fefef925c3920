import ProgressFeed.Net.Alarms
import ProgressFeed.Script
import ProgressFeed.Script.Completing

/-!
# Scripted runs of alarms on the event loop
-/

namespace ProgressFeed.Script.AlarmRun

inductive Step
  | complete (c : Completing)
  /-- Sets an alarm whose task is to carry out these steps. -/
  | set (delay : Int) (task : List Step)
  | stop (id : Nat)
deriving Inhabited

inductive Record
  | call (c : Net.Call)
  /-- The task of an alarm begins. -/
  | task (id : Nat)
  | notPending
deriving DecidableEq, Repr

structure World where
  alarms : Net.Alarms (List Step) := {}
  loop : Net.Loop Nat := {}

abbrev Turn := Script.Turn World Step Empty Record

namespace World

/-- Calls are made for an alarm. -/
def make (w : World) (id : Nat) (calls : List Net.Call) : Turn where
  world := { w with loop := w.loop.start id calls }
  records := calls.map .call

def perform (w : World) : Step → Turn
  | .complete c =>
    match c.take? some w.loop with
    | none => { world := w, records := [.notPending] }
    | some ((id, _), loop) =>
      let (alarms, task) := w.alarms.complete id c.completion
      let w := { w with alarms, loop }
      match task with
      | none => { world := w }
      | some steps => { world := w, records := [.task id], pieces := [.steps steps] }
  | .set delay task =>
    let (alarms, calls) := w.alarms.set delay task
    { w with alarms }.make w.alarms.next calls
  | .stop id =>
    let (alarms, calls) := w.alarms.stop id
    { w with alarms }.make id calls

end World

def stage : Stage World Step Empty Record := ⟨World.perform, fun _ e ↦ nomatch e⟩

end ProgressFeed.Script.AlarmRun
