import ProgressFeed.Bus.Emission
import ProgressFeed.Script

/-!
# Scripted runs of a bus
-/

namespace ProgressFeed.Script.BusRun

inductive Step
  /-- Registers a subscriber. On its first call it carries out the steps. -/
  | subscribe (topic : Topic) (label : Bytes) (onFirstCall : List Step)
  | unsubscribe (topic : Topic) (id : Nat)
  | publish (e : Event)
  | clear
deriving Inhabited

/-- A subscriber. -/
structure Subscriber where
  label : Bytes
  /-- What it does when it is called next. -/
  pending : List Step

inductive Record
  | subscribed (id : Nat)
  | unsubscribed (wasSubscribed : Bool)
  | called (label source : Bytes)
  /-- A publication is over. -/
  | published
deriving DecidableEq, Repr

inductive Work
  /-- The subscriber that was called last is done. -/
  | returned

structure World where
  run : Bus.Run Nat := {}
  /-- The subscribers, by number. -/
  subscribers : List Subscriber := []

abbrev Turn := Script.Turn World Step Work Record

namespace World

def bus (w : World) : Bus Nat := w.run.bus

def register (w : World) (bus : Bus Nat) : World := { w with run := { w.run with bus } }

/-- Whoever is called carries out its steps. -/
def follow (w : World) (t : Bus.Turn Nat) : Turn :=
  let w := { w with run := t.run }
  match t.call with
  | none => { world := w, records := [.published] }
  | some c =>
    match w.subscribers[c.subscription.subscriber]? with
    | none => { world := w, pieces := [.work .returned] }
    | some s =>
      let called := w.subscribers.set c.subscription.subscriber { s with pending := [] }
      { world := { w with subscribers := called }
        records := [.called s.label c.event.source]
        pieces := [.steps s.pending, .work .returned] }

def perform (w : World) : Step → Turn
  | .subscribe topic label onFirstCall =>
    let (id, bus) := w.bus.subscribe topic w.subscribers.length
    { world := { w.register bus with subscribers := w.subscribers ++ [⟨label, onFirstCall⟩] }
      records := [.subscribed id] }
  | .unsubscribe topic id =>
    let (wasSubscribed, bus) := w.bus.unsubscribe topic id
    { world := w.register bus, records := [.unsubscribed wasSubscribed] }
  | .publish e => w.follow (w.run.publish e)
  | .clear => { world := w.register w.bus.clear }

def work (w : World) : Work → Turn
  | .returned => w.follow (w.run.returned (.ok ()))

end World

def stage : Stage World Step Work Record := ⟨World.perform, World.work⟩

end ProgressFeed.Script.BusRun
