import ProgressFeed.Bus.Tally
import ProgressFeed.Script

/-!
# Scripted runs of journals and tallies

Journals and tallies on one bus, by key. One that is added under a key in use takes the place of the
old one, which leaves the bus after the new one has joined it.
-/

namespace ProgressFeed.Script.ObserverRun

inductive Subscriber
  | journal
  /-- The tally of this key. -/
  | tally (key : Int)
deriving DecidableEq, Repr

inductive Step
  | addJournal (key : Int)
  | addTally (key : Int)
  | dropJournal (key : Int)
  | dropTally (key : Int)
  /-- Has a tally report. -/
  | report (key : Int)
  | clear
  | publish (e : Event)
deriving DecidableEq, Repr

/-- A journal or a tally on the bus. -/
structure Seat (α : Type) where
  key : Int
  /-- The numbers that it was given. -/
  ids : List Nat
  value : α
deriving DecidableEq, Repr

structure World where
  bus : Bus Subscriber := {}
  journals : List (Seat Unit) := []
  tallies : List (Seat Tally) := []
deriving DecidableEq, Repr

abbrev Turn := Script.Turn World Step Empty Journal.Line

/-- Takes the seats of a key off the bus. -/
def leave {α : Type} (b : Bus Subscriber) (topics : List Topic) (key : Int)
    (seats : List (Seat α)) : Bus Subscriber :=
  (seats.filter (·.key == key)).foldl (fun b s ↦ b.unsubscribeAll (topics.zip s.ids)) b

/-- The seats of all other keys. -/
def others {α : Type} (key : Int) (seats : List (Seat α)) : List (Seat α) :=
  seats.filter (·.key != key)

namespace World

/-- One subscriber gets an event. -/
def receive (e : Event) (t : World × List Journal.Line) : Subscriber → World × List Journal.Line
  | .journal => (t.1, t.2 ++ [Journal.line e])
  | .tally key =>
    ({ t.1 with
      tallies := t.1.tallies.map fun s ↦
        if s.key == key then { s with value := s.value.add e } else s }, t.2)

def perform (w : World) : Step → Turn
  | .addJournal key =>
    let (ids, bus) := w.bus.subscribeAll .journal Journal.topics
    { world := { w with
        bus := leave bus Journal.topics key w.journals
        journals := others key w.journals ++ [⟨key, ids, ()⟩] } }
  | .addTally key =>
    let (ids, bus) := w.bus.subscribeAll (.tally key) Tally.topics
    { world := { w with
        bus := leave bus Tally.topics key w.tallies
        tallies := others key w.tallies ++ [⟨key, ids, {}⟩] } }
  | .dropJournal key =>
    { world := { w with
        bus := leave w.bus Journal.topics key w.journals
        journals := others key w.journals } }
  | .dropTally key =>
    { world := { w with
        bus := leave w.bus Tally.topics key w.tallies
        tallies := others key w.tallies } }
  | .report key =>
    { world := w
      records := (w.tallies.filter (·.key == key)).flatMap fun s ↦ s.value.report }
  | .clear => { world := { w with bus := w.bus.clear } }
  | .publish e =>
    let (w, records) := (w.bus.audience e).foldl (receive e) (w, [])
    { world := w, records }

/-- The tallies by key. -/
def inOrder (w : World) : List Tally :=
  (w.tallies.mergeSort fun s t ↦ decide (s.key ≤ t.key)).map Seat.value

end World

def stage : Stage World Step Empty Journal.Line := ⟨World.perform, fun _ e ↦ nomatch e⟩

end ProgressFeed.Script.ObserverRun
