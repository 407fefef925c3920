import ProgressFeed.Link
import ProgressFeed.Script
import ProgressFeed.Script.Scene

/-!
# Scripted runs of a link
-/

namespace ProgressFeed.Script.LinkRun

inductive Step
  | connect
  | disconnect
  | send (payload : Bytes)
  /-- Drops the link. -/
  | drop
  | scene (s : Scene.Step)
deriving DecidableEq, Repr

inductive Record
  | call (c : Link.Call)
  | frame (f : Channel.Frame)
  | scene (r : Scene.Record)
  /-- Whether a payload was taken. -/
  | sendResult (taken : Bool)
  /-- There is no link any more. -/
  | gone
deriving DecidableEq, Repr

/-- Work under way. -/
inductive Work
  /-- A callback returns. -/
  | resume (r : Link.Resume)
  | scene (w : Scene.Work)
deriving DecidableEq, Repr

structure World where
  link : Option Link
  scene : Scene
  /-- Nobody has given the link a callback. -/
  isMute : Bool := false
deriving DecidableEq, Repr

abbrev Turn := Script.Turn World Step Work Record

/-- The kind of a callback. -/
def moment : Link.Call → Moment
  | .state _ .connecting => .connecting
  | .state _ .connected => .connected
  | .state _ .disconnected => .disconnected
  | .fault _ => .fault

namespace World

/-- Carries out commands. -/
def obey (w : World) (commands : List Command) : World × List Record :=
  let (scene, records) := Scene.surroundings.obeyAll w.scene commands
  ({ w with scene }, records.map .scene)

/-- The link has made a step. -/
def adopt (w : World) (s : Link.Step) : Turn :=
  let (w, records) := { w with link := some s.link }.obey s.commands
  match s.pause with
  | none => { world := w, records }
  | some (call, resume) =>
    if w.isMute then { world := w, records, pieces := [.work (.resume resume)] }
    else
      { world := w
        records := records ++ [.call call]
        pieces := [.react (moment call) 0, .work (.resume resume)] }

/-- A frame has come in. -/
def hear (w : World) (l : Link) (generation : Nat) (f : Channel.Frame) : Turn :=
  if l.hears generation && !w.isMute then
    { world := w, records := [.frame f], pieces := [.react .frame 0] }
  else { world := w }

/-- Something comes in for the link. -/
def incoming (w : World) (l : Link) : Incoming → Turn
  | .notice stamp (.frame f) => w.hear l stamp.generation f
  | .notice stamp n => w.adopt (l.notice stamp.generation n w.scene.outside)
  | .rang alarm _ => w.adopt (l.rang alarm w.scene.outside)
  | .polled .. => { world := w }

/-- Something has happened in the scene. -/
def follow (w : World) (x : Scene.Outcome) : Turn :=
  let w := { w with scene := x.state }
  let t : Turn := match w.link, x.incoming with
    | some l, some i => w.incoming l i
    | _, _ => { world := w }
  { t with
    records := x.records.map .scene ++ t.records
    pieces := t.pieces ++ x.later.map fun later ↦ .work (.scene later) }

/-- Something that only a link can do. -/
def withLink (w : World) (f : Link → Turn) : Turn :=
  match w.link with
  | none => { world := w, records := [.gone] }
  | some l => f l

def send (w : World) (payload : Bytes) (l : Link) : Turn :=
  let (taken, commands) := l.send payload w.scene.outside
  let (w, records) := w.obey commands
  { world := w, records := records ++ [.sendResult taken] }

def drop (w : World) (l : Link) : Turn :=
  let (w, records) := { w with link := none }.obey l.farewell
  { world := w, records }

def perform (w : World) : Step → Turn
  | .connect => w.withLink fun l ↦ w.adopt (l.connect w.scene.outside)
  | .disconnect => w.withLink fun l ↦ w.adopt l.disconnect
  | .send payload => w.withLink (w.send payload)
  | .drop => w.withLink w.drop
  | .scene s => w.follow (w.scene.perform s)

def work (w : World) : Work → Turn
  | .resume r =>
    match w.link with
    | none => { world := w }
    | some l => w.adopt (l.resume w.scene.outside r)
  | .scene x => w.follow (w.scene.work x)

end World

def stage : Stage World Step Work Record := ⟨World.perform, World.work⟩

end ProgressFeed.Script.LinkRun
