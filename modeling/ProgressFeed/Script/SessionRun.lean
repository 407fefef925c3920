import ProgressFeed.Script
import ProgressFeed.Script.Completing
import ProgressFeed.Session

/-!
# Scripted runs of a session
-/

namespace ProgressFeed.Script.SessionRun

inductive Step
  | complete (c : Completing)
  | open
  | close (c : Channel.Closing)
  | send (payload : Bytes)
  /-- Says of which kind the session is. -/
  | kind
  /-- Its owner drops the session. -/
  | drop
deriving DecidableEq, Repr

inductive Record
  | call (c : Net.Call)
  | notice (n : Channel.Notice)
  | sendResult (fault : Option Fault)
  | kind (k : Channel.Kind)
  | notPending
  /-- The owner has dropped the session. -/
  | gone
deriving DecidableEq, Repr

/-- A notice has been delivered. -/
structure Work where
  resume : Session.Resume
deriving DecidableEq, Repr

structure World where
  session : Session
  loop : Net.Loop Unit := {}
  isDropped : Bool := false
  /-- The owner does not listen. -/
  isMute : Bool := false
deriving DecidableEq, Repr

abbrev Turn := Script.Turn World Step Work Record

/-- The kind of a callback. -/
def moment : Channel.Notice → Moment
  | .opened => .opened
  | .frame _ => .frame
  | .failed _ => .fault
  | .closed _ => .closed

namespace World

/-- The session has made a step. -/
def adopt (w : World) (s : Session.Step Session) : Turn :=
  let w := { w with session := s.session, loop := w.loop.start () s.calls }
  let records := s.calls.map .call
  match s.pause with
  | none => { world := w, records }
  | some (n, resume) =>
    if w.isMute then { world := w, records, pieces := [.work ⟨resume⟩] }
    else
      { world := w
        records := records ++ [.notice n]
        pieces := [.react (moment n) 0, .work ⟨resume⟩] }

def complete (w : World) (c : Completing) : Turn :=
  match c.take? (fun _ ↦ none) w.loop with
  | none => { world := w, records := [.notPending] }
  | some ((_, o), loop) => { w with loop }.adopt (w.session.complete o c.completion)

/-- Something that only the owner can do. -/
def ifHeld (w : World) (t : Turn) : Turn :=
  if w.isDropped then { world := w, records := [.gone] } else t

/-- The fault in a result. -/
def faultOf : Except Fault Unit → Option Fault
  | .ok _ => none
  | .error f => some f

def perform (w : World) : Step → Turn
  | .complete c => w.complete c
  | .open => w.ifHeld (w.adopt w.session.start)
  | .close c => w.ifHeld (w.adopt (w.session.close c))
  | .send payload =>
    let (r, s) := w.session.send payload
    let t := w.adopt s
    w.ifHeld { t with records := t.records ++ [.sendResult (faultOf r)] }
  | .kind => w.ifHeld { world := w, records := [.kind w.session.kind] }
  | .drop => w.ifHeld ({ w with isDropped := true }.adopt (w.session.close .byOwner))

def work (w : World) (x : Work) : Turn := w.adopt (w.session.resume x.resume)

end World

def stage : Stage World Step Work Record := ⟨World.perform, World.work⟩

end ProgressFeed.Script.SessionRun
