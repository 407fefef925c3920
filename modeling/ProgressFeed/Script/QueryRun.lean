import ProgressFeed.Credential
import ProgressFeed.Script
import ProgressFeed.Script.Completing
import ProgressFeed.StatusQuery

/-!
# Scripted runs of status queries
-/

namespace ProgressFeed.Script.QueryRun

inductive Step
  | complete (c : Completing)
  /-- Asks for the status of a source; the answer comes under this label. -/
  | ask (source label : Bytes)
  | setToken (token : Bytes)
  /-- Nothing more is asked; what has been asked is still answered. -/
  | drop
deriving DecidableEq, Repr

inductive Record
  | call (c : Net.Call)
  | answered (label : Bytes) (a : StatusAnswer)
  | notPending
  | gone

structure World where
  endpoint : Endpoint
  /-- Whether there is a credential source at all. -/
  hasSource : Bool := true
  token : Option Bytes
  /-- The queries by number, each with its label. -/
  queries : List (StatusQuery × Bytes) := []
  loop : Net.Loop Nat := {}
  isDropped : Bool := false

abbrev Turn := Script.Turn World Step Empty Record

namespace World

/-- A query has made a step. -/
def adopt (w : World) (i : Nat) (label : Bytes) (s : StatusQuery.Step) : Turn :=
  let w := { w with queries := w.queries.set i (s.query, label), loop := w.loop.start i s.calls }
  let records : List Record := s.calls.map .call
  match s.answer with
  | none => { world := w, records }
  | some a =>
    { world := w, records := records ++ [.answered label a], pieces := [.react .result 0] }

def complete (w : World) (c : Completing) : Turn :=
  match c.take? (fun _ ↦ none) w.loop with
  | none => { world := w, records := [.notPending] }
  | some ((i, o), loop) =>
    let w := { w with loop }
    match w.queries[i]? with
    | none => { world := w }
    | some (q, label) => w.adopt i label (q.complete o c.completion)

def ask (w : World) (source label : Bytes) : Turn :=
  let q : StatusQuery :=
    { endpoint := w.endpoint, source, token := if w.hasSource then w.token else none }
  { w with queries := w.queries ++ [(q, label)] }.adopt w.queries.length label q.start

def perform (w : World) : Step → Turn
  | .complete c => w.complete c
  | .ask source label =>
    if w.isDropped then { world := w, records := [.gone] } else w.ask source label
  | .setToken token => { world := { w with token := Credential.ofBytes token } }
  | .drop =>
    if w.isDropped then { world := w, records := [.gone] }
    else { world := { w with isDropped := true } }

end World

def stage : Stage World Step Empty Record := ⟨World.perform, fun _ e ↦ nomatch e⟩

end ProgressFeed.Script.QueryRun
