import ProgressFeed.Bus.Journal

/-!
# A tally of events

How much of what has been published.
-/

namespace ProgressFeed

structure Tally where
  snapshots : Nat := 0
  heartbeats : Nat := 0
  /-- How often a connection has been established. -/
  connects : Nat := 0
  /-- How often an established connection has ended. -/
  disconnects : Nat := 0
  decodeFaults : Nat := 0
  serverFaults : Nat := 0
  transportFaults : Nat := 0
  terminalFaults : Nat := 0
deriving DecidableEq, Repr

namespace Tally

/-- The topics in the order in which a tally subscribes to them. -/
def topics : List Topic := [.snapshot, .heartbeat, .state, .fault]

def addFault (t : Tally) : Fault.Kind → Tally
  | .decode => { t with decodeFaults := t.decodeFaults + 1 }
  | .server => { t with serverFaults := t.serverFaults + 1 }
  | .transport => { t with transportFaults := t.transportFaults + 1 }
  | .authentication | .exhausted => { t with terminalFaults := t.terminalFaults + 1 }

def addState (t : Tally) (was now : Connection) : Tally :=
  if now = .connected then { t with connects := t.connects + 1 }
  else if was = .connected ∧ now = .disconnected then { t with disconnects := t.disconnects + 1 }
  else t

/-- Counts an event. -/
def add (t : Tally) : Event → Tally
  | .snapshot _ => { t with snapshots := t.snapshots + 1 }
  | .heartbeat .. => { t with heartbeats := t.heartbeats + 1 }
  | .state _ was now => t.addState was now
  | .fault _ f => t.addFault f.kind

/-- The line above and below a report. -/
def rule : Bytes := (List.replicate 39 (utf8 "═")).flatten

/-- A report of the counts. -/
def report (t : Tally) : List Journal.Line :=
  [rule, utf8 "Stream Statistics:",
    utf8 "  Snapshots:        " ++ Bytes.ofNat t.snapshots,
    utf8 "  Heartbeats:       " ++ Bytes.ofNat t.heartbeats,
    utf8 "  Connects:         " ++ Bytes.ofNat t.connects,
    utf8 "  Disconnects:      " ++ Bytes.ofNat t.disconnects,
    utf8 "  Decode errors:    " ++ Bytes.ofNat t.decodeFaults,
    utf8 "  Server errors:    " ++ Bytes.ofNat t.serverFaults,
    utf8 "  Transport errors: " ++ Bytes.ofNat t.transportFaults,
    utf8 "  Terminal errors:  " ++ Bytes.ofNat t.terminalFaults,
    rule].map fun text ↦ ⟨.info, text⟩

end Tally

end ProgressFeed
