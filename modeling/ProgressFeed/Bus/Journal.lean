import ProgressFeed.Bus

/-!
# A journal of events

One line of text for every event.
-/

namespace ProgressFeed

inductive Journal.Level
  | debug
  | info
  | warning
  | error
deriving DecidableEq, Repr

/-- A line of a journal. -/
structure Journal.Line where
  level : Journal.Level
  text : Bytes
deriving DecidableEq, Repr

namespace Journal

def Level.name : Level → Bytes
  | debug => utf8 "debug"
  | info => utf8 "info"
  | warning => utf8 "warning"
  | error => utf8 "error"

/-- The topics in the order in which a journal subscribes to them. -/
def topics : List Topic := [.snapshot, .state, .heartbeat, .fault]

def ofBool (b : Bool) : Bytes := if b then utf8 "true" else utf8 "false"

/-- `part/whole` -/
def ratio (part whole : UInt64) : Bytes :=
  Bytes.ofNat part.toNat ++ utf8 "/" ++ Bytes.ofNat whole.toNat

def snapshotText (s : Snapshot) : Bytes :=
  utf8 "[Snapshot] source=" ++ s.source ++ utf8 " phase=" ++ s.phase.name ++
    utf8 " files=" ++ ratio s.filesProcessed s.filesFound ++
    utf8 " dirs=" ++ ratio s.directoriesProcessed s.directoriesFound ++
    utf8 " percent=" ++ s.percent.oneDecimal ++ utf8 " active=" ++ ofBool s.isActive

def faultLevel (f : Fault) : Level := if f.isTerminal then .error else .warning

/-- The line for an event. -/
def line : Event → Line
  | .snapshot s => ⟨.info, snapshotText s⟩
  | .state source was now =>
    ⟨.info, utf8 "[ConnectionState] source=" ++ source ++ utf8 " " ++ was.name ++ utf8 " -> " ++
      now.name⟩
  | .heartbeat source active timestamp =>
    ⟨.debug, utf8 "[Heartbeat] source=" ++ source ++ utf8 " active=" ++ ofBool active ++
      utf8 " timestamp=" ++ Bytes.ofInt timestamp.toInt⟩
  | .fault source f =>
    ⟨faultLevel f, utf8 "[Error] source=" ++ source ++ utf8 " kind=" ++ f.kind.name ++
      utf8 " message=" ++ f.message⟩

end Journal

end ProgressFeed
