import ProgressFeed.Binary64
import ProgressFeed.Phase

/-!
# Progress snapshots

How far a job has come. Activity follows the phase, so a snapshot cannot disagree with itself.
-/

namespace ProgressFeed

structure Snapshot where
  source : Bytes := []
  phase : Phase := .initializing
  description : Bytes := []
  elapsedSeconds : UInt64 := 0
  directoriesFound : UInt64 := 0
  directoriesProcessed : UInt64 := 0
  filesFound : UInt64 := 0
  filesProcessed : UInt64 := 0
  bytesProcessed : UInt64 := 0
  filesPerSecond : Binary64 := .zero
  percent : Binary64 := .zero
  remainingSeconds : Option UInt64 := none
  directory : Option Bytes := none
  file : Option Bytes := none
  errors : UInt64 := 0
  warnings : UInt64 := 0
deriving DecidableEq, Repr

namespace Snapshot

def isActive (s : Snapshot) : Bool := s.phase.isActive

def isTerminal (s : Snapshot) : Bool := s.phase.isTerminal

/-- Equality field by field; the two doubles are compared as numbers. -/
def equals (s t : Snapshot) : Bool :=
  s.filesPerSecond.equals t.filesPerSecond && s.percent.equals t.percent &&
    { s with filesPerSecond := t.filesPerSecond, percent := t.percent } == t

instance : Inhabited Snapshot := ⟨{}⟩

end Snapshot

end ProgressFeed
