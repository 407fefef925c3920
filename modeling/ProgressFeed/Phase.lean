import ProgressFeed.Bytes

/-!
# Phases of a job

A job passes through the phases in the order of their declaration. `completed` and `failed` end it;
`failed` and `retrying` can be entered from any running phase.
-/

namespace ProgressFeed

inductive Phase
  | initializing
  | evaluating
  | discoveringDirectories
  | discoveringFiles
  | processingFiles
  | savingMetadata
  | completed
  | failed
  | retrying
deriving DecidableEq, Repr

namespace Phase

/-- Every phase, in order. -/
def all : List Phase :=
  [initializing, evaluating, discoveringDirectories, discoveringFiles, processingFiles,
    savingMetadata, completed, failed, retrying]

/-- The place of a phase in `all`. -/
def index : Phase → Nat
  | initializing => 0
  | evaluating => 1
  | discoveringDirectories => 2
  | discoveringFiles => 3
  | processingFiles => 4
  | savingMetadata => 5
  | completed => 6
  | failed => 7
  | retrying => 8

def ofIndex? (i : Nat) : Option Phase := all[i]?

/-- The name on the wire. -/
def name : Phase → Bytes
  | initializing => utf8 "initializing"
  | evaluating => utf8 "evaluating"
  | discoveringDirectories => utf8 "discovering_directories"
  | discoveringFiles => utf8 "discovering_files"
  | processingFiles => utf8 "processing_files"
  | savingMetadata => utf8 "saving_metadata"
  | completed => utf8 "completed"
  | failed => utf8 "failed"
  | retrying => utf8 "retrying"

/-- The phase of a name, which has to match octet for octet. -/
def ofName? (s : Bytes) : Option Phase := all.find? fun p ↦ p.name == s

/-- What is shown when the server sends no description of its own. -/
def description : Phase → Bytes
  | initializing => utf8 "Initializing sync operation"
  | evaluating => utf8 "Evaluating what needs to be synced"
  | discoveringDirectories => utf8 "Discovering directories and folder structure"
  | discoveringFiles => utf8 "Discovering files to sync"
  | processingFiles => utf8 "Downloading and processing files"
  | savingMetadata => utf8 "Saving metadata and finalizing sync"
  | completed => utf8 "Sync completed successfully"
  | failed => utf8 "Sync failed"
  | retrying => utf8 "Retrying after a transient failure"

/-- Whether the job is over. -/
def isTerminal : Phase → Bool
  | completed | failed => true
  | _ => false

def isActive (p : Phase) : Bool := !p.isTerminal

/-- The phases that can follow a running phase when the job moves on, stages skipped or not. -/
def successors : Phase → List Phase
  | initializing => [evaluating, discoveringDirectories, discoveringFiles]
  | evaluating => [discoveringDirectories, discoveringFiles, processingFiles]
  | discoveringDirectories => [discoveringFiles, processingFiles]
  | discoveringFiles => [processingFiles, savingMetadata]
  | processingFiles => [savingMetadata, completed]
  | savingMetadata => [completed]
  | completed | failed | retrying => []

/-- Whether a change from `p` to `q` is one that a job is expected to make. A job that is over makes
none; any other may fail, retry, or leave a retry for anywhere. -/
def expects (p q : Phase) : Bool :=
  !p.isTerminal && (q == failed || q == retrying || p == retrying || p.successors.contains q)

/-! What is shown for a number that may lie outside the list. -/

def shownName (p : Option Phase) : Bytes := p.elim (utf8 "unknown") name

def shownDescription (p : Option Phase) : Bytes := p.elim [] description

def shownActive (p : Option Phase) : Bool := p.elim true isActive

def shownTerminal (p : Option Phase) : Bool := p.elim false isTerminal

end Phase

end ProgressFeed
