import ProgressFeed.Command
import ProgressFeed.Snapshot
import ProgressFeed.Fault

/-!
# What comes in from the world
-/

namespace ProgressFeed

/-- The answer to a status query: the current snapshot, if there is a job. -/
abbrev StatusAnswer := Except Fault (Option Snapshot)

inductive Incoming
  /-- A notice of a channel that was opened with this stamp. -/
  | notice (stamp : Stamp) (n : Channel.Notice)
  /-- An alarm has rung. -/
  | rang (alarm : Nat) (task : Task)
  /-- The status that was asked for in this epoch. -/
  | polled (epoch : Nat) (answer : StatusAnswer)

end ProgressFeed
