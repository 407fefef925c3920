import ProgressFeed.Phase

/-!
# The history of one job's phases

Repeats of the current phase are no change. A change that the job is not expected to make is taken
all the same, and counted.
-/

namespace ProgressFeed.Phase

/-- What is remembered of the phases observed so far. -/
structure History where
  current : Option Phase := none
  /-- How often the phase has changed, the first observation included. -/
  transitions : Nat := 0
  /-- How many of the changes were unexpected. -/
  outOfOrder : Nat := 0
deriving DecidableEq, Repr

namespace History

/-- Nothing observed yet. -/
def empty : History := {}

/-- The next phase is one that the job may go to; anything may come first. -/
def expects (h : History) (next : Phase) : Bool := h.current.all (·.expects next)

/-- Whether observing `next` is a change. -/
def changes (h : History) (next : Phase) : Bool := h.current != some next

def observe (h : History) (next : Phase) : History :=
  if h.changes next then
    { current := some next
      transitions := h.transitions + 1
      outOfOrder := if h.expects next then h.outOfOrder else h.outOfOrder + 1 }
  else h

/-- The history after a list of observations. -/
def ofList (ps : List Phase) : History := ps.foldl observe empty

/-- The job is over. -/
def isTerminal (h : History) : Bool := h.current.any Phase.isTerminal

/-- A change has been seen, so there is a time of the last one. -/
def isStamped (h : History) : Bool := h.transitions != 0

end History

end ProgressFeed.Phase
