/-!
# Timers

A timer is pending until it fires or is cancelled, whichever comes first; after that neither has an
effect.
-/

namespace ProgressFeed

structure Timer where
  isCancelled : Bool := false
  hasFired : Bool := false
deriving DecidableEq, Repr

namespace Timer

def isPending (t : Timer) : Bool := !t.isCancelled && !t.hasFired

def cancel (t : Timer) : Timer := if t.isPending then { t with isCancelled := true } else t

/-- Its wait is over, and was not broken off from outside: it fires unless it has been cancelled. -/
def expires (t : Timer) (isAborted : Bool) : Bool := !isAborted && !t.isCancelled

/-- The timer when its wait is over. -/
def expire (t : Timer) (isAborted : Bool) : Timer :=
  if t.expires isAborted then { t with hasFired := true } else t

end Timer

end ProgressFeed
