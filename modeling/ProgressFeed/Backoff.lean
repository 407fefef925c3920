/-!
# Retry budget and backoff

The wait doubles with every attempt, up to thirty doublings. Delays are signed 64-bit counts of
milliseconds, and the product wraps like any other of that width.
-/

namespace ProgressFeed

structure Backoff where
  /-- How many reopens are tried without a successful open between them. -/
  maxAttempts : Nat := 5
  /-- The wait before the first reopen, in milliseconds. -/
  base : Int64 := 1000
deriving DecidableEq, Repr

/-- The wait before attempt number `attempt`, counted from zero. -/
def Backoff.delay (b : Backoff) (attempt : Nat) : Int64 :=
  b.base * Int64.ofNat (1 <<< min attempt 30)

end ProgressFeed
