/-!
# Alarms on a clock

Time stands still until the clock is advanced. Then the alarms that fall due are taken one by one,
the earliest first and of equally early ones the one set first, and each shows its own time.
-/

namespace ProgressFeed

/-- An alarm that has neither rung nor been stopped. -/
structure Clock.Alarm (τ : Type) where
  id : Nat
  due : Int
  delay : Int
  task : τ
deriving DecidableEq, Repr

structure Clock (τ : Type) where
  now : Int := 0
  /-- The number of the next alarm. -/
  next : Nat := 0
  /-- The alarms that are set, in the order in which they were. -/
  alarms : List (Clock.Alarm τ) := []
deriving DecidableEq, Repr

namespace Clock

variable {τ : Type}

def set (c : Clock τ) (delay : Int) (task : τ) : Clock τ :=
  { c with
    next := c.next + 1
    alarms := c.alarms ++ [{ id := c.next, due := c.now + delay, delay, task }] }

def stop (c : Clock τ) (id : Nat) : Clock τ :=
  { c with alarms := c.alarms.filter (·.id != id) }

def isSet (c : Clock τ) (id : Nat) : Bool := c.alarms.any (·.id == id)

/-- `a` rings before `b`. -/
def Alarm.before (a b : Alarm τ) : Bool := a.due < b.due || (a.due == b.due && a.id < b.id)

/-- The alarm that rings first. -/
def earliest : List (Alarm τ) → Option (Alarm τ)
  | [] => none
  | a :: l =>
    match earliest l with
    | none => some a
    | some b => some (if b.before a then b else a)

/-- Takes the first alarm that is due by `target`, and moves to its time. -/
def takeDue? (c : Clock τ) (target : Int) : Option (Alarm τ × Clock τ) :=
  (earliest (c.alarms.filter fun a ↦ decide (a.due ≤ target))).map fun a ↦
    (a, { c.stop a.id with now := a.due })

/-- The alarms that are set, in the order in which they would ring. -/
def inOrder (c : Clock τ) : List (Alarm τ) := c.alarms.mergeSort fun a b ↦ !b.before a

end Clock

end ProgressFeed
