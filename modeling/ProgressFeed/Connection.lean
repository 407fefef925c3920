import ProgressFeed.Bytes

/-!
# Connection states
-/

namespace ProgressFeed

inductive Connection
  | connecting
  | connected
  | disconnected
deriving DecidableEq, Repr

namespace Connection

def all : List Connection := [connecting, connected, disconnected]

def ofIndex? (i : Nat) : Option Connection := all[i]?

def name : Connection → Bytes
  | connecting => utf8 "connecting"
  | connected => utf8 "connected"
  | disconnected => utf8 "disconnected"

def ofName? (s : Bytes) : Option Connection := all.find? fun c ↦ c.name == s

/-- What is shown for a number that may lie outside the list. -/
def shownName (c : Option Connection) : Bytes := c.elim (utf8 "unknown") name

end Connection

end ProgressFeed
