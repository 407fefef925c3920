import ProgressFeed.EventStream

/-!
# Reading an event stream piece by piece

Lines end in a line feed, a carriage return, or the two together, and a pair may be split between
two pieces. A byte order mark at the start of the stream is dropped. A line beyond the limit breaks
the reader, which stays broken until it is reset.
-/

namespace ProgressFeed.EventStream

inductive Failure
  | lineTooLong (limit : Nat)
  | broken
deriving DecidableEq, Repr

def Failure.message : Failure → Bytes
  | lineTooLong limit =>
    utf8 "Event stream line exceeds " ++ Bytes.ofNat limit ++ utf8 " bytes"
  | broken => utf8 "Parser in error state"

inductive Reader.Mode
  /-- Inside a line. -/
  | line
  /-- Behind a carriage return, of which a line feed would be a part. -/
  | afterReturn
  | broken
deriving DecidableEq, Repr

structure Reader where
  limit : Nat := 1024 * 1024
  mode : Reader.Mode := .line
  /-- The octets of the line so far, last first. -/
  line : Bytes := []
  /-- How many there are. -/
  size : Nat := 0
  /-- No line has ended yet. -/
  atStart : Bool := true
  draft : Draft := {}
deriving DecidableEq, Repr

namespace Reader

/-- A line without the byte order mark. -/
def withoutMark : Bytes → Bytes
  | 0xEF :: 0xBB :: 0xBF :: l => l
  | l => l

/-- The line is complete. -/
def endLine (r : Reader) (mode : Mode) : Reader × Option Event :=
  let line := r.line.reverse
  let (draft, event) := r.draft.line (if r.atStart then withoutMark line else line)
  ({ r with mode, line := [], size := 0, atStart := false, draft }, event)

/-- An octet inside a line. -/
def inLine (r : Reader) (b : UInt8) : Except Failure (Reader × Option Event) :=
  if b == 13 then .ok (r.endLine .afterReturn)
  else if b == 10 then .ok (r.endLine .line)
  else if r.limit ≤ r.size then .error (.lineTooLong r.limit)
  else .ok ({ r with mode := .line, line := b :: r.line, size := r.size + 1 }, none)

/-- One octet, and the event that it completes. -/
def push (r : Reader) (b : UInt8) : Except Failure (Reader × Option Event) :=
  match r.mode with
  | .broken => .error .broken
  | .afterReturn => if b == 10 then .ok ({ r with mode := .line }, none) else r.inLine b
  | .line => r.inLine b

/-- One piece of the stream, and the events that it completes. When it breaks the reader, the events
before the fault are not reported. -/
def feed (r : Reader) (piece : Bytes) : Reader × Except Failure (List Event) :=
  go r [] piece
where
  go (r : Reader) (events : List Event) : Bytes → Reader × Except Failure (List Event)
    | [] => (r, .ok events.reverse)
    | b :: s =>
      match r.push b with
      | .error e => ({ r with mode := .broken }, .error e)
      | .ok (r, none) => go r events s
      | .ok (r, some e) => go r (e :: events) s

/-- As if nothing had been read. -/
def reset (r : Reader) : Reader := { limit := r.limit }

def lastId (r : Reader) : Bytes := r.draft.id

end Reader

end ProgressFeed.EventStream
