import ProgressFeed.Bytes

/-!
# Lines of an event stream

A line is a field name, a colon and a value, from which one leading space is dropped. The fields
`event`, `data` and `id` count. A blank line dispatches the event under way if it has data; the last
id stays in force for the events after it.
-/

namespace ProgressFeed.EventStream

/-- A dispatched event. -/
structure Event where
  name : Bytes
  data : Bytes
  id : Bytes
deriving DecidableEq, Repr

/-- The event under way. -/
structure Draft where
  name : Bytes := []
  /-- The values of its data lines, last first. -/
  data : List Bytes := []
  /-- The last id of the stream. -/
  id : Bytes := []
deriving DecidableEq, Repr

/-- The name of an event that was not given one. -/
def defaultName : Bytes := utf8 "message"

/-- The name and the value of a line that is neither blank nor a comment. -/
def field (line : Bytes) : Bytes × Bytes :=
  match line.span (· != 58) with
  | (name, 58 :: 32 :: value) => (name, value)
  | (name, _ :: value) => (name, value)
  | (name, []) => (name, [])

/-- The values of the data lines, joined by line feeds. -/
def joinLines (values : List Bytes) : Bytes := (values.intersperse [10]).flatten

namespace Draft

/-- The end of an event: it is dispatched if it has data. -/
def dispatch (d : Draft) : Draft × Option Event :=
  ({ id := d.id },
    if d.data.isEmpty then none
    else some {
      name := if d.name.isEmpty then defaultName else d.name
      data := joinLines d.data.reverse
      id := d.id })

def setField (d : Draft) (name value : Bytes) : Draft :=
  if name == utf8 "event" then { d with name := value }
  else if name == utf8 "data" then { d with data := value :: d.data }
  else if name == utf8 "id" && !value.contains 0 then { d with id := value }
  else d

/-- What a line does to the event under way. -/
def line (d : Draft) : Bytes → Draft × Option Event
  | [] => d.dispatch
  | 58 :: _ => (d, none)
  | l => let (name, value) := field l; (d.setField name value, none)

end Draft

end ProgressFeed.EventStream
