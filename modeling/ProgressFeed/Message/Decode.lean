import ProgressFeed.Channel
import ProgressFeed.Json.Parser
import ProgressFeed.Message
import ProgressFeed.Message.Field

/-!
# Reading messages

A frame is an envelope with a type and, under `data`, a payload; without `data` the envelope is its
own payload. A frame with an event name is the bare payload of that type, unless it is an envelope
of just that type. The source of the feed stands in where a payload names none.
-/

namespace ProgressFeed.Message

def sourceField : Field := .two "source_id" "sourceId"

/-- The phase that a payload names. -/
def readPhase (p : Payload) : Except Rejection Phase :=
  match ((Field.one "phase").find? p).bind Json.text? with
  | none => .error .phaseMissing
  | some name =>
    match Phase.ofName? name with
    | none => .error (.phaseUnknown name)
    | some phase => .ok phase

/-- The snapshot that a payload describes. Of several faulty fields the first one read is
reported. -/
def readSnapshot (source : Bytes) (payload : Json) : Except Rejection Snapshot := do
  let some p := payload.members? | .error .progressNotObject
  let phase ← readPhase p
  let source ← sourceField.textOr p source
  let description ← (Field.two "phase_description" "phaseDescription").textOr p phase.description
  let elapsedSeconds ← (Field.two "elapsed_time_secs" "elapsedSeconds").count p
  let directoriesFound ← (Field.two "directories_found" "directoriesFound").count p
  let directoriesProcessed ← (Field.two "directories_processed" "directoriesProcessed").count p
  let filesFound ← (Field.two "files_found" "filesFound").count p
  let filesProcessed ← (Field.two "files_processed" "filesProcessed").count p
  let bytesProcessed ← (Field.two "bytes_processed" "bytesProcessed").count p
  let errors ← (Field.one "errors").count p
  let warnings ← (Field.one "warnings").count p
  let filesPerSecond ←
    (Field.two "processing_rate_files_per_sec" "processingRateFilesPerSec").amount p
  let percent ← (Field.two "files_progress_percent" "filesProgressPercent").amount p
  let remainingSeconds ←
    (Field.two "estimated_time_remaining_secs" "estimatedSecondsRemaining").count? p
  let directory ← (Field.two "current_directory" "currentDirectory").text? p
  let file ← (Field.two "current_file" "currentFile").text? p
  pure {
    source, phase, description, elapsedSeconds, directoriesFound, directoriesProcessed, filesFound
    filesProcessed, bytesProcessed, filesPerSecond, percent := percent.capPercent
    remainingSeconds, directory, file, errors, warnings }

/-- The types of message, `progress` apart. -/
inductive Shape
  | heartbeat
  | connected
  | error
  | closing
deriving DecidableEq, Repr

/-- The type that a name stands for. -/
def Shape.ofName? (type : Bytes) : Option Shape :=
  if type == utf8 "heartbeat" then some heartbeat
  else if type == utf8 "connected" || type == utf8 "connection_confirmed" then some connected
  else if type == utf8 "error" then some error
  else if type == utf8 "connection_closing" then some closing
  else none

/-- A message of a known type. -/
def readShape (source : Bytes) (p : Payload) : Shape → Except Rejection Message
  | .heartbeat => do
    let active ← (Field.two "is_active" "isActive").flag p
    pure (.heartbeat source active (timestamp p))
  | .connected => pure (.connected source (timestamp p))
  | .error => do
    let message ← (Field.one "message").textOr p (utf8 "Unspecified server error")
    let type ← (Field.two "error_type" "errorType").text? p
    let details ← (Field.one "details").text? p
    pure (.error message type details)
  | .closing => do
    let message ← (Field.one "message").textOr p []
    pure (.closing source message (timestamp p))

/-- A message of the named type. -/
def readTyped (source type : Bytes) (payload : Json) : Except Rejection Message := do
  let some p := payload.members? | .error (.payloadNotObject type)
  if type == utf8 "progress" then
    pure (.progress (← readSnapshot source payload))
  else
    let source ← sourceField.textOr p source
    match Shape.ofName? type with
    | none => .error (.unknownType type)
    | some shape => readShape source p shape

/-- The payload of an envelope of this type. -/
def enveloped? (type : Bytes) (root : Json) : Option Json := do
  let members ← root.members?
  if (Json.member? members (utf8 "type")).bind Json.text? == some type then
    Json.member? members (utf8 "data")
  else none

/-- The message in a frame without an event name. -/
def readEnvelope (source : Bytes) (root : Json) : Except Rejection Message := do
  let some members := root.members? | .error .frameNotObject
  let some type := (Json.member? members (utf8 "type")).bind Json.text? | .error .frameUntyped
  readTyped source type ((Json.member? members (utf8 "data")).getD root)

/-- The event name of a frame; `message` is what a stream calls an event without a name. -/
def eventName? (f : Channel.Frame) : Option Bytes := f.event.filter (· != utf8 "message")

/-- The message that a frame carries. -/
def ofFrame (source : Bytes) (f : Channel.Frame) : Except Rejection Message :=
  match Json.parse? f.text with
  | none => .error .frameNotJson
  | some root =>
    match eventName? f with
    | some event => readTyped source event ((enveloped? event root).getD root)
    | none => readEnvelope source root

/-- The snapshot in the answer to a status request; blank or null when there is no job. -/
def ofStatusBody (source : Bytes) (body : Bytes) : Except Rejection (Option Snapshot) :=
  if body.all Bytes.isBlank then .ok none
  else
    match Json.parse? body with
    | none => .error .statusNotJson
    | some .null => .ok none
    | some root => some <$> readSnapshot source root

end ProgressFeed.Message
