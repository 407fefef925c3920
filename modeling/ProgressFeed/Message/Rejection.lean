import ProgressFeed.Fault

/-!
# Why a message is rejected
-/

namespace ProgressFeed.Message

/-- What is wrong with the value of a field. -/
inductive Misfit
  | negative
  | notInteger
  | notNumber
  | notString
  | notBoolean
deriving DecidableEq, Repr

inductive Rejection
  /-- The text of a frame is not JSON. -/
  | frameNotJson
  /-- A frame without an event name is not an object. -/
  | frameNotObject
  /-- A frame without an event name has no type. -/
  | frameUntyped
  /-- The payload of a message of this type is not an object. -/
  | payloadNotObject (type : Bytes)
  | unknownType (type : Bytes)
  /-- The text of a status answer is not JSON. -/
  | statusNotJson
  | progressNotObject
  | phaseMissing
  | phaseUnknown (name : Bytes)
  | field (name : Bytes) (why : Misfit)
deriving DecidableEq, Repr

def Misfit.text : Misfit → Bytes
  | negative => utf8 " is negative"
  | notInteger => utf8 " is not an integer"
  | notNumber => utf8 " is not a number"
  | notString => utf8 " is not a string"
  | notBoolean => utf8 " is not a boolean"

namespace Rejection

def text : Rejection → Bytes
  | frameNotJson => utf8 "frame is not valid JSON"
  | frameNotObject => utf8 "frame is not a JSON object"
  | frameUntyped => utf8 "frame has no type discriminant"
  | payloadNotObject type => utf8 "'" ++ type ++ utf8 "' payload is not an object"
  | unknownType type => utf8 "unknown message type '" ++ type ++ utf8 "'"
  | statusNotJson => utf8 "status body is not valid JSON"
  | progressNotObject => utf8 "progress payload is not an object"
  | phaseMissing => utf8 "progress payload has no phase"
  | phaseUnknown name => utf8 "unrecognized phase '" ++ name ++ utf8 "'"
  | field name why => name ++ why.text

def fault (r : Rejection) : Fault := ⟨.decode, utf8 "decode failure: " ++ r.text, none⟩

end Rejection

end ProgressFeed.Message
