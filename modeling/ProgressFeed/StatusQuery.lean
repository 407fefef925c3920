import ProgressFeed.Endpoint
import ProgressFeed.Incoming
import ProgressFeed.Message.Decode
import ProgressFeed.Net

/-!
# Status queries

One request for the status of a source, answered once. Without a credential nothing is sent, and the
answer comes from the event loop.
-/

namespace ProgressFeed

structure StatusQuery where
  endpoint : Endpoint
  source : Bytes
  token : Option Bytes
  isAnswered : Bool := false
deriving DecidableEq, Repr

namespace StatusQuery

structure Step where
  query : StatusQuery
  calls : List Net.Call := []
  answer : Option StatusAnswer := none

/-- The request that carries this token. -/
def request (q : StatusQuery) (token : Bytes) : Net.Request where
  target := Endpoint.statusTarget q.source
  fields :=
    [(utf8 "Host", q.endpoint.hostHeader), (utf8 "Accept", utf8 "application/json"),
      (utf8 "Authorization", utf8 "Bearer " ++ token)]

def start (q : StatusQuery) : Step where
  query := q
  calls := if q.token.isSome then [.resolve q.endpoint.host q.endpoint.port] else [.post]

/-- Answers, unless that has been done. -/
def answer (q : StatusQuery) (a : StatusAnswer) (calls : List Net.Call := []) : Step where
  query := { q with isAnswered := true }
  calls
  answer := if q.isAnswered then none else some a

/-- A step has failed. -/
def fail (q : StatusQuery) (what : String) (e : Net.Error) : Step :=
  q.answer (.error (.channel (utf8 "status request " ++ utf8 what ++ utf8 ": " ++ e.message)))

/-- What a response says. -/
def read (source : Bytes) (c : Net.Completion) : StatusAnswer :=
  if c.status < 200 ∨ 300 ≤ c.status then
    .error (.channel (utf8 "status endpoint returned HTTP " ++ Bytes.ofNat c.status))
  else (Message.ofStatusBody source c.data).mapError Message.Rejection.fault

/-- An operation of the query has completed. -/
def complete (q : StatusQuery) (o : Net.Operation) (c : Net.Completion) : Step :=
  match o, c.error with
  | .post, _ => q.answer (.error .noCredential)
  | .resolve, none => { query := q, calls := [.expireAfter Net.connectTimeout, .connect] }
  | .resolve, some e => q.fail "resolve" e
  | .connect, none => { query := q, calls := [.writeRequest (q.request (q.token.getD []))] }
  | .connect, some e => q.fail "connect" e
  | .writeRequest, none => { query := q, calls := [.readResponse] }
  | .writeRequest, some e => q.fail "write" e
  | .readResponse, none => q.answer (read q.source c) [.shutDown]
  | .readResponse, some e => q.fail "read" e
  | _, _ => { query := q }

end StatusQuery

end ProgressFeed
