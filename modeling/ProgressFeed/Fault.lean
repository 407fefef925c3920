import ProgressFeed.Bytes

/-!
# Faults

What is published when something goes wrong. A missing credential and an exhausted retry budget are
terminal: nothing more happens until somebody connects anew.
-/

namespace ProgressFeed

inductive Fault.Kind
  | authentication
  | decode
  | server
  | transport
  | exhausted
deriving DecidableEq, Repr

structure Fault where
  kind : Fault.Kind
  message : Bytes
  /-- The code of the close that caused it. -/
  closeCode : Option UInt16 := none
deriving DecidableEq, Repr

namespace Fault

namespace Kind

def all : List Kind := [authentication, decode, server, transport, exhausted]

def ofIndex? (i : Nat) : Option Kind := all[i]?

def name : Kind → Bytes
  | authentication => utf8 "authentication"
  | decode => utf8 "decode"
  | server => utf8 "server"
  | transport => utf8 "transport"
  | exhausted => utf8 "reconnect_exhausted"

def ofName? (s : Bytes) : Option Kind := all.find? fun k ↦ k.name == s

def isTerminal : Kind → Bool
  | authentication | exhausted => true
  | _ => false

/-! What is shown for a number that may lie outside the list. -/

def shownName (k : Option Kind) : Bytes := k.elim (utf8 "unknown") name

def shownTerminal (k : Option Kind) : Bool := k.elim false isTerminal

end Kind

def isTerminal (f : Fault) : Bool := f.kind.isTerminal

/-- The credential source had nothing to give. -/
def noCredential : Fault := ⟨.authentication, utf8 "No authentication credential available", none⟩

/-- No channel could be made. -/
def noChannel : Fault := ⟨.transport, utf8 "Transport could not be created", none⟩

/-- A channel closed abnormally without having said why. -/
def closed (code : UInt16) (reason : Bytes) : Fault where
  kind := .transport
  message := utf8 "Connection closed with code " ++ Bytes.ofNat code.toNat ++
    if reason.isEmpty then [] else utf8 ": " ++ reason
  closeCode := some code

/-- The close for which no retry was left. -/
def retriesExhausted (attempts : Nat) (code : UInt16) : Fault where
  kind := .exhausted
  message := utf8 "Connection lost after " ++ Bytes.ofNat attempts ++ utf8 " reconnect attempts"
  closeCode := some code

/-- What a channel reports of itself. -/
def channel (message : Bytes) : Fault := ⟨.transport, message, none⟩

/-- An error that the server sent, with its type in front when it names one. -/
def server (type : Option Bytes) (message : Bytes) : Fault where
  kind := .server
  message := type.elim message fun t ↦ t ++ utf8 ": " ++ message

end Fault

end ProgressFeed
