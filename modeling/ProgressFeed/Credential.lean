import ProgressFeed.Bytes

/-!
# Credentials

A source of bearer tokens either holds one or looks it up in the environment; an empty token is no
token.
-/

namespace ProgressFeed.Credential

/-- A token, unless it is empty. -/
def ofBytes (token : Bytes) : Option Bytes := if token.isEmpty then none else some token

/-- A block of environment entries, each written `NAME=value`. -/
structure Environment where
  entries : List Bytes := []
deriving DecidableEq, Repr

namespace Environment

/-- Names and values end at the first zero octet. -/
def terminated (s : Bytes) : Bytes := s.takeWhile (· != 0)

/-- What an entry of this name begins with. -/
def head (name : Bytes) : Bytes := terminated name ++ utf8 "="

/-- A name that an entry can have. -/
def isName (name : Bytes) : Bool := !(terminated name).isEmpty && !(terminated name).contains 61

/-- The block without a variable. -/
def unset (e : Environment) (name : Bytes) : Environment :=
  if isName name then ⟨e.entries.filter fun entry ↦ !(head name).isPrefixOf entry⟩ else e

/-- Sets a variable; a name that no entry can have is left alone. -/
def set (e : Environment) (name value : Bytes) : Environment :=
  if isName name then ⟨(e.unset name).entries ++ [head name ++ terminated value]⟩ else e

/-- The token that a variable holds. -/
def token (e : Environment) (name : Bytes) : Option Bytes :=
  if (terminated name).isEmpty then none
  else (e.entries.findSome? (Bytes.after? (head name))).bind ofBytes

end Environment

end ProgressFeed.Credential
