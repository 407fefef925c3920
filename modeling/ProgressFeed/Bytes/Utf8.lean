import ProgressFeed.Bytes

/-!
# Well-formed UTF-8

A sequence is checked octet by octet: after a lead octet `Awaiting` holds how many continuation
octets are due and the range of the next one. The narrower first ranges keep out overlong forms,
surrogates and values above U+10FFFF.
-/

namespace ProgressFeed.Bytes.Utf8

/-- The continuation octets that are still due, and the range of the next one. -/
structure Awaiting where
  count : Nat := 0
  least : UInt8 := 0x80
  greatest : UInt8 := 0xBF
deriving DecidableEq, Repr

/-- Between two scalar values. -/
def Awaiting.nothing : Awaiting := {}

/-- What a lead octet asks for. -/
def lead? (b : UInt8) : Option Awaiting :=
  if b < 0x80 then some .nothing
  else if b < 0xC2 then none
  else if b < 0xE0 then some { count := 1 }
  else if b == 0xE0 then some { count := 2, least := 0xA0 }
  else if b == 0xED then some { count := 2, greatest := 0x9F }
  else if b < 0xF0 then some { count := 2 }
  else if b == 0xF0 then some { count := 3, least := 0x90 }
  else if b < 0xF4 then some { count := 3 }
  else if b == 0xF4 then some { count := 3, greatest := 0x8F }
  else none

/-- One more octet; nothing when it cannot stand there. -/
def Awaiting.next? (a : Awaiting) (b : UInt8) : Option Awaiting :=
  match a.count with
  | 0 => lead? b
  | n + 1 => if a.least ≤ b && b ≤ a.greatest then some { count := n } else none

/-- The octets of a scalar value below 2^21. -/
def ofScalar (n : Nat) : Bytes :=
  if n < 0x80 then [n.toUInt8]
  else if n < 0x800 then [(0xC0 + n / 64).toUInt8, continuation n]
  else if n < 0x10000 then [(0xE0 + n / 4096).toUInt8, continuation (n / 64), continuation n]
  else [(0xF0 + n / 262144).toUInt8, continuation (n / 4096), continuation (n / 64), continuation n]
where
  continuation (n : Nat) : UInt8 := (0x80 + n % 64).toUInt8

end ProgressFeed.Bytes.Utf8
