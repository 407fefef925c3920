/-!
# Byte strings

Text arrives and leaves as octets that nobody has promised to be UTF-8, so every text of the library
is a list of octets; `utf8` gives the octets of a fixed string.
-/

namespace ProgressFeed

/-- Text as it travels. -/
abbrev Bytes := List UInt8

/-- The UTF-8 octets of a string. -/
def utf8 (s : String) : Bytes := s.toList.flatMap String.utf8EncodeChar

namespace Bytes

/-- A number in decimal digits. -/
def ofNat (n : Nat) : Bytes := utf8 (Nat.repr n)

/-- A number in decimal digits, behind a minus sign when it is negative. -/
def ofInt (i : Int) : Bytes := if i < 0 then utf8 "-" ++ ofNat i.natAbs else ofNat i.natAbs

def isDigit (b : UInt8) : Bool := 48 ≤ b && b ≤ 57

def isLetter (b : UInt8) : Bool := (65 ≤ b && b ≤ 90) || (97 ≤ b && b ≤ 122)

/-- Space, tab, line feed, vertical tab, form feed and carriage return. -/
def isBlank (b : UInt8) : Bool := b == 32 || (9 ≤ b && b ≤ 13)

/-- The digit of a number below sixteen, in capitals. -/
def upperHex (n : UInt8) : UInt8 := if n < 10 then 48 + n else 55 + n

/-- What follows `start` in `s`, when `s` begins with it. -/
def after? (start s : Bytes) : Option Bytes :=
  if start.isPrefixOf s then some (s.drop start.length) else none

end Bytes

end ProgressFeed
