import ProgressFeed.Bytes

/-!
# Percent encoding

Every octet but the unreserved ones is written as `%` and two capital hexadecimal digits.
-/

namespace ProgressFeed.Percent

/-- Letters, digits, hyphen, underscore, full stop and tilde. -/
def isUnreserved (b : UInt8) : Bool :=
  Bytes.isLetter b || Bytes.isDigit b || b == 45 || b == 95 || b == 46 || b == 126

/-- One octet, written. -/
def encodeOctet (b : UInt8) : Bytes :=
  if isUnreserved b then [b] else [37, Bytes.upperHex (b >>> 4), Bytes.upperHex (b &&& 15)]

def encode (s : Bytes) : Bytes := s.flatMap encodeOctet

/-- The value of a hexadecimal digit of either case. -/
def hexValue? (b : UInt8) : Option UInt8 :=
  if Bytes.isDigit b then some (b - 48)
  else if 65 ≤ b && b ≤ 70 then some (b - 55)
  else if 97 ≤ b && b ≤ 102 then some (b - 87)
  else none

/-- Reads triplets back and leaves every other octet as it is. -/
def decode : Bytes → Bytes
  | 37 :: h :: l :: s =>
    match hexValue? h, hexValue? l with
    | some h, some l => (h <<< 4 ||| l) :: decode s
    | _, _ => 37 :: decode (h :: l :: s)
  | b :: s => b :: decode s
  | [] => []

end ProgressFeed.Percent
