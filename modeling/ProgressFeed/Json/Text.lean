import ProgressFeed.Bytes.Utf8
import ProgressFeed.Json

/-!
# JSON strings

Between the quotes stand well-formed UTF-8 without control characters, and escapes. An escaped high
surrogate has to be followed by an escaped low one, and the two make one scalar value.
-/

namespace ProgressFeed.Json

open Bytes.Utf8 (Awaiting)

/-- The octet that a one-letter escape stands for. -/
def escape? : UInt8 → Option UInt8
  | 34 => some 34
  | 92 => some 92
  | 47 => some 47
  | 98 => some 8
  | 102 => some 12
  | 110 => some 10
  | 114 => some 13
  | 116 => some 9
  | _ => none

def hexDigit? (b : UInt8) : Option Nat :=
  if Bytes.isDigit b then some (b - 48).toNat
  else if 65 ≤ b && b ≤ 70 then some (b - 55).toNat
  else if 97 ≤ b && b ≤ 102 then some (b - 87).toNat
  else none

/-- The value of four hexadecimal digits. -/
def unit? (a b c d : UInt8) : Option Nat := do
  let a ← hexDigit? a
  let b ← hexDigit? b
  let c ← hexDigit? c
  let d ← hexDigit? d
  pure (((a * 16 + b) * 16 + c) * 16 + d)

def isHighSurrogate (n : Nat) : Bool := 0xD800 ≤ n && n < 0xDC00

def isLowSurrogate (n : Nat) : Bool := 0xDC00 ≤ n && n < 0xE000

/-- The scalar value of a surrogate pair. -/
def ofSurrogates (high low : Nat) : Nat := 0x10000 + (high - 0xD800) * 1024 + (low - 0xDC00)

/-- Reads on behind an opening quote. `text` holds what has been read, last octet first, and
`awaiting` what the sequence under way still needs. -/
def readTextFrom (text : Bytes) (awaiting : Awaiting) : Bytes → Option (Bytes × Bytes)
  | [] => none
  | 34 :: s => if awaiting.count == 0 then some (text.reverse, s) else none
  | 92 :: 117 :: a :: b :: c :: d :: s =>
    if awaiting.count != 0 then none
    else
      match unit? a b c d with
      | none => none
      | some n =>
        if isLowSurrogate n then none
        else if isHighSurrogate n then
          match s with
          | 92 :: 117 :: e :: f :: g :: h :: s =>
            match unit? e f g h with
            | none => none
            | some m =>
              if isLowSurrogate m then
                readTextFrom ((Bytes.Utf8.ofScalar (ofSurrogates n m)).reverse ++ text) .nothing s
              else none
          | _ => none
        else readTextFrom ((Bytes.Utf8.ofScalar n).reverse ++ text) .nothing s
  | 92 :: b :: s =>
    if awaiting.count != 0 then none
    else
      match escape? b with
      | none => none
      | some b => readTextFrom (b :: text) .nothing s
  | b :: s =>
    if b < 32 || b == 92 then none
    else
      match awaiting.next? b with
      | none => none
      | some awaiting => readTextFrom (b :: text) awaiting s

/-- A string behind its opening quote, and the rest. -/
def readText? (s : Bytes) : Option (Bytes × Bytes) := readTextFrom [] .nothing s

end ProgressFeed.Json
