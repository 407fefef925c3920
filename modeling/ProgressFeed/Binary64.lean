import ProgressFeed.Bytes

/-!
# Double-precision numbers

A number is its 64-bit word: sign, eleven bits of exponent, 52 of fraction. Reading a decimal rounds
the exact value to the nearest number and a tie to the even one; printing to one decimal rounds the
exact value the same way.
-/

namespace ProgressFeed

structure Binary64 where
  bits : UInt64
deriving DecidableEq, Repr

namespace Binary64

/-- The quotient, rounded to the nearest integer and to the even one of two. -/
def divRound (num den : Nat) : Nat :=
  let q := num / den
  let r := num % den
  if den < 2 * r || (2 * r == den && q % 2 == 1) then q + 1 else q

/-- `num / den` as a multiple of `2 ^ unit`, rounded. -/
def scaleRound (num den : Nat) (unit : Int) : Nat :=
  if unit < 0 then divRound (num <<< unit.natAbs) den else divRound num (den <<< unit.natAbs)

/-- The exponent of the binade of `num / den`: the greatest `e` with `2 ^ e` not above it. -/
def binade (num den : Nat) : Int :=
  let e : Int := num.log2 - den.log2
  let reached := if e < 0 then den ≤ num <<< e.natAbs else den <<< e.natAbs ≤ num
  if reached then e else e - 1

/-- The word of a magnitude that exceeds every finite one. -/
def infinite : Nat := 0x7FF <<< 52

/-- The word of the number nearest to `num / den`; it reaches `infinite` on overflow. -/
def nearestWord (num den : Nat) : Nat :=
  let unit := max (binade num den - 52) (-1074)
  (unit + 1074).toNat <<< 52 + scaleRound num den unit

/-- A sign and the word of a magnitude. -/
def ofParts (negative : Bool) (word : Nat) : Binary64 :=
  ⟨(if negative then 1 <<< 63 + word else word).toUInt64⟩

/-- The number nearest to `± m · 10 ^ e`; nothing when it exceeds every finite one. Beyond the two
bounds on `e` the value is infinite or rounds to zero whatever its digits. -/
def ofDecimal? (negative : Bool) (m : Nat) (e : Int) : Option Binary64 :=
  if m == 0 then some (ofParts negative 0)
  else if 400 < e then none
  else if e < 0 && m.log2 + 1200 < 3 * e.natAbs then some (ofParts negative 0)
  else
    let scale := Nat.pow 10 e.natAbs
    let word := if e < 0 then nearestWord m scale else nearestWord (m * scale) 1
    if word < infinite then some (ofParts negative word) else none

/-- The number nearest to an integer. -/
def ofInt (i : Int) : Binary64 :=
  ofParts (decide (i < 0)) (if i == 0 then 0 else min infinite (nearestWord i.natAbs 1))

def isNegative (x : Binary64) : Bool := 1 <<< 63 ≤ x.bits.toNat

/-- The word without the sign; on magnitudes it orders like the value. -/
def magnitude (x : Binary64) : Nat := x.bits.toNat % 1 <<< 63

/-- An integer that orders like the value; both zeros have the same. -/
def rank (x : Binary64) : Int := if x.isNegative then -x.magnitude else x.magnitude

def isNaN (x : Binary64) : Bool := infinite < x.magnitude

def lt (x y : Binary64) : Bool := !x.isNaN && !y.isNaN && decide (x.rank < y.rank)

/-- Equality of values: the zeros are equal and NaN equals nothing. -/
def equals (x y : Binary64) : Bool := !x.isNaN && !y.isNaN && x.rank == y.rank

def zero : Binary64 := ofInt 0

def hundred : Binary64 := ofInt 100

/-- Nothing above one hundred. -/
def capPercent (x : Binary64) : Binary64 := if hundred.lt x then hundred else x

/-- The significand, and the exponent of its unit. -/
def significand (x : Binary64) : Nat × Int :=
  let fraction := x.magnitude % 1 <<< 52
  match x.magnitude >>> 52 with
  | 0 => (fraction, -1074)
  | e + 1 => (1 <<< 52 + fraction, e - 1074)

/-- The value in tenths, rounded. -/
def tenths (x : Binary64) : Nat :=
  let (m, unit) := x.significand
  if unit < 0 then divRound (10 * m) (1 <<< unit.natAbs) else (10 * m) <<< unit.natAbs

/-- The value with one decimal. The sign is shown on a zero as well. -/
def oneDecimal (x : Binary64) : Bytes :=
  let sign := if x.isNegative then utf8 "-" else []
  if x.isNaN then sign ++ utf8 "nan"
  else if x.magnitude == infinite then sign ++ utf8 "inf"
  else sign ++ Bytes.ofNat (x.tenths / 10) ++ utf8 "." ++ Bytes.ofNat (x.tenths % 10)

instance : Inhabited Binary64 := ⟨zero⟩

end Binary64

end ProgressFeed
