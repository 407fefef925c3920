import ProgressFeed.Json

/-!
# JSON numbers

An optional minus sign, digits without a leading zero, an optional fraction and an optional
exponent.
-/

namespace ProgressFeed.Json

/-- The digits at the start, and the rest. -/
def digits (s : Bytes) : Bytes × Bytes := s.span Bytes.isDigit

/-- The number that digits write. -/
def ofDigits (ds : Bytes) : Nat := ds.foldl (fun n d ↦ 10 * n + (d - 48).toNat) 0

/-- A minus sign, if there is one. -/
def minus : Bytes → Bool × Bytes
  | 45 :: s => (true, s)
  | s => (false, s)

/-- One zero, or digits that do not begin with one. -/
def whole? (s : Bytes) : Option (Bytes × Bytes) :=
  match s with
  | 48 :: r => some ([48], r)
  | _ =>
    match digits s with
    | ([], _) => none
    | (ds, r) => some (ds, r)

/-- The digits behind a point; none where there is no point. -/
def fraction? : Bytes → Option (Bytes × Bytes)
  | 46 :: s =>
    match digits s with
    | ([], _) => none
    | (ds, r) => some (ds, r)
  | s => some ([], s)

/-- A sign in an exponent. -/
def exponentSign : Bytes → Bool × Bytes
  | 43 :: s => (false, s)
  | s => minus s

/-- The exponent, where there is one. -/
def exponent? : Bytes → Option (Option Int × Bytes)
  | b :: s =>
    if b == 101 || b == 69 then
      let (negative, s) := exponentSign s
      match digits s with
      | ([], _) => none
      | (ds, r) => some (some (if negative then -(ofDigits ds) else ofDigits ds), r)
    else some (none, b :: s)
  | [] => some (none, [])

/-- The value of an integer literal. -/
def ofInteger? (negative : Bool) (n : Nat) : Option Json :=
  if negative then
    if n ≤ 1 <<< 63 then some (.integer (-n)) else (Binary64.ofDecimal? true n 0).map .real
  else if n < 1 <<< 64 then some (.unsigned n)
  else (Binary64.ofDecimal? false n 0).map .real

/-- The value of a literal with these parts; nothing when it is beyond every double. -/
def ofLiteral? (negative : Bool) (ds fs : Bytes) (exponent : Option Int) : Option Json :=
  if fs.isEmpty && exponent.isNone then ofInteger? negative (ofDigits ds)
  else
    (Binary64.ofDecimal? negative (ofDigits (ds ++ fs)) (exponent.getD 0 - fs.length)).map .real

/-- A number at the start of the text, and the rest. -/
def readNumber? (s : Bytes) : Option (Json × Bytes) := do
  let (negative, s) := minus s
  let (ds, s) ← whole? s
  let (fs, s) ← fraction? s
  let (exponent, s) ← exponent? s
  let value ← ofLiteral? negative ds fs exponent
  pure (value, s)

end ProgressFeed.Json
