import ProgressFeed.Binary64

/-!
# JSON values

A number without fraction and exponent keeps its sign and its exact value when it fits 64 bits;
every other number is a double. An object keeps its members as written, and of several members with
one name the last counts.
-/

namespace ProgressFeed

inductive Json
  | null
  | boolean (b : Bool)
  | unsigned (n : Nat)
  | integer (i : Int)
  | real (x : Binary64)
  | text (s : Bytes)
  | array (items : List Json)
  | object (members : List (Bytes × Json))
deriving Repr

namespace Json

instance : Inhabited Json := ⟨null⟩

/-- The value bound to a name, `null` included. -/
def member? (members : List (Bytes × Json)) (name : Bytes) : Option Json :=
  (members.reverse.find? fun m ↦ m.1 == name).map (·.2)

def isNull : Json → Bool
  | null => true
  | _ => false

/-- The members of an object. -/
def members? : Json → Option (List (Bytes × Json))
  | object members => some members
  | _ => none

def text? : Json → Option Bytes
  | text s => some s
  | _ => none

def boolean? : Json → Option Bool
  | boolean b => some b
  | _ => none

/-- An integer as a signed 64-bit word, wrapping when it exceeds one. -/
def word? : Json → Option Int64
  | unsigned n => some (Int64.ofNat n)
  | integer i => some (Int64.ofInt i)
  | _ => none

/-- Any number as a double. -/
def number? : Json → Option Binary64
  | unsigned n => some (.ofInt n)
  | integer i => some (.ofInt i)
  | real x => some x
  | _ => none

end Json

end ProgressFeed
