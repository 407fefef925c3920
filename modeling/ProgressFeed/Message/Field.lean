import ProgressFeed.Json
import ProgressFeed.Message.Rejection

/-!
# Fields of a payload

A field may be spelled in more than one way; the first spelling that is present and not null counts,
and a fault names the field by its first spelling. A field that is absent has a default.
-/

namespace ProgressFeed.Message

/-- The spellings of a field. -/
structure Field where
  first : Bytes
  others : List Bytes := []
deriving DecidableEq, Repr

/-- The members of a payload. -/
abbrev Payload := List (Bytes × Json)

namespace Field

/-- A field with one spelling. -/
def one (name : String) : Field := ⟨utf8 name, []⟩

/-- A field with two spellings. -/
def two (name other : String) : Field := ⟨utf8 name, [utf8 other]⟩

def spellings (f : Field) : List Bytes := f.first :: f.others

/-- The value bound to one spelling, unless it is null. -/
def present? (p : Payload) (name : Bytes) : Option Json :=
  match Json.member? p name with
  | some .null => none
  | v => v

def find? (f : Field) (p : Payload) : Option Json := f.spellings.findSome? (present? p)

def misfit {α : Type} (f : Field) (why : Misfit) : Except Rejection α :=
  .error (.field f.first why)

/-- A value that counts something. -/
def asCount (f : Field) : Json → Except Rejection UInt64
  | .unsigned n => .ok (UInt64.ofNat n)
  | .integer i => if i < 0 then f.misfit .negative else .ok (UInt64.ofNat i.toNat)
  | _ => f.misfit .notInteger

def count (f : Field) (p : Payload) : Except Rejection UInt64 :=
  match f.find? p with
  | none => .ok 0
  | some v => f.asCount v

def count? (f : Field) (p : Payload) : Except Rejection (Option UInt64) :=
  match f.find? p with
  | none => .ok none
  | some v => some <$> f.asCount v

/-- A number that is not below zero; negative zero is not. -/
def amount (f : Field) (p : Payload) : Except Rejection Binary64 :=
  match f.find? p with
  | none => .ok .zero
  | some v =>
    match v.number? with
    | none => f.misfit .notNumber
    | some x => if x.lt .zero then f.misfit .negative else .ok x

/-- A text; an empty one is as good as none. -/
def text? (f : Field) (p : Payload) : Except Rejection (Option Bytes) :=
  match f.find? p with
  | none => .ok none
  | some v =>
    match v.text? with
    | none => f.misfit .notString
    | some s => .ok (if s.isEmpty then none else some s)

def textOr (f : Field) (p : Payload) (default : Bytes) : Except Rejection Bytes :=
  (·.getD default) <$> f.text? p

def flag (f : Field) (p : Payload) : Except Rejection Bool :=
  match f.find? p with
  | none => .ok false
  | some v =>
    match v.boolean? with
    | none => f.misfit .notBoolean
    | some b => .ok b

end Field

/-- The time of a message; anything but an integer is zero. -/
def timestamp (p : Payload) : Int64 := ((Field.one "timestamp").find? p).bind Json.word? |>.getD 0

end ProgressFeed.Message
