import ProgressFeed.Json.Number
import ProgressFeed.Json.Text

/-!
# Reading JSON

One value with blanks around it, behind an optional byte order mark. Behind the value a zero octet
ends the text as its end does, and whatever follows it is not looked at. The readers below take the
longest value at the start of the text and give back the rest; their first argument bounds the
depth of the recursion, and the length of the text is always enough.
-/

namespace ProgressFeed.Json

/-- Space, tab, line feed and carriage return. -/
def isGap (b : UInt8) : Bool := b == 32 || b == 9 || b == 10 || b == 13

def skipGap (s : Bytes) : Bytes := s.dropWhile isGap

mutual

def readValue? : Nat → Bytes → Option (Json × Bytes)
  | 0, _ => none
  | fuel + 1, s =>
    match s with
    | 34 :: s => (readText? s).map fun (t, s) ↦ (text t, s)
    | 91 :: s =>
      match skipGap s with
      | 93 :: s => some (array [], s)
      | s => readItems? fuel [] s
    | 123 :: s =>
      match skipGap s with
      | 125 :: s => some (object [], s)
      | s => readMembers? fuel [] s
    | 110 :: 117 :: 108 :: 108 :: s => some (null, s)
    | 116 :: 114 :: 117 :: 101 :: s => some (boolean true, s)
    | 102 :: 97 :: 108 :: 115 :: 101 :: s => some (boolean false, s)
    | s => readNumber? s

/-- The items that are left of an array, `items` being those read, last first. -/
def readItems? : Nat → List Json → Bytes → Option (Json × Bytes)
  | 0, _, _ => none
  | fuel + 1, items, s =>
    match readValue? fuel s with
    | none => none
    | some (v, s) =>
      match skipGap s with
      | 93 :: s => some (array (v :: items).reverse, s)
      | 44 :: s => readItems? fuel (v :: items) (skipGap s)
      | _ => none

/-- The members that are left of an object, `members` being those read, last first. -/
def readMembers? : Nat → List (Bytes × Json) → Bytes → Option (Json × Bytes)
  | 0, _, _ => none
  | fuel + 1, members, s =>
    match s with
    | 34 :: s =>
      match readText? s with
      | none => none
      | some (name, s) =>
        match skipGap s with
        | 58 :: s =>
          match readValue? fuel (skipGap s) with
          | none => none
          | some (v, s) =>
            match skipGap s with
            | 125 :: s => some (object ((name, v) :: members).reverse, s)
            | 44 :: s => readMembers? fuel ((name, v) :: members) (skipGap s)
            | _ => none
        | _ => none
    | _ => none

end

/-- No more of the text is to be read. -/
def isOver : Bytes → Bool
  | [] | 0 :: _ => true
  | _ => false

/-- The value that a text writes. -/
def parse? (s : Bytes) : Option Json :=
  let s := match s with
    | 0xEF :: 0xBB :: 0xBF :: s => s
    | s => s
  match readValue? (2 * s.length + 1) (skipGap s) with
  | some (v, s) => if isOver (skipGap s) then some v else none
  | none => none

end ProgressFeed.Json
