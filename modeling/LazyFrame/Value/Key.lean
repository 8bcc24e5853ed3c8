import LazyFrame.Value.Basic

/-!
# Values as keys

A cache tells its keys apart as follows. Simple values are the same key when they are the same
value; both zeros are one key, and what is no number is the same key as itself. A list, a record or
an instant is the same key as itself only, so it is known by the occasion on which it was made.
-/

namespace LazyFrame

/-- What a value is as a key. -/
inductive Key where
  | null
  | bool (value : Bool)
  | number (value : Number)
  | integer (value : Int)
  | text (value : String)
  | half (unit : Nat)
  | made (occasion : Nat)
  deriving DecidableEq, Inhabited

namespace Key

/-- The key of a value that was made on an occasion; a missing one has none. -/
def ofValue? (occasion : Nat) : Value → Option Key
  | .missing => none
  | .null => some null
  | .bool b => some (bool b)
  | .number .negZero => some (number 0)
  | .number n => some (number n)
  | .integer n => some (integer n)
  | .text s => some (text s)
  | .half unit => some (half unit)
  | .instant _ | .list _ | .record _ => some (made occasion)

/-- The value of a key, where `made` finds what was made on an occasion. -/
def toValue (made : Nat → Value) : Key → Value
  | null => .null
  | bool b => .bool b
  | number n => .number n
  | integer n => .integer n
  | text s => .text s
  | half unit => .half unit
  | .made occasion => made occasion

end Key

end LazyFrame
