import LazyFrame.Fault

/-!
# Parts of a value

The rows of a statement are normally a list of lists, and then `item` is the item at a position. A
database may answer with something else, and that is read as far as it goes: a text has its units
for items, a record the fields whose names are positions, and anything else has none. Only where
there is nothing at all there is nothing to read from, which is a fault.
-/

namespace LazyFrame.Value

/-- Reads a part of a value that is something; `name` is the part as a complaint names it. -/
def part (name : String) (read : Value → Value) : Value → Attempt Value
  | .missing => .error (.fieldOfNothing "undefined" name)
  | .null => .error (.fieldOfNothing "null" name)
  | v => .ok (read v)

/-- The item of a value at a position, `missing` if it has none there. -/
def itemAt (i : Nat) : Value → Value
  | .list items => items.getD i .missing
  | .text s => (unitsOf s).getD i .missing
  | .half unit => if i = 0 then .half unit else .missing
  | v => v.field (toString i)

/-- How many items a value has, or what it says about that, `missing` if it says nothing. -/
def ownExtent : Value → Value
  | .list items => .number (Number.ofNat items.length)
  | .text s => .number (Number.ofNat (Text.units s))
  | .half _ => .number 1
  | v => v.field "length"

/-- The item at a position of a value that is something. -/
def item (i : Nat) (v : Value) : Attempt Value := v.part (toString i) (itemAt i)

/-- The extent of a value that is something. -/
def extent (v : Value) : Attempt Value := v.part "length" ownExtent

/-- A field of a value that is something. -/
def fieldOf (name : String) (v : Value) : Attempt Value := v.part name (·.field name)

/-- The items of a list; `what` is the list as a complaint names it and `use` what is done with its
items. -/
def listFor (use what : String) : Value → Attempt (List Value)
  | .list items => .ok items
  | .missing => .error (.fieldOfNothing "undefined" use)
  | .null => .error (.fieldOfNothing "null" use)
  | _ => .error (.notCallable (what ++ "." ++ use))

/-- The items of a list, each of which is looked at. -/
def listOf (what : String) (v : Value) : Attempt (List Value) := v.listFor "map" what

/-- What a value consists of when it is gone through: the items of a list or the characters of a
text. -/
def elements (what : String) : Value → Attempt (List Value)
  | .list items => .ok items
  | .text s => .ok (s.toList.map fun c => .text (String.singleton c))
  | .half unit => .ok [.half unit]
  | _ => .error (.notIterable what)

end LazyFrame.Value
