import LazyFrame.Bound

/-!
# Row windows

A window is given like a slice of a list: the first row that stays and, if any, the first row that
does not. Both are whole numbers, the first is not negative and the second is not smaller than the
first. Callers hand in values of any kind; one that is no such number is named in the complaint.
-/

namespace LazyFrame

/-- The rows from `start` on, up to `stop?` if it is given. -/
structure Window where
  start : Number
  stop? : Option Number
  deriving DecidableEq, Inhabited

namespace Window

/-- Whether a number can be the first row. -/
def isStart (n : Number) : Bool := n.isInteger && !n.lt 0

/-- Whether a number can be the row behind the last one. -/
def isStop (start n : Number) : Bool := n.isInteger && !n.lt start

/-- The first row that a value gives; a missing one gives the very first. -/
def startOf (v : Value) : Attempt Number := do
  match v with
  | .missing => .ok 0
  | .number n => if isStart n then .ok n else .error (.invalidOperation (.sliceStart n.text))
  | other =>
    let shown ← other.asText
    .error (.invalidOperation (.sliceStart shown))

/-- The row behind the last one that a value gives, if it is there. -/
def stopOf (start : Number) (v : Value) : Attempt (Option Number) := do
  match v with
  | .missing => .ok none
  | .number n =>
    if isStop start n then .ok (some n)
      else .error (.invalidOperation (.sliceBounds start.text n.text))
  | other =>
    let shown ← other.asText
    .error (.invalidOperation (.sliceBounds start.text shown))

/-- The window that two values give. -/
def ofValues (start stop : Value) : Attempt Window := do
  let first ← startOf start
  let behind? ← stopOf first stop
  .ok ⟨first, behind?⟩

/-- Whether a window leaves out no row at all. -/
def isWhole (w : Window) : Bool := !(Number.lt 0 w.start) && w.stop?.isNone

/-- How many rows fit in. -/
def limit? (w : Window) : Option Bound := w.stop?.map fun stop => .rows (stop.sub w.start)

/-- How many rows are skipped, if any. -/
def offset? (w : Window) : Option Bound :=
  if Number.lt 0 w.start then some (.rows w.start) else none

end Window

end LazyFrame
