import LazyFrame.Spec.Parser

/-!
# Frame requests

A frame request names a database, describes a frame and says what to do with it: nothing beyond its
SQL, its first rows or its shape. The checks come in a fixed order: the URL, the action, the number
of rows, and then the frame.
-/

namespace LazyFrame

/-- What to do with a frame. -/
inductive Action where
  | sql
  | head
  | shape
  deriving DecidableEq, Inhabited

namespace Action

/-- The name of an action. -/
def name : Action → String
  | sql => "sql"
  | head => "head"
  | shape => "shape"

/-- All actions. -/
def all : List Action := [sql, head, shape]

/-- The action that a value names; without a name it is `sql`. -/
def ofValue (v : Value) : Attempt Action :=
  let found := match v with
    | .missing | .null => some sql
    | .text s => all.find? (·.name == s)
    | _ => none
  match found with
  | some action => .ok action
  | none => .error (.badRequest (.action (all.map name)))

end Action

/-- A request for a frame. -/
structure FrameRequest where
  databaseUrl? : Option String
  frame : FrameSpec
  action : Action
  count? : Option Number
  deriving Inhabited

namespace FrameRequest

/-- The URL of a database, or no field at all. -/
def urlOf (v : Value) : Attempt (Option String) :=
  match v with
  | .missing => .ok none
  | .text s => .ok (some s)
  | _ => .error (.badRequest .databaseUrl)

/-- A number of rows between zero and `most`, or no field at all. -/
def countOf (most : Number) (v : Value) : Attempt (Option Number) :=
  match v with
  | .missing => .ok none
  | .number n =>
    if n.isInteger && !n.lt 0 && !most.lt n then .ok (some n)
      else .error (.badRequest (.rowLimit most.text))
  | _ => .error (.badRequest (.rowLimit most.text))

/-- Reads a request; `most` is the greatest number of rows that may be asked for. -/
def parse (most : Number) (v : Value) : Attempt FrameRequest :=
  match v with
  | .record fields => do
    let url? ← urlOf (Fields.get fields "dbUrl")
    let action ← Action.ofValue (Fields.get fields "action")
    let count? ← countOf most (Fields.get fields "n")
    let frame ← FrameSpec.parse (Fields.get fields "frame")
    .ok ⟨url?, frame, action, count?⟩
  | _ => .error (.badRequest .bodyShape)

end FrameRequest

end LazyFrame
